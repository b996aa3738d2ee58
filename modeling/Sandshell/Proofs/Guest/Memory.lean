import Sandshell.Guest.Memory
import Sandshell.Proofs.Step
import Sandshell.Proofs.Text.Utf8

/-!
# Reading back from guest memory

What was stored is read back, and storing leaves the rest alone. Steps on memory are given as
functions on it.
-/

namespace Sandshell

/-! ## Steps that may panic -/

namespace PanicM

variable {σ α β : Type} {step : ExceptT Errno (StateM σ) α} {s s' : σ} {a b : UInt32}

/-- A step that does not panic answers among those that may as it does alone. -/
theorem liftM_apply (step : ExceptT Errno (StateM σ) α) (s : σ) :
    (liftM step : PanicM σ α) s = ((step s).1.mapError .errno, (step s).2) :=
  rfl

theorem liftM_apply_ok {a : α} (h : step s = (.ok a, s')) :
    (liftM step : PanicM σ α) s = (.ok a, s') := by
  rw [liftM_apply, h]
  rfl

theorem liftM_apply_error {e : Errno} (h : step s = (.error e, s')) :
    (liftM step : PanicM σ α) s = (.error (.errno e), s') := by
  rw [liftM_apply, h]
  rfl

/-- A step that cannot panic has succeeded if it has as one that can. -/
theorem of_liftM_apply_eq_ok {a : α} (h : (liftM step : PanicM σ α) s = (.ok a, s')) :
    step s = (.ok a, s') := by
  rw [liftM_apply] at h
  rcases hstep : step s with ⟨e | a', s''⟩
  · rw [hstep] at h
    cases h
  · rw [hstep] at h
    cases h
    rfl

/-- A sum that fits is the sum. -/
theorem sum_of_lt (h : a.toNat + b.toNat < 2 ^ 32) : (sum a b : PanicM σ UInt32) = pure (a + b) :=
  if_pos h

/-- One that does not fit is a panic. -/
theorem sum_of_le (h : 2 ^ 32 ≤ a.toNat + b.toNat) :
    (sum a b : PanicM σ UInt32) = throw .panicked :=
  if_neg (Nat.not_lt_of_le h)

end PanicM

namespace Bytes

@[simp] theorem length_littleEndian (count n : Nat) : (littleEndian count n).length = count := by
  induction count generalizing n with
  | zero => rfl
  | succ count ih => rw [littleEndian, List.length_cons, ih]

/-- A number that fits is read back. -/
theorem toNumber_littleEndian {count n : Nat} (h : n < 256 ^ count) :
    (littleEndian count n).toNumber = n := by
  induction count generalizing n with
  | zero =>
    rw [Nat.pow_zero, Nat.lt_one_iff] at h
    rw [h]
    rfl
  | succ count ih =>
    have hrest : n / 256 < 256 ^ count := Nat.div_lt_of_lt_mul (by rwa [Nat.pow_succ'] at h)
    have hlow : (UInt8.ofNat (n % 256)).toNat = n % 256 :=
      UInt8.toNat_ofNat_of_lt' (Nat.mod_lt n (by omega))
    rw [littleEndian, toNumber, ih hrest, hlow]
    exact Nat.mod_add_div n 256

end Bytes

namespace GuestMemory

variable {m : GuestMemory} {start length start' length' address : Nat} {data : Bytes}

@[simp] theorem size_store (m : GuestMemory) (start : Nat) (data : Bytes) :
    (m.store start data).size = m.size := by
  induction data generalizing m start with
  | nil => rfl
  | cons b rest ih => exact ih _ _

/-- Storing leaves what stands before alone. -/
theorem byte_store_of_lt (h : address < start) : (m.store start data).byte address = m.byte address := by
  induction data generalizing m start with
  | nil => rfl
  | cons b rest ih =>
    rw [store, ih (Nat.lt_succ_of_lt h), byte, byte, Std.ExtTreeMap.getD_insert, if_neg]
    intro heq
    rw [Std.compare_eq_iff_eq] at heq
    omega

/-- Storing leaves what stands after alone. -/
theorem byte_store_of_le (h : start + data.length ≤ address) :
    (m.store start data).byte address = m.byte address := by
  induction data generalizing m start with
  | nil => rfl
  | cons b rest ih =>
    rw [List.length_cons] at h
    rw [store, ih (by omega), byte, byte, Std.ExtTreeMap.getD_insert, if_neg]
    intro heq
    rw [Std.compare_eq_iff_eq] at heq
    omega

@[simp] theorem length_area (m : GuestMemory) (start length : Nat) :
    (m.area start length).length = length := by
  induction length generalizing start with
  | zero => rfl
  | succ length ih => rw [area, List.length_cons, ih]

/-- An area depends on its bytes only. -/
theorem area_congr {m' : GuestMemory}
    (h : ∀ address, start ≤ address → address < start + length → m'.byte address = m.byte address) :
    m'.area start length = m.area start length := by
  induction length generalizing start with
  | zero => rfl
  | succ length ih =>
    rw [area, area, h start (Nat.le_refl _) (by omega),
      ih fun address hstart hend => h address (by omega) (by omega)]

/-- Areas without a byte in common. -/
def Apart (start length start' length' : Nat) : Prop :=
  start + length ≤ start' ∨ start' + length' ≤ start

/-- Storing leaves an area alone that is apart. -/
theorem area_store_of_apart (h : Apart start length start' data.length) :
    (m.store start' data).area start length = m.area start length := by
  refine area_congr fun address hstart hend => ?_
  rcases h with hbefore | hafter
  · exact byte_store_of_lt (by omega)
  · exact byte_store_of_le (by omega)

/-- What was stored is there. -/
theorem area_store (m : GuestMemory) (start : Nat) (data : Bytes) :
    (m.store start data).area start data.length = data := by
  induction data generalizing m start with
  | nil => rfl
  | cons b rest ih =>
    have hfirst : (m.store start (b :: rest)).byte start = b := by
      rw [store, byte_store_of_lt (Nat.lt_succ_self start), byte]
      exact Std.ExtTreeMap.getD_insert_self
    rw [List.length_cons, area, hfirst, store, ih]

/-- A number that was stored is read back. -/
theorem toNumber_area_store (m : GuestMemory) (start : Nat) {count n : Nat} (h : n < 256 ^ count) :
    ((m.store start (Bytes.littleEndian count n)).area start count).toNumber = n := by
  have harea := area_store m start (Bytes.littleEndian count n)
  rw [Bytes.length_littleEndian] at harea
  rw [harea, Bytes.toNumber_littleEndian h]

/-! ## Steps as functions -/

@[simp] theorem holds_store (m : GuestMemory) (start' : Nat) (data : Bytes) (start length : Nat) :
    (m.store start' data).holds start length = m.holds start length := by
  rw [holds, holds, size_store]

/-- A slice is the bytes of its area, if that lies in the memory. -/
theorem slice_apply (start length : Nat) (m : GuestMemory) : slice start length m =
    (if m.holds start length then .ok (m.area start length) else .error .fault, m) := by
  show (if _ then _ else _ : MemoryM Bytes) m = _
  split
  · rfl
  · rfl

/-- A check succeeds exactly if the area lies in the memory. -/
theorem check_apply (start length : Nat) (m : GuestMemory) : check start length m =
    (if m.holds start length then .ok () else .error .fault, m) := by
  show (if _ then _ else _ : MemoryM Unit) m = _
  cases m.holds start length with
  | true => rfl
  | false => rfl

/-- Data is stored if there is room for all of it. -/
theorem write_apply (hdata : data.length < 2 ^ 32) (start : Nat) (m : GuestMemory) :
    write start data m = if m.holds start data.length then (.ok (), m.store start data)
      else (.error .fault, m) := by
  have hcheck := check_apply start data.length m
  rw [write, if_neg (Nat.not_le_of_lt hdata)]
  split
  · next hholds =>
    rw [if_pos hholds] at hcheck
    exact bind_apply_ok hcheck
  · next hholds =>
    rw [if_neg hholds] at hcheck
    exact bind_apply_error hcheck

/-- Filling stores the same byte all over the area. -/
theorem fill_apply (b : UInt8) (h : m.holds start length) :
    fill start length b m = (.ok (), m.store start (List.replicate length b)) := by
  have hcheck := check_apply start length m
  rw [if_pos h] at hcheck
  exact bind_apply_ok hcheck

/-- Areas that end earlier lie in the memory too. -/
theorem holds_mono (h : m.holds start length) (hend : start' + length' ≤ start + length) :
    m.holds start' length' := by
  rw [holds, decide_eq_true_eq] at h ⊢
  omega

/-- The text of an area, if there is one. -/
def textAt (m : GuestMemory) (start length : Nat) : Except Errno String :=
  if m.holds start length then
    match (m.area start length).text? with
    | some s => .ok s
    | none => .error .ilseq
  else .error .fault

/-- Reading a text gives what stands there and changes nothing. -/
theorem readText_apply (start length : Nat) (m : GuestMemory) :
    readText start length m = (m.textAt start length, m) := by
  rw [readText, textAt]
  split
  · next hholds =>
    rw [bind_apply_ok ((slice_apply start length m).trans (by rw [if_pos hholds]))]
    cases (m.area start length).text? with
    | none => rfl
    | some s => rfl
  · next hholds =>
    exact bind_apply_error ((slice_apply start length m).trans (by rw [if_neg hholds]))

/-- A text that was stored is read back. -/
theorem textAt_store {s : String} (h : m.holds start (Bytes.ofString s).length) :
    (m.store start (Bytes.ofString s)).textAt start (Bytes.ofString s).length = .ok s := by
  rw [textAt, holds_store, if_pos h, area_store, Bytes.text?_ofString]

end GuestMemory

end Sandshell
