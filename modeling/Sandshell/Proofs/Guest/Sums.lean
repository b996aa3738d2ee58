import Sandshell.Proofs.Guest.Texts

/-!
# Sums of addresses

Some calls add to an address that the guest gave, in 32 bits, and panic if the sum does not fit. Most
of these sums stand behind a check of the whole area. The others do not fit in a memory of the
greatest size only, where what a call has stored ends with the last byte.
-/

namespace Sandshell

open scoped Arithmetic

open Bytes (terminated terminatedAll length_terminated terminatedAll_cons)

namespace GuestMemory

variable {m m' : GuestMemory} {slot place : Nat} {cursor finish : UInt32}
variable {s : String} {texts rest : List String}

/-! ## Texts -/

/-- The first ones of the texts fill the memory up to the last byte that has an address, and the
addresses of these texts have a place in memory. -/
structure TextsPass (m : GuestMemory) (slot place : Nat) (texts : List String) : Prop where
  size_eq : m.size = 2 ^ (32 : Nat)
  full : ∃ first, first ≠ [] ∧ first <+: texts ∧ m.holds slot (4 * first.length)
    ∧ place + (terminatedAll first).length = 2 ^ (32 : Nat)

/-- The first text ends the memory, or some of the others do. -/
theorem textsPass_cons : m.TextsPass slot place (s :: rest) ↔
    m.size = 2 ^ 32 ∧ m.holds slot 4 ∧ (place + (terminated s).length = 2 ^ 32
      ∨ m.TextsPass (slot + 4) (place + (terminated s).length) rest) := by
  constructor
  · rintro ⟨hsize, first, hne, hprefix, hslots, hend⟩
    rcases List.prefix_cons_iff.1 hprefix with rfl | ⟨more, rfl, hmore⟩
    · exact absurd rfl hne
    rw [terminatedAll_cons, List.length_append, ← Nat.add_assoc] at hend
    rw [List.length_cons] at hslots
    refine ⟨hsize, holds_mono hslots (by omega), ?_⟩
    by_cases hlast : more = []
    · rw [hlast] at hend
      exact .inl hend
    · exact .inr ⟨hsize, more, hlast, hmore, holds_mono hslots (by omega), hend⟩
  · rintro ⟨hsize, hslot, hend | ⟨-, first, -, hprefix, hslots, hend⟩⟩
    · refine ⟨hsize, [s], List.cons_ne_nil s [], ?_, hslot, ?_⟩
      · exact List.prefix_cons_iff.2 (.inr ⟨[], rfl, List.nil_prefix⟩)
      · rw [terminatedAll_cons, List.length_append]
        exact hend
    · refine ⟨hsize, s :: first, List.cons_ne_nil s first, ?_, ?_, ?_⟩
      · exact List.prefix_cons_iff.2 (.inr ⟨first, rfl, hprefix⟩)
      · rw [holds, decide_eq_true_eq] at hslots ⊢
        rw [List.length_cons]
        omega
      · rw [terminatedAll_cons, List.length_append, ← Nat.add_assoc]
        exact hend

/-- Texts go past the end from a place within 32 bits only. -/
theorem TextsPass.place_le (h : m.TextsPass slot place texts) : place ≤ 2 ^ 32 := by
  obtain ⟨-, first, -, -, -, hend⟩ := h
  omega

/-- Where the texts end does not depend on the bytes in memory. -/
theorem textsPass_congr (h : m'.size = m.size) :
    m'.TextsPass slot place texts ↔ m.TextsPass slot place texts := by
  have hholds : ∀ start length, m'.holds start length = m.holds start length :=
    fun start length => by rw [holds, holds, h]
  constructor
  · rintro ⟨hsize, hfull⟩
    exact ⟨h ▸ hsize, by simpa only [hholds] using hfull⟩
  · rintro ⟨hsize, hfull⟩
    exact ⟨h ▸ hsize, by simpa only [hholds] using hfull⟩

/-- A text that was stored lies in memory, and the zero byte after it is its last one. -/
theorem writeText_eq_ok (hsize : m.size ≤ 2 ^ 32)
    (h : writeText slot cursor s m = (.ok finish, m')) :
    m.holds slot 4 ∧ m.holds cursor.toNat (terminated s).length
      ∧ finish.toNat + 1 = cursor.toNat + (terminated s).length
      ∧ m' = m.withText slot cursor.toNat s := by
  by_cases hfits : m.holds slot 4 ∧ m.holds cursor.toNat (terminated s).length
  · have hlength := length_terminated s
    have hend : cursor.toNat + (terminated s).length ≤ m.size := of_decide_eq_true hfits.2
    rw [writeText_apply hsize hfits.1 hfits.2] at h
    obtain ⟨hfinish, rfl⟩ := Prod.mk.inj h
    refine ⟨hfits.1, hfits.2, ?_, rfl⟩
    rw [← Except.ok.inj hfinish, UInt32.toNat_ofNat_of_lt' (show _ < 2 ^ 32 by omega)]
    omega
  · obtain ⟨_, hfails⟩ := exists_writeText_error hfits
    rw [hfails] at h
    cases h

/-- The text after one that does not end the memory of the greatest size comes right behind. -/
theorem toNat_next (hnext : finish.toNat + 1 = cursor.toNat + (terminated s).length)
    (hlt : cursor.toNat + (terminated s).length < 2 ^ 32) :
    (finish + 1).toNat = cursor.toNat + (terminated s).length := by
  rw [UInt32.toNat_add, UInt32.toNat_one, hnext, Nat.mod_eq_of_lt hlt]

/-- A text that does not end the memory of the greatest size leaves the others to do so. -/
theorem not_textsPass_next (hsize : m.size ≤ 2 ^ 32)
    (h : ¬ m.TextsPass slot cursor.toNat (s :: rest))
    (hfirst : writeText slot cursor s m = (.ok finish, m')) :
    finish.toNat + 1 < 2 ^ 32 ∧ (finish + 1).toNat = cursor.toNat + (terminated s).length
      ∧ m'.size = m.size ∧ ¬ m'.TextsPass (slot + 4) (finish + 1).toNat rest := by
  obtain ⟨hslot, htext, hnext, rfl⟩ := writeText_eq_ok hsize hfirst
  have hend : cursor.toNat + (terminated s).length ≤ m.size := of_decide_eq_true htext
  rw [textsPass_cons] at h
  have hlt : cursor.toNat + (terminated s).length < 2 ^ 32 :=
    Nat.lt_of_le_of_ne (hend.trans hsize) fun hpasses => h ⟨by omega, hslot, .inl hpasses⟩
  have hplace := toNat_next hnext hlt
  refine ⟨by rwa [hnext], hplace, size_withText m slot cursor.toNat s, fun hrest => ?_⟩
  rw [hplace, textsPass_congr (size_withText m slot cursor.toNat s)] at hrest
  exact h ⟨hrest.size_eq, hslot, .inr hrest⟩

/-- By induction on the texts: those before the one that ends the memory are stored, and the sum
behind that one does not fit. -/
theorem writeTexts_panics (h : m.TextsPass slot cursor.toNat texts) :
    (writeTexts slot cursor texts m).1 = .error .panicked := by
  induction texts generalizing m slot cursor with
  | nil =>
    obtain ⟨-, first, hne, hprefix, -⟩ := h
    exact absurd (List.prefix_nil.1 hprefix) hne
  | cons s rest ih =>
    obtain ⟨hsize, hslot, hrest⟩ := textsPass_cons.1 h
    have hend : cursor.toNat + (terminated s).length ≤ 2 ^ 32 :=
      hrest.elim Nat.le_of_eq TextsPass.place_le
    have hfirst := writeText_apply hsize.le hslot (decide_eq_true (hsize ▸ hend))
    obtain ⟨-, -, hnext, -⟩ := writeText_eq_ok hsize.le hfirst
    rw [writeTexts, bind_apply_ok (PanicM.liftM_apply_ok hfirst)]
    generalize UInt32.ofNat (cursor.toNat + (Bytes.ofString s).length) = finish at hnext
    by_cases hlt : cursor.toNat + (terminated s).length < 2 ^ 32
    · rw [PanicM.sum_of_lt (b := 1) (hnext ▸ hlt), pure_bind]
      apply ih
      rw [toNat_next hnext hlt, textsPass_congr (size_withText m slot cursor.toNat s)]
      exact hrest.resolve_left hlt.ne
    · rw [PanicM.sum_of_le (b := 1) (hnext ▸ Nat.le_of_not_lt hlt)]
      rfl

end GuestMemory

namespace Guest

variable {g : Guest} {fd address : UInt32}

/-! ## Records -/

/-- The descriptor has a name, and its record begins with the last word that has an address. -/
structure PrestatPasses (g : Guest) (fd address : UInt32) : Prop where
  named : ∃ name, (startName fd g).1 = .ok name
  size_eq : g.memory.size = 2 ^ (32 : Nat)
  last : address.toNat + 4 = 2 ^ (32 : Nat)

/-- Finding the name changes nothing. -/
theorem startName_apply (fd : UInt32) (g : Guest) :
    startName fd g = ((startName fd g).1, g) := by
  have hfound : descriptor? fd g = (.ok (g.descriptors.get? fd.toNat), g) := rfl
  rw [startName, bind_apply_ok hfound]
  rcases g.descriptors.get? fd.toNat with _ | ⟨path, name⟩ | ⟨path, offset, append⟩
  · rfl
  · dsimp only
    split
    · rfl
    · rfl
  · rfl

/-- The second word comes right after the first one, or that one does not lie in memory. -/
theorem prestat_cases {name : Bytes} (hsize : g.memory.size ≤ 2 ^ 32)
    (h : ¬ g.PrestatPasses fd address) (hname : (startName fd g).1 = .ok name) :
    address.toNat + 4 < 2 ^ 32
      ∨ onMemory (GuestMemory.writeWord address.toNat 0) g = (.error .fault, g) := by
  by_cases hfits : address.toNat + 4 < 2 ^ 32
  · exact .inl hfits
  · refine .inr (onMemory_apply (GuestMemory.write_apply_error fun _ hholds => ?_))
    have hend : address.toNat + 4 ≤ g.memory.size := of_decide_eq_true hholds
    exact h ⟨⟨name, hname⟩, by omega, by omega⟩

/-- Where the address of the length does not fit, the call is a panic. -/
theorem fdPrestatGet_panics (h : g.PrestatPasses fd address) :
    (fdPrestatGet fd address g).1 = .error .panicked := by
  obtain ⟨⟨name, hfirst⟩, hsize, hlast⟩ := h
  have hname := startName_apply fd g
  rw [hfirst] at hname
  have hlength : (Bytes.littleEndian 4 (0 : UInt32).toNat).length < 2 ^ 32 := by simp
  have hwrite := GuestMemory.write_apply hlength address.toNat g.memory
  have hholds : g.memory.holds address.toNat 4 := decide_eq_true (by omega)
  rw [Bytes.length_littleEndian, if_pos hholds] at hwrite
  rw [fdPrestatGet, bind_apply_ok (PanicM.liftM_apply_ok hname), GuestMemory.writeWord,
    bind_apply_ok (onMemory_apply (PanicM.liftM_apply_ok hwrite)),
    PanicM.sum_of_le (b := 4) hlast.ge]
  rfl

end Guest

namespace SystemCall

variable {g : Guest} {call : SystemCall}

/-- The call adds to the last address of the memory of the greatest size. -/
def Passes (g : Guest) : SystemCall → Prop
  | .argsGet addresses buffer => g.memory.TextsPass addresses.toNat buffer.toNat g.args
  | .environGet addresses buffer => g.memory.TextsPass addresses.toNat buffer.toNat g.env
  | .fdPrestatGet fd address => g.PrestatPasses fd address
  | _ => False

theorem Passes.size_eq (h : call.Passes g) : g.memory.size = 2 ^ 32 := by
  cases call with
  | argsGet addresses buffer => exact GuestMemory.TextsPass.size_eq h
  | environGet addresses buffer => exact GuestMemory.TextsPass.size_eq h
  | fdPrestatGet fd address => exact Guest.PrestatPasses.size_eq h
  | _ => exact h.elim

/-- A call that does so panics. -/
theorem answer_panics (h : call.Passes g) : (call.answer g).1 = .error .panicked := by
  cases call with
  | argsGet addresses buffer => exact GuestMemory.writeTexts_panics h
  | environGet addresses buffer => exact GuestMemory.writeTexts_panics h
  | fdPrestatGet fd address => exact Guest.fdPrestatGet_panics h
  | _ => exact h.elim

end SystemCall

end Sandshell
