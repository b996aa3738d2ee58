import Sandshell.Proofs.Guest.Answer
import Sandshell.Proofs.Guest.Streams

/-!
# Buffers in guest memory

A call that reads or writes is given an array of buffers. Data is taken from the buffers in order,
and stored in them in order without a gap; bytes that stand in none of them stay as they are.
-/

namespace Sandshell

namespace GuestMemory

variable {m : GuestMemory} {start length start' length' address : Nat} {data : Bytes}
variable {buffers : List (UInt32 × UInt32)}

/-! ## Areas -/

/-- The address is that of a byte of the area. -/
def Covers (start length address : Nat) : Prop :=
  start ≤ address ∧ address < start + length

/-- No byte is in both areas; an area without bytes may lie anywhere. -/
def Separate (start length start' length' : Nat) : Prop :=
  length = 0 ∨ length' = 0 ∨ Apart start length start' length'

instance (start length address : Nat) : Decidable (Covers start length address) :=
  inferInstanceAs (Decidable (_ ∧ _))

instance (start length start' length' : Nat) : Decidable (Separate start length start' length') :=
  inferInstanceAs (Decidable (_ ∨ _ ∨ (_ ∨ _)))

/-- An address is not in two areas that have nothing in common. -/
theorem Separate.not_covers (h : Separate start length start' length')
    (haddress : Covers start length address) : ¬ Covers start' length' address := by
  unfold Separate Apart at h
  unfold Covers at haddress ⊢
  omega

theorem Separate.symm (h : Separate start length start' length') :
    Separate start' length' start length := by
  unfold Separate Apart at h ⊢
  omega

/-- Storing data changes no byte elsewhere. -/
theorem byte_store_of_not_covers (h : ¬ Covers start data.length address) :
    (m.store start data).byte address = m.byte address := by
  by_cases hbefore : address < start
  · exact byte_store_of_lt hbefore
  · unfold Covers at h
    exact byte_store_of_le (by omega)

/-- An area is the bytes of its first part and of the rest. -/
theorem area_add (m : GuestMemory) (start length length' : Nat) :
    m.area start (length + length') = m.area start length ++ m.area (start + length) length' := by
  induction length generalizing start with
  | zero => rw [Nat.zero_add, area, List.nil_append, Nat.add_zero]
  | succ length ih =>
    rw [Nat.succ_add, area, ih, area, List.cons_append, Nat.add_right_comm start 1, Nat.add_assoc]

/-- Data that is shorter than an area is stored at its beginning. -/
theorem area_store_of_le (m : GuestMemory) (start : Nat) (h : data.length ≤ length) :
    (m.store start data).area start length = data ++ (m.area start length).drop data.length := by
  obtain ⟨rest, rfl⟩ := Nat.exists_eq_add_of_le h
  have hrest : (m.store start data).area (start + data.length) rest
      = m.area (start + data.length) rest :=
    area_congr fun _ hstart _ => byte_store_of_le hstart
  rw [area_add, area_store, hrest, area_add, List.drop_left' (length_area _ _ _)]

/-! ## The array of buffers -/

/-- The number of 32 bits at an address. -/
def wordAt (m : GuestMemory) (start : Nat) : UInt32 :=
  UInt32.ofNat (m.area start 4).toNumber

/-- The buffers that an array in memory lists. -/
def buffersAt (m : GuestMemory) (start : Nat) : (count : Nat) → List (UInt32 × UInt32)
  | 0 => []
  | count + 1 => (m.wordAt start, m.wordAt (start + 4)) :: m.buffersAt (start + 8) count

open scoped Arithmetic in
/-- How many bytes buffers have room for. -/
def room (buffers : List (UInt32 × UInt32)) : Nat :=
  (buffers.map fun (_, length) => length.toNat).sum

theorem readWord_apply (h : m.holds start 4) : readWord start m = (.ok (m.wordAt start), m) := by
  have hslice := slice_apply start 4 m
  rw [if_pos h] at hslice
  rw [readWord, bind_apply_ok hslice]
  rfl

/-- The array lies in memory; one without buffers may lie anywhere. -/
def HoldsArray (m : GuestMemory) (start count : Nat) : Prop :=
  count = 0 ∨ m.holds start (8 * count)

instance (m : GuestMemory) (start count : Nat) : Decidable (m.HoldsArray start count) :=
  inferInstanceAs (Decidable (_ ∨ _))

/-- Reading a word that does not lie in the memory is a fault. -/
theorem readWord_apply_error (h : ¬ m.holds start 4) : readWord start m = (.error .fault, m) := by
  have hslice := slice_apply start 4 m
  rw [if_neg h] at hslice
  exact bind_apply_error hslice

/-- The first buffer of an array and the others. -/
theorem holdsArray_succ {count : Nat} : m.HoldsArray start (count + 1)
    ↔ m.holds start 4 ∧ m.holds (start + 4) 4 ∧ m.HoldsArray (start + 8) count := by
  simp only [HoldsArray, holds, decide_eq_true_eq]
  omega

/-- By induction on the number of buffers. -/
theorem readBuffers_apply (start count : Nat) (m : GuestMemory) : readBuffers start count m =
    (if m.HoldsArray start count then .ok (m.buffersAt start count) else .error .fault, m) := by
  induction count generalizing start with
  | zero => rfl
  | succ count ih =>
    have hrest := ih (start + 8)
    rw [readBuffers]
    by_cases haddress : m.holds start 4
    · rw [bind_apply_ok (readWord_apply haddress)]
      by_cases hlength : m.holds (start + 4) 4
      · rw [bind_apply_ok (readWord_apply hlength)]
        by_cases harray : m.HoldsArray (start + 8) count
        · rw [if_pos harray] at hrest
          rw [if_pos (holdsArray_succ.2 ⟨haddress, hlength, harray⟩), bind_apply_ok hrest]
          rfl
        · rw [if_neg harray] at hrest
          rw [if_neg fun hall => harray (holdsArray_succ.1 hall).2.2, bind_apply_error hrest]
      · rw [if_neg fun hall => hlength (holdsArray_succ.1 hall).2.1,
          bind_apply_error (readWord_apply_error hlength)]
    · rw [if_neg fun hall => haddress (holdsArray_succ.1 hall).1,
        bind_apply_error (readWord_apply_error haddress)]

/-! ## Data in buffers -/

/-- The buffers lie in memory. -/
def HoldsAll (m : GuestMemory) (buffers : List (UInt32 × UInt32)) : Prop :=
  ∀ buffer ∈ buffers, m.holds buffer.1.toNat buffer.2.toNat

instance (m : GuestMemory) (buffers : List (UInt32 × UInt32)) : Decidable (m.HoldsAll buffers) :=
  List.decidableBAll _ _

/-- The buffers lie in memory as far as data goes that is stored in them. -/
def HoldsData (m : GuestMemory) : List (UInt32 × UInt32) → Bytes → Prop
  | [], _ => True
  | (address, length) :: rest, data => data = []
    ∨ m.holds address.toNat (data.take length.toNat).length
      ∧ m.HoldsData rest (data.drop length.toNat)

/-- The bytes of buffers, one after the other. -/
def gathered (m : GuestMemory) (buffers : List (UInt32 × UInt32)) : Bytes :=
  buffers.flatMap fun (address, length) => m.area address.toNat length.toNat

/-- Memory with data stored in buffers, one after the other. -/
def scattered (m : GuestMemory) : List (UInt32 × UInt32) → Bytes → GuestMemory
  | [], _ => m
  | (address, length) :: rest, data =>
    (m.store address.toNat (data.take length.toNat)).scattered rest (data.drop length.toNat)

/-- The array lies in memory and lists these buffers. -/
def Lists (m : GuestMemory) (start count : UInt32) (buffers : List (UInt32 × UInt32)) : Prop :=
  m.HoldsArray start.toNat count.toNat ∧ buffers = m.buffersAt start.toNat count.toNat

/-- The array and its buffers lie in memory, and this data is in them. -/
def Gives (m : GuestMemory) (start count : UInt32) (data : Bytes) : Prop :=
  ∃ buffers, m.Lists start count buffers ∧ m.HoldsAll buffers ∧ data = m.gathered buffers

theorem room_cons (buffer : UInt32 × UInt32) (rest : List (UInt32 × UInt32)) :
    room (buffer :: rest) = buffer.2.toNat + room rest := by
  rw [room, List.map_cons, List.sum_cons, room]

theorem gathered_cons (m : GuestMemory) (buffer : UInt32 × UInt32)
    (rest : List (UInt32 × UInt32)) :
    m.gathered (buffer :: rest) = m.area buffer.1.toNat buffer.2.toNat ++ m.gathered rest :=
  List.flatMap_cons

/-- What is gathered fills all of the room that the buffers have. -/
theorem length_gathered (m : GuestMemory) (buffers : List (UInt32 × UInt32)) :
    (m.gathered buffers).length = room buffers := by
  induction buffers with
  | nil => rfl
  | cons buffer rest ih =>
    rw [gathered_cons, List.length_append, length_area, ih, room_cons]

/-- Buffers that lie in the memory hold whatever is scattered to them. -/
theorem HoldsAll.holdsData (h : m.HoldsAll buffers) (data : Bytes) : m.HoldsData buffers data := by
  induction buffers generalizing data with
  | nil => trivial
  | cons buffer rest ih =>
    obtain ⟨hfirst, hrest⟩ := List.forall_mem_cons.1 h
    have htaken := List.length_take_le buffer.2.toNat data
    exact .inr ⟨holds_mono hfirst (Nat.add_le_add_left htaken _), ih hrest _⟩

theorem holdsData_store (m : GuestMemory) (start : Nat) (stored : Bytes) :
    (m.store start stored).HoldsData buffers data ↔ m.HoldsData buffers data := by
  induction buffers generalizing data with
  | nil => exact Iff.rfl
  | cons buffer rest ih => rw [HoldsData, HoldsData, holds_store, ih]

theorem scattered_nil (m : GuestMemory) (buffers : List (UInt32 × UInt32)) :
    m.scattered buffers [] = m := by
  induction buffers with
  | nil => rfl
  | cons buffer rest ih => rw [scattered, List.take_nil, List.drop_nil, store, ih]

@[simp] theorem size_scattered (m : GuestMemory) (buffers : List (UInt32 × UInt32)) (data : Bytes) :
    (m.scattered buffers data).size = m.size := by
  induction buffers generalizing m data with
  | nil => rfl
  | cons buffer rest ih => rw [scattered, ih, size_store]

@[simp] theorem holds_scattered (m : GuestMemory) (buffers : List (UInt32 × UInt32)) (data : Bytes)
    (start length : Nat) : (m.scattered buffers data).holds start length = m.holds start length := by
  rw [holds, holds, size_scattered]

/-- Scattering changes no byte outside of the buffers. -/
theorem byte_scattered_of_not_covers
    (h : ∀ buffer ∈ buffers, ¬ Covers buffer.1.toNat buffer.2.toNat address) :
    (m.scattered buffers data).byte address = m.byte address := by
  induction buffers generalizing m data with
  | nil => rfl
  | cons buffer rest ih =>
    obtain ⟨hfirst, hrest⟩ := List.forall_mem_cons.1 h
    have htaken : ¬ Covers buffer.1.toNat (data.take buffer.2.toNat).length address := by
      have hlength := List.length_take_le buffer.2.toNat data
      unfold Covers at hfirst ⊢
      omega
    rw [scattered, ih hrest, byte_store_of_not_covers htaken]

/-- What is gathered depends on the bytes in the buffers only. -/
theorem gathered_congr {m' : GuestMemory}
    (h : ∀ buffer ∈ buffers, ∀ address, Covers buffer.1.toNat buffer.2.toNat address →
      m'.byte address = m.byte address) : m'.gathered buffers = m.gathered buffers := by
  induction buffers with
  | nil => rfl
  | cons buffer rest ih =>
    obtain ⟨hfirst, hrest⟩ := List.forall_mem_cons.1 h
    rw [gathered_cons, gathered_cons, ih hrest,
      area_congr fun address hstart hend => hfirst address ⟨hstart, hend⟩]

/-- Buffers without a byte in common. -/
def SeparateAll (buffers : List (UInt32 × UInt32)) : Prop :=
  buffers.Pairwise fun buffer other =>
    Separate buffer.1.toNat buffer.2.toNat other.1.toNat other.2.toNat

instance (buffers : List (UInt32 × UInt32)) : Decidable (SeparateAll buffers) :=
  inferInstanceAs (Decidable (List.Pairwise _ _))

/-- Data that was stored is there from the first buffer on, and what stood behind it is left. -/
theorem gathered_scattered (h : SeparateAll buffers) (hroom : data.length ≤ room buffers) :
    (m.scattered buffers data).gathered buffers
      = data ++ (m.gathered buffers).drop data.length := by
  induction buffers generalizing m data with
  | nil =>
    have hdata : data = [] := List.eq_nil_of_length_eq_zero (Nat.le_zero.1 hroom)
    rw [hdata]
    rfl
  | cons buffer rest ih =>
    obtain ⟨hfirst, hrest⟩ := List.pairwise_cons.1 h
    rw [room_cons] at hroom
    have htaken := List.length_take_le buffer.2.toNat data
    -- the other buffers leave the first one alone, and it leaves them alone
    have harea : ((m.store buffer.1.toNat (data.take buffer.2.toNat)).scattered rest
        (data.drop buffer.2.toNat)).area buffer.1.toNat buffer.2.toNat
        = data.take buffer.2.toNat
          ++ (m.area buffer.1.toNat buffer.2.toNat).drop (data.take buffer.2.toNat).length := by
      rw [← area_store_of_le m buffer.1.toNat htaken]
      exact area_congr fun address hstart hend => byte_scattered_of_not_covers
        fun other hother => (hfirst other hother).not_covers ⟨hstart, hend⟩
    have hkept : (m.store buffer.1.toNat (data.take buffer.2.toNat)).gathered rest
        = m.gathered rest := by
      refine gathered_congr fun other hother address haddress => byte_store_of_not_covers ?_
      have hclear := (hfirst other hother).symm.not_covers haddress
      unfold Covers at hclear ⊢
      omega
    have hdropped : (data.drop buffer.2.toNat).length ≤ room rest := by
      rw [List.length_drop]
      omega
    rw [scattered, gathered_cons, harea, ih hrest hdropped, hkept, gathered_cons]
    by_cases hfits : data.length ≤ buffer.2.toNat
    · rw [List.take_of_length_le hfits, List.drop_of_length_le hfits, List.nil_append,
        List.length_nil, List.drop_zero, List.append_assoc, List.drop_append_of_le_length]
      rwa [length_area]
    · rw [Nat.not_le] at hfits
      have hfilled : (data.take buffer.2.toNat).length = buffer.2.toNat :=
        List.length_take_of_le hfits.le
      have hnothing : (m.area buffer.1.toNat buffer.2.toNat).drop buffer.2.toNat = [] :=
        List.drop_of_length_le (length_area _ _ _).le
      rw [hfilled, hnothing, List.append_nil, ← List.append_assoc, List.take_append_drop,
        List.drop_append, length_area, List.length_drop,
        List.drop_of_length_le ((length_area _ _ _).trans_le hfits.le), List.nil_append]

end GuestMemory

namespace Guest

variable {g : Guest} {buffers : List (UInt32 × UInt32)} {data : Bytes}

/-- Gathering gives the bytes of all buffers in order, or a fault, and changes nothing. -/
theorem gather_apply (buffers : List (UInt32 × UInt32)) (g : Guest) : gather buffers g =
    (if g.memory.HoldsAll buffers then .ok (g.memory.gathered buffers) else .error .fault, g) := by
  induction buffers with
  | nil => rfl
  | cons buffer rest ih =>
    have hslice := onMemory_apply (GuestMemory.slice_apply buffer.1.toNat buffer.2.toNat g.memory)
    have hall : g.memory.HoldsAll (buffer :: rest)
        ↔ g.memory.holds buffer.1.toNat buffer.2.toNat ∧ g.memory.HoldsAll rest :=
      List.forall_mem_cons
    rw [gather]
    by_cases hfirst : g.memory.holds buffer.1.toNat buffer.2.toNat
    · rw [if_pos hfirst] at hslice
      rw [bind_apply_ok hslice]
      by_cases hrest : g.memory.HoldsAll rest
      · rw [if_pos hrest] at ih
        rw [if_pos (hall.2 ⟨hfirst, hrest⟩), bind_apply_ok ih]
        rfl
      · rw [if_neg hrest] at ih
        rw [if_neg fun h => hrest (hall.1 h).2, bind_apply_error ih]
    · rw [if_neg hfirst] at hslice
      rw [if_neg fun h => hfirst (hall.1 h).1, bind_apply_error hslice]

/-- The first part of the data is stored, and then the rest of it. -/
theorem scatter_cons_apply (buffer : UInt32 × UInt32) (rest : List (UInt32 × UInt32))
    (hdata : data ≠ []) (g : Guest) : scatter (buffer :: rest) data g =
      if g.memory.holds buffer.1.toNat (data.take buffer.2.toNat).length then
        scatter rest (data.drop buffer.2.toNat)
          { g with memory := g.memory.store buffer.1.toNat (data.take buffer.2.toNat) }
      else (.error .fault, g) := by
  have htaken := List.length_take_le buffer.2.toNat data
  have hwrite := onMemory_write_apply (htaken.trans_lt buffer.2.toNat_lt) buffer.1.toNat g
  rw [scatter, if_neg fun hempty => hdata (List.isEmpty_iff.1 hempty)]
  split
  · next hholds =>
    rw [if_pos hholds] at hwrite
    exact bind_apply_ok hwrite
  · next hholds =>
    rw [if_neg hholds] at hwrite
    exact bind_apply_error hwrite

theorem scatter_nil_apply (buffers : List (UInt32 × UInt32)) (g : Guest) :
    scatter buffers [] g = (.ok (), g) := by
  cases buffers with
  | nil => rfl
  | cons buffer rest => rfl

/-- Scattering fills the buffers in order. -/
theorem scatter_apply (h : g.memory.HoldsData buffers data) :
    scatter buffers data g = (.ok (), { g with memory := g.memory.scattered buffers data }) := by
  induction buffers generalizing g data with
  | nil => rfl
  | cons buffer rest ih =>
    rcases h with rfl | ⟨hfirst, hrest⟩
    · rw [scatter_nil_apply, GuestMemory.scattered_nil]
    by_cases hdata : data = []
    · rw [hdata, scatter_nil_apply, GuestMemory.scattered_nil]
    · rw [scatter_cons_apply buffer rest hdata, if_pos hfirst]
      exact ih ((GuestMemory.holdsData_store _ _ _).2 hrest)

/-- Data that does not go into memory as a whole is stored in part, and nothing else changes. -/
theorem exists_scatter_apply_error (h : ¬ g.memory.HoldsData buffers data) :
    ∃ m, scatter buffers data g = (.error .fault, { g with memory := m }) := by
  induction buffers generalizing g data with
  | nil => exact absurd trivial h
  | cons buffer rest ih =>
    rw [GuestMemory.HoldsData, not_or] at h
    obtain ⟨hdata, hparts⟩ := h
    rw [scatter_cons_apply buffer rest hdata]
    split
    · next hfirst =>
      refine ih fun hrest => hparts ⟨hfirst, ?_⟩
      exact (GuestMemory.holdsData_store _ _ _).1 hrest
    · exact ⟨g.memory, rfl⟩

/-- A write takes the data of all its buffers. -/
theorem buffered_apply (hg : g.mounted = false) (start count : UInt32) :
    buffered start count g =
      (if g.memory.HoldsArray start.toNat count.toNat
          ∧ g.memory.HoldsAll (g.memory.buffersAt start.toNat count.toNat) then
        .ok (g.memory.gathered (g.memory.buffersAt start.toNat count.toNat))
      else .error .fault, g) := by
  have hself : (get : CallM Guest) g = (.ok g, g) := rfl
  have hread := onMemory_apply
    (GuestMemory.readBuffers_apply start.toNat count.toNat g.memory)
  rw [buffered]
  by_cases harray : g.memory.HoldsArray start.toNat count.toNat
  · rw [if_pos harray] at hread
    rw [bind_apply_ok hread, bind_apply_ok hself, hg]
    simp only [harray, true_and]
    exact gather_apply _ g
  · rw [if_neg harray] at hread
    rw [bind_apply_error hread, if_neg fun h => harray h.1]

/-- The data that a vector of buffers gives is what a call takes from it. -/
theorem buffered_of_gives (hg : g.mounted = false) {buffers count : UInt32} {data : Bytes}
    (h : g.memory.Gives buffers count data) : buffered buffers count g = (.ok data, g) := by
  obtain ⟨_, ⟨harray, rfl⟩, hall, rfl⟩ := h
  have hbuffered := buffered_apply hg buffers count
  rwa [if_pos ⟨harray, hall⟩] at hbuffered

/-- A vector of buffers gives some data, or the call that takes it is a fault. -/
theorem gives_or_fault (hg : g.mounted = false) (start count : UInt32) :
    (∃ data, g.memory.Gives start count data) ∨ buffered start count g = (.error .fault, g) := by
  have hbuffered := buffered_apply hg start count
  split at hbuffered
  · next h => exact .inl ⟨_, _, ⟨h.1, rfl⟩, h.2, rfl⟩
  · exact .inr hbuffered

theorem readBuffers_of_lists {start count : UInt32} {buffers : List (UInt32 × UInt32)}
    (h : g.memory.Lists start count buffers) :
    onMemory (GuestMemory.readBuffers start.toNat count.toNat) g = (.ok buffers, g) := by
  obtain ⟨harray, rfl⟩ := h
  have hread := GuestMemory.readBuffers_apply start.toNat count.toNat g.memory
  rw [if_pos harray] at hread
  exact onMemory_apply hread

/-- An array of buffers can be read as a whole, or reading it is a fault. -/
theorem lists_or_fault (g : Guest) (start count : UInt32) :
    (∃ buffers, g.memory.Lists start count buffers)
      ∨ onMemory (GuestMemory.readBuffers start.toNat count.toNat) g = (.error .fault, g) := by
  have hread := onMemory_apply (GuestMemory.readBuffers_apply start.toNat count.toNat g.memory)
  split at hread
  · next harray => exact .inl ⟨_, harray, rfl⟩
  · exact .inr hread

/-- The data that a read takes from the input or from an open file. -/
def readData (fd : UInt32) (most : Nat) : CallM Bytes :=
  if fd = 0 then readInput most
  else if isStream fd then throw .badf
  else readFile fd most

/-- What is no stream is read as a file. -/
theorem readData_file {fd : UInt32} (hfd : isStream fd = false) (most : Nat) :
    readData fd most = readFile fd most := by
  rw [readData, if_neg (ne_of_isStream hfd (by decide)), hfd]
  rfl

/-- Reading is reading the vector, taking the data, scattering it and saying how much it was. -/
theorem fdRead_eq (fd start count taken : UInt32) : fdRead fd start count taken = (do
    let buffers ← onMemory (GuestMemory.readBuffers start.toNat count.toNat)
    let data ← readData fd (GuestMemory.room buffers)
    scatter buffers data
    onMemory (GuestMemory.writeWord taken.toNat (← word data.length))) := by
  refine bind_congr fun buffers => ?_
  unfold readData
  split
  · rfl
  split
  · rfl
  · rfl

end Guest

end Sandshell
