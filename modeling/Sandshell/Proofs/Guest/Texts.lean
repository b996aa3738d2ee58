import Sandshell.Proofs.Guest.Buffers
import Sandshell.Proofs.Guest.Reach

/-!
# Arguments and variables in guest memory

A guest asks how many texts there are and how much room they take, makes room, and has them stored:
one after the other, each with a zero byte after it, and an address for each. With enough room it
reads back what its request gave, and nothing else in its memory changes.
-/

namespace Sandshell

namespace Bytes

/-- Only NUL is encoded with a zero. -/
theorem zero_not_mem_utf8EncodeChar {c : Char} (h : c ≠ '\x00') :
    (0 : UInt8) ∉ String.utf8EncodeChar c := by
  have hvalue : c.val.toNat ≠ 0 := fun hzero => h (Char.toNat_inj.1 hzero)
  have hne : ∀ {n : Nat}, 0 < n → n < 256 → (0 : UInt8) ≠ UInt8.ofNat n := by
    intro n hpos hlt heq
    have hnumber := congrArg UInt8.toNat heq
    rw [toNat_ofNat hlt] at hnumber
    exact absurd hnumber.symm (Nat.ne_of_gt hpos)
  rw [String.utf8EncodeChar]
  generalize c.val.toNat = v at hvalue
  -- beyond the first 128 numbers every byte has its highest bit set
  split_ifs with h1 h2 h3
  · rw [List.mem_singleton]
    exact hne (by omega) (by omega)
  · simp only [List.mem_cons, List.not_mem_nil, or_false, not_or]
    exact ⟨hne (by omega) (by omega), hne (by omega) (by omega)⟩
  · simp only [List.mem_cons, List.not_mem_nil, or_false, not_or]
    exact ⟨hne (by omega) (by omega), hne (by omega) (by omega), hne (by omega) (by omega)⟩
  · simp only [List.mem_cons, List.not_mem_nil, or_false, not_or]
    exact ⟨hne (by omega) (by omega), hne (by omega) (by omega), hne (by omega) (by omega),
      hne (by omega) (by omega)⟩

/-- A zero byte spells NUL and stands in no other character. -/
theorem zero_not_mem_ofString {s : String} (h : '\x00' ∉ s.toList) : (0 : UInt8) ∉ ofString s := by
  rw [ofString, List.mem_flatMap]
  rintro ⟨c, hc, hzero⟩
  exact zero_not_mem_utf8EncodeChar (fun heq => h (heq ▸ hc)) hzero

/-- A text with a zero byte after it. -/
def terminated (s : String) : Bytes :=
  ofString s ++ [0]

/-- Texts one after the other, each with a zero byte after it. -/
def terminatedAll (texts : List String) : Bytes :=
  texts.flatMap terminated

theorem length_terminated (s : String) : (terminated s).length = (ofString s).length + 1 :=
  List.length_append

open scoped Arithmetic in
/-- Each text takes its bytes and one more. -/
theorem length_terminatedAll (texts : List String) :
    (terminatedAll texts).length = (texts.map fun s => s.utf8ByteSize + 1).sum := by
  rw [terminatedAll, List.length_flatMap]
  simp only [length_terminated, length_ofString]

theorem terminatedAll_cons (s : String) (rest : List String) :
    terminatedAll (s :: rest) = terminated s ++ terminatedAll rest :=
  List.flatMap_cons

/-- Each text ends within the whole. -/
theorem length_terminatedAll_take_add_le {texts : List String} {i : Nat} (hi : i < texts.length) :
    (terminatedAll (texts.take i)).length + (terminated texts[i]).length
      ≤ (terminatedAll texts).length := by
  have hsplit : texts.take i ++ texts[i] :: texts.drop (i + 1) = texts := by
    rw [← List.drop_eq_getElem_cons hi, List.take_append_drop]
  have hlength := congrArg (fun l => (terminatedAll l).length) hsplit
  simp only [terminatedAll, List.flatMap_append, List.flatMap_cons, List.length_append] at hlength ⊢
  omega

end Bytes

open Bytes (terminated terminatedAll length_terminated terminatedAll_cons)

namespace GuestMemory

variable {m : GuestMemory} {slot place address start : Nat} {cursor : UInt32}
variable {texts rest : List String} {s : String} {data : Bytes}

/-! ## Texts in memory -/

/-- The bytes from an address on to the next zero byte, which is among the next `room` bytes. -/
def untilZero? (m : GuestMemory) (address : Nat) : (room : Nat) → Option Bytes
  | 0 => none
  | room + 1 =>
    if m.byte address = 0 then some []
    else (m.untilZero? (address + 1) room).map (m.byte address :: ·)

/-- The text that starts at an address and ends before the next zero byte of the memory. -/
def textFrom? (m : GuestMemory) (address : Nat) : Option String :=
  (m.untilZero? address (m.size - address)).bind Bytes.text?

/-- What stands before the first zero is read back. -/
theorem untilZero?_of_area {room : Nat} (harea : m.area address (data.length + 1) = data ++ [0])
    (hdata : (0 : UInt8) ∉ data) (hroom : data.length < room) :
    m.untilZero? address room = some data := by
  obtain ⟨room, rfl⟩ := Nat.exists_eq_add_of_lt hroom
  clear hroom
  induction data generalizing address with
  | nil =>
    rw [List.length_nil, area, List.nil_append, List.cons.injEq] at harea
    rw [untilZero?, if_pos harea.1]
  | cons b more ih =>
    rw [List.mem_cons, not_or] at hdata
    rw [List.length_cons, area, List.cons_append, List.cons.injEq] at harea
    have hrest := ih harea.2 hdata.2
    rw [List.length_cons, Nat.add_right_comm _ 1 room, untilZero?, harea.1,
      if_neg (Ne.symm hdata.1), hrest]
    rfl

/-- A terminated text without NUL reads as itself. -/
theorem textFrom?_of_area (harea : m.area address (terminated s).length = terminated s)
    (hs : '\x00' ∉ s.toList) (hend : address + (terminated s).length ≤ m.size) :
    m.textFrom? address = some s := by
  have hlength : (terminated s).length = (Bytes.ofString s).length + 1 := List.length_append
  rw [hlength] at harea hend
  rw [textFrom?, untilZero?_of_area harea (Bytes.zero_not_mem_ofString hs) (by omega)]
  exact Bytes.text?_ofString s

/-- Storing data in two parts is storing it as a whole. -/
theorem store_append (m : GuestMemory) (start : Nat) (data more : Bytes) :
    m.store start (data ++ more) = (m.store start data).store (start + data.length) more := by
  induction data generalizing m start with
  | nil => rfl
  | cons b rest ih =>
    rw [List.cons_append, store, ih, store, List.length_cons, Nat.add_right_comm start 1,
      Nat.add_assoc]

/-! ## What is stored -/

/-- The memory with a text at `place`, and its address in `slot`. -/
def withText (m : GuestMemory) (slot place : Nat) (s : String) : GuestMemory :=
  (m.store slot (Bytes.littleEndian 4 place)).store place (terminated s)

/-- The memory with texts from `place` on, and their addresses from `slot` on. -/
def withTexts (m : GuestMemory) (slot place : Nat) : List String → GuestMemory
  | [] => m
  | s :: rest =>
    (m.withText slot place s).withTexts (slot + 4) (place + (terminated s).length) rest

@[simp] theorem size_withText (m : GuestMemory) (slot place : Nat) (s : String) :
    (m.withText slot place s).size = m.size := by
  rw [withText, size_store, size_store]

@[simp] theorem size_withTexts (m : GuestMemory) (slot place : Nat) (texts : List String) :
    (m.withTexts slot place texts).size = m.size := by
  induction texts generalizing m slot place with
  | nil => rfl
  | cons s rest ih => rw [withTexts, ih, size_withText]

@[simp] theorem holds_withText (m : GuestMemory) (slot place : Nat) (s : String)
    (start length : Nat) : (m.withText slot place s).holds start length = m.holds start length := by
  rw [holds, holds, size_withText]

/-- A text changes no byte besides its pointer and itself. -/
theorem byte_withText_of_not_covers (hslot : ¬ Covers slot 4 address)
    (hplace : ¬ Covers place (terminated s).length address) :
    (m.withText slot place s).byte address = m.byte address := by
  rw [withText, byte_store_of_not_covers hplace, byte_store_of_not_covers]
  rwa [Bytes.length_littleEndian]

/-- Outside the addresses and the texts nothing changes. -/
theorem byte_withTexts_of_not_covers (hslot : ¬ Covers slot (4 * texts.length) address)
    (hplace : ¬ Covers place (terminatedAll texts).length address) :
    (m.withTexts slot place texts).byte address = m.byte address := by
  induction texts generalizing m slot place with
  | nil => rfl
  | cons s rest ih =>
    rw [List.length_cons] at hslot
    rw [terminatedAll_cons, List.length_append] at hplace
    unfold Covers at hslot hplace ih
    rw [withTexts, ih (by omega) (by omega), byte_withText_of_not_covers]
    · unfold Covers
      omega
    · unfold Covers
      omega

/-- Texts that are stored later, with addresses apart, leave the first one and its address alone. -/
theorem first_withTexts (h : Separate slot (4 * (rest.length + 1)) place
      ((terminated s).length + (terminatedAll rest).length)) :
    (m.withTexts slot place (s :: rest)).area slot 4 = Bytes.littleEndian 4 place
      ∧ (m.withTexts slot place (s :: rest)).area place (terminated s).length = terminated s := by
  have hlength := length_terminated s
  unfold Separate Apart at h
  have hkept : ∀ address, address < slot + 4 ∧ slot ≤ address
        ∨ address < place + (terminated s).length ∧ place ≤ address →
      (m.withTexts slot place (s :: rest)).byte address
        = (m.withText slot place s).byte address := by
    intro address haddress
    rw [withTexts, byte_withTexts_of_not_covers]
    · unfold Covers
      omega
    · unfold Covers
      omega
  constructor
  · rw [area_congr fun address hstart hend => hkept address (.inl ⟨hend, hstart⟩), withText,
      area_store_of_apart (by unfold Apart; omega)]
    have hword := area_store m slot (Bytes.littleEndian 4 place)
    rwa [Bytes.length_littleEndian] at hword
  · rw [area_congr fun address hstart hend => hkept address (.inr ⟨hend, hstart⟩), withText,
      area_store]

/-- The texts without the first one are apart from their addresses too. -/
theorem separate_rest (h : Separate slot (4 * (rest.length + 1)) place
      ((terminated s).length + (terminatedAll rest).length)) :
    Separate (slot + 4) (4 * rest.length) (place + (terminated s).length)
      (terminatedAll rest).length := by
  unfold Separate Apart at h ⊢
  omega

/-- The texts stand one after the other. -/
theorem area_withTexts (h : Separate slot (4 * texts.length) place (terminatedAll texts).length) :
    (m.withTexts slot place texts).area place (terminatedAll texts).length
      = terminatedAll texts := by
  induction texts generalizing m slot place with
  | nil => rfl
  | cons s rest ih =>
    rw [terminatedAll_cons, List.length_append] at h ⊢
    rw [area_add, (first_withTexts h).2, withTexts, ih (separate_rest h)]

/-- Each address is that of its text. -/
theorem entry_withTexts (h : Separate slot (4 * texts.length) place (terminatedAll texts).length)
    (hfits : place + (terminatedAll texts).length ≤ 2 ^ 32) {i : Nat} (hi : i < texts.length) :
    (m.withTexts slot place texts).wordAt (slot + 4 * i)
        = UInt32.ofNat (place + (terminatedAll (texts.take i)).length)
      ∧ (m.withTexts slot place texts).area (place + (terminatedAll (texts.take i)).length)
          (terminated texts[i]).length = terminated texts[i] := by
  induction texts generalizing m slot place i with
  | nil => exact absurd hi (Nat.not_lt_zero i)
  | cons s rest ih =>
    rw [terminatedAll_cons, List.length_append] at h hfits
    cases i with
    | zero =>
      obtain ⟨haddress, htext⟩ := first_withTexts (m := m) h
      refine ⟨?_, htext⟩
      rw [wordAt, Nat.mul_zero, Nat.add_zero, haddress, Bytes.toNumber_littleEndian]
      · rfl
      · have hlength := length_terminated s
        omega
    | succ i =>
      have hrest := ih (m := m.withText slot place s) (separate_rest h) (by omega)
        (Nat.lt_of_succ_lt_succ hi)
      rw [List.take_succ_cons, terminatedAll_cons, List.length_append, ← Nat.add_assoc,
        List.getElem_cons_succ, Nat.mul_succ, Nat.add_comm _ 4, ← Nat.add_assoc]
      exact hrest

/-! ## Storing texts -/

/-- Bytes that are too many or do not lie in memory are a fault. -/
theorem write_apply_error (h : data.length < 2 ^ 32 → ¬ m.holds start data.length) :
    write start data m = (.error .fault, m) := by
  by_cases hdata : data.length < 2 ^ 32
  · rw [write_apply hdata, if_neg (h hdata)]
  · rw [write, if_pos (Nat.le_of_not_lt hdata)]
    exact bind_apply_error rfl

/-- A text that has room is stored, and the cursor stops at its final zero. -/
theorem writeText_apply (hsize : m.size ≤ 2 ^ 32) (hslot : m.holds slot 4)
    (htext : m.holds cursor.toNat (terminated s).length) :
    writeText slot cursor s m = (.ok (UInt32.ofNat (cursor.toNat + (Bytes.ofString s).length)),
      m.withText slot cursor.toNat s) := by
  have hlength := length_terminated s
  have hends : slot + 4 ≤ m.size ∧ cursor.toNat + (terminated s).length ≤ m.size := by
    simpa only [holds, decide_eq_true_eq] using And.intro hslot htext
  have hword : writeWord slot cursor m
      = (.ok (), m.store slot (Bytes.littleEndian 4 cursor.toNat)) := by
    rw [writeWord, write_apply (by simp), Bytes.length_littleEndian, if_pos hslot]
  have hdata : write cursor.toNat (Bytes.ofString s)
      (m.store slot (Bytes.littleEndian 4 cursor.toNat))
        = (.ok (), (m.store slot (Bytes.littleEndian 4 cursor.toNat)).store cursor.toNat
            (Bytes.ofString s)) := by
    rw [write_apply (by omega), holds_store, if_pos (holds_mono htext (by omega))]
  have hzero : write (cursor.toNat + (Bytes.ofString s).length) [0]
      ((m.store slot (Bytes.littleEndian 4 cursor.toNat)).store cursor.toNat (Bytes.ofString s))
        = (.ok (), m.withText slot cursor.toNat s) := by
    rw [write_apply (by simp), holds_store, holds_store, if_pos (holds_mono htext _), withText,
      terminated, store_append]
    · rw [List.length_singleton]
      omega
  rw [writeText, if_neg (by omega)]
  dsimp only
  rw [bind_apply_ok hword, bind_apply_ok hdata, if_neg (by omega), bind_apply_ok hzero]
  rfl

/-- A text or its address that does not fit is a fault. -/
theorem exists_writeText_error
    (h : ¬ (m.holds slot 4 ∧ m.holds cursor.toNat (terminated s).length)) :
    ∃ m', writeText slot cursor s m = (.error .fault, m') := by
  rw [writeText]
  by_cases hhigh : 2 ^ 32 ≤ slot
  · rw [if_pos hhigh]
    exact ⟨m, bind_apply_error rfl⟩
  rw [if_neg hhigh]
  dsimp only
  -- the pointer is stored before the text, so that the memory may have changed
  by_cases hslot : m.holds slot 4
  · have hword : writeWord slot cursor m
        = (.ok (), m.store slot (Bytes.littleEndian 4 cursor.toNat)) := by
      rw [writeWord, write_apply (by simp), Bytes.length_littleEndian, if_pos hslot]
    rw [bind_apply_ok hword]
    generalize hfirst : m.store slot (Bytes.littleEndian 4 cursor.toNat) = m₁
    have hholds : ∀ start length, m₁.holds start length = m.holds start length := by
      intro start length
      rw [← hfirst, holds_store]
    by_cases htext : (Bytes.ofString s).length < 2 ^ 32
        ∧ m₁.holds cursor.toNat (Bytes.ofString s).length
    · rw [bind_apply_ok ((write_apply htext.1 _ _).trans (if_pos htext.2))]
      by_cases hend : 2 ^ 32 ≤ cursor.toNat + (Bytes.ofString s).length
      · rw [if_pos hend]
        exact ⟨_, bind_apply_error rfl⟩
      · -- only the zero byte after the text is left to run past the end
        rw [if_neg hend]
        refine ⟨_, bind_apply_error (write_apply_error fun _ hzero => h ⟨hslot, ?_⟩)⟩
        rw [holds_store, hholds] at hzero
        rw [length_terminated, holds, decide_eq_true_eq, ← Nat.add_assoc]
        rwa [holds, decide_eq_true_eq] at hzero
    · exact ⟨m₁, bind_apply_error (write_apply_error fun hlength hin => htext ⟨hlength, hin⟩)⟩
  · refine ⟨m, bind_apply_error (write_apply_error fun _ hin => hslot ?_)⟩
    rwa [Bytes.length_littleEndian] at hin

/-- The address after a text that ends before the last one. -/
theorem sum_finish {σ : Type} (h : cursor.toNat + (terminated s).length < 2 ^ 32) :
    (PanicM.sum (UInt32.ofNat (cursor.toNat + (Bytes.ofString s).length)) 1 : PanicM σ UInt32)
      = pure (UInt32.ofNat (cursor.toNat + (terminated s).length)) := by
  have hlength := length_terminated s
  have hfinish : (UInt32.ofNat (cursor.toNat + (Bytes.ofString s).length)).toNat
      = cursor.toNat + (Bytes.ofString s).length :=
    UInt32.toNat_ofNat_of_lt' (show _ < 2 ^ 32 by omega)
  rw [PanicM.sum_of_lt (by rw [hfinish, UInt32.toNat_one]; omega), hlength, ← Nat.add_assoc,
    UInt32.ofNat_add _ 1]
  rfl

/-- One text and its address fit in memory, and the other ones follow. -/
theorem writeTexts_cons_apply (hsize : m.size ≤ 2 ^ 32) (hslot : m.holds slot 4)
    (htext : m.holds cursor.toNat (terminated s).length)
    (hlt : cursor.toNat + (terminated s).length < 2 ^ 32) :
    writeTexts slot cursor (s :: rest) m
      = writeTexts (slot + 4) (UInt32.ofNat (cursor.toNat + (terminated s).length)) rest
          (m.withText slot cursor.toNat s) := by
  rw [writeTexts, bind_apply_ok (PanicM.liftM_apply_ok (writeText_apply hsize hslot htext)),
    sum_finish hlt, pure_bind]

/-- Without room for the first text or its pointer it is a fault. -/
theorem exists_writeTexts_cons_error
    (h : ¬ (m.holds slot 4 ∧ m.holds cursor.toNat (terminated s).length)) :
    ∃ m', writeTexts slot cursor (s :: rest) m = (.error (.errno .fault), m') := by
  obtain ⟨m', hfirst⟩ := exists_writeText_error h
  exact ⟨m', by rw [writeTexts, bind_apply_error (PanicM.liftM_apply_error hfirst)]⟩

/-- With enough room all texts are stored. -/
theorem writeTexts_apply (hsize : m.size < 2 ^ 32)
    (hslots : texts ≠ [] → m.holds slot (4 * texts.length))
    (hplace : texts ≠ [] → m.holds cursor.toNat (terminatedAll texts).length) :
    writeTexts slot cursor texts m = (.ok (), m.withTexts slot cursor.toNat texts) := by
  induction texts generalizing m slot cursor with
  | nil => rfl
  | cons s rest ih =>
    have hslot := hslots (List.cons_ne_nil s rest)
    have htexts := hplace (List.cons_ne_nil s rest)
    rw [List.length_cons] at hslot
    rw [terminatedAll_cons, List.length_append] at htexts
    have hend : cursor.toNat + ((terminated s).length + (terminatedAll rest).length) ≤ m.size := by
      simpa only [holds, decide_eq_true_eq] using htexts
    have hcursor : (UInt32.ofNat (cursor.toNat + (terminated s).length)).toNat
        = cursor.toNat + (terminated s).length := UInt32.toNat_ofNat_of_lt' (by
      show _ < 2 ^ 32
      omega)
    rw [writeTexts_cons_apply hsize.le (holds_mono hslot (by omega)) (holds_mono htexts (by omega))
      (by omega), ih, hcursor, withTexts]
    · rwa [size_withText]
    · intro _
      rw [holds_withText]
      exact holds_mono hslot (by omega)
    · intro _
      rw [holds_withText, hcursor]
      exact holds_mono htexts (by omega)

/-- Texts that run past the end of memory are a fault. -/
theorem exists_writeTexts_error (slot : Nat) (hne : texts ≠ [])
    (hplace : ¬ m.holds cursor.toNat (terminatedAll texts).length) (hsize : m.size < 2 ^ 32) :
    ∃ m', writeTexts slot cursor texts m = (.error (.errno .fault), m') := by
  induction texts generalizing m slot cursor with
  | nil => exact absurd rfl hne
  | cons s rest ih =>
    by_cases hfirst : m.holds slot 4 ∧ m.holds cursor.toNat (terminated s).length
    · rw [terminatedAll_cons, List.length_append] at hplace
      have hend : cursor.toNat + (terminated s).length ≤ m.size := by
        simpa only [holds, decide_eq_true_eq] using hfirst.2
      have hpast :
          m.size < cursor.toNat + ((terminated s).length + (terminatedAll rest).length) := by
        simpa only [holds, decide_eq_true_eq, Nat.not_le] using hplace
      have hcursor : (UInt32.ofNat (cursor.toNat + (terminated s).length)).toNat
          = cursor.toNat + (terminated s).length := UInt32.toNat_ofNat_of_lt' (by
        show _ < 2 ^ 32
        omega)
      rw [writeTexts_cons_apply hsize.le hfirst.1 hfirst.2 (by omega)]
      apply ih
      · rintro rfl
        rw [terminatedAll, List.flatMap_nil, List.length_nil] at hpast
        omega
      · rw [holds_withText, hcursor, holds, decide_eq_true_eq]
        omega
      · rwa [size_withText]
    · exact exists_writeTexts_cons_error hfirst

/-- What a guest finds after its texts have been stored: addresses in one area, terminated texts in
another one, and nothing else has changed. -/
structure Received (texts : List String) (slot place : Nat) (m m' : GuestMemory) : Prop where
  size_eq : m'.size = m.size
  byte_eq : ∀ address, ¬ Covers slot (4 * texts.length) address →
    ¬ Covers place (terminatedAll texts).length address → m'.byte address = m.byte address
  area_eq : m'.area place (terminatedAll texts).length = terminatedAll texts
  covers_address : ∀ i < texts.length,
    Covers place (terminatedAll texts).length (m'.wordAt (slot + 4 * i)).toNat
  textFrom?_address : ∀ i (hi : i < texts.length),
    m'.textFrom? (m'.wordAt (slot + 4 * i)).toNat = some texts[i]

/-- Texts without NUL are read back from where their pointers lead. -/
theorem received_withTexts (hnul : ∀ s ∈ texts, '\x00' ∉ s.toList) (hsize : m.size < 2 ^ 32)
    (hplace : texts ≠ [] → m.holds place (terminatedAll texts).length)
    (h : Separate slot (4 * texts.length) place (terminatedAll texts).length) :
    Received texts slot place m (m.withTexts slot place texts) := by
  -- all pointers are below the size of the memory, and so are words
  have hentry : ∀ i (hi : i < texts.length), ∃ address,
      ((m.withTexts slot place texts).wordAt (slot + 4 * i)).toNat = address
        ∧ (m.withTexts slot place texts).area address (terminated texts[i]).length
          = terminated texts[i]
        ∧ place ≤ address
        ∧ address + (terminated texts[i]).length ≤ place + (terminatedAll texts).length
        ∧ place + (terminatedAll texts).length ≤ m.size := by
    intro i hi
    have hend : place + (terminatedAll texts).length ≤ m.size := by
      have hne : texts ≠ [] := List.ne_nil_of_length_pos (Nat.zero_lt_of_lt hi)
      simpa only [holds, decide_eq_true_eq] using hplace hne
    have hwithin := Bytes.length_terminatedAll_take_add_le hi
    obtain ⟨haddress, htext⟩ := entry_withTexts (m := m) h (by omega) hi
    refine ⟨_, ?_, htext, by omega, by omega, hend⟩
    rw [haddress]
    refine UInt32.toNat_ofNat_of_lt' ?_
    show _ < 2 ^ 32
    omega
  refine ⟨size_withTexts m slot place texts, fun address => byte_withTexts_of_not_covers,
    area_withTexts h, fun i hi => ?_, fun i hi => ?_⟩
  · obtain ⟨address, haddress, -, hstart, hend, -⟩ := hentry i hi
    have hlength := length_terminated texts[i]
    rw [haddress]
    exact ⟨hstart, by omega⟩
  · obtain ⟨address, haddress, htext, -, hend, hmemory⟩ := hentry i hi
    rw [haddress]
    refine textFrom?_of_area htext (hnul _ (List.getElem_mem hi)) ?_
    rw [size_withTexts]
    omega

end GuestMemory

/-! ## The calls -/

namespace Guest

open GuestMemory (Separate Received)

variable {g g' : Guest} {count size addresses buffer : UInt32} {texts : List String}

/-- A number that does not fit into 32 bits is not stored. -/
theorem lt_of_writeWord {n : Nat} {start : Nat}
    (h : (do onMemory (GuestMemory.writeWord start (← word n)) : CallM Unit) g = (.ok (), g')) :
    n < 2 ^ 32 := by
  by_contra hlarge
  have hword : word n = throw .overflow := if_neg hlarge
  rw [hword] at h
  cases h

/-- The memory with the number of texts and the bytes that they take. -/
def withSizes (m : GuestMemory) (count size : Nat) (texts : List String) : GuestMemory :=
  (m.store count (Bytes.littleEndian 4 texts.length)).store size
    (Bytes.littleEndian 4 (terminatedAll texts).length)

/-- The sizes of texts are stored only if both fit. -/
theorem of_textSizes_eq_ok (h : textSizes texts count size g = (.ok (), g')) :
    texts.length < 2 ^ 32 ∧ (terminatedAll texts).length < 2 ^ 32
      ∧ g' = { g with memory := withSizes g.memory count.toNat size.toNat texts } := by
  have hsplit : textSizes texts count size = (do
      (do onMemory (GuestMemory.writeWord count.toNat (← word texts.length)) : CallM Unit)
      (do onMemory (GuestMemory.writeWord size.toNat
        (← word (terminatedAll texts).length)) : CallM Unit)) := by
    rw [textSizes, Bytes.length_terminatedAll, bind_assoc]
  rw [hsplit] at h
  obtain ⟨_, mid, hcount, hsize⟩ := exists_of_bind_apply_ok h
  have hnumber := lt_of_writeWord hcount
  have hlength := lt_of_writeWord hsize
  rw [writeWord_apply hnumber] at hcount
  rw [writeWord_apply hlength] at hsize
  split at hcount
  · split at hsize
    · cases hcount
      cases hsize
      exact ⟨hnumber, hlength, rfl⟩
    · cases hsize
  · cases hcount

/-- Both sizes are read back, the number of texts if the second word leaves it alone. -/
theorem wordAt_withSizes {m : GuestMemory} {count size : Nat} (hnumber : texts.length < 2 ^ 32)
    (hlength : (terminatedAll texts).length < 2 ^ 32) :
    ((withSizes m count size texts).wordAt size).toNat = (terminatedAll texts).length
      ∧ (Separate count 4 size 4 →
        ((withSizes m count size texts).wordAt count).toNat = texts.length) := by
  have hword : ∀ {n : Nat}, n < 2 ^ 32 → (UInt32.ofNat n).toNat = n := fun hn =>
    UInt32.toNat_ofNat_of_lt' hn
  refine ⟨?_, fun hapart => ?_⟩
  · rw [GuestMemory.wordAt, withSizes, GuestMemory.toNumber_area_store _ _ hlength, hword hlength]
  · have hstored : GuestMemory.Apart count 4 size
        (Bytes.littleEndian 4 (terminatedAll texts).length).length := by
      rw [Bytes.length_littleEndian]
      exact (hapart.resolve_left (by decide)).resolve_left (by decide)
    rw [GuestMemory.wordAt, withSizes, GuestMemory.area_store_of_apart hstored,
      GuestMemory.toNumber_area_store _ _ hnumber, hword hnumber]

/-- The two lists of texts that a request gives its guest. -/
inductive TextList where
  | arguments
  | environment

namespace TextList

/-- The texts as the request gives them: variables in the order of their names. -/
def given (r : GuestRequest) : TextList → List String
  | .arguments => r.argv
  | .environment => r.env.toList.map fun (name, value) => name ++ "=" ++ value

/-- The call that asks for the sizes. -/
def sizesGet (count size : UInt32) : TextList → SystemCall
  | .arguments => .argsSizesGet count size
  | .environment => .environSizesGet count size

/-- The call that asks for the texts. -/
def get (addresses buffer : UInt32) : TextList → SystemCall
  | .arguments => .argsGet addresses buffer
  | .environment => .environGet addresses buffer

end TextList

/-- No change touches what the guest was given. -/
theorem Change.texts_eq (h : Change g g') : g'.args = g.args ∧ g'.env = g.env := by
  cases h <;> exact ⟨rfl, rfl⟩

namespace Reachable

variable {start : Guest} {r : GuestRequest} {surroundings : Surroundings} {config : EngineConfig}
variable {p : GuestProgram} {t : Tree} {cwd : String}

/-- No act changes arguments and environment. -/
theorem texts_eq (h : Reachable start g) : g.args = start.args ∧ g.env = start.env := by
  have hchanges := h.changes
  clear h
  induction hchanges with
  | refl => exact ⟨rfl, rfl⟩
  | tail _ hchange ih =>
    exact ⟨hchange.texts_eq.1.trans ih.1, hchange.texts_eq.2.trans ih.2⟩

/-- At every moment of a run the guest asks for what its request gives. -/
theorem answer_sizesGet (h : Reachable (r.guest surroundings config p t cwd) g) (l : TextList) :
    (l.sizesGet count size).answer g
      = (liftM (textSizes (l.given r) count size) : PanicM Guest Unit) g := by
  obtain ⟨hargs, henv⟩ := h.texts_eq
  cases l with
  | arguments =>
    exact congrArg (fun texts => (liftM (textSizes texts count size) : PanicM Guest Unit) g) hargs
  | environment =>
    exact congrArg (fun texts => (liftM (textSizes texts count size) : PanicM Guest Unit) g) henv

/-- The call stores the texts that the program was given. -/
theorem answer_get (h : Reachable (r.guest surroundings config p t cwd) g) (l : TextList) :
    (l.get addresses buffer).answer g
      = onMemory (GuestMemory.writeTexts addresses.toNat buffer (l.given r)) g := by
  obtain ⟨hargs, henv⟩ := h.texts_eq
  cases l with
  | arguments =>
    exact congrArg (fun texts => onMemory (GuestMemory.writeTexts addresses.toNat buffer texts) g)
      hargs
  | environment =>
    exact congrArg (fun texts => onMemory (GuestMemory.writeTexts addresses.toNat buffer texts) g)
      henv

/-- At every moment of a run, whatever the memory holds: a guest that asks for the sizes of its
arguments or variables is told how many there are and how much room they take; with that much room
for the texts and for their addresses, apart from each other, it receives them; and where the end of
memory leaves less room for the texts, the call is a fault. -/
theorem texts_arrive (h : Reachable (r.guest surroundings config p t cwd) g) (l : TextList)
    (hnul : ∀ text ∈ l.given r, '\x00' ∉ text.toList) (hmemory : g.memory.size < 2 ^ 32) :
    (∀ count size g', ((l.sizesGet count size).run true).run g = (.ok 0, g') →
      (g'.memory.wordAt size.toNat).toNat = (terminatedAll (l.given r)).length
        ∧ (Separate count.toNat 4 size.toNat 4 →
          (g'.memory.wordAt count.toNat).toNat = (l.given r).length))
    ∧ (∀ addresses buffer : UInt32,
      (l.given r ≠ [] → g.memory.holds addresses.toNat (4 * (l.given r).length)) →
      (l.given r ≠ [] → g.memory.holds buffer.toNat (terminatedAll (l.given r)).length) →
      Separate addresses.toNat (4 * (l.given r).length) buffer.toNat
        (terminatedAll (l.given r)).length →
      ∃ m, ((l.get addresses buffer).run true).run g = (.ok 0, { g with memory := m })
        ∧ Received (l.given r) addresses.toNat buffer.toNat g.memory m)
    ∧ ∀ addresses buffer : UInt32, l.given r ≠ [] →
      ¬ g.memory.holds buffer.toNat (terminatedAll (l.given r)).length →
      ∃ g', ((l.get addresses buffer).run true).run g = (.ok Errno.fault.number, g') := by
  have hending : ∀ addresses buffer : UInt32, (l.get addresses buffer).ending? false = none := by
    intro addresses buffer
    cases l <;> rfl
  refine ⟨fun count size g' hrun => ?_, fun addresses buffer hslots hplace happart => ?_,
    fun addresses buffer hne hplace => ?_⟩
  · have hanswer := SystemCall.answer_of_run hrun
    rw [h.answer_sizesGet] at hanswer
    obtain ⟨hnumber, hlength, rfl⟩ :=
      of_textSizes_eq_ok (PanicM.of_liftM_apply_eq_ok hanswer)
    exact wordAt_withSizes hnumber hlength
  · have hwrite := GuestMemory.writeTexts_apply hmemory hslots hplace
    exact ⟨_, SystemCall.run_eq_zero ((h.answer_get l).trans (onMemory_apply hwrite)) h.not_mounted
      (hending addresses buffer), GuestMemory.received_withTexts hnul hmemory hplace happart⟩
  -- the writing goes up to the first text without room, and faults there
  · obtain ⟨m, hwrite⟩ := GuestMemory.exists_writeTexts_error addresses.toNat hne hplace hmemory
    exact ⟨_, SystemCall.run_eq_number ((h.answer_get l).trans (onMemory_apply hwrite))
      h.not_mounted (hending addresses buffer)⟩

end Reachable

/-- A request with an empty argument, a longer character and two variables. -/
def greeting : GuestRequest where
  module := .program {}
  argv := ["prog", "", "é"]
  env := (∅ : Environment).insert "B" "x=y" |>.insert "A" ""
  source := .snapshot ∅

/-- Its guest at the start. -/
def greeted : Guest :=
  greeting.guest {} {} {} ⟨∅, ∅⟩ ""

theorem texts_arrive_greeted : (∃ start, Reachable start greeted)
    ∧ greeted.memory.size < 2 ^ 32
    ∧ (∃ g', ((TextList.sizesGet 0 4 .arguments).run true).run greeted = (.ok 0, g')
      ∧ (g'.memory.wordAt 4).toNat = 9)
    ∧ (∃ m, ((TextList.get 0 16 .arguments).run true).run greeted
        = (.ok 0, { greeted with memory := m })
      ∧ m.area 16 9 = Bytes.ofString "prog\x00\x00é\x00"
      ∧ m.textFrom? (m.wordAt 8).toNat = some "é")
    ∧ (∃ m, ((TextList.get 0 16 .environment).run true).run greeted
        = (.ok 0, { greeted with memory := m })
      ∧ m.textFrom? (m.wordAt 4).toNat = some "B=x=y")
    ∧ ∃ g', ((TextList.get 0 65530 .arguments).run true).run greeted
      = (.ok Errno.fault.number, g') := by
  have hreachable : Reachable greeted greeted :=
    ⟨⟨greeting, {}, {}, {}, ⟨∅, ∅⟩, "", Path.isNormal_empty, rfl⟩, .refl⟩
  have hmemory : greeted.memory.size < 2 ^ 32 := by decide
  have henvironment : TextList.environment.given greeting = ["A=", "B=x=y"] := by decide +kernel
  obtain ⟨hsizes, hget, hfault⟩ := hreachable.texts_arrive .arguments (by decide) hmemory
  have hvariables := hreachable.texts_arrive .environment (by rw [henvironment]; decide) hmemory
  rw [henvironment] at hvariables
  refine ⟨⟨greeted, hreachable⟩, hmemory, ?_, ?_, ?_, hfault 0 65530 (by decide) (by decide)⟩
  · have hrun : (((TextList.sizesGet 0 4 .arguments).run true).run greeted).1 = .ok 0 := by
      decide +kernel
    exact ⟨_, Prod.ext hrun rfl, (hsizes 0 4 _ (Prod.ext hrun rfl)).1⟩
  · obtain ⟨m, hrun, hreceived⟩ := hget 0 16 (by decide) (by decide) (by decide)
    exact ⟨m, hrun, hreceived.area_eq.trans (by decide), hreceived.textFrom?_address 2 (by decide)⟩
  · obtain ⟨m, hrun, hreceived⟩ := hvariables.2.1 0 16 (by decide) (by decide) (by decide)
    exact ⟨m, hrun, hreceived.textFrom?_address 1 (by decide)⟩

end Guest

end Sandshell
