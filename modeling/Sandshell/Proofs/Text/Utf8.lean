import Mathlib.Data.List.Basic
import Mathlib.Data.String.Basic
import Mathlib.Tactic.SplitIfs
import Sandshell.Text.Utf8

/-!
# Reading what was written

Text that is written as UTF-8 reads as itself: each character is read off its own bytes, whatever
follows them. And nothing else reads as a text: bytes without a malformed piece are the UTF-8 form
of what is read.
-/

namespace Sandshell.Bytes

variable {lead b : UInt8} {rest : Bytes}

/-! ## Bytes by their numbers -/

/-- The first byte says how many there are. -/
theorem sequenceLength_eq (b : UInt8) : sequenceLength b =
    if b.toNat < 128 then 1
    else if 194 ≤ b.toNat ∧ b.toNat ≤ 223 then 2
    else if 224 ≤ b.toNat ∧ b.toNat ≤ 239 then 3
    else if 240 ≤ b.toNat ∧ b.toNat ≤ 244 then 4
    else 0 := by
  simp only [sequenceLength, UInt8.lt_iff_toNat_lt, UInt8.le_iff_toNat_le]
  rfl

/-- Which second bytes may follow a lead byte. -/
theorem secondByteRange_iff :
    (secondByteRange lead).1 ≤ b ∧ b ≤ (secondByteRange lead).2 ↔
      128 ≤ b.toNat ∧ b.toNat < 192 ∧ (lead.toNat = 224 → 160 ≤ b.toNat)
        ∧ (lead.toNat = 237 → b.toNat < 160) ∧ (lead.toNat = 240 → 144 ≤ b.toNat)
        ∧ (lead.toNat = 244 → b.toNat < 144) := by
  simp only [secondByteRange, ← UInt8.toNat_inj, UInt8.le_iff_toNat_le]
  split_ifs <;> simp_all <;> omega

/-- Bytes that continue a character are those from 128 to 191. -/
theorem continuation_range_iff :
    (0x80 : UInt8) ≤ b ∧ b ≤ 0xBF ↔ 128 ≤ b.toNat ∧ b.toNat < 192 := by
  simp only [UInt8.le_iff_toNat_le]
  exact and_congr_right fun _ => Nat.lt_succ_iff.symm

/-! ## One character -/

/-- Continuation bytes, the first of them within a range. -/
def IsTail (range : UInt8 × UInt8) : Bytes → Prop
  | [] => True
  | b :: rest => (range.1 ≤ b ∧ b ≤ range.2) ∧ IsTail (0x80, 0xBF) rest

/-- All of a tail continues the character, whatever follows. -/
theorem continuation_append {range : UInt8 × UInt8} {tail : Bytes} (h : IsTail range tail) :
    continuation range tail.length (tail ++ rest) = tail := by
  induction tail generalizing range with
  | nil => rw [List.length_nil, continuation.eq_def]
  | cons b more ih =>
    rw [List.length_cons, List.cons_append, continuation, if_pos h.1, ih h.2]

/-- A lead byte with all its continuation bytes is read as one code point. -/
theorem decodeOne_append {tail : Bytes} (hlength : sequenceLength lead = tail.length + 1)
    (htail : IsTail (secondByteRange lead) tail) :
    decodeOne lead (tail ++ rest) = (some (Char.ofNat (codePoint lead tail)), tail.length) := by
  rw [decodeOne, hlength]
  simp only [continuation_append htail, if_true]

/-- A lead byte with all its continuation bytes, which stand for a number. -/
def Spells (bytes : Bytes) (v : Nat) : Prop :=
  ∃ lead tail, bytes = lead :: tail ∧ sequenceLength lead = tail.length + 1
    ∧ IsTail (secondByteRange lead) tail ∧ codePoint lead tail = v

theorem toNat_ofNat {n : Nat} (hn : n < 256) : (UInt8.ofNat n).toNat = n := by
  rw [UInt8.toNat_ofNat']
  exact Nat.mod_eq_of_lt hn

/-- Seven bits take one byte. -/
theorem spells_one {v : Nat} (h : v ≤ 0x7F) : Spells [UInt8.ofNat v] v := by
  refine ⟨_, _, rfl, ?_, trivial, ?_⟩
  · rw [sequenceLength_eq, toNat_ofNat (by omega), if_pos (by omega)]
    rfl
  · simp only [codePoint, List.length_nil, List.foldl_nil]
    exact toNat_ofNat (by omega)

/-- Eleven bits take two. -/
theorem spells_two {v : Nat} (hmin : 0x7F < v) (hmax : v ≤ 0x7FF) :
    Spells [UInt8.ofNat (v / 64 % 0x20 + 0xC0), UInt8.ofNat (v % 0x40 + 0x80)] v := by
  refine ⟨_, _, rfl, ?_, ⟨?_, trivial⟩, ?_⟩
  · rw [sequenceLength_eq, toNat_ofNat (by omega), if_neg (by omega), if_pos (by omega)]
    rfl
  · rw [secondByteRange_iff, toNat_ofNat (by omega), toNat_ofNat (by omega)]
    omega
  · simp only [codePoint, List.length_cons, List.length_nil, List.foldl_cons, List.foldl_nil]
    rw [toNat_ofNat (by omega), toNat_ofNat (by omega)]
    omega

/-- Numbers of surrogates are not spelled. -/
theorem spells_three {v : Nat} (hmin : 0x7FF < v) (hmax : v ≤ 0xFFFF)
    (hvalid : v < 0xD800 ∨ 0xDFFF < v) :
    Spells [UInt8.ofNat (v / 4096 % 0x10 + 0xE0), UInt8.ofNat (v / 64 % 0x40 + 0x80),
      UInt8.ofNat (v % 0x40 + 0x80)] v := by
  refine ⟨_, _, rfl, ?_, ⟨?_, ?_, trivial⟩, ?_⟩
  · rw [sequenceLength_eq, toNat_ofNat (by omega), if_neg (by omega), if_neg (by omega),
      if_pos (by omega)]
    rfl
  · rw [secondByteRange_iff, toNat_ofNat (by omega), toNat_ofNat (by omega)]
    omega
  · rw [continuation_range_iff, toNat_ofNat (by omega)]
    omega
  · simp only [codePoint, List.length_cons, List.length_nil, List.foldl_cons, List.foldl_nil]
    rw [toNat_ofNat (by omega), toNat_ofNat (by omega), toNat_ofNat (by omega)]
    omega

/-- What is beyond 16 bits takes four. -/
theorem spells_four {v : Nat} (hmin : 0xFFFF < v) (hmax : v < 0x110000) :
    Spells [UInt8.ofNat (v / 262144 % 0x08 + 0xF0), UInt8.ofNat (v / 4096 % 0x40 + 0x80),
      UInt8.ofNat (v / 64 % 0x40 + 0x80), UInt8.ofNat (v % 0x40 + 0x80)] v := by
  refine ⟨_, _, rfl, ?_, ⟨?_, ?_, ?_, trivial⟩, ?_⟩
  · rw [sequenceLength_eq, toNat_ofNat (by omega), if_neg (by omega), if_neg (by omega),
      if_neg (by omega), if_pos (by omega)]
    rfl
  · rw [secondByteRange_iff, toNat_ofNat (by omega), toNat_ofNat (by omega)]
    omega
  · rw [continuation_range_iff, toNat_ofNat (by omega)]
    omega
  · rw [continuation_range_iff, toNat_ofNat (by omega)]
    omega
  · simp only [codePoint, List.length_cons, List.length_nil, List.foldl_cons, List.foldl_nil]
    rw [toNat_ofNat (by omega), toNat_ofNat (by omega), toNat_ofNat (by omega),
      toNat_ofNat (by omega)]
    omega

/-- The UTF-8 form of a character spells its number. -/
theorem spells_utf8EncodeChar (c : Char) : Spells (String.utf8EncodeChar c) c.toNat := by
  have hvalid : c.val.toNat < 0xD800 ∨ 0xDFFF < c.val.toNat ∧ c.val.toNat < 0x110000 := c.valid
  rw [String.utf8EncodeChar, show c.toNat = c.val.toNat from rfl]
  generalize c.val.toNat = v at hvalid ⊢
  -- a character is no surrogate, which the second byte of three has to show
  split_ifs with h1 h2 h3
  · exact spells_one h1
  · exact spells_two (by omega) h2
  · exact spells_three (by omega) h3 (by omega)
  · exact spells_four (by omega) (by omega)

/-! ## Texts -/

/-- An encoded character is decoded first. -/
theorem decodeFrom_append (read : List (Option Char)) (c : Char) (rest : Bytes) :
    decodeFrom read (String.utf8EncodeChar c ++ rest) = decodeFrom (some c :: read) rest := by
  obtain ⟨lead, tail, hchar, hlength, htail, hpoint⟩ := spells_utf8EncodeChar c
  rw [hchar, List.cons_append, decodeFrom, decodeOne_append hlength htail, hpoint, Char.ofNat_toNat]
  simp only [List.drop_left]

/-- Encoded characters are decoded one by one. -/
theorem decodeFrom_flatMap (read : List (Option Char)) (chars : List Char) :
    decodeFrom read (chars.flatMap String.utf8EncodeChar) = read.reverse ++ chars.map some := by
  induction chars generalizing read with
  | nil => simp [decodeFrom]
  | cons c rest ih =>
    rw [List.flatMap_cons, decodeFrom_append, ih]
    simp

/-- A text is decoded to its characters. -/
theorem decode_ofString (s : String) : decode (ofString s) = s.toList.map some := by
  rw [decode, ofString, decodeFrom_flatMap]
  rfl

theorem mapM_id_eq_some {chars : List (Option Char)} {text : List Char} :
    chars.mapM id = some text ↔ chars = text.map some := by
  induction chars generalizing text with
  | nil => cases text <;> simp
  | cons c rest ih =>
    cases c with
    | none => cases text <;> simp
    | some c => cases text <;> simp [Option.bind_eq_some_iff, ih, and_comm]

/-- A text reads as itself. -/
theorem text?_ofString (s : String) : text? (ofString s) = some s := by
  rw [text?, decode_ofString, mapM_id_eq_some.2 rfl, Option.map_some, String.ofList_toList]

/-- Different texts have different bytes. -/
theorem ofString_injective : Function.Injective ofString := by
  intro s s' h
  have htext := congrArg text? h
  rwa [text?_ofString, text?_ofString, Option.some.injEq] at htext

theorem length_ofString (s : String) : (ofString s).length = s.utf8ByteSize := by
  rw [← String.utf8Len_toList, ofString]
  induction s.toList with
  | nil => rfl
  | cons c rest ih =>
    rw [List.flatMap_cons, List.length_append, ih, String.length_utf8EncodeChar,
      String.utf8Len_cons, Nat.add_comm]

/-! ## What is read back -/

theorem ofNat_eq {n : Nat} (h : n = b.toNat) : UInt8.ofNat n = b := by
  rw [h, UInt8.ofNat_toNat]

theorem toNat_charOfNat {v : Nat} (h : v < 0xD800 ∨ 0xDFFF < v ∧ v < 0x110000) :
    (Char.ofNat v).val.toNat = v := by
  rw [Char.ofNat, dif_pos h]
  rfl

/-- What spells a number is the UTF-8 form of the character with that number. -/
theorem Spells.utf8EncodeChar_ofNat {bytes : Bytes} {v : Nat} (h : Spells bytes v) :
    String.utf8EncodeChar (Char.ofNat v) = bytes := by
  obtain ⟨lead, tail, rfl, hlength, htail, rfl⟩ := h
  rw [sequenceLength_eq] at hlength
  rw [String.utf8EncodeChar]
  -- the number of further bytes decides the range of the first one, and so its case of the encoder
  match tail, htail with
  | [], _ =>
    have hlead : lead.toNat < 128 := by
      simp only [List.length_nil] at hlength
      split_ifs at hlength <;> omega
    have hv : codePoint lead [] = lead.toNat := rfl
    rw [hv, toNat_charOfNat (by omega), if_pos (by omega), UInt8.ofNat_toNat]
  | [b], ⟨hb, _⟩ =>
    rw [secondByteRange_iff] at hb
    have hlead : 194 ≤ lead.toNat ∧ lead.toNat ≤ 223 := by
      simp only [List.length_nil, List.length_cons] at hlength
      split_ifs at hlength <;> omega
    have hv : codePoint lead [b] = lead.toNat % 32 * 64 + b.toNat % 64 := rfl
    rw [hv, toNat_charOfNat (by omega), if_neg (by omega), if_pos (by omega),
      ofNat_eq (b := lead) (by omega), ofNat_eq (b := b) (by omega)]
  | [b, c], ⟨hb, hc, _⟩ =>
    rw [secondByteRange_iff] at hb
    rw [continuation_range_iff] at hc
    have hlead : 224 ≤ lead.toNat ∧ lead.toNat ≤ 239 := by
      simp only [List.length_nil, List.length_cons] at hlength
      split_ifs at hlength <;> omega
    have hv : codePoint lead [b, c]
        = (lead.toNat % 16 * 64 + b.toNat % 64) * 64 + c.toNat % 64 := rfl
    rw [hv, toNat_charOfNat (by omega), if_neg (by omega), if_neg (by omega), if_pos (by omega),
      ofNat_eq (b := lead) (by omega), ofNat_eq (b := b) (by omega), ofNat_eq (b := c) (by omega)]
  | [b, c, d], ⟨hb, hc, hd, _⟩ =>
    rw [secondByteRange_iff] at hb
    rw [continuation_range_iff] at hc hd
    have hlead : 240 ≤ lead.toNat ∧ lead.toNat ≤ 244 := by
      simp only [List.length_nil, List.length_cons] at hlength
      split_ifs at hlength <;> omega
    have hv : codePoint lead [b, c, d]
        = ((lead.toNat % 8 * 64 + b.toNat % 64) * 64 + c.toNat % 64) * 64 + d.toNat % 64 := rfl
    rw [hv, toNat_charOfNat (by omega), if_neg (by omega), if_neg (by omega), if_neg (by omega),
      ofNat_eq (b := lead) (by omega), ofNat_eq (b := b) (by omega), ofNat_eq (b := c) (by omega),
      ofNat_eq (b := d) (by omega)]
  | _ :: _ :: _ :: _ :: _, _ =>
    simp only [List.length_cons] at hlength
    split_ifs at hlength <;> omega

/-- What continues a character is a tail of it. -/
theorem isTail_continuation (range : UInt8 × UInt8) (n : Nat) (bytes : Bytes) :
    IsTail range (continuation range n bytes) := by
  fun_induction continuation range n bytes with
  | case1 range n b rest h ih => exact ⟨h, ih⟩
  | case2 => trivial
  | case3 => trivial

theorem prefix_continuation (range : UInt8 × UInt8) (n : Nat) (bytes : Bytes) :
    continuation range n bytes <+: bytes := by
  fun_induction continuation range n bytes with
  | case1 range n b rest h ih => exact List.cons_prefix_cons.2 ⟨rfl, ih⟩
  | case2 => exact List.nil_prefix
  | case3 => exact List.nil_prefix

/-- A character that is read is spelled by the bytes that are taken for it. -/
theorem decodeOne_eq_some {c : Char} {used : Nat} (h : decodeOne lead rest = (some c, used)) :
    String.utf8EncodeChar c = lead :: rest.take used := by
  rw [decodeOne] at h
  split at h
  · cases h
  next n hn =>
    simp only at h
    split_ifs at h with hlength
    · simp only [Prod.mk.injEq, Option.some.injEq] at h
      obtain ⟨rfl, rfl⟩ := h
      have hspells : Spells (lead :: continuation (secondByteRange lead) n rest) _ :=
        ⟨_, _, rfl, by rw [hn, hlength], isTail_continuation _ _ _, rfl⟩
      rw [hspells.utf8EncodeChar_ofNat]
      have hprefix := List.prefix_iff_eq_take.1 (prefix_continuation (secondByteRange lead) n rest)
      rw [hlength] at hprefix
      rw [← hprefix]
    · simp only [Prod.mk.injEq, reduceCtorEq, false_and] at h

/-- Bytes that are read without a malformed piece are the UTF-8 form of what is read. -/
theorem eq_flatMap_of_decodeFrom {read chars : List (Option Char)} {bytes : Bytes}
    (h : decodeFrom read bytes = chars) (hchars : ∀ c ∈ chars, c.isSome) :
    ∃ more : List Char, chars = read.reverse ++ more.map some
      ∧ bytes = more.flatMap String.utf8EncodeChar := by
  fun_induction decodeFrom read bytes with
  | case1 read => exact ⟨[], by simp [h], rfl⟩
  | case2 read b rest c used hone ih =>
    obtain ⟨more, hmore, hrest⟩ := ih h
    obtain ⟨c, rfl⟩ : ∃ c', c = some c' :=
      Option.isSome_iff_exists.1 (hchars c (by simp [hmore]))
    refine ⟨c :: more, by simp [hmore], ?_⟩
    rw [List.flatMap_cons, decodeOne_eq_some hone, ← hrest, List.cons_append,
      List.take_append_drop]

/-- Exactly the UTF-8 form of a text reads as that text. -/
theorem text?_eq_some {bytes : Bytes} {s : String} : text? bytes = some s ↔ bytes = ofString s := by
  refine ⟨fun h => ?_, fun h => h ▸ text?_ofString s⟩
  rw [text?, Option.map_eq_some_iff] at h
  obtain ⟨chars, hchars, rfl⟩ := h
  rw [mapM_id_eq_some] at hchars
  obtain ⟨more, hmore, hbytes⟩ := eq_flatMap_of_decodeFrom hchars (by simp)
  rw [List.reverse_nil, List.nil_append] at hmore
  have hsame : chars = more := (List.map_inj_right fun _ _ => Option.some.inj).1 hmore
  rw [hbytes, ofString, String.toList_ofList, hsame]

/-- Nothing of a text is lost. -/
theorem lossyText_ofString (s : String) : lossyText (ofString s) = s := by
  rw [lossyText, decode_ofString, List.map_map]
  simp [Function.comp_def]

/-- Exactly what is well-formed is left as it is by a reading that replaces malformed pieces. -/
theorem ofString_lossyText_iff {bytes : Bytes} :
    ofString (lossyText bytes) = bytes ↔ (text? bytes).isSome := by
  constructor
  · intro h
    rw [← h, text?_ofString]
    rfl
  · intro h
    obtain ⟨s, hs⟩ := Option.isSome_iff_exists.1 h
    rw [text?_eq_some.1 hs, lossyText_ofString]

end Sandshell.Bytes
