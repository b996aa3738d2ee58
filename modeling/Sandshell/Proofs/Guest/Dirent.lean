import Sandshell.Guest.Call.Path
import Sandshell.Proofs.Guest.Memory

/-!
# Records of entries

The records of a listing stand one after the other in a buffer, and the last one may be cut. A guest
that reads all complete records gets the first entries of the listing, as many as the buffer holds.
-/

namespace Sandshell

/-- What a record tells about an entry. -/
structure Dirent where
  /-- The place of the next entry. -/
  next : Nat
  /-- The inode number. -/
  number : Nat
  kind : UInt8
  name : Bytes
deriving DecidableEq, Repr, Inhabited

namespace Dirent

/-- All of the record but the name. -/
def header (d : Dirent) : Bytes :=
  Bytes.littleEndian 8 d.next ++ Bytes.littleEndian 8 d.number
    ++ Bytes.littleEndian 4 d.name.length ++ [d.kind, 0, 0, 0]

/-- The bytes of the record. -/
def encode (d : Dirent) : Bytes :=
  d.header ++ d.name

/-- All numbers of the record fit into their fields. -/
structure Fits (d : Dirent) : Prop where
  next_lt : d.next < 2 ^ 64
  number_lt : d.number < 2 ^ 64
  name_lt : d.name.length < 2 ^ 32

/-- Reads a record from the start of data unless it is cut. -/
def read? (data : Bytes) : Option (Dirent × Bytes) :=
  let length := Bytes.toNumber ((data.drop 16).take 4)
  if 24 + length ≤ data.length then
    some ({
      next := Bytes.toNumber (data.take 8)
      number := Bytes.toNumber ((data.drop 8).take 8)
      kind := (data.drop 20).headD 0
      name := (data.drop 24).take length }, data.drop (24 + length))
  else none

/-- Each record that is read takes some of the bytes. -/
theorem length_lt_of_read? {data rest : Bytes} {d : Dirent} (h : read? data = some (d, rest)) :
    rest.length < data.length := by
  rw [read?] at h
  split at h
  · cases h
    rw [List.length_drop]
    omega
  · cases h

/-- All records at the start of data that are not cut. -/
def readAll (data : Bytes) : List Dirent :=
  match _h : read? data with
  | none => []
  | some (d, rest) => d :: readAll rest
termination_by data.length
decreasing_by exact length_lt_of_read? _h

variable {d : Dirent} {data rest : Bytes} {ds : List Dirent} {n : Nat}

@[simp] theorem length_header (d : Dirent) : d.header.length = 24 := by
  simp [header]

@[simp] theorem length_encode (d : Dirent) : d.encode.length = 24 + d.name.length := by
  rw [encode, List.length_append, length_header]

/-! ## Reading one record -/

/-- After the header of a record its name is read, if all of it is there. -/
theorem read?_header (h : d.Fits) (data : Bytes) : read? (d.header ++ data) =
    if d.name.length ≤ data.length then
      some ({ d with name := data.take d.name.length }, data.drop d.name.length)
    else none := by
  -- where each field stands
  have hnext : (d.header ++ data).take 8 = Bytes.littleEndian 8 d.next := by
    simp only [header, List.append_assoc]
    exact List.take_left' (Bytes.length_littleEndian 8 _)
  have hnumber : ((d.header ++ data).drop 8).take 8 = Bytes.littleEndian 8 d.number := by
    simp only [header, List.append_assoc]
    rw [List.drop_left' (Bytes.length_littleEndian 8 _)]
    exact List.take_left' (Bytes.length_littleEndian 8 _)
  have hdrop : (d.header ++ data).drop 16
      = Bytes.littleEndian 4 d.name.length ++ ([d.kind, 0, 0, 0] ++ data) := by
    simp only [header, List.append_assoc]
    rw [← List.append_assoc]
    exact List.drop_left' (by simp)
  have hlength : ((d.header ++ data).drop 16).take 4 = Bytes.littleEndian 4 d.name.length := by
    rw [hdrop]
    exact List.take_left' (Bytes.length_littleEndian 4 _)
  have hkind : (d.header ++ data).drop 20 = [d.kind, 0, 0, 0] ++ data := by
    rw [show 20 = 16 + 4 from rfl, ← List.drop_drop, hdrop]
    exact List.drop_left' (Bytes.length_littleEndian 4 _)
  have hname : (d.header ++ data).drop 24 = data := List.drop_left' (length_header d)
  have hrest : (d.header ++ data).drop (24 + d.name.length) = data.drop d.name.length := by
    rw [← List.drop_drop, hname]
  have hfits : 24 + d.name.length ≤ (d.header ++ data).length ↔ d.name.length ≤ data.length := by
    rw [List.length_append, length_header]
    omega
  -- what the numbers are read as
  have hnext' : (Bytes.littleEndian 8 d.next).toNumber = d.next :=
    Bytes.toNumber_littleEndian h.next_lt
  have hnumber' : (Bytes.littleEndian 8 d.number).toNumber = d.number :=
    Bytes.toNumber_littleEndian h.number_lt
  have hlength' : (Bytes.littleEndian 4 d.name.length).toNumber = d.name.length :=
    Bytes.toNumber_littleEndian h.name_lt
  rw [read?, hnext, hnumber, hlength, hkind, hname, hnext', hnumber', hlength',
    hrest]
  exact if_congr hfits rfl rfl

/-- A record is read back from its own bytes, whatever comes after them. -/
theorem read?_encode_append (h : d.Fits) (rest : Bytes) :
    read? (d.encode ++ rest) = some (d, rest) := by
  rw [encode, List.append_assoc, read?_header h, List.take_left, List.drop_left, if_pos (by simp)]

/-- Nothing is read of a record that is cut, wherever it is cut. -/
theorem read?_take_encode (h : d.Fits) (hn : n < d.encode.length) : read? (d.encode.take n) = none := by
  by_cases hheader : n < 24
  · rw [read?, if_neg]
    rw [List.length_take]
    omega
  · have hcut : d.encode.take n = d.header ++ d.name.take (n - 24) := by
      rw [encode, List.take_append, List.take_of_length_le (by simpa using hheader), length_header]
    rw [length_encode] at hn
    rw [hcut, read?_header h, if_neg]
    rw [List.length_take]
    omega

/-! ## Reading all records -/

/-- Where no record can be read, none follow. -/
theorem readAll_of_none (h : read? data = none) : readAll data = [] := by
  rw [readAll]
  split
  · rfl
  · next hread =>
    rw [h] at hread
    cases hread

theorem readAll_of_some (h : read? data = some (d, rest)) : readAll data = d :: readAll rest := by
  rw [readAll]
  split
  · next hread =>
    rw [h] at hread
    cases hread
  · next hread =>
    rw [h] at hread
    cases hread
    rfl

/-- The first records that are complete in so many bytes. -/
def complete : (room : Nat) → List Dirent → List Dirent
  | _, [] => []
  | room, d :: ds =>
    if d.encode.length ≤ room then d :: complete (room - d.encode.length) ds else []

/-- All that is read of records that are cut somewhere are the complete ones. -/
theorem readAll_take (h : ∀ d ∈ ds, d.Fits) (n : Nat) :
    readAll ((ds.flatMap encode).take n) = complete n ds := by
  induction ds generalizing n with
  | nil =>
    rw [List.flatMap_nil, List.take_nil]
    exact readAll_of_none rfl
  | cons d ds ih =>
    rw [List.forall_mem_cons] at h
    rw [List.flatMap_cons, complete, List.take_append]
    split
    · next hfits =>
      rw [List.take_of_length_le hfits, readAll_of_some (read?_encode_append h.1 _), ih h.2]
    · next hcut =>
      rw [Nat.sub_eq_zero_of_le (by omega), List.take_zero, List.append_nil]
      exact readAll_of_none (read?_take_encode h.1 (by omega))

/-- The records that fit into a buffer come first. -/
theorem complete_prefix (room : Nat) (ds : List Dirent) : complete room ds <+: ds := by
  induction ds generalizing room with
  | nil => exact List.prefix_refl _
  | cons d ds ih =>
    rw [complete]
    split
    · exact (List.prefix_cons_inj d).2 (ih _)
    · exact List.nil_prefix

/-- Where there is room left all records are complete. -/
theorem complete_eq_self (h : ((ds.flatMap encode).take n).length < n) : complete n ds = ds := by
  induction ds generalizing n with
  | nil => rfl
  | cons d ds ih =>
    rw [List.flatMap_cons, List.take_append, List.length_append, List.length_take] at h
    have hfits : d.encode.length ≤ n := by omega
    rw [complete, if_pos hfits, ih (by omega)]

/-- A buffer with room for the first record has at least this one. -/
theorem complete_ne_nil (h : d.encode.length ≤ n) : complete n (d :: ds) ≠ [] := by
  rw [complete, if_pos h]
  exact List.cons_ne_nil _ _

end Dirent

end Sandshell
