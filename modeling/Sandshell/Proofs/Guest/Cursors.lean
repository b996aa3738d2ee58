import Mathlib.Data.List.GetD
import Mathlib.Logic.Function.Basic
import Sandshell.Proofs.Guest.Offsets

/-!
# Cursors in files

A table of contents and a table of cursors, one for each number. An action writes, reads or moves at
one cursor; contents are shared by all cursors in a file, and places are not.
-/

namespace Sandshell

/-- A place in a file. Writes go to the end of a file that is appended to. -/
structure Cursor where
  path : String
  offset : Nat
  append : Bool
deriving DecidableEq

/-- Where a write to the file begins that has these contents. -/
def Cursor.start (c : Cursor) (old : Bytes) : Nat :=
  if c.append then old.length else c.offset

/-- What files contain, and the cursors that numbers stand for. -/
structure OpenFiles where
  contents : String → Option Bytes
  cursors : Nat → Option Cursor
  /-- The longest file that a write may make. -/
  limit : Nat

namespace OpenFiles

/-- What can be done with an open file. -/
inductive Action where
  | write (data : Bytes)
  | read (room : Nat)
  | seek (delta : Int) (whence : Nat)
  | tell

/-- What an action answers. -/
inductive Answer where
  | wrote (count : Nat)
  | read (data : Bytes)
  | at (offset : Nat)
deriving DecidableEq

/-- How many bytes an action has transferred. -/
def Answer.size : Answer → Nat
  | .wrote count => count
  | .read data => data.length
  | .at _ => 0

/-- Contents with data put at a place; what lies between the old end and the data is zero. -/
def put (old : Bytes) (start : Nat) (data : Bytes) : Bytes :=
  (List.range (max old.length (start + data.length))).map fun i =>
    if start ≤ i ∧ i < start + data.length then data.getD (i - start) 0 else old.getD i 0

section

variable (s : OpenFiles) (fd : Nat) (c : Cursor) (old : Bytes)

/-- The cursor moves in its file. -/
def moveTo (offset : Nat) : OpenFiles :=
  { s with cursors := Function.update s.cursors fd (some { c with offset }) }

/-- The file has data put where a write begins, and the cursor moves behind it. -/
def putAt (data : Bytes) : OpenFiles :=
  { s.moveTo fd c (c.start old + data.length) with
    contents := Function.update s.contents c.path (some (put old (c.start old) data)) }

/-- Writes to the file unless it would get too long. -/
def write (data : Bytes) : Except Errno Answer × OpenFiles :=
  let finish := c.start old + data.length
  if 2 ^ 64 ≤ finish then (.error .overflow, s)
  else if s.limit < finish then (.error .fbig, s)
  else (.ok (.wrote data.length), s.putAt fd c old data)

/-- Takes what is there from the cursor on, and moves behind it. -/
def read (room : Nat) : Except Errno Answer × OpenFiles :=
  let data := (old.drop (min c.offset old.length)).take room
  (.ok (.read data), s.moveTo fd c (c.offset + data.length))

/-- The place that a move starts from: the start, the cursor or the end. -/
def base? : (whence : Nat) → Option Nat
  | 0 => some 0
  | 1 => some c.offset
  | 2 => some old.length
  | _ => none

open scoped Arithmetic in
/-- Moves the cursor to a place of 64 bits. -/
def seek (delta : Int) (whence : Nat) : Except Errno Answer × OpenFiles :=
  match base? c old whence with
  | none => (.error .inval, s)
  | some base =>
    let there := base + delta
    if there < 0 then (.error .inval, s)
    else if 2 ^ (64 : Nat) ≤ there then (.error .overflow, s)
    else (.ok (.at there.toNat), s.moveTo fd c there.toNat)

end

/-- Acts on an open file; a number that stands for none is refused. -/
def step (s : OpenFiles) (fd : Nat) (action : Action) : Except Errno Answer × OpenFiles :=
  match s.cursors fd with
  | none => (.error .badf, s)
  | some c =>
    match s.contents c.path with
    | none => (.error .badf, s)
    | some old =>
      match action with
      | .write data => s.write fd c old data
      | .read room => s.read fd c old room
      | .seek delta whence => s.seek fd c old delta whence
      | .tell => (.ok (.at c.offset), s)

/-- What actions answer that follow each other. -/
def answers (s : OpenFiles) : List (Nat × Action) → List (Except Errno Answer)
  | [] => []
  | (fd, action) :: rest => (s.step fd action).1 :: (s.step fd action).2.answers rest

/-- What actions leave that follow each other. -/
def after (s : OpenFiles) (actions : List (Nat × Action)) : OpenFiles :=
  actions.foldl (fun s (fd, action) => (s.step fd action).2) s

/-- The number stands for a file that exists. -/
def IsOpen (s : OpenFiles) (fd : Nat) : Prop :=
  ∃ c old, s.cursors fd = some c ∧ s.contents c.path = some old

variable {s : OpenFiles} {fd n : Nat} {c : Cursor} {old : Bytes} {action : Action}

/-- Moving a cursor opens and closes nothing. -/
theorem IsOpen.moveTo (h : s.IsOpen n) (hc : s.cursors fd = some c)
    (hold : s.contents c.path = some old) (offset : Nat) : (s.moveTo fd c offset).IsOpen n := by
  obtain ⟨d, contents, hd, hcontents⟩ := h
  by_cases hn : n = fd
  · subst hn
    exact ⟨{ c with offset }, old, Function.update_self _ _ _, hold⟩
  · exact ⟨d, contents, (Function.update_of_ne hn _ _).trans hd, hcontents⟩

/-- Nor does putting data where a cursor is. -/
theorem IsOpen.putAt (h : s.IsOpen n) (hc : s.cursors fd = some c)
    (hold : s.contents c.path = some old) (data : Bytes) : (s.putAt fd c old data).IsOpen n := by
  obtain ⟨d, contents, hd, hcontents⟩ := h.moveTo hc hold (c.start old + data.length)
  by_cases hpath : d.path = c.path
  · refine ⟨d, OpenFiles.put old (c.start old) data, hd, ?_⟩
    rw [hpath]
    exact Function.update_self _ _ _
  · exact ⟨d, contents, hd, (Function.update_of_ne hpath _ _).trans hcontents⟩

/-- No action closes or removes a file. -/
theorem IsOpen.step (h : s.IsOpen n) (fd : Nat) (action : Action) : (s.step fd action).2.IsOpen n := by
  unfold OpenFiles.step
  cases hc : s.cursors fd with
  | none => exact h
  | some c =>
    dsimp only
    cases hold : s.contents c.path with
    | none => exact h
    | some old =>
      cases action with
      | write data =>
        dsimp only [OpenFiles.write]
        split
        · exact h
        split
        · exact h
        · exact h.putAt hc hold data
      | read room => exact h.moveTo hc hold _
      | seek delta whence =>
        dsimp only [OpenFiles.seek]
        split
        · exact h
        split
        · exact h
        split
        · exact h
        · exact h.moveTo hc hold _
      | tell => exact h

theorem length_put (old : Bytes) (start : Nat) (data : Bytes) :
    (put old start data).length = max old.length (start + data.length) := by
  rw [put, List.length_map, List.length_range]

/-- The gap is filled, the data stands at its place, and all other bytes stay. -/
theorem overwrite_eq_put (old : Bytes) (start : Nat) (data : Bytes) :
    Guest.overwrite old start data = put old start data := by
  refine List.ext_getElem ?_ fun i hi hi' => ?_
  · rw [Guest.length_overwrite, length_put]
  have hlength := hi'
  rw [length_put] at hlength
  simp only [Guest.overwrite, put, List.getElem_map, List.getElem_range, List.getElem_append,
    List.length_append, List.length_take, List.length_replicate, List.getElem_take,
    List.getElem_replicate, List.getElem_drop]
  -- the byte stands before the data, in it or behind it
  by_cases hbefore : i < start
  · rw [if_neg (by omega), dif_pos (by omega), dif_pos (by omega)]
    by_cases hold : i < old.length
    · rw [dif_pos (by omega), List.getD_eq_getElem _ _ hold]
    · rw [dif_neg (by omega), List.getD_eq_default _ _ (by omega)]
  by_cases hdata : i < start + data.length
  · have hplace : i - (min start old.length + (start - old.length)) = i - start := by omega
    rw [if_pos ⟨by omega, hdata⟩, dif_pos (by omega), dif_neg (by omega),
      List.getD_eq_getElem _ _ (by omega)]
    simp only [hplace]
  · have hplace : start + data.length
        + (i - (min start old.length + (start - old.length) + data.length)) = i := by omega
    rw [if_neg (by omega), dif_neg (by omega), List.getD_eq_getElem _ _ (by omega)]
    simp only [hplace]

end OpenFiles

end Sandshell
