import Mathlib.Data.List.Basic
import Sandshell.Utility.Search

/-!
# Lines that a search selects

The selected lines of a text, in order. The first ones are printed, as many as the greatest number
says; a greatest number of zero lets one line pass, and counting knows no greatest number.
-/

namespace Sandshell.Search

variable {o o' : Options} {isMatch : String → Bool} {text : String}

/-- Some line of the text is selected. -/
def Options.Selects (o : Options) (isMatch : String → Bool) (text : String) : Prop :=
  ∃ line ∈ Text.lines text, isMatch line ≠ o.invert

/-- The selected lines are those that match, or those that do not, in order. -/
theorem map_snd_selected (o : Options) (isMatch : String → Bool) (text : String) :
    (selected o isMatch text).map Prod.snd
      = (Text.lines text).filter fun line => isMatch line != o.invert := by
  rw [selected]
  generalize Text.lines text = lines, 1 = start
  induction lines generalizing start with
  | nil => rfl
  | cons line rest ih =>
    rw [List.zipIdx_cons, List.filterMap_cons, List.filter_cons, ← ih (start + 1)]
    split_ifs with hselected <;> simp [hselected]

/-- A line is selected exactly if the text has one to select. -/
theorem selected_ne_nil_iff : selected o isMatch text ≠ [] ↔ o.Selects isMatch text := by
  have hmap : (selected o isMatch text).map Prod.snd = [] ↔ selected o isMatch text = [] :=
    List.map_eq_nil_iff
  rw [Ne, ← hmap, map_snd_selected, List.filter_eq_nil_iff, Options.Selects]
  simp

/-- A text counts as found exactly if a line of it is selected. -/
theorem found_iff : found o isMatch text = true ↔ o.Selects isMatch text := by
  rw [← selected_ne_nil_iff, found, Bool.not_eq_true', ← Bool.not_eq_true, List.isEmpty_iff]

/-! ## Lines printed and counted -/

namespace Options

/-- A search that prints lines. -/
def listing (o : Options) : Options :=
  { o with count := false, filesOnly := false, silent := false }

/-- A search that counts lines. -/
def counting (o : Options) : Options :=
  { o with count := true }

end Options

/-- A limit of 0 lines prints one. -/
theorem printed_listing (o : Options) (isMatch : String → Bool) (text : String) :
    printed o.listing isMatch text =
      match o.maxCount with
      | some max => (selected o isMatch text).take (Nat.max 1 max)
      | none => selected o isMatch text := rfl

/-- The first selected lines are printed, as many as the greatest number says, unless this is zero
and a line is selected. -/
theorem printed_eq_take_iff {max : Nat} (h : o.maxCount = some max) :
    printed o.listing isMatch text = (selected o isMatch text).take max
      ↔ max ≠ 0 ∨ ¬ o.Selects isMatch text := by
  rw [printed_listing, h, ← selected_ne_nil_iff, not_not]
  dsimp only
  cases max with
  | zero =>
    cases selected o isMatch text <;> simp
  | succ n => simp

/-- The count is the number of printed lines: one at most is selected; or the search is for files and
the greatest number is one at most; or it is not, and no greatest number stops the printing. -/
theorem counted_eq_length_iff :
    counted o.counting isMatch text = (printed o.listing isMatch text).length
      ↔ (selected o isMatch text).length ≤ 1 ∨
        if o.filesOnly then ∃ max, o.maxCount = some max ∧ max ≤ 1
        else ∀ max, o.maxCount = some max → (selected o isMatch text).length ≤ max := by
  rw [printed_listing]
  show (if o.filesOnly then min 1 (selected o isMatch text).length
    else (selected o isMatch text).length) = _ ↔ _
  generalize selected o isMatch text = lines
  cases o.maxCount with
  | none =>
    cases o.filesOnly with
    | false => simp
    | true =>
      simp only [↓reduceIte, reduceCtorEq, false_and, exists_const, or_false]
      omega
  | some bound =>
    have hlength : (lines.take (Nat.max 1 bound)).length = min (max 1 bound) lines.length :=
      List.length_take
    dsimp only
    rw [hlength]
    cases o.filesOnly with
    | false =>
      simp only [Bool.false_eq_true, ↓reduceIte, Option.some.injEq, forall_eq']
      omega
    | true =>
      simp only [↓reduceIte, Option.some.injEq, exists_eq_left']
      omega

end Sandshell.Search
