import Sandshell.Proofs.Keeps
import Sandshell.Proofs.Script.Characters
import Sandshell.Shell.Expansion

/-!
# What expansions do

An expansion is put together from pieces. It does nothing but run the scripts that are spelled in
its word, and fails with one of them or at a malformed form.
-/

namespace Sandshell

/-! ## Assignments -/

/-- The pieces of a text without dollar signs in front are its characters. -/
theorem Piece.scan_append {chars : List Char} (h : '$' ∉ chars) (rest : List Char) :
    Piece.scan (chars ++ rest) = chars.map .char ++ Piece.scan rest := by
  induction chars with
  | nil => rfl
  | cons c chars ih =>
    rw [List.mem_cons, not_or] at h
    rw [List.cons_append, Piece.scan, if_neg (Ne.symm h.1), ih h.2]
    rfl

theorem Piece.allIn_append (ps qs : List Piece) :
    Piece.allIn (ps ++ qs) = Piece.allIn ps ++ Piece.allIn qs := by
  induction ps with
  | nil => rfl
  | cons p rest ih => rw [List.cons_append, allIn, allIn, ih, List.append_assoc]

namespace Word

/-- A name has no dollar sign. -/
theorem dollar_not_mem_of_isName {name : String} (h : isName name) : '$' ∉ name.toList := by
  unfold isName at h
  cases hname : name.toList with
  | nil => exact List.not_mem_nil
  | cons c rest =>
    rw [hname] at h
    simp only [Bool.and_eq_true, List.all_eq_true] at h
    rintro (_ | ⟨_, hmem⟩)
    · exact absurd h.1 (by decide)
    · exact absurd (h.2 _ hmem) (by decide)

variable {w value : Word} {name : String}

/-- The value of an assignment has no piece that the assignment has not. -/
theorem pieces_subset_of_assignment? (h : w.assignment? = some (name, value)) :
    value.pieces ⊆ w.pieces := by
  obtain ⟨text, front, rest, hparts, hname, htext, hvalue⟩ := exists_of_assignment? h
  have hdollar : '$' ∉ name.toList ++ ['='] := by
    simpa using dollar_not_mem_of_isName hname
  have hfirst : (⟨.none, front⟩ : WordPart).pieces ⊆ (⟨.none, text⟩ : WordPart).pieces := by
    rw [WordPart.pieces, WordPart.pieces, if_neg (by simp), if_neg (by simp), htext, List.append_cons,
      Piece.scan_append hdollar, Piece.allIn_append]
    exact List.subset_append_right _ _
  intro x hx
  obtain ⟨p, hp, hx⟩ := List.mem_flatMap.1 hx
  rw [pieces, hparts, List.flatMap_cons, List.mem_append]
  rcases List.mem_cons.1 (hvalue hp) with rfl | hp
  · exact .inl (hfirst hx)
  · exact .inr (List.mem_flatMap.2 ⟨p, hp, hx⟩)

/-- Nor does it run a script that the assignment does not run. -/
theorem scripts_subset_of_assignment? (h : w.assignment? = some (name, value)) :
    value.scripts ⊆ w.scripts :=
  fun _ hscript => mem_scripts_iff.2 (pieces_subset_of_assignment? h (mem_scripts_iff.1 hscript))

end Word

/-! ## Steps of an expansion -/

namespace Expand

open Invariant (keeps_pure keeps_throw)

variable {W : Type} {inv : Invariant (Expanding W) ShellError} {ctx : ExpandContext W}

/-- Malformed forms may fail wherever the invariant holds. -/
structure MayStop (inv : Invariant (Expanding W) ShellError) : Prop where
  unterminated : ∀ e, inv.holds e → inv.fails (.expansion .unterminatedSubstitution) e
  bad : ∀ body e, inv.holds e → inv.fails (.expansion (.badSubstitution body)) e

mutual

/-- A piece keeps what its substitutions do. -/
theorem keeps_piece (hstop : MayStop inv) : ∀ p : Piece,
    (∀ text ∈ p.scripts, inv.Keeps (ctx.substitute text) fun _ => True) →
      inv.Keeps (piece ctx p) fun _ => True
  | .char _, _ => keeps_pure trivial
  | .parameter _, _ => keeps_pure trivial
  | .parameterOr p default, hscripts => by
    unfold piece
    dsimp only
    split
    · exact keeps_pure trivial
    · exact (keeps_pieces hstop default hscripts).before fun _ => keeps_pure trivial
  | .substitution text, hscripts =>
    (hscripts text (List.mem_singleton_self text)).before fun _ => keeps_pure trivial
  | .unclosedSubstitution, _ => keeps_throw hstop.unterminated
  | .badSubstitution body, _ => keeps_throw (hstop.bad body)

/-- So do pieces. -/
theorem keeps_pieces (hstop : MayStop inv) : ∀ ps : List Piece,
    (∀ text ∈ Piece.scriptsIn ps, inv.Keeps (ctx.substitute text) fun _ => True) →
      inv.Keeps (pieces ctx ps) fun _ => True
  | [], _ => keeps_pure trivial
  | p :: rest, hscripts =>
    (keeps_piece hstop p (List.forall_mem_append.1 hscripts).1).before fun _ =>
      (keeps_pieces hstop rest (List.forall_mem_append.1 hscripts).2).before
        fun _ => keeps_pure trivial

end

section

variable (hstop : MayStop inv) {w : Word}
variable (hscripts : ∀ text ∈ w.scripts, inv.Keeps (ctx.substitute text) fun _ => True)
include hstop hscripts

/-- So do the fragments of a word. -/
theorem keeps_fragments : inv.Keeps (fragments ctx w) fun _ => True := by
  refine (Invariant.Keeps.mapM_silent fun p hp => ?_).before fun _ => keeps_pure trivial
  have hpart : ∀ text ∈ p.scripts, inv.Keeps (ctx.substitute text) fun _ => True :=
    fun text htext => hscripts text (List.mem_flatMap.2 ⟨p, hp, htext⟩)
  unfold part
  split
  · exact keeps_pure trivial
  · next hquote =>
    rw [WordPart.scripts, if_neg (by simp [hquote])] at hpart
    exact (keeps_pieces hstop _ hpart).before fun _ => keeps_pure trivial
  · next hquote =>
    rw [WordPart.scripts, if_neg (by simp [hquote])] at hpart
    exact keeps_pieces hstop _ hpart

theorem keeps_toText : inv.Keeps (toText ctx w) fun _ => True :=
  (keeps_fragments hstop hscripts).before fun _ => keeps_pure trivial

/-- A word keeps what its fields do, besides. -/
theorem keeps_word [Workspace W]
    (hfield : ∀ f : Field, inv.Keeps (field ctx.state.cwd f) fun _ => True) :
    inv.Keeps (word ctx w) fun _ => True :=
  (keeps_fragments hstop hscripts).before fun _ =>
    (Invariant.Keeps.mapM_silent fun f _ => hfield f).before fun _ => keeps_pure trivial

end

end Expand

end Sandshell
