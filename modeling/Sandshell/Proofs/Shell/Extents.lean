import Mathlib.Data.List.TakeWhile
import Sandshell.Proofs.Script.Spans
import Sandshell.Proofs.Shell.Expansion
import Sandshell.Proofs.Shell.Parameters

/-!
# Forms that the expansion finds

The expansion comes to the forms that the reader of tokens has passed over, in their order and with
their extents, and to no others. What stands outside of them could not be cut.
-/

namespace Sandshell

open Form (Span spans)

/-! ## Pieces -/

namespace Form

variable {front rest : List Char}

/-- Characters before the first dollar sign are outside of all forms. -/
theorem spans_append_of_not_mem (h : '$' ∉ front) :
    spans (front ++ rest) = front.map .outside ++ spans rest := by
  induction front with
  | nil => rfl
  | cons c front ih =>
    rw [List.mem_cons, not_or] at h
    rw [List.cons_append, spans_cons (Ne.symm h.1), ih h.2]
    rfl

/-- A dollar sign that opens nothing is one of them. -/
theorem spans_dollar_of_opensNone (h : OpensNone rest) :
    spans ('$' :: rest) = .outside '$' :: spans rest := by
  rw [spans_dollar, Span.ofDollar, take_of_opensNone h, if_pos rfl]

end Form

/-- Where a piece of a text stands in it. -/
inductive Piece.StandsIn (l : List Span) : Piece → Prop
  | char {c : Char} (h : .outside c ∈ l) : StandsIn l (.char c)
  | parameter (p : Parameter) : StandsIn l (.parameter p)
  | parameterOr (p : Parameter) (default : List Piece) : StandsIn l (.parameterOr p default)
  | substitution {script : List Char} (h : .form ('(' :: script ++ [')']) true ∈ l) :
    StandsIn l (.substitution (String.ofList script))
  | unclosedSubstitution {text : List Char} (h : .form ('(' :: text) false ∈ l) :
    StandsIn l .unclosedSubstitution
  | badSubstitution {body : List Char} (h : .form ('{' :: body ++ ['}']) true ∈ l) :
    StandsIn l (.badSubstitution (String.ofList body))
  | unclosedBraces {body : List Char} (h : .form ('{' :: body) false ∈ l) :
    StandsIn l (.badSubstitution (String.ofList body))

namespace Piece

variable {l l' : List Span} {p : Piece} {rest after : List Char}

/-- What stands in a text stands in a longer one. -/
theorem StandsIn.mono (h : p.StandsIn l) (hl : l ⊆ l') : p.StandsIn l' := by
  cases h with
  | char h => exact .char (hl h)
  | parameter p => exact .parameter p
  | parameterOr p default => exact .parameterOr p default
  | substitution h => exact .substitution (hl h)
  | unclosedSubstitution h => exact .unclosedSubstitution (hl h)
  | badSubstitution h => exact .badSubstitution (hl h)
  | unclosedBraces h => exact .unclosedBraces (hl h)

theorem standsIn_braces {body : List Char} (h : .form ('{' :: body ++ ['}']) true ∈ l) :
    (DollarForm.braces body).piece.StandsIn l := by
  rw [DollarForm.piece]
  split
  · exact .badSubstitution h
  · cases (DollarForm.splitDefault body).2 with
    | none => exact .parameter _
    | some default => exact .parameterOr _ _

/-- A form is read where it stands, and what comes behind it stands there too. -/
theorem standsIn_of_read? {form : DollarForm} (h : DollarForm.read? rest = some (form, after)) :
    form.piece.StandsIn (spans ('$' :: rest))
      ∧ (form.isClosed → spans after ⊆ spans ('$' :: rest)) := by
  unfold DollarForm.read? at h
  split at h
  · cases h
  · next c rest =>
    split_ifs at h with hparen hbrace hname
    -- a substitution: with its closing parenthesis it is one span
    · subst hparen
      split at h
      · next inside after' hsplit =>
        cases h
        have hspans : spans ('$' :: '(' :: rest)
            = .form ('(' :: inside ++ [')']) true :: spans after := by
          rw [Form.spans_dollar, Span.ofDollar, Form.take, hsplit, Form.isClosed, hsplit]
          rfl
        rw [hspans]
        exact ⟨.substitution List.mem_cons_self, fun _ => List.subset_cons_self _ _⟩
      -- without one it takes all of the rest
      · next hsplit =>
        cases h
        have hopen : ¬ Form.isClosed ('(' :: rest) := by rw [Form.isClosed, hsplit]; decide
        rw [Form.spans_dollar, (Form.take_of_not_isClosed hopen).2]
        exact ⟨.unclosedSubstitution List.mem_cons_self, fun hclosed => Bool.noConfusion hclosed⟩
    · subst hbrace
      split at h
      · next inside after' hsplit =>
        cases h
        have hspans : spans ('$' :: '{' :: rest)
            = .form ('{' :: inside ++ ['}']) true :: spans after := by
          rw [Form.spans_dollar, Span.ofDollar, Form.take, hsplit, Form.isClosed, hsplit]
          rfl
        rw [hspans]
        exact ⟨standsIn_braces List.mem_cons_self, fun _ => List.subset_cons_self _ _⟩
      · next hsplit =>
        cases h
        have hopen : ¬ Form.isClosed ('{' :: rest) := by rw [Form.isClosed, hsplit]; decide
        rw [Form.spans_dollar, (Form.take_of_not_isClosed hopen).2]
        exact ⟨.unclosedBraces List.mem_cons_self, fun hclosed => Bool.noConfusion hclosed⟩
    -- a name: none of its characters starts a form
    · cases h
      have hopens : Form.OpensNone (c :: rest) := ⟨by simpa using hparen, by simpa using hbrace⟩
      have hdollar : '$' ∉ c :: rest.takeWhile Word.isNameChar := by
        rw [List.mem_cons, not_or]
        refine ⟨?_, fun hmem => ?_⟩
        · rintro rfl
          exact absurd hname (by decide)
        · exact absurd (List.mem_takeWhile_imp hmem) (by decide)
      have hrest : c :: rest = (c :: rest.takeWhile Word.isNameChar)
          ++ rest.dropWhile Word.isNameChar := by
        rw [List.cons_append, List.takeWhile_append_dropWhile]
      refine ⟨.parameter _, fun _ => ?_⟩
      rw [Form.spans_dollar_of_opensNone hopens, hrest, Form.spans_append_of_not_mem hdollar]
      exact List.Subset.trans (List.subset_append_right _ _) (List.subset_cons_self _ _)
    -- a parameter of one character
    · obtain ⟨p, hp, hform⟩ := Option.map_eq_some_iff.1 h
      cases hform
      have hopens : Form.OpensNone (c :: after) := ⟨by simpa using hparen, by simpa using hbrace⟩
      have hdollar : c ≠ '$' := by
        rintro rfl
        cases hp
      refine ⟨.parameter _, fun _ => ?_⟩
      rw [Form.spans_dollar_of_opensNone hopens, Form.spans_cons hdollar]
      exact List.Subset.trans (List.subset_cons_self _ _) (List.subset_cons_self _ _)

/-- By induction on what is left of the text. -/
theorem standsIn_of_mem_scan {s : List Char} (h : p ∈ scan s) : p.StandsIn (spans s) := by
  cases s with
  | nil =>
    rw [scan] at h
    cases h
  | cons c rest =>
    by_cases hdollar : c = '$'
    · subst hdollar
      rw [scan_dollar] at h
      split at h
      -- a dollar sign that opens nothing, since an open form would be read as unclosed
      · next hnone =>
        have hopens : Form.OpensNone rest := by
          refine ⟨fun hhead => ?_, fun hhead => ?_⟩
          · obtain ⟨more, rfl⟩ := List.head?_eq_some_iff.1 hhead
            rw [DollarForm.read?, if_pos rfl] at hnone
            split at hnone <;> cases hnone
          · obtain ⟨more, rfl⟩ := List.head?_eq_some_iff.1 hhead
            rw [DollarForm.read?, if_neg (by decide), if_pos rfl] at hnone
            split at hnone <;> cases hnone
        rw [Form.spans_dollar_of_opensNone hopens]
        rcases List.mem_cons.1 h with rfl | h
        · exact .char List.mem_cons_self
        · exact (standsIn_of_mem_scan h).mono (List.subset_cons_self _ _)
      · next form after hsome =>
        obtain ⟨hform, hafter⟩ := standsIn_of_read? hsome
        -- a form, and what stands behind it only if it is closed
        rcases List.mem_cons.1 h with rfl | h
        · exact hform
        · split at h
          · next hclosed =>
            have hlength : after.length < ('$' :: rest).length :=
              Nat.lt_succ_of_le (DollarForm.length_of_read? hsome).1
            exact (standsIn_of_mem_scan h).mono (hafter hclosed)
          · cases h
    · rw [scan, if_neg hdollar] at h
      rw [Form.spans_cons hdollar]
      rcases List.mem_cons.1 h with rfl | h
      · exact .char List.mem_cons_self
      · exact (standsIn_of_mem_scan h).mono (List.subset_cons_self _ _)
termination_by s.length

end Piece

/-! ## Fields -/

/-- Blanks mean something to the reader of tokens. -/
theorem isSeparator_eq_false {c : Char} (h : ¬ IsSyntax c) : Fragment.isSeparator c = false := by
  simp only [IsSyntax, List.mem_cons, not_or] at h
  simp [Fragment.isSeparator, h]

namespace Fragment

/-- The fragment with its own text cut as a value is. -/
def asValue (f : Fragment) : Fragment :=
  if f.origin = .literal then { f with origin := .value } else f

/-- Literal text without blanks is marked like a value. -/
theorem marks_asValue {f : Fragment}
    (h : f.origin = .literal → ∀ c ∈ f.text.toList, isSeparator c = false) :
    f.asValue.marks = f.marks := by
  rw [asValue]
  split
  · next hliteral =>
    rw [marks, marks, hliteral]
    exact List.map_congr_left fun c hc => if_neg (Bool.eq_false_iff.1 (h hliteral c hc))
  · rfl

end Fragment

namespace Expand

variable {W : Type} {ctx : ExpandContext W} {e e' : Expanding W} {f : Fragment}
  {fs : List Fragment}

/-- Literal text comes from single characters only. -/
theorem literal_of_piece {p : Piece} (h : piece ctx p e = (.ok f, e'))
    (hliteral : f.origin = .literal) : ∃ c, p = .char c ∧ f.text = String.singleton c := by
  cases p with
  | char c =>
    cases h
    exact ⟨c, rfl, rfl⟩
  | parameter p =>
    cases h
    cases hliteral
  | parameterOr p default =>
    rw [piece] at h
    split at h
    · cases h
      cases hliteral
    · obtain ⟨_, _, -, hlast⟩ := exists_of_bind_apply_ok h
      cases hlast
      cases hliteral
  | substitution script =>
    obtain ⟨_, _, -, hlast⟩ := exists_of_bind_apply_ok h
    cases hlast
    cases hliteral
  | unclosedSubstitution => cases h
  | badSubstitution body => cases h

/-- Literal fragments are characters outside of forms. -/
theorem literal_of_pieces {ps : List Piece} (h : pieces ctx ps e = (.ok fs, e')) (hf : f ∈ fs)
    (hliteral : f.origin = .literal) : ∃ c, .char c ∈ ps ∧ f.text = String.singleton c := by
  induction ps generalizing fs e with
  | nil =>
    cases h
    cases hf
  | cons p rest ih =>
    rw [pieces] at h
    obtain ⟨first, mid, hfirst, hrest⟩ := exists_of_bind_apply_ok h
    obtain ⟨more, last, hmore, hall⟩ := exists_of_bind_apply_ok hrest
    cases hall
    rcases List.mem_cons.1 hf with rfl | hf
    · obtain ⟨c, rfl, htext⟩ := literal_of_piece hfirst hliteral
      exact ⟨c, List.mem_cons_self, htext⟩
    · obtain ⟨c, hc, htext⟩ := ih hmore hf
      exact ⟨c, List.mem_cons_of_mem _ hc, htext⟩

/-- They stand in a part without quotes, outside of all forms. -/
theorem literal_of_part {p : WordPart} (h : part ctx p e = (.ok fs, e')) (hf : f ∈ fs)
    (hliteral : f.origin = .literal) :
    p.quote = .none ∧ ∃ c, .char c ∈ Piece.scan p.text.toList ∧ f.text = String.singleton c := by
  obtain ⟨quote, text⟩ := p
  cases quote with
  | none => exact ⟨rfl, literal_of_pieces h hf hliteral⟩
  | single =>
    cases h
    rw [List.mem_singleton.1 hf] at hliteral
    cases hliteral
  | double =>
    obtain ⟨_, _, -, hlast⟩ := exists_of_bind_apply_ok h
    cases hlast
    rw [List.mem_singleton.1 hf] at hliteral
    cases hliteral

/-- So it is with all parts of a word. -/
theorem literal_of_parts {ps : List WordPart} {fss : List (List Fragment)}
    (h : ps.mapM (part ctx) e = (.ok fss, e')) (hf : f ∈ fss.flatten)
    (hliteral : f.origin = .literal) : ∃ p ∈ ps, p.quote = .none
      ∧ ∃ c, .char c ∈ Piece.scan p.text.toList ∧ f.text = String.singleton c := by
  induction ps generalizing fss e with
  | nil =>
    cases h
    cases hf
  | cons p rest ih =>
    rw [List.mapM_cons] at h
    obtain ⟨fs, mid, hp, hrest⟩ := exists_of_bind_apply_ok h
    obtain ⟨more, last, hmore, hall⟩ := exists_of_bind_apply_ok hrest
    cases hall
    rw [List.flatten_cons, List.mem_append] at hf
    rcases hf with hf | hf
    · exact ⟨p, List.mem_cons_self, literal_of_part hp hf hliteral⟩
    · obtain ⟨q, hq, hchar⟩ := ih hmore hf
      exact ⟨q, List.mem_cons_of_mem _ hq, hchar⟩

end Expand

/-! ## Scripts -/

namespace Token

variable {text s : List Char} {ts : List Token} {w : Word} {p : WordPart} {x : Span}

/-- A part of a word is regular, or is bare and ends the text. -/
theorem WellRead.part_cases (h : WellRead s ts) (hw : .word w ∈ ts) (hp : p ∈ w.parts) :
    p.IsRegular ∨ p.quote = .none ∧ ∃ front x, (∀ y ∈ front, y.IsPlain)
      ∧ spans p.text.toList = front ++ [x] ∧ (x = .outside '\\' ∨ ∃ f, x = .form f false) := by
  have hends : ∀ x, EndsIn ts x → p.IsRegular ∨ p.quote = .none ∧ ∃ front,
      (∀ y ∈ front, y.IsPlain) ∧ spans p.text.toList = front ++ [x] := by
    rintro x ⟨before, parts, q, front, rfl, hbefore, hparts, -, hquote, hfront, hspans⟩
    rcases List.mem_append.1 hw with hw | hw
    · exact .inl ((hbefore _ hw).1 p hp)
    · cases List.mem_singleton.1 hw
      rcases List.mem_append.1 hp with hp | hp
      · exact .inl (hparts p hp)
      · rw [List.mem_singleton.1 hp]
        exact .inr ⟨hquote, front, hfront, hspans⟩
  cases h with
  | regular h => exact .inl ((h _ hw).1 p hp)
  | backslash h _ =>
    refine (hends _ h).imp id fun ⟨hquote, front, hfront, hspans⟩ => ?_
    exact ⟨hquote, front, _, hfront, hspans, .inl rfl⟩
  | unclosed f h =>
    refine (hends _ h).imp id fun ⟨hquote, front, hfront, hspans⟩ => ?_
    exact ⟨hquote, front, _, hfront, hspans, .inr ⟨f, rfl⟩⟩

/-- Parts of a word that stand side by side have different quotes. -/
theorem WellRead.apart (h : WellRead s ts) (hw : .word w ∈ ts) :
    w.parts.IsChain WordPart.Apart := by
  have hends : ∀ x, EndsIn ts x → w.parts.IsChain WordPart.Apart := by
    rintro x ⟨before, parts, q, front, rfl, hbefore, -, hchain, -⟩
    rcases List.mem_append.1 hw with hw | hw
    · exact (hbefore _ hw).2
    · cases List.mem_singleton.1 hw
      exact hchain
  cases h with
  | regular h => exact (h _ hw).2
  | backslash h _ => exact hends _ h
  | unclosed f h => exact hends _ h

/-- Without quotes no part is empty. -/
theorem WellRead.ne_empty (h : WellRead s ts) (hw : .word w ∈ ts) (hp : p ∈ w.parts)
    (hquote : p.quote = .none) : p.text ≠ "" := by
  rcases h.part_cases hw hp with hregular | ⟨-, front, x, -, hspans, -⟩
  · exact hregular.ne_empty hquote
  · intro hempty
    rw [hempty, String.toList_empty, Form.spans_nil] at hspans
    exact absurd hspans.symm (by simp)

/-- What stands in it outside of forms is no syntax. -/
theorem WellRead.not_isSyntax (h : WellRead s ts) (hw : .word w ∈ ts) (hp : p ∈ w.parts)
    (hquote : p.quote = .none) {c : Char} (hc : .outside c ∈ spans p.text.toList) :
    ¬ IsSyntax c := by
  rcases h.part_cases hw hp with hregular | ⟨-, front, x, hfront, hspans, hx⟩
  · have hallowed := hregular.allowed _ hc
    rw [hquote] at hallowed
    exact hallowed.1
  · rw [hspans, List.mem_append, List.mem_singleton] at hc
    rcases hc with hc | rfl
    · exact (hfront _ hc).1
    · rcases hx with hx | ⟨f, hx⟩
      · cases hx
        decide
      · cases hx

/-- Only in bare text can a form be unclosed. -/
theorem WellRead.quote_eq_none (h : WellRead s ts) (hw : .word w ∈ ts) (hp : p ∈ w.parts)
    (hquote : p.quote ≠ .single) {f : List Char} (hf : .form f false ∈ spans p.text.toList) :
    p.quote = .none := by
  rcases h.part_cases hw hp with hregular | ⟨hnone, -⟩
  · have hallowed := hregular.allowed _ hf
    cases hp : p.quote with
    | none => rfl
    | single => exact absurd hp hquote
    | double => rw [hp] at hallowed; cases hallowed
  · exact hnone

/-- A form in a part is one of the forms of the text. -/
theorem mem_forms {f : List Char} {closed : Bool} (hw : .word w ∈ ts) (hp : p ∈ w.parts)
    (hquote : p.quote ≠ .single) (hf : .form f closed ∈ spans p.text.toList) :
    .form (p.quote = .double) f closed ∈ ts.flatMap forms := by
  refine List.mem_flatMap.2 ⟨_, hw, List.mem_flatMap.2 ⟨p, hp, ?_⟩⟩
  rw [WordPart.forms, if_neg hquote]
  exact List.mem_filterMap.2 ⟨_, hf, rfl⟩

end Token

/-- The reader of tokens and the expansion agree on the forms of a script. -/
structure Script.FormsAgree (text : String) (ts : List Token) : Prop where
  /-- Bare parts of words are not empty. -/
  ne_empty : ∀ w, .word w ∈ ts → ∀ p ∈ w.parts, p.quote = .none → p.text ≠ ""
  /-- No two neighbours are both bare. -/
  apart : ∀ w, .word w ∈ ts → w.parts.IsChain WordPart.Apart
  /-- Outside its forms bare text holds nothing that means something to the reader. -/
  outside : ∀ w, .word w ∈ ts → ∀ p ∈ w.parts, p.quote = .none →
    ∀ c, .outside c ∈ spans p.text.toList → ¬ IsSyntax c
  /-- Nor a backslash or an unclosed form, but at the very end. -/
  ends : Token.WellRead text.toList ts
  /-- The forms in the words are those of the script, one by one. -/
  forms : ts.flatMap Token.forms = (Script.passages text).filter Passage.isForm
  /-- A substitution that the expansion finds unclosed is one in the script. -/
  unclosedSubstitution : ∀ w, .word w ∈ ts → ∀ p ∈ w.parts, p.quote ≠ .single →
    .unclosedSubstitution ∈ Piece.scan p.text.toList →
      ∃ f, .form false ('(' :: f) false ∈ Script.passages text
  /-- So are braces; else they are closed in both, and name no parameter. -/
  badSubstitution : ∀ w, .word w ∈ ts → ∀ p ∈ w.parts, p.quote ≠ .single →
    ∀ body, .badSubstitution body ∈ Piece.scan p.text.toList →
      .form (p.quote = .double) ('{' :: body.toList ++ ['}']) true ∈ Script.passages text
        ∨ .form false ('{' :: body.toList) false ∈ Script.passages text
  /-- Cutting the text of the script like values would cut nothing more. -/
  uncut : ∀ w, .word w ∈ ts → ∀ {W : Type} (ctx : ExpandContext W) (e e' : Expanding W)
    (fs : List Fragment), Expand.fragments ctx w e = (.ok fs, e') →
      Field.ofFragments (fs.map Fragment.asValue) = Field.ofFragments fs

/-- In a script without line breaks behind backslashes the forms of its words are where the reader
of tokens has found them, and what stands outside of them could not be cut. -/
theorem Script.forms_agree {text : String} {ts : List Token} (hscan : Token.scan text = .ok ts)
    (hcontinued : ¬ ['\\', '\n'] <:+: text.toList) : Script.FormsAgree text ts := by
  obtain ⟨hread, hforms⟩ := (Token.gives_of_scan hscan).wellRead
    ⟨Token.sound_nil, Token.settled_nil⟩ hcontinued
  have hpassages : ∀ w, .word w ∈ ts → ∀ p ∈ w.parts, p.quote ≠ .single → ∀ f closed,
      .form f closed ∈ spans p.text.toList →
        .form (p.quote = .double) f closed ∈ Script.passages text := by
    intro w hw p hp hquote f closed hf
    have hmem := Token.mem_forms hw hp hquote hf
    rw [hforms] at hmem
    exact (List.mem_filter.1 hmem).1
  have hunclosed : ∀ w, .word w ∈ ts → ∀ p ∈ w.parts, p.quote ≠ .single → ∀ f,
      .form f false ∈ spans p.text.toList → .form false f false ∈ Script.passages text := by
    intro w hw p hp hquote f hf
    have hmem := hpassages w hw p hp hquote f false hf
    rwa [hread.quote_eq_none hw hp hquote hf] at hmem
  refine ⟨fun w hw p hp => hread.ne_empty hw hp, fun w hw => hread.apart hw,
    fun w hw p hp hquote c hc => hread.not_isSyntax hw hp hquote hc, hread, hforms, ?_, ?_, ?_⟩
  -- an unclosed substitution
  · intro w hw p hp hquote hpiece
    cases Piece.standsIn_of_mem_scan hpiece with
    | unclosedSubstitution hf => exact ⟨_, hunclosed w hw p hp hquote _ hf⟩
  -- a braced form that names no parameter, with or without its end
  · intro w hw p hp hquote body hpiece
    cases Piece.standsIn_of_mem_scan hpiece with
    | badSubstitution hf =>
      rw [String.toList_ofList]
      exact .inl (hpassages w hw p hp hquote _ _ hf)
    | unclosedBraces hf =>
      rw [String.toList_ofList]
      exact .inr (hunclosed w hw p hp hquote _ hf)
  -- literal text is scanned outside of forms, where no character is syntax
  · intro w hw W ctx e e' fs hfs
    obtain ⟨fss, mid, hparts, hflat⟩ := exists_of_bind_apply_ok hfs
    cases hflat
    rw [Field.ofFragments, Field.ofFragments, List.flatMap_map]
    refine congrArg _ (List.flatMap_congr fun f hf =>
      Fragment.marks_asValue fun hliteral c hc => ?_)
    obtain ⟨p, hp, hquote, d, hd, htext⟩ := Expand.literal_of_parts hparts hf hliteral
    rw [htext, String.toList_singleton, List.mem_singleton] at hc
    subst hc
    cases Piece.standsIn_of_mem_scan hd with
    | char hd =>
      exact isSeparator_eq_false (hread.not_isSyntax hw hp hquote hd)

/-- The script `a$(b ')')"$c" ${d`, whose last form is never closed. -/
def Script.openEnded : String :=
  "a$(b ')')\"$c\" $\x7bd"

theorem Script.forms_agree_openEnded : ∃ ts, Token.scan openEnded = .ok ts
    ∧ ts = [.word ⟨[⟨.none, "a$(b ')')"⟩, ⟨.double, "$c"⟩]⟩, .word ⟨[⟨.none, "$\x7bd"⟩]⟩]
    ∧ ¬ ['\\', '\n'] <:+: openEnded.toList ∧ Script.FormsAgree openEnded ts := by
  have hscan : Token.scan openEnded
      = .ok [.word ⟨[⟨.none, "a$(b ')')"⟩, ⟨.double, "$c"⟩]⟩, .word ⟨[⟨.none, "$\x7bd"⟩]⟩] := by
    decide +kernel
  have hcontinued : ¬ ['\\', '\n'] <:+: openEnded.toList := by decide +kernel
  exact ⟨_, hscan, rfl, hcontinued, Script.forms_agree hscan hcontinued⟩

end Sandshell
