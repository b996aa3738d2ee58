import Sandshell.Proofs.Script.DoubleQuotes
import Sandshell.Shell.Expansion.Piece

/-!
# Forms of parameters

How expansion reads the forms that ask for the value of a parameter: a name between braces, with or
without a default, and a name right behind the dollar sign.
-/

namespace Sandshell

/-! ## Names -/

namespace Parameter

/-- The characters that names of parameters are made of. -/
def isNameChar (c : Char) : Bool :=
  Word.isNameChar c || (ofSpecial? c).isSome

theorem isNameChar_of_isDigit {c : Char} (hc : c.isDigit) : isNameChar c := by
  simp [isNameChar, Word.isNameChar, Char.isAlphanum, hc]

/-- Positional parameters are spelled by digits. -/
theorem all_isDigit_of_ofDigits? {chars : List Char} {p : Parameter}
    (h : ofDigits? chars = some p) : ∀ c ∈ chars, c.isDigit := by
  unfold ofDigits? at h
  split at h
  · next hzero =>
    rw [hzero, List.forall_mem_singleton]
    rfl
  · split at h
    · next hdigits => simpa using (Bool.and_eq_true_iff.1 hdigits).2
    · cases h

/-- A name begins with a letter or an underscore. -/
theorem exists_cons_of_isName {name : String} (h : Word.isName name) :
    ∃ c rest, name.toList = c :: rest ∧ Word.isNameStart c ∧ ∀ d ∈ rest, Word.isNameChar d := by
  unfold Word.isName at h
  split at h
  · cases h
  · next c rest hname =>
    rw [Bool.and_eq_true, List.all_eq_true] at h
    exact ⟨c, rest, hname, h⟩

theorem isNameChar_of_isNameStart {c : Char} (h : Word.isNameStart c) : Word.isNameChar c := by
  rw [Word.isNameStart, Bool.or_eq_true] at h
  rw [Word.isNameChar, Bool.or_eq_true, Char.isAlphanum, Bool.or_eq_true]
  exact h.imp_left .inl

/-- Names are spelled by the characters of names. -/
theorem isNameChar_of_ofName? {chars : List Char} {p : Parameter} (h : ofName? chars = some p) :
    ∀ c ∈ chars, isNameChar c := by
  unfold ofName? at h
  split at h
  · next hname =>
    obtain ⟨c, rest, hchars, hstart, hrest⟩ := exists_cons_of_isName hname
    rw [String.toList_ofList] at hchars
    rw [hchars, List.forall_mem_cons, isNameChar, isNameChar_of_isNameStart hstart]
    exact ⟨rfl, fun d hd => by rw [isNameChar, hrest d hd]; rfl⟩
  · split at h
    · next c =>
      rw [List.forall_mem_singleton]
      rcases Option.or_eq_some_iff.1 h with hspecial | ⟨-, hdigit⟩
      · rw [isNameChar, hspecial, Option.isSome_some, Bool.or_true]
      · exact isNameChar_of_isDigit (all_isDigit_of_ofDigits? hdigit _ (List.mem_singleton_self _))
    · exact fun c hc => isNameChar_of_isDigit (all_isDigit_of_ofDigits? h c hc)

/-- No other character is in one. -/
theorem not_mem_of_ofName? {chars : List Char} {p : Parameter} (h : ofName? chars = some p)
    {c : Char} (hc : isNameChar c = false) : c ∉ chars := by
  intro hmem
  rw [isNameChar_of_ofName? h c hmem] at hc
  cases hc

/-- A name spells the variable of this name. -/
theorem ofName?_of_isName {name : String} (h : Word.isName name) :
    ofName? name.toList = some (.variable name) := by
  unfold ofName?
  rw [String.ofList_toList, if_pos h]

/-- The form of a parameter, its name between braces. -/
def braced (name : String) : String :=
  "$\x7b" ++ name ++ "\x7d"

/-- The form with a text to stand where the parameter has no value. -/
def bracedOr (name default : String) : String :=
  "$\x7b" ++ name ++ ":-" ++ default ++ "\x7d"

/-- The form asks for the parameter. Without braces the name is that of a variable or one
character. -/
inductive IsAskedBy (p : Parameter) : String → Prop
  | braced {name : String} (h : ofName? name.toList = some p) : p.IsAskedBy (braced name)
  | bare {name : String} (h : ofName? name.toList = some p)
    (hshort : Word.isName name ∨ name.length = 1) : p.IsAskedBy ("$" ++ name)

theorem toList_braced (name : String) :
    (braced name).toList = '$' :: '{' :: (name.toList ++ ['}']) := by
  simp [braced]

theorem toList_bracedOr (name default : String) : (bracedOr name default).toList
    = '$' :: '{' :: (name.toList ++ ':' :: '-' :: (default.toList ++ ['}'])) := by
  simp [bracedOr]

end Parameter

/-! ## Pieces -/

namespace DollarForm

/-- Without a colon there is no default. -/
theorem splitDefault_of_not_mem {name : List Char} (h : ':' ∉ name) :
    splitDefault name = (name, none) := by
  induction name with
  | nil => rfl
  | cons c name ih =>
    rw [List.mem_cons, not_or] at h
    rw [splitDefault, ih h.2]
    rintro rest hcons -
    exact h.1 hcons.symm

/-- The first colon and dash part the name from its default. -/
theorem splitDefault_append {name : List Char} (h : ':' ∉ name) (default : List Char) :
    splitDefault (name ++ ':' :: '-' :: default) = (name, some default) := by
  induction name with
  | nil => rfl
  | cons c name ih =>
    rw [List.mem_cons, not_or] at h
    rw [List.cons_append, splitDefault, ih h.2]
    rintro rest hcons -
    exact h.1 hcons.symm

/-- Braces are read up to the first closing one. -/
theorem read?_braces {body : List Char} (hbody : '}' ∉ body) (after : List Char) :
    read? ('{' :: (body ++ '}' :: after)) = some (.braces body, after) := by
  rw [read?, if_neg (by decide), if_pos rfl, Form.splitAtBrace_append_cons hbody]

/-- The name of a variable is read as a whole where no further character could be part of it. -/
theorem read?_of_isName {name : String} (hname : Word.isName name) :
    read? name.toList = some (.parameter (.variable name), []) := by
  obtain ⟨c, rest, hchars, hstart, hrest⟩ := Parameter.exists_cons_of_isName hname
  have hparen : c ≠ '(' := by
    rintro rfl
    cases hstart
  have hbrace : c ≠ '{' := by
    rintro rfl
    cases hstart
  have htake : rest.takeWhile Word.isNameChar = rest := by
    simpa using @List.takeWhile_append_of_pos _ Word.isNameChar rest [] hrest
  have hdrop : rest.dropWhile Word.isNameChar = [] := by
    simpa using @List.dropWhile_append_of_pos _ Word.isNameChar rest [] hrest
  rw [hchars, read?, if_neg hparen, if_neg hbrace, if_pos hstart, htake, hdrop, ← hchars]
  dsimp only
  rw [String.ofList_toList]

/-- A parameter of one character that is no variable is read from this character. -/
theorem read?_singleton {c : Char} {p : Parameter} (hname : Parameter.ofName? [c] = some p)
    (hvariable : ¬ Word.isName (String.ofList [c])) : read? [c] = some (.parameter p, []) := by
  have hparen : c ≠ '(' := by
    rintro rfl
    cases hname
  have hbrace : c ≠ '{' := by
    rintro rfl
    cases hname
  have hstart : ¬ Word.isNameStart c := by
    intro hstart
    refine hvariable ?_
    rw [Word.isName, String.toList_ofList]
    simp [hstart]
  rw [Parameter.ofName?, if_neg hvariable] at hname
  rw [read?, if_neg hparen, if_neg hbrace, if_neg hstart, hname]
  rfl

/-- A name is read as a whole, anything else as one character. -/
theorem read?_name {name : String} {p : Parameter} (hname : Parameter.ofName? name.toList = some p)
    (hshort : Word.isName name ∨ name.length = 1) : read? name.toList = some (.parameter p, []) := by
  by_cases hvariable : Word.isName name
  · rw [Parameter.ofName?_of_isName hvariable, Option.some.injEq] at hname
    rw [read?_of_isName hvariable, hname]
  · have hlength : name.toList.length = 1 := by
      rw [String.length_toList]
      exact hshort.resolve_left hvariable
    obtain ⟨c, hc⟩ := List.length_eq_one_iff.1 hlength
    rw [← String.ofList_toList (s := name), hc] at hvariable
    rw [hc] at hname ⊢
    exact read?_singleton hname hvariable

/-- The piece that a form is read as. -/
def piece : DollarForm → Piece
  | .script text => .substitution (String.ofList text)
  | .unclosedScript => .unclosedSubstitution
  | .unclosedBraces body => .badSubstitution (String.ofList body)
  | .parameter p => .parameter p
  | .braces body =>
    match Parameter.ofName? (splitDefault body).1 with
    | none => .badSubstitution (String.ofList body)
    | some p =>
      (splitDefault body).2.elim (.parameter p) fun default => .parameterOr p (Piece.scan default)

/-- The text behind the form is read. -/
def isClosed : DollarForm → Bool
  | .unclosedScript | .unclosedBraces _ => false
  | _ => true

end DollarForm

namespace Piece

/-- A dollar sign is read with the form behind it. -/
theorem scan_dollar (s : List Char) : scan ('$' :: s) =
    match DollarForm.read? s with
    | none => .char '$' :: scan s
    | some (form, after) => form.piece :: if form.isClosed then scan after else [] := by
  rw [scan, if_pos rfl]
  split
  · next hform => rw [hform]
  · next text after hform =>
    rw [hform]
    rfl
  · next after hform =>
    rw [hform]
    rfl
  · next body after hform =>
    rw [hform]
    rfl
  · next p after hform =>
    rw [hform]
    rfl
  · next body after hform =>
    have hclosed : (DollarForm.braces body).isClosed = true := rfl
    rw [hform]
    dsimp only
    rw [DollarForm.piece, if_pos hclosed]
    cases Parameter.ofName? (DollarForm.splitDefault body).1 with
    | none => rfl
    | some p =>
      -- the default is matched together with the proof of where it comes from
      dsimp only
      split
      · next hdefault _ => rw [hdefault, Option.elim_none]
      · next hdefault _ => rw [hdefault, Option.elim_some]

open Parameter (ofName? not_mem_of_ofName?)

variable {name body default after : List Char} {p : Parameter}

/-- A form between braces is the piece of the parameter that its body names. -/
theorem scan_braces {s : List Char} {default? : Option (List Char)}
    (hread : DollarForm.read? s = some (.braces body, after))
    (hsplit : DollarForm.splitDefault body = (name, default?)) (hname : ofName? name = some p) :
    scan ('$' :: s) = default?.elim (.parameter p) (fun default => .parameterOr p (scan default))
      :: scan after := by
  rw [scan_dollar, hread]
  simp only [DollarForm.piece, DollarForm.isClosed, hsplit, hname, if_true]

/-- A parameter between braces is one piece. -/
theorem scan_braced (hname : ofName? name = some p) (after : List Char) :
    scan ('$' :: '{' :: (name ++ '}' :: after)) = .parameter p :: scan after :=
  scan_braces (DollarForm.read?_braces (not_mem_of_ofName? hname (by decide)) after)
    (DollarForm.splitDefault_of_not_mem (not_mem_of_ofName? hname (by decide))) hname

/-- So is one with a default, up to the first closing brace. -/
theorem scan_bracedOr (hname : ofName? name = some p) (hdefault : '}' ∉ default)
    (after : List Char) : scan ('$' :: '{' :: (name ++ ':' :: '-' :: (default ++ '}' :: after)))
      = .parameterOr p (scan default) :: scan after := by
  have hbody : '}' ∉ name ++ ':' :: '-' :: default := by
    simpa [hdefault] using not_mem_of_ofName? hname (c := '}') (by decide)
  have hread := DollarForm.read?_braces hbody after
  rw [List.append_assoc, List.cons_append, List.cons_append] at hread
  exact scan_braces hread
    (DollarForm.splitDefault_append (not_mem_of_ofName? hname (by decide)) default) hname

/-- A name without braces is one piece where no further character could be part of it. -/
theorem scan_bare {name : String} (hname : ofName? name.toList = some p)
    (hshort : Word.isName name ∨ name.length = 1) : scan ('$' :: name.toList) = [.parameter p] := by
  rw [scan_dollar, DollarForm.read?_name hname hshort]
  simp [DollarForm.piece, DollarForm.isClosed, scan]

/-- Whichever way a parameter is asked for, the form is one piece. -/
theorem scan_of_isAskedBy {form : String} (h : p.IsAskedBy form) :
    scan form.toList = [.parameter p] := by
  cases h with
  | braced hname =>
    rw [Parameter.toList_braced, scan_braced hname, scan]
  | bare hname hshort =>
    rw [String.toList_append]
    exact scan_bare hname hshort

end Piece

/-! ## Tokens -/

/-- No operator begins with a character of a name inside a word. -/
theorem Operator.read?_of_isNameChar {c : Char} (hc : Parameter.isNameChar c) (rest : List Char) :
    read? true (c :: rest) = none := by
  unfold read?
  split
  case h_13 => rfl
  case h_14 => rfl
  all_goals
    next h =>
      rw [(List.cons.inj h).1] at hc
      exact absurd hc (by decide)

namespace Token

/-- In a word the characters of names are plain. -/
theorem isPlain_of_isNameChar {c : Char} (hc : Parameter.isNameChar c) (draft : Word.Draft) :
    IsPlain (some draft) c := by
  have hne : ∀ d, Parameter.isNameChar d = false → c ≠ d := by
    rintro d hd rfl
    rw [hc] at hd
    cases hd
  refine ⟨?_, fun h => Bool.false_ne_true h.2, hne _ (by decide), hne _ (by decide),
    hne _ (by decide), hne _ (by decide)⟩
  rintro (h | h | h)
  · exact hne _ (by decide) h
  · exact hne _ (by decide) h
  · exact hne _ (by decide) h

/-- The characters of a name go on with a bare word. -/
theorem scanBare_names {chars : List Char} (h : ∀ c ∈ chars, Parameter.isNameChar c)
    (draft : Word.Draft) :
    scanBare (some draft) chars = .ok [.word (draft.pushAll .none chars).word] := by
  induction chars generalizing draft with
  | nil => exact scanBare_nil
  | cons c chars ih =>
    rw [List.forall_mem_cons] at h
    rw [scanBare_plain (isPlain_of_isNameChar h.1 draft), Option.isSome_some,
      Operator.read?_of_isNameChar h.1]
    exact ih h.2 _

/-- A form that asks for a parameter is one bare word. -/
theorem scan_of_isAskedBy {p : Parameter} {form : String} (h : p.IsAskedBy form) :
    scan form = .ok [.word ⟨[⟨.none, form⟩]⟩] := by
  have hfirst : Word.Draft.push [] .none '$' = [⟨.none, "$"⟩] := rfl
  cases h with
  | @braced name hname =>
    have hbrace := Parameter.not_mem_of_ofName? hname (c := '}') (by decide)
    have htake : Form.take ('{' :: (name.toList ++ ['}'])) = ('{' :: name.toList ++ ['}'], []) := by
      rw [Form.take, Form.splitAtBrace_append_cons hbrace]
    rw [scan, Parameter.toList_braced, scanBare_dollar, htake, scanBare_nil, Option.getD_none,
      hfirst, Word.Draft.pushAll_newest]
    simp [finish, Word.Draft.word, Parameter.braced, ← String.toList_inj]
  | @bare name hname hshort =>
    have htake : Form.take name.toList = ([], name.toList) := by
      rw [Form.take]
      · rintro rest hparen
        exact Parameter.not_mem_of_ofName? hname (c := '(') (by decide) (hparen ▸ List.mem_cons_self)
      · rintro rest hbrace
        exact Parameter.not_mem_of_ofName? hname (c := '{') (by decide) (hbrace ▸ List.mem_cons_self)
    have hform : ("$" ++ name).toList = '$' :: name.toList := String.toList_append
    rw [scan, hform, scanBare_dollar, htake, Option.getD_none, hfirst, Word.Draft.pushAll_newest]
    dsimp only
    rw [scanBare_names (Parameter.isNameChar_of_ofName? hname), Word.Draft.pushAll_newest]
    simp [Word.Draft.word]

end Token

end Sandshell
