import Sandshell.Proofs.Shell.Values

/-!
# Defaults of parameters

A form with a default ends at the first closing brace behind it. So the default is the whole text up
to the last brace exactly if no other one stands in it; else what follows the first one is left
over, and stands behind the value.
-/

namespace Sandshell

/-! ## Text in front of a brace -/

/-- A name ends before a closing brace at the latest. -/
theorem Word.takeWhile_append_brace (chars rest : List Char) :
    (chars ++ '}' :: rest).takeWhile isNameChar = chars.takeWhile isNameChar
      ∧ (chars ++ '}' :: rest).dropWhile isNameChar
        = chars.dropWhile isNameChar ++ '}' :: rest := by
  have hbrace : isNameChar '}' = false := by decide
  induction chars with
  | nil => simp [hbrace]
  | cons c chars ih =>
    cases hc : isNameChar c with
    | false => simp [hc]
    | true => simp [hc, ih]

namespace DollarForm

/-- A closed form is read alike where a brace comes behind it. -/
theorem read?_of_isClosed {s : List Char} (hclosed : Form.isClosed s) :
    (read? s = none ∧ ∀ rest, read? (s ++ '}' :: rest) = none)
      ∨ ∃ form after, form.isClosed ∧ read? s = some (form, after)
        ∧ ∀ rest, read? (s ++ '}' :: rest) = some (form, after ++ '}' :: rest) := by
  cases s with
  | nil => exact .inl ⟨rfl, fun _ => rfl⟩
  | cons c s =>
    by_cases hparen : c = '('
    · subst hparen
      obtain ⟨⟨inside, after⟩, hsplit⟩ := Option.isSome_iff_exists.1 hclosed
      refine .inr ⟨.script inside, after, rfl, ?_, fun rest => ?_⟩
      · rw [read?, if_pos rfl, hsplit]
      · rw [List.cons_append, read?, if_pos rfl,
          Form.splitAtParen_append _ _ _ ('}' :: rest) _ _ hsplit]
    by_cases hbrace : c = '{'
    · subst hbrace
      obtain ⟨⟨inside, after⟩, hsplit⟩ := Option.isSome_iff_exists.1 hclosed
      refine .inr ⟨.braces inside, after, rfl, ?_, fun rest => ?_⟩
      · rw [read?, if_neg hparen, if_pos rfl, hsplit]
      · rw [List.cons_append, read?, if_neg hparen, if_pos rfl,
          Form.splitAtBrace_append _ ('}' :: rest) _ _ hsplit]
    by_cases hstart : Word.isNameStart c
    · refine .inr ⟨.parameter (.variable (String.ofList (c :: s.takeWhile Word.isNameChar))),
        s.dropWhile Word.isNameChar, rfl, ?_, fun rest => ?_⟩
      · rw [read?, if_neg hparen, if_neg hbrace, if_pos hstart]
      · rw [List.cons_append, read?, if_neg hparen, if_neg hbrace, if_pos hstart,
          (Word.takeWhile_append_brace s rest).1, (Word.takeWhile_append_brace s rest).2]
    -- any other character is a parameter by itself or none, whatever follows
    have hspecial : ∀ t, read? (c :: t)
        = ((Parameter.ofSpecial? c).or (Parameter.ofDigits? [c])).map (.parameter ·, t) := by
      intro t
      rw [read?, if_neg hparen, if_neg hbrace, if_neg hstart]
    rw [hspecial]
    simp only [List.cons_append, hspecial]
    cases (Parameter.ofSpecial? c).or (Parameter.ofDigits? [c]) with
    | none => exact .inl ⟨rfl, fun _ => rfl⟩
    | some p => exact .inr ⟨.parameter p, s, rfl, rfl, fun _ => rfl⟩

end DollarForm

/-- A text whose forms are closed has the same pieces where a brace comes behind it. By induction on
what is left of it; forms are passed over as a whole. -/
theorem Piece.scan_append_brace {text : List Char} (hclosed : Form.AllClosed text)
    (rest : List Char) : scan (text ++ '}' :: rest) = scan text ++ .char '}' :: scan rest := by
  cases text with
  | nil => simp [scan]
  | cons c text =>
    by_cases hdollar : c = '$'
    · subst hdollar
      rw [List.cons_append, scan_dollar, scan_dollar]
      obtain ⟨hnone, hread⟩ | ⟨form, after, hform, hsome, hread⟩ :=
        DollarForm.read?_of_isClosed (hclosed.1 rfl)
      · rw [hnone, hread]
        dsimp only
        rw [scan_append_brace hclosed.2]
        rfl
      · have hsuffix := (DollarForm.spelled_of_read? hsome).1
        have hlength : after.length < ('$' :: text).length := Nat.lt_succ_of_le hsuffix.length_le
        rw [hsome, hread]
        dsimp only
        rw [if_pos hform, if_pos hform, scan_append_brace (hclosed.2.of_suffix hsuffix)]
        rfl
    · rw [List.cons_append, scan, if_neg hdollar, scan, if_neg hdollar,
        scan_append_brace hclosed.2]
      rfl
termination_by text.length

/-! ## Forms with a default -/

section

variable {name default : String} (hname : Word.isName name)
include hname

/-- The form ends at the first closing brace of the default, and the rest of the default stands behind
it. -/
theorem Piece.scan_bracedOr_cut {front back : List Char} (hfront : '}' ∉ front)
    (hdefault : default.toList = front ++ '}' :: back) (hback : Form.AllClosed back) :
    scan (Parameter.bracedOr name default).toList
      = .parameterOr (.variable name) (scan front) :: (scan back ++ [.char '}']) := by
  have hrest := scan_append_brace hback []
  rw [scan] at hrest
  rw [Parameter.toList_bracedOr, hdefault, List.append_assoc, List.cons_append,
    scan_bracedOr (Parameter.ofName?_of_isName hname) hfront, hrest]

/-- So the form is one piece exactly if no brace is closed in its default. -/
theorem Piece.scan_bracedOr_eq_singleton_iff (hclosed : Form.AllClosed default.toList) :
    (∃ piece, scan (Parameter.bracedOr name default).toList = [piece]) ↔ '}' ∉ default.toList := by
  constructor
  · rintro ⟨piece, hpiece⟩ hmem
    obtain ⟨front, back, hdefault, hfront⟩ := List.eq_append_cons_of_mem hmem
    have hback : Form.AllClosed back :=
      hclosed.of_suffix (hdefault ▸ (List.suffix_cons _ _).trans (List.suffix_append _ _))
    rw [scan_bracedOr_cut hname hfront hdefault hback] at hpiece
    simp at hpiece
  · intro hdefault
    rw [Parameter.toList_bracedOr,
      scan_bracedOr (Parameter.ofName?_of_isName hname) hdefault [], scan]
    exact ⟨_, rfl⟩

end

namespace Form

theorem isSome_splitAtBrace {text : List Char} (h : '}' ∈ text) : (splitAtBrace text).isSome := by
  obtain ⟨front, back, rfl, hfront⟩ := List.eq_append_cons_of_mem h
  rw [splitAtBrace_append_cons hfront, Option.isSome_some]

/-- Around a default with closed forms the form with this default is closed. -/
theorem allClosed_bracedOr {name default : String} (hname : Word.isName name)
    (hclosed : AllClosed default.toList) : AllClosed (Parameter.bracedOr name default).toList := by
  have hletters : '$' ∉ '{' :: (name.toList ++ [':', '-']) := by
    simpa using Word.dollar_not_mem_of_isName hname
  have hform : (Parameter.bracedOr name default).toList
      = '$' :: ('{' :: (name.toList ++ [':', '-']) ++ (default.toList ++ ['}'])) := by
    simp [Parameter.toList_bracedOr]
  rw [hform]
  refine ⟨fun _ => ?_, (allClosed_append_iff hletters).2 ?_⟩
  · exact isSome_splitAtBrace (by simp)
  · exact hclosed.append (allClosed_of_not_mem (by decide)) ⟨by decide, by decide⟩

end Form

namespace DoubleQuotes

/-- The form with a default is plain if the default is. -/
theorem isPlain_bracedOr {name default : String} (hname : Word.isName name)
    (hplain : IsPlain default.toList) : IsPlain (Parameter.bracedOr name default).toList := by
  have hletters : ∀ {c}, Parameter.isNameChar c = false → c ∉ name.toList :=
    fun hc => Parameter.not_mem_of_ofName? (Parameter.ofName?_of_isName hname) hc
  rw [Parameter.toList_bracedOr]
  simp [IsPlain, hletters (c := '"') (by decide), hletters (c := '\\') (by decide), hplain.1,
    hplain.2]

end DoubleQuotes

/-! ## Expanding -/

namespace Expand

variable {W : Type} [Workspace W] (ctx : ExpandContext W)

/-- The value of a variable, or what a text stands for between double quotes where the variable has
no value or an empty one. -/
def valueOr (name default : String) : ExpandM W (List String) :=
  let value := (Parameter.variable name).text ctx.state
  if value ≠ "" then return [value] else word ctx (DoubleQuotes.word default)

/-- A form whose default has no closing brace stands for the value or the default. -/
theorem word_bracedOr {name default : String} (hname : Word.isName name)
    (hdefault : '}' ∉ default.toList) :
    word ctx (DoubleQuotes.word (Parameter.bracedOr name default)) = valueOr ctx name default := by
  have hscan := Piece.scan_bracedOr (Parameter.ofName?_of_isName hname) hdefault []
  have hvalue : ((Parameter.variable name).value? ctx.state).getD ""
      = (Parameter.variable name).text ctx.state := rfl
  rw [word_doubleQuotes, Parameter.toList_bracedOr, hscan, Piece.scan, pieces, piece, valueOr,
    word_doubleQuotes, hvalue]
  by_cases hempty : (Parameter.variable name).text ctx.state = ""
  · simp [hempty, pieces, Fragment.join]
  · simp [hempty, pieces, Fragment.join]

/-- Else the default ends at its first closing brace, and what stands behind that brace follows the
value or the default, with the last brace of the form. -/
theorem word_bracedOr_cut {name front back : String} (hname : Word.isName name)
    (hfront : '}' ∉ front.toList) (hback : Form.AllClosed back.toList) :
    word ctx (DoubleQuotes.word (Parameter.bracedOr name (front ++ "\x7d" ++ back))) = (do
      return [String.join (← valueOr ctx name front)
        ++ String.join (← word ctx (DoubleQuotes.word back)) ++ "\x7d"]) := by
  have hdefault : (front ++ "\x7d" ++ back).toList = front.toList ++ '}' :: back.toList := by simp
  have hscan := Piece.scan_bracedOr_cut hname hfront hdefault hback
  have hwhole : Piece.scan (Parameter.bracedOr name front).toList
      = [.parameterOr (.variable name) (Piece.scan front.toList)] := by
    rw [Parameter.toList_bracedOr,
      Piece.scan_bracedOr (Parameter.ofName?_of_isName hname) hfront [], Piece.scan]
  have hbrace : pieces ctx [.char '}'] = return [⟨.literal, "\x7d"⟩] := rfl
  rw [← word_bracedOr ctx hname hfront, word_doubleQuotes, word_doubleQuotes, word_doubleQuotes,
    hscan, hwhole, ← List.singleton_append, pieces_append, pieces_append, hbrace]
  simp [Fragment.join, String.append_assoc]

/-- A value that is not empty is taken as it is. -/
theorem valueOr_of_ne {name : String} (hvalue : (Parameter.variable name).text ctx.state ≠ "")
    (default : String) :
    valueOr ctx name default = return [(Parameter.variable name).text ctx.state] :=
  if_pos hvalue

/-- Where the default has a closing brace, a value is not all that the form stands for. -/
theorem word_bracedOr_ne {name default : String} (hname : Word.isName name)
    (hclosed : Form.AllClosed default.toList) (hmem : '}' ∈ default.toList)
    (hvalue : (Parameter.variable name).text ctx.state ≠ "") (e : Expanding W) :
    word ctx (DoubleQuotes.word (Parameter.bracedOr name default)) e ≠ valueOr ctx name default e := by
  obtain ⟨front, back, hdefault, hfront⟩ := List.eq_append_cons_of_mem hmem
  have hback : Form.AllClosed back :=
    hclosed.of_suffix (hdefault ▸ (List.suffix_cons _ _).trans (List.suffix_append _ _))
  obtain rfl : default = String.ofList front ++ "\x7d" ++ String.ofList back := by
    rw [← String.toList_inj, hdefault]
    simp
  rw [word_bracedOr_cut ctx hname (by simpa using hfront) (by simpa using hback),
    valueOr_of_ne ctx hvalue, valueOr_of_ne ctx hvalue]
  rw [pure_bind]
  intro h
  obtain ⟨more, mid, -, hlast⟩ := exists_of_bind_apply_ok h
  have htexts := List.singleton_inj.1 (Except.ok.inj (congrArg Prod.fst hlast))
  -- the last brace is one character too many
  have hlength := congrArg String.length htexts
  have hbrace : "\x7d".length = 1 := rfl
  simp only [String.length_append, String.join_cons, hbrace] at hlength
  omega

/-- A state where one variable has a value. -/
def seesOne (name : String) : ExpandContext Tree where
  state := { vars := (∅ : Environment).insert name "1" }
  substitute _ := return ""

theorem text_seesOne (name : String) : (Parameter.variable name).text (seesOne name).state = "1" := by
  simp [Parameter.text, Parameter.value?, ShellState.lookup, seesOne]

/-- Between double quotes a form with a default that has closed forms only is read as one part of a
word, as the default by itself is. It is one form exactly if no closing brace stands in the default,
be it that of a nested form; and exactly then the form stands for the value, with nothing left over,
or where that is empty for what the default stands for. -/
theorem default_is_whole_iff {name default : String} (hname : Word.isName name)
    (hplain : DoubleQuotes.IsPlain default.toList) (hclosed : Form.AllClosed default.toList) :
    let form := Parameter.bracedOr name default
    Token.scan (DoubleQuotes.quoted form) = .ok [.word (DoubleQuotes.word form)]
      ∧ Token.scan (DoubleQuotes.quoted default) = .ok [.word (DoubleQuotes.word default)]
      ∧ ((∃ piece, Piece.scan form.toList = [piece]) ↔ '}' ∉ default.toList)
      ∧ ((∀ (W : Type) [Workspace W] (ctx : ExpandContext W) (e : Expanding W),
          word ctx (DoubleQuotes.word form) e = valueOr ctx name default e)
        ↔ '}' ∉ default.toList) := by
  refine ⟨DoubleQuotes.scan_quoted (DoubleQuotes.isPlain_bracedOr hname hplain)
      (Form.allClosed_bracedOr hname hclosed), DoubleQuotes.scan_quoted hplain hclosed,
    Piece.scan_bracedOr_eq_singleton_iff hname hclosed, fun hwhole hmem => ?_,
    fun hdefault W _ ctx e => ?_⟩
  · have hvalue : (Parameter.variable name).text (seesOne name).state ≠ "" := by
      rw [text_seesOne]
      decide
    exact word_bracedOr_ne (seesOne name) hname hclosed hmem hvalue ⟨Tree.empty, []⟩
      (hwhole Tree (seesOne name) ⟨Tree.empty, []⟩)
  · rw [word_bracedOr ctx hname hdefault]

/-- The form of `X` with `a $Y $(b)` as its default. -/
theorem default_is_whole_substitution :
    word (seesOne "X") (DoubleQuotes.word (Parameter.bracedOr "X" "a $Y $(b)")) ⟨Tree.empty, []⟩
      = (.ok ["1"], ⟨Tree.empty, []⟩) := by
  have h := @default_is_whole_iff "X" "a $Y $(b)" (by decide +kernel) (by decide +kernel)
    (by decide +kernel)
  obtain ⟨-, -, -, hwhole⟩ := h
  rw [hwhole.2 (by decide +kernel), valueOr, text_seesOne]
  rfl

/-- A nested form ends the one around it. -/
theorem not_forall_default_is_whole : ¬ ∀ name default : String, Word.isName name →
    DoubleQuotes.IsPlain default.toList → '\'' ∉ default.toList → Form.AllClosed default.toList →
      ∀ (ctx : ExpandContext Tree) (e : Expanding Tree),
        word ctx (DoubleQuotes.word (Parameter.bracedOr name default)) e
          = valueOr ctx name default e := by
  intro h
  have hcut := h "X" "$\x7bY\x7d" (by decide +kernel) (by decide +kernel) (by decide +kernel)
    (by decide +kernel) (seesOne "X") ⟨Tree.empty, []⟩
  have hresult : (word (seesOne "X") (DoubleQuotes.word (Parameter.bracedOr "X" "$\x7bY\x7d"))
      ⟨Tree.empty, []⟩).1 = .ok ["1\x7d"] := by
    decide +kernel
  rw [hcut, valueOr, text_seesOne] at hresult
  exact absurd (Except.ok.inj hresult) (by decide)

end Expand

end Sandshell
