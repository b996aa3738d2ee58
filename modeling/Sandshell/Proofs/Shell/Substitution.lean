import Sandshell.Proofs.Script.Extent
import Sandshell.Proofs.Shell.Quoting

/-!
# Command substitutions

A script written as a substitution in double quotes. Where the search for the end of the form finds
the end of the script, the substitution is one argument and stands for one field: the output of the
script, run on a copy of the state, without the line feed at its end.
-/

namespace Sandshell

namespace Substitution

/-- The form that substitutes the output of a script. -/
def form (script : String) : String :=
  "$(" ++ script ++ ")"

/-- The form between double quotes. -/
def written (script : String) : String :=
  "\"" ++ form script ++ "\""

/-- The word that the form between double quotes should be read as. -/
def word (script : String) : Word :=
  ⟨[⟨.double, form script⟩]⟩

variable {text : String}

theorem toList_form (text : String) : (form text).toList = '$' :: '(' :: text.toList ++ [')'] := by
  simp [form]

/-! ## Reading -/

/-- A substitution that is closed is one piece. -/
theorem scan_script {rest inside after : List Char}
    (h : Form.splitAtParen .bare 0 rest = some (inside, after)) :
    Piece.scan ('$' :: '(' :: rest) = .substitution (String.ofList inside) :: Piece.scan after := by
  have hread : DollarForm.read? ('(' :: rest) = some (.script inside, after) := by
    rw [DollarForm.read?, if_pos rfl, h]
  rw [Piece.scan, if_pos rfl]
  split <;> simp_all

/-- An unclosed one is a piece too, which fails. -/
theorem scan_unclosedScript {rest : List Char} (h : Form.splitAtParen .bare 0 rest = none) :
    Piece.scan ('$' :: '(' :: rest) = [.unclosedSubstitution] := by
  have hread : DollarForm.read? ('(' :: rest) = some (.unclosedScript, []) := by
    rw [DollarForm.read?, if_pos rfl, h]
  rw [Piece.scan, if_pos rfl]
  split <;> simp_all

/-- Expansion takes the form for a substitution of the script exactly if the script is balanced. -/
theorem scan_form_iff : Piece.scan (form text).toList = [.substitution text]
    ↔ Form.IsBalanced .bare text.toList := by
  rw [← Form.splitAtParen_eq_some_iff, toList_form, List.cons_append, List.cons_append]
  constructor
  · intro hscan
    cases hsplit : Form.splitAtParen .bare 0 (text.toList ++ [')']) with
    | none =>
      rw [scan_unclosedScript hsplit] at hscan
      cases hscan
    | some split =>
      -- the form may end early, but then the substitution is not that of the whole script
      obtain ⟨inside, after⟩ := split
      rw [scan_script hsplit, List.cons.injEq, Piece.substitution.injEq] at hscan
      have hinside : inside = text.toList := by
        rw [← hscan.1, String.toList_ofList]
      have htext := Form.eq_of_splitAtParen hsplit
      rw [hinside] at htext ⊢
      rw [← (List.cons.inj (List.append_cancel_left htext)).2]
  · intro hsplit
    rw [scan_script hsplit, String.ofList_toList, Piece.scan]

/-- Wherever it stands, the form between double quotes is read as one part of a word. -/
theorem scanBare_written (h : Form.IsBalanced .bare text.toList) (draft : Option Word.Draft)
    (rest : List Char) : Token.scanBare draft ((written text).toList ++ rest)
      = Token.scanBare (some (⟨.double, form text⟩ :: draft.getD [])) rest := by
  have hwritten : (written text).toList ++ rest
      = '"' :: '$' :: ('(' :: text.toList ++ ')' :: '"' :: rest) := by
    simp [written, toList_form]
  have hform : "".push '$' ++ String.ofList ('(' :: text.toList ++ [')']) = form text := by
    rw [← String.toList_inj, toList_form]
    simp
  have hpart : ((Word.Draft.openPart (draft.getD []) .double).push .double '$').pushAll .double
      ('(' :: text.toList ++ [')']) = ⟨.double, form text⟩ :: draft.getD [] := by
    rw [Word.Draft.openPart, Word.Draft.push, if_pos rfl, Word.Draft.pushAll_newest, hform]
  rw [hwritten, Token.scanBare_quotes, Token.scanDouble_dollar, Form.take_of_isBalanced h,
    Token.scanDouble_quotes, hpart]

/-- Behind the name of a command, the form between double quotes is its argument. -/
theorem parse_written (h : Form.IsBalanced .bare text.toList) (name : String) :
    ∃ w : Word, w.IsSingleQuoted ∧ w.literal = name
      ∧ Script.parse (Quoting.quoted name ++ " " ++ written text)
        = .ok [.chain [.simple [w, word text] []] []] := by
  obtain ⟨draft, hquotes, hname⟩ := Quoting.scanBare_quoted name (' ' :: (written text).toList)
  have hargument : Token.scanBare none (written text).toList = .ok [.word (word text)] := by
    have hscan := scanBare_written h none []
    rw [List.append_nil] at hscan
    rw [hscan, Token.scanBare_nil]
    rfl
  have hscan : Token.scan (Quoting.quoted name ++ " " ++ written text)
      = .ok ([draft.word, word text].map .word) := by
    rw [Token.scan, String.toList_append, String.toList_append, List.append_assoc]
    refine hname.trans ?_
    rw [Token.scanBare_blank (.inl rfl), hargument]
    rfl
  refine ⟨draft.word, hquotes.isSingleQuoted, hquotes.literal_eq, ?_⟩
  rw [Script.parse, hscan]
  exact Script.ofTokens_map_word (List.cons_ne_nil _ _)

/-! ## Expanding -/

variable {W : Type} [Workspace W]

/-- At most one line feed at the end is dropped. -/
theorem withoutLastLineFeed_cases (s : String) :
    s = Shell.withoutLastLineFeed s ++ "\n"
      ∨ s = Shell.withoutLastLineFeed s ∧ s.toList.getLast? ≠ some '\n' := by
  unfold Shell.withoutLastLineFeed
  split
  · next before hreverse =>
    left
    rw [← String.toList_inj, String.toList_append, String.toList_ofList]
    have hlist := congrArg List.reverse hreverse
    rwa [List.reverse_reverse, List.reverse_cons] at hlist
  · next hne =>
    right
    refine ⟨rfl, fun hlast => ?_⟩
    obtain ⟨before, hbefore⟩ := List.getLast?_eq_some_iff.1 hlast
    exact hne before.reverse (by rw [hbefore, List.reverse_append]; rfl)

omit [Workspace W] in
/-- The argument is one quoted fragment, the text that the substitution stands for. -/
theorem fragments_word (h : Form.IsBalanced .bare text.toList) (ctx : ExpandContext W) :
    Expand.fragments ctx (word text)
      = (do return [(⟨.quoted, ← ctx.substitute text⟩ : Fragment)]) := by
  have hpieces : Expand.pieces ctx [.substitution text]
      = (do return [(⟨.value, ← ctx.substitute text⟩ : Fragment)]) := by
    simp [Expand.pieces, Expand.piece]
  have hpart : Expand.part ctx ⟨.double, form text⟩
      = (do return [(⟨.quoted, ← ctx.substitute text⟩ : Fragment)]) := by
    show (Expand.pieces ctx (Piece.scan (form text).toList) >>= _) = _
    rw [scan_form_iff.2 h, hpieces]
    simp [Fragment.join]
  rw [Expand.fragments, word]
  simp [hpart]

/-- Substituting runs the script on a copy of the state; only the workspace and the diagnostics of
the expansion change. -/
theorem substitute_eq {script : Script} (hparse : Script.parse text = .ok script) (sh : Shell W)
    (depth : Nat) (state : ShellState) (e : Expanding W) :
    sh.substitute (depth + 1) state text e =
      match Run.script sh (sh.substitute depth) [] script ⟨e.workspace, state⟩ with
      | (.error error, s) => (.error error, { e with workspace := s.workspace })
      | (.ok outcome, s) => (.ok (Shell.withoutLastLineFeed outcome.stdout.lossyText),
          ⟨s.workspace, e.diagnostics ++ outcome.stderr⟩) := by
  split
  · next error s hrun => simp only [Shell.substitute, hparse, hrun]
  · next outcome s hrun => simp only [Shell.substitute, hparse, hrun]

/-! ## Faithfulness -/

/-- The form between double quotes stands for the output of the script. -/
structure IsFaithful (text : String) (script : Script) : Prop where
  /-- Behind the name of a command it is read as one argument. -/
  parse_eq : ∀ name : String, ∃ w : Word, w.IsSingleQuoted ∧ w.literal = name
    ∧ Script.parse (Quoting.quoted name ++ " " ++ written text)
      = .ok [.chain [.simple [w, word text] []] []]
  /-- While a further substitution may be nested, the argument expands to one field: what the script
  writes when it runs on a copy of the state, without input, less one line feed at the end. Where
  the script fails, so does the expansion. -/
  expand_eq : ∀ {W : Type} [Workspace W] (sh : Shell W) (depth : Nat) (state : ShellState)
    (e : Expanding W),
    match Run.script sh (sh.substitute depth) [] script ⟨e.workspace, state⟩ with
    | (.error error, s) => Expand.word ⟨state, sh.substitute (depth + 1) state⟩ (word text) e
        = (.error error, { e with workspace := s.workspace })
    | (.ok outcome, s) => ∃ field : String,
        (outcome.stdout.lossyText = field ++ "\n"
          ∨ outcome.stdout.lossyText = field ∧ field.toList.getLast? ≠ some '\n')
        ∧ Expand.word ⟨state, sh.substitute (depth + 1) state⟩ (word text) e
          = (.ok [field], ⟨s.workspace, e.diagnostics ++ outcome.stderr⟩)

/-- A balanced script is substituted as a whole. -/
theorem isFaithful_of_isBalanced {script : Script} (hparse : Script.parse text = .ok script)
    (h : Form.IsBalanced .bare text.toList) : IsFaithful text script where
  parse_eq := parse_written h
  expand_eq sh depth state e := by
    have hsubstitute := substitute_eq hparse sh depth state e
    have hfragments := congrFun (fragments_word h ⟨state, sh.substitute (depth + 1) state⟩) e
    split
    · next error s hrun =>
      rw [hrun] at hsubstitute
      rw [bind_apply_error hsubstitute] at hfragments
      rw [Expand.word, bind_apply_error hfragments]
    · next outcome s hrun =>
      rw [hrun] at hsubstitute
      rw [bind_apply_ok hsubstitute] at hfragments
      have hword := Expand.word_of_quoted_fragments _ e [_] hfragments
        (List.cons_ne_nil _ _)
      rw [String.join_cons, String.join_nil, String.append_empty] at hword
      refine ⟨_, ?_, hword⟩
      obtain hfeed | ⟨hnone, hlast⟩ := withoutLastLineFeed_cases outcome.stdout.lossyText
      · exact .inl hfeed
      · exact .inr ⟨hnone, hnone ▸ hlast⟩

/-- Which substitutions are faithful. The script can be read, its forms are closed, and it ends with
a line break. Then expansion takes the form for a substitution of the whole script exactly if the
script is balanced in quotes, escapes and parentheses; it is if all its comments and forms are
harmless; and what is balanced is faithful. -/
theorem faithful_of_balanced {script : Script} (hparse : Script.parse text = .ok script)
    (hclosed : ∀ p ∈ Script.passages text, p.isClosed) (hline : ∃ lines, text = lines ++ "\n") :
    (Piece.scan (form text).toList = [.substitution text] ↔ Form.IsBalanced .bare text.toList)
      ∧ ((∀ p ∈ Script.passages text, p.IsHarmless) → Form.IsBalanced .bare text.toList)
      ∧ (Form.IsBalanced .bare text.toList → IsFaithful text script) := by
  refine ⟨scan_form_iff, fun hharmless => ?_, isFaithful_of_isBalanced hparse⟩
  -- a line break at the end is more than is needed: no backslash may escape the parenthesis
  have hlast : text.toList.getLast? ≠ some '\\' := by
    obtain ⟨lines, rfl⟩ := hline
    simp
  exact Script.isBalanced_of_parse hparse hlast hclosed hharmless

/-- A script with a comment, quotes, parentheses, braces and further substitutions. -/
def nested : String :=
  "(cd d) # done (ok)\necho \"$(basename \"$(pwd)\")\" ')' $\x7bx:-y\x7d" ++ "\n"

/-- Parentheses in quotes and in inner scripts do not matter. -/
theorem faithful_of_balanced_nested :
    ∃ script : Script, Script.parse nested = .ok script ∧ IsFaithful nested script := by
  have hparse : (Script.parse nested).isOk := by decide +kernel
  have hclosed : ∀ p ∈ Script.passages nested, p.isClosed := by decide +kernel
  have hharmless : ∀ p ∈ Script.passages nested, p.IsHarmless := by decide +kernel
  obtain ⟨script, hscript⟩ := exists_of_isOk hparse
  obtain ⟨-, hbalanced, hfaithful⟩ := faithful_of_balanced hscript hclosed ⟨_, rfl⟩
  exact ⟨script, hscript, hfaithful (hbalanced hharmless)⟩

/-- A quote in a comment is taken for one that opens. -/
theorem not_forall_faithful : ¬ ∀ (text : String) (script : Script),
    Script.parse text = .ok script → (∀ p ∈ Script.passages text, p.isClosed) →
    (∃ lines, text = lines ++ "\n") → IsFaithful text script := by
  intro h
  have hparse : (Script.parse "# it's\necho hi\n").isOk := by decide +kernel
  obtain ⟨script, hscript⟩ := exists_of_isOk hparse
  have hfaithful := h _ script hscript (by decide +kernel) ⟨"# it's\necho hi", rfl⟩
  -- the apostrophe hides the closing parenthesis, and the form takes the closing quotes with it
  obtain ⟨w, -, -, hw⟩ := hfaithful.parse_eq "echo"
  have hfails : (Script.parse (Quoting.quoted "echo" ++ " " ++ written "# it's\necho hi\n")).isOk
      = false := by decide +kernel
  rw [hw] at hfails
  cases hfails

end Substitution

end Sandshell
