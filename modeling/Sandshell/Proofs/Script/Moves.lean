import Sandshell.Proofs.Script.Scan

/-!
# The moves of the reader of tokens

The reader as a relation: one move reads the front of the text and gives the tokens that end there,
and the tokens of a text come from moves in turn. What all moves keep, reading keeps.
-/

namespace Sandshell.Token

/-- One move: from a mode with a text to the tokens given, and to the mode and the text after it. -/
inductive Mode.Moves : Mode → List Char → List Token → Mode → List Char → Prop
  | blank {draft : Option Word.Draft} {c : Char} {rest : List Char}
    (hc : c = ' ' ∨ c = '\t' ∨ c = '\r') :
    Moves (.bare draft) (c :: rest) (finish draft []) (.bare none) rest
  | comment {rest : List Char} : Moves (.bare none) ('#' :: rest) [] .comment rest
  | quote {draft : Option Word.Draft} {rest : List Char} :
    Moves (.bare draft) ('\'' :: rest) [] (.single ((draft.getD []).openPart .single)) rest
  | quotes {draft : Option Word.Draft} {rest : List Char} :
    Moves (.bare draft) ('"' :: rest) [] (.double ((draft.getD []).openPart .double)) rest
  | continuation {draft : Option Word.Draft} {rest : List Char} :
    Moves (.bare draft) ('\\' :: '\n' :: rest) [] (.bare draft) rest
  | escape {draft : Option Word.Draft} {c : Char} {rest : List Char} (hc : c ≠ '\n') :
    Moves (.bare draft) ('\\' :: c :: rest) [] (.bare (some ((draft.getD []).push .single c))) rest
  | form {draft : Option Word.Draft} {rest : List Char} :
    Moves (.bare draft) ('$' :: rest) []
      (.bare (some (((draft.getD []).push .none '$').pushAll .none (Form.take rest).1)))
      (Form.take rest).2
  | operator {draft : Option Word.Draft} {o : Operator} {s rest : List Char}
    (hread : Operator.read? draft.isSome s = some (.ok (o, rest))) :
    Moves (.bare draft) s (finish draft [.operator o]) (.bare none) rest
  | plain {draft : Option Word.Draft} {c : Char} {rest : List Char}
    (hread : Operator.read? draft.isSome (c :: rest) = none) (hc : IsPlain draft c) :
    Moves (.bare draft) (c :: rest) [] (.bare (some ((draft.getD []).push .none c))) rest
  | commentEnd {rest : List Char} :
    Moves .comment ('\n' :: rest) [.operator .newline] (.bare none) rest
  | commented {c : Char} {rest : List Char} (hc : c ≠ '\n') :
    Moves .comment (c :: rest) [] .comment rest
  | singleEnd {parts : Word.Draft} {rest : List Char} :
    Moves (.single parts) ('\'' :: rest) [] (.bare (some parts)) rest
  | single {parts : Word.Draft} {c : Char} {rest : List Char} (hc : c ≠ '\'') :
    Moves (.single parts) (c :: rest) [] (.single (parts.push .single c)) rest
  | doubleEnd {parts : Word.Draft} {rest : List Char} :
    Moves (.double parts) ('"' :: rest) [] (.bare (some parts)) rest
  | escapeInDouble {parts : Word.Draft} {c : Char} {rest : List Char} (hc : c = '"' ∨ c = '\\') :
    Moves (.double parts) ('\\' :: c :: rest) [] (.double (parts.push .double c)) rest
  | dollarInDouble {parts : Word.Draft} {rest : List Char} :
    Moves (.double parts) ('\\' :: '$' :: rest) []
      (.double ((parts.push .single '$').openPart .double)) rest
  | formInDouble {parts : Word.Draft} {rest : List Char} :
    Moves (.double parts) ('$' :: rest) []
      (.double ((parts.push .double '$').pushAll .double (Form.take rest).1)) (Form.take rest).2
  /-- A backslash that escapes nothing stands for itself. -/
  | double {parts : Word.Draft} {c : Char} {rest : List Char} (hquote : c ≠ '"')
    (hdollar : c ≠ '$') (hescape : c = '\\' → ∀ d ∈ rest.head?, d ≠ '"' ∧ d ≠ '\\' ∧ d ≠ '$') :
    Moves (.double parts) (c :: rest) [] (.double (parts.push .double c)) rest

/-- What reading gives: moves up to the end of the text, where the word that has begun ends. -/
inductive Mode.Gives : Mode → List Char → List Token → Prop
  | bareEnd {draft : Option Word.Draft} : Gives (.bare draft) [] (finish draft [])
  | lastBackslash {draft : Option Word.Draft} :
    Gives (.bare draft) ['\\'] (finish (some ((draft.getD []).push .none '\\')) [])
  | commentEnd : Gives .comment [] []
  | moves {mode next : Mode} {s rest : List Char} {out ts : List Token}
    (hmove : mode.Moves s out next rest) (hrest : next.Gives rest ts) : Gives mode s (out ++ ts)

/-! ## The reader moves -/

/-- The next move, or the end of the text. -/
inductive Mode.Stands (mode : Mode) (s : List Char) : Prop
  | moves (out : List Token) (next : Mode) (rest : List Char) (hmove : mode.Moves s out next rest)
      (hlt : rest.length < s.length) (hscan : mode.scan s = (next.scan rest).map (out ++ ·))
  | ends (h : ∀ ts, mode.scan s = .ok ts → mode.Gives s ts)

variable {mode : Mode} {s : List Char} {draft : Option Word.Draft} {parts : Word.Draft}

/-- A move without a token. -/
theorem Mode.Stands.silently {next : Mode} {rest : List Char} (hmove : mode.Moves s [] next rest)
    (hlt : rest.length < s.length) (hscan : mode.scan s = next.scan rest) : mode.Stands s :=
  .moves [] next rest hmove hlt (by rw [hscan, map_nil_append])

/-- At the end of the text a quote is still open, or the word is finished. -/
theorem Mode.stands_nil (mode : Mode) : mode.Stands [] := by
  refine .ends fun ts h => ?_
  cases mode with
  | bare draft =>
    obtain rfl := Except.ok.inj (scanBare_nil.symm.trans h)
    exact .bareEnd
  | comment =>
    obtain rfl := Except.ok.inj ((scanComment.eq_1).symm.trans h)
    exact .commentEnd
  | single parts => cases (scanSingle.eq_1 parts).symm.trans h
  | double parts => cases (scanDouble.eq_1 parts).symm.trans h

theorem Mode.stands_comment (c : Char) (rest : List Char) : Mode.comment.Stands (c :: rest) := by
  by_cases hc : c = '\n'
  · subst hc
    refine .moves _ _ _ .commentEnd (by simp) ?_
    show scanComment _ = _
    rw [scanComment, if_pos rfl, return_eq_map]
    rfl
  · refine .silently (.commented hc) (by simp) ?_
    show scanComment _ = scanComment _
    rw [scanComment, if_neg hc]

/-- In single quotes everything but a quote is kept. -/
theorem Mode.stands_single (parts : Word.Draft) (c : Char) (rest : List Char) :
    (Mode.single parts).Stands (c :: rest) := by
  by_cases hc : c = '\''
  · subst hc
    exact .silently .singleEnd (by simp) scanSingle_quote
  · exact .silently (.single hc) (by simp) (scanSingle_cons hc)

/-- In double quotes there are forms and escapes besides. -/
theorem Mode.stands_double (parts : Word.Draft) (c : Char) (rest : List Char) :
    (Mode.double parts).Stands (c :: rest) := by
  by_cases hquote : c = '"'
  · subst hquote
    exact .silently .doubleEnd (by simp) scanDouble_quotes
  by_cases hbackslash : c = '\\'
  · subst hbackslash
    cases rest with
    | nil => exact .ends fun ts h => by cases scanDouble_backslash_nil.symm.trans h
    | cons d rest =>
      have hscan := @scanDouble_backslash d rest parts
      unfold Token.escapeInDouble at hscan
      -- three characters are escaped, two of them kept at once and the dollar sign in a part of its
      -- own
      split at hscan
      · next hescaped =>
        refine .silently (.escapeInDouble hescaped) ?_ hscan
        simp only [List.length_cons]
        omega
      split at hscan
      · next hdollar =>
        subst hdollar
        refine .silently .dollarInDouble ?_ hscan
        simp only [List.length_cons]
        omega
      · next hescaped hdollar =>
        rw [not_or] at hescaped
        refine .silently (.double hquote (by decide) fun _ e he => ?_) (by simp) hscan
        obtain rfl : d = e := Option.some.inj he
        exact ⟨hescaped.1, hescaped.2, hdollar⟩
  by_cases hdollar : c = '$'
  · subst hdollar
    exact .silently .formInDouble (Form.length_take_snd_lt _ _) scanDouble_dollar
  · exact .silently (.double hquote hdollar fun h => absurd h hbackslash) (by simp)
      (scanDouble_cons hquote hbackslash hdollar)

/-- A plain character is kept, or stands for an operator. -/
theorem Mode.stands_plain {c : Char} (hc : IsPlain draft c) (rest : List Char) :
    (Mode.bare draft).Stands (c :: rest) := by
  have hscan := @scanBare_plain draft c rest hc
  rcases hread : Operator.read? draft.isSome (c :: rest) with _ | ⟨e | ⟨o, left⟩⟩
  · rw [hread] at hscan
    exact .silently (.plain hread hc) (by simp) hscan
  · rw [hread] at hscan
    exact .ends fun ts hok => by cases hscan.symm.trans hok
  · rw [hread] at hscan
    refine .moves _ _ _ (.operator hread) (Operator.length_lt_of_read? hread) ?_
    refine hscan.trans (congrArg (Except.map · _) (funext fun ts => ?_))
    rw [finish_eq_append draft (.operator o :: ts), finish_eq_append draft [.operator o]]
    simp

/-- Outside of quotes there are blanks and comments, too. -/
theorem Mode.stands_bare (draft : Option Word.Draft) (c : Char) (rest : List Char) :
    (Mode.bare draft).Stands (c :: rest) := by
  by_cases hblank : c = ' ' ∨ c = '\t' ∨ c = '\r'
  · refine .moves _ _ _ (.blank hblank) (by simp) ?_
    refine (scanBare_blank hblank).trans (congrArg (Except.map · _) (funext fun ts => ?_))
    exact finish_eq_append draft ts
  by_cases hcomment : c = '#' ∧ draft.isNone = true
  · obtain ⟨rfl, hnone⟩ := hcomment
    obtain rfl := Option.isNone_iff_eq_none.1 hnone
    exact .silently .comment (by simp) scanBare_number_sign
  by_cases hsingle : c = '\''
  · subst hsingle
    exact .silently .quote (by simp) scanBare_quote
  by_cases hdouble : c = '"'
  · subst hdouble
    exact .silently .quotes (by simp) scanBare_quotes
  by_cases hbackslash : c = '\\'
  · subst hbackslash
    -- at the very end a backslash stands for itself
    cases rest with
    | nil =>
      refine .ends fun ts h => ?_
      obtain rfl := Except.ok.inj (scanBare_backslash_nil.symm.trans h)
      exact .lastBackslash
    | cons d rest =>
      have hlt : rest.length < ('\\' :: d :: rest).length := by
        simp only [List.length_cons]
        omega
      by_cases hd : d = '\n'
      · subst hd
        exact .silently .continuation hlt scanBare_backslash_newline
      · exact .silently (.escape hd) hlt (scanBare_backslash hd)
  by_cases hdollar : c = '$'
  · subst hdollar
    exact .silently .form (Form.length_take_snd_lt _ _) scanBare_dollar
  · exact Mode.stands_plain ⟨hblank, hcomment, hsingle, hdouble, hbackslash, hdollar⟩ rest

/-- At every character the scanner makes one of these moves. -/
theorem Mode.stands (mode : Mode) (s : List Char) : mode.Stands s := by
  cases s with
  | nil => exact Mode.stands_nil mode
  | cons c rest =>
    cases mode with
    | bare draft => exact Mode.stands_bare draft c rest
    | comment => exact Mode.stands_comment c rest
    | single parts => exact Mode.stands_single parts c rest
    | double parts => exact Mode.stands_double parts c rest

/-- By induction on what is left of the text. -/
theorem Mode.gives_of_scan (mode : Mode) (s : List Char) {ts : List Token}
    (h : mode.scan s = .ok ts) : mode.Gives s ts := by
  cases mode.stands s with
  | moves out next rest hmove hlt hscan =>
    rw [hscan] at h
    obtain ⟨more, hmore, rfl⟩ := exists_of_map_eq_ok h
    exact .moves hmove (Mode.gives_of_scan next rest hmore)
  | ends hends => exact hends ts h
termination_by s.length

/-- The tokens of a script come from moves. -/
theorem gives_of_scan {text : String} {ts : List Token} (h : scan text = .ok ts) :
    (Mode.bare none).Gives text.toList ts :=
  Mode.gives_of_scan (.bare none) text.toList h

end Sandshell.Token
