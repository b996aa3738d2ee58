import Sandshell.Proofs.Step
import Sandshell.Script.Token.Scan

/-!
# Tokens of lines

The reader of tokens step by step: it stands outside quotes, in a comment or in quotes, and each
step takes characters off the front of the text. No step looks past a line break, except where a
backslash or an unclosed form swallows it; so the tokens of a text and of more lines after it are
those of the text, a line break, and those of the lines.
-/

namespace Sandshell

/-! ## Line ends -/

/-- What can stand after a line: nothing, or a line break and more text. -/
inductive LineEnd : List Char → Prop
  | nil : LineEnd []
  | newline (more : List Char) : LineEnd ('\n' :: more)

variable {after : List Char}

/-- A line's end behind a text makes no new character in front of it. -/
theorem LineEnd.not_cons_of_append {c : Char} {left : List Char} (hafter : LineEnd after)
    (hc : c ≠ '\n') (hleft : ∀ tail, left = c :: tail → False) (tail : List Char) :
    left ++ after = c :: tail → False := by
  intro h
  cases left with
  | nil =>
    cases hafter with
    | nil => exact List.cons_ne_nil _ _ h.symm
    | newline more => exact hc (List.cons.inj h).1.symm
  | cons d left => exact hleft left (by rw [(List.cons.inj h).1])

/-- Nor does it make two. -/
theorem LineEnd.not_cons_cons_of_append {c d : Char} {left : List Char} (hafter : LineEnd after)
    (hc : c ≠ '\n') (hd : d ≠ '\n') (hleft : ∀ tail, left = c :: d :: tail → False)
    (tail : List Char) : left ++ after = c :: d :: tail → False := by
  intro h
  cases left with
  | nil =>
    have hnil : ∀ tail, [] = c :: tail → False := nofun
    exact hafter.not_cons_of_append hc hnil _ h
  | cons e left =>
    obtain ⟨rfl, htail⟩ := List.cons.inj h
    exact hafter.not_cons_of_append hd (fun tail hd => hleft tail (by rw [hd])) tail htail

/-- No operator reaches over the end of its line. -/
theorem Operator.read?_append {inWord : Bool} {s : List Char} (hs : s ≠ [])
    (hafter : LineEnd after) :
    Operator.read? inWord (s ++ after) = (Operator.read? inWord s).map
      (·.map fun (o, left) => (o, left ++ after)) := by
  fun_cases Operator.read? inWord s with
  | case8 rest happend hjoin =>
    rw [List.cons_append, Operator.read?]
    · rfl
    · exact hafter.not_cons_of_append (by decide) happend
    · exact hafter.not_cons_of_append (by decide) hjoin
  | case10 rest horElse =>
    rw [List.cons_append, Operator.read?]
    · rfl
    · exact hafter.not_cons_of_append (by decide) horElse
  | case12 rest handThen =>
    rw [List.cons_append, Operator.read?]
    · rfl
    · exact hafter.not_cons_of_append (by decide) handThen
  | case13 rest hin => simp [Operator.read?, hin]
  | case14 hin rest => simp [Operator.read?, hin, Except.map]
  | case15 hin rest => simp [Operator.read?, hin, Except.map]
  | case16 hin rest hone =>
    rw [List.cons_append, List.cons_append, List.cons_append, Operator.read?, if_neg hin]
    · rfl
    · exact hafter.not_cons_of_append (by decide) hone
  | case17 hin rest happend hjoin hjoinElse =>
    rw [List.cons_append, List.cons_append, Operator.read?, if_neg ‹_›]
    · rfl
    · exact hafter.not_cons_of_append (by decide) happend
    · exact hafter.not_cons_cons_of_append (by decide) (by decide) hjoin
    · exact hafter.not_cons_of_append (by decide) hjoinElse
  | case18 =>
    rw [Operator.read?]
    · rfl
    case x_2 =>
      -- a line break can only be the first character of `s` itself, which is not empty
      intro tail h
      cases s with
      | nil => exact hs rfl
      | cons c s =>
        exact ‹∀ rest, c :: s = '\n' :: rest → False› s (by rw [(List.cons.inj h).1])
    all_goals
      first
      | exact hafter.not_cons_of_append (by decide) ‹_›
      | exact hafter.not_cons_cons_of_append (by decide) (by decide) ‹_›
  | _ => rfl

/-! ## Forms -/

namespace Form

theorem splitAtParen_cons {region : Region} {depth : Nat} {c : Char}
    (hc : ¬(region = .bare ∧ c = ')')) (rest : List Char) :
    splitAtParen region depth (c :: rest)
      = (splitAtParen (region.step c) (if region = .bare ∧ c = '(' then depth + 1 else depth)
          rest).map fun (inside, left) => (c :: inside, left) := by
  rw [splitAtParen.eq_def]
  exact if_neg hc

/-- What stands behind the closing parenthesis does not change what is before it. -/
theorem splitAtParen_append (region : Region) (depth : Nat) (s after : List Char) :
    ∀ inside left, splitAtParen region depth s = some (inside, left) →
      splitAtParen region depth (s ++ after) = some (inside, left ++ after) := by
  fun_induction splitAtParen region depth s with
  | case1 => nofun
  | case2 region c rest hclose =>
    intro inside left h
    cases h
    rw [List.cons_append, splitAtParen, if_pos hclose]
  | case3 region c rest hclose d ih =>
    intro inside left h
    obtain ⟨⟨i, a⟩, hrest, hcons⟩ := Option.map_eq_some_iff.1 h
    cases hcons
    rw [List.cons_append, splitAtParen, if_pos hclose, ih _ _ hrest]
    rfl
  | case4 region depth c rest hopen _ ih =>
    intro inside left h
    obtain ⟨⟨i, a⟩, hrest, hcons⟩ := Option.map_eq_some_iff.1 h
    cases hcons
    rw [List.cons_append, splitAtParen_cons hopen]
    exact congrArg (Option.map _) (ih _ _ hrest)

/-- A line break closes no parenthesis. -/
theorem splitAtParen_newline {region : Region} {depth : Nat} {s : List Char}
    (h : splitAtParen region depth s = none) :
    splitAtParen region depth (s ++ ['\n']) = none := by
  fun_induction splitAtParen region depth s with
  | case1 => simp [splitAtParen.eq_def]
  | case2 => cases h
  | case3 region c rest hclose d ih =>
    rw [List.cons_append, splitAtParen, if_pos hclose, ih (Option.map_eq_none_iff.1 h)]
    rfl
  | case4 region depth c rest hopen _ ih =>
    rw [List.cons_append, splitAtParen_cons hopen]
    exact congrArg (Option.map _) (ih (Option.map_eq_none_iff.1 h))

/-- The same holds of a closing brace. -/
theorem splitAtBrace_append (s after : List Char) :
    ∀ inside left, splitAtBrace s = some (inside, left) →
      splitAtBrace (s ++ after) = some (inside, left ++ after) := by
  fun_induction splitAtBrace s with
  | case1 => nofun
  | case2 rest =>
    intro inside left h
    cases h
    rfl
  | case3 c rest hopen ih =>
    intro inside left h
    obtain ⟨⟨i, a⟩, hrest, hcons⟩ := Option.map_eq_some_iff.1 h
    cases hcons
    rw [List.cons_append, splitAtBrace, if_neg hopen, ih _ _ hrest]
    rfl

/-- A newline closes no brace. -/
theorem splitAtBrace_newline {s : List Char} (h : splitAtBrace s = none) :
    splitAtBrace (s ++ ['\n']) = none := by
  fun_induction splitAtBrace s with
  | case1 => rfl
  | case2 => cases h
  | case3 c rest hopen ih =>
    rw [List.cons_append, splitAtBrace, if_neg hopen, ih (Option.map_eq_none_iff.1 h)]
    rfl

/-- A form ends on its line, or it is unclosed and goes on with the next one. -/
theorem take_append_or (s : List Char) :
    (∀ after, LineEnd after → take (s ++ after) = ((take s).1, (take s).2 ++ after))
      ∨ (take s).2 = [] ∧ (take (s ++ ['\n'])).2 = [] := by
  fun_cases take s with
  | case1 rest inside left h =>
    left
    intro after hafter
    simp [take, splitAtParen_append _ _ _ after _ _ h]
  | case2 rest h =>
    right
    simp [take, splitAtParen_newline h]
  | case3 rest inside left h =>
    left
    intro after hafter
    simp [take, splitAtBrace_append _ after _ _ h]
  | case4 rest h =>
    right
    simp [take, splitAtBrace_newline h]
  | case5 s hparen hbrace =>
    left
    intro after hafter
    rw [take]
    · exact hafter.not_cons_of_append (by decide) hparen
    · exact hafter.not_cons_of_append (by decide) hbrace

end Form

/-- Characters quoted like the newest part of a word go on with it. -/
theorem Word.Draft.pushAll_newest (quote : Quote) (text : String) (older : Draft)
    (chars : List Char) : Draft.pushAll (⟨quote, text⟩ :: older) quote chars
      = ⟨quote, text ++ String.ofList chars⟩ :: older := by
  induction chars generalizing text with
  | nil => simp [pushAll]
  | cons c chars ih =>
    have hfirst : Draft.push (⟨quote, text⟩ :: older) quote c = ⟨quote, text.push c⟩ :: older :=
      if_pos rfl
    rw [pushAll, List.foldl_cons, hfirst]
    refine (ih (text.push c)).trans ?_
    rw [String.push_eq_append, String.append_assoc, ← String.ofList_cons]

namespace Token

/-! ## Steps of the reader -/

/-- A finished word comes before all other tokens. -/
theorem finish_eq_append (draft : Option Word.Draft) (ts : List Token) :
    finish draft ts = finish draft [] ++ ts := by
  cases draft <;> rfl

/-- A word is one token at most. -/
theorem length_finish_nil_le (draft : Option Word.Draft) : (finish draft []).length ≤ 1 := by
  cases draft <;> simp [finish]

section Steps

variable {draft : Option Word.Draft} {c : Char} {rest : List Char}

theorem scanBare_nil : scanBare draft [] = .ok (finish draft []) := by
  rw [scanBare]

/-- A blank ends the word. -/
theorem scanBare_blank (hc : c = ' ' ∨ c = '\t' ∨ c = '\r') :
    scanBare draft (c :: rest) = (scanBare none rest).map (finish draft) := by
  rw [scanBare.eq_def]
  dsimp only
  rw [if_pos hc, return_eq_map]

/-- A number sign starts a comment only where no word is open. -/
theorem scanBare_number_sign : scanBare none ('#' :: rest) = scanComment rest := by
  rw [scanBare.eq_def]
  dsimp only
  rw [if_neg (by decide), if_pos ⟨rfl, rfl⟩]

theorem scanBare_quote :
    scanBare draft ('\'' :: rest) = scanSingle ((draft.getD []).openPart .single) rest := by
  rw [scanBare.eq_def]
  dsimp only
  rw [if_neg (by decide), if_neg (by simp), if_pos rfl]

theorem scanBare_quotes :
    scanBare draft ('"' :: rest) = scanDouble ((draft.getD []).openPart .double) rest := by
  rw [scanBare.eq_def]
  dsimp only
  rw [if_neg (by decide), if_neg (by simp), if_neg (by decide), if_pos rfl]

theorem scanBare_backslash_nil :
    scanBare draft ['\\'] = .ok (finish (some ((draft.getD []).push .none '\\')) []) := by
  rw [scanBare, if_neg (by decide), if_neg (by simp), if_neg (by decide), if_neg (by decide),
    if_pos rfl]

/-- An escaped newline is left out. -/
theorem scanBare_backslash_newline :
    scanBare draft ('\\' :: '\n' :: rest) = scanBare draft rest := by
  rw [scanBare, if_neg (by decide), if_neg (by simp), if_neg (by decide), if_neg (by decide),
    if_pos rfl]
  simp only [if_true]

/-- Any other escaped character is taken literally. -/
theorem scanBare_backslash (hc : c ≠ '\n') :
    scanBare draft ('\\' :: c :: rest) = scanBare (some ((draft.getD []).push .single c)) rest := by
  rw [scanBare, if_neg (by decide), if_neg (by simp), if_neg (by decide), if_neg (by decide),
    if_pos rfl]
  simp only [if_neg hc]

/-- A form is taken into the word as it stands. -/
theorem scanBare_dollar :
    scanBare draft ('$' :: rest) =
      scanBare (some (((draft.getD []).push .none '$').pushAll .none (Form.take rest).1))
        (Form.take rest).2 := by
  rw [scanBare.eq_def]
  dsimp only
  rw [if_neg (by decide), if_neg (by simp), if_neg (by decide), if_neg (by decide),
    if_neg (by decide), if_pos rfl]

/-- Starts neither blank, comment, quote, escape nor form. -/
def IsPlain (draft : Option Word.Draft) (c : Char) : Prop :=
  ¬(c = ' ' ∨ c = '\t' ∨ c = '\r') ∧ ¬(c = '#' ∧ draft.isNone = true) ∧ c ≠ '\'' ∧ c ≠ '"'
    ∧ c ≠ '\\' ∧ c ≠ '$'

/-- A plain character belongs to an operator or to the word. -/
theorem scanBare_plain (hc : IsPlain draft c) :
    scanBare draft (c :: rest) = match Operator.read? draft.isSome (c :: rest) with
      | some (.ok (o, left)) => (scanBare none left).map (finish draft <| .operator o :: ·)
      | some (.error e) => .error e
      | none => scanBare (some ((draft.getD []).push .none c)) rest := by
  obtain ⟨hblank, hcomment, hsingle, hdouble, hbackslash, hdollar⟩ := hc
  rw [scanBare.eq_def]
  dsimp only
  rw [if_neg hblank, if_neg hcomment, if_neg hsingle, if_neg hdouble, if_neg hbackslash,
    if_neg hdollar]
  split
  · next h => simp only [h, return_eq_map]
  · next h => simp only [h]
  · next h => simp only [h]

theorem scanSingle_quote {parts : Word.Draft} :
    scanSingle parts ('\'' :: rest) = scanBare (some parts) rest := by
  rw [scanSingle, if_pos rfl]

theorem scanSingle_cons {parts : Word.Draft} (hc : c ≠ '\'') :
    scanSingle parts (c :: rest) = scanSingle (parts.push .single c) rest := by
  rw [scanSingle, if_neg hc]

theorem scanDouble_quotes {parts : Word.Draft} :
    scanDouble parts ('"' :: rest) = scanBare (some parts) rest := by
  rw [scanDouble.eq_def]
  exact if_pos rfl

theorem scanDouble_backslash_nil {parts : Word.Draft} :
    scanDouble parts ['\\'] = .error (.unterminatedQuote '"') := by
  rw [scanDouble, if_neg (by decide), if_pos rfl]

/-- What a backslash and a character in double quotes stand for, and whether both are used up. -/
def escapeInDouble (parts : Word.Draft) (c : Char) : Word.Draft × Bool :=
  if c = '"' ∨ c = '\\' then (parts.push .double c, true)
  else if c = '$' then ((parts.push .single '$').openPart .double, true)
  else (parts.push .double '\\', false)

/-- A backslash escapes some characters only; before the others it stands for itself. -/
theorem scanDouble_backslash {parts : Word.Draft} :
    scanDouble parts ('\\' :: c :: rest) =
      scanDouble (escapeInDouble parts c).1
        (if (escapeInDouble parts c).2 then rest else c :: rest) := by
  rw [scanDouble, if_neg (by decide), if_pos rfl, escapeInDouble]
  split
  · rfl
  · split <;> rfl

/-- Double quotes keep a form as it stands. -/
theorem scanDouble_dollar {parts : Word.Draft} :
    scanDouble parts ('$' :: rest) =
      scanDouble ((parts.push .double '$').pushAll .double (Form.take rest).1)
        (Form.take rest).2 := by
  rw [scanDouble.eq_def]
  dsimp only
  rw [if_neg (by decide), if_neg (by decide), if_pos rfl]

theorem scanDouble_cons {parts : Word.Draft} (hquote : c ≠ '"') (hbackslash : c ≠ '\\')
    (hdollar : c ≠ '$') :
    scanDouble parts (c :: rest) = scanDouble (parts.push .double c) rest := by
  rw [scanDouble.eq_def]
  dsimp only
  rw [if_neg hquote, if_neg hbackslash, if_neg hdollar]

end Steps

/-! ## Lines -/

/-- Where the reader stands: outside quotes, behind the beginning of a word or not, in a comment, or
in quotes. -/
inductive Mode where
  | bare (draft : Option Word.Draft)
  | comment
  | single (parts : Word.Draft)
  | double (parts : Word.Draft)

/-- Reads tokens from where the reader stands. -/
def Mode.scan : Mode → List Char → Except ParseError (List Token)
  | .bare draft, s => scanBare draft s
  | .comment, s => scanComment s
  | .single parts, s => scanSingle parts s
  | .double parts, s => scanDouble parts s

/-- What the next step on a line does, whatever comes after the line. -/
inductive Mode.Step (mode : Mode) (s : List Char) : Prop
  /-- It gives tokens and leaves less to read. -/
  | goesOn (out : List Token) (next : Mode) (rest : List Char) (hlt : rest.length < s.length)
      (h : ∀ after, LineEnd after →
        mode.scan (s ++ after) = (next.scan (rest ++ after)).map (out ++ ·))
  /-- It fails, or there is a quote that is not closed on the line. -/
  | fails (e : ParseError) (h : mode.scan s = .error e)
  /-- It takes the end of the line for a part of the word that the line ends with. -/
  | swallows (last : Token) (ts : List Token) (h : mode.scan s = .ok [last])
      (hnewline : mode.scan (s ++ ['\n']) = .ok ts) (hle : ts.length ≤ 1)

theorem map_nil_append {ε : Type} (x : Except ε (List Token)) : x.map ([] ++ ·) = x := by
  cases x <;> rfl

/-- A step that makes no token goes on alike whatever follows the text. -/
theorem Mode.Step.goesOn_silently {mode : Mode} {s : List Char} (next : Mode) (rest : List Char)
    (hlt : rest.length < s.length)
    (h : ∀ after, LineEnd after → mode.scan (s ++ after) = next.scan (rest ++ after)) :
    mode.Step s :=
  .goesOn [] next rest hlt fun after hafter => by rw [h after hafter, map_nil_append]

/-- A comment goes on up to the newline. -/
theorem Mode.step_comment (c : Char) (rest : List Char) : Mode.comment.Step (c :: rest) := by
  by_cases hc : c = '\n'
  · refine .goesOn [.operator .newline] (.bare none) rest (by simp) fun after _ => ?_
    show scanComment (c :: (rest ++ after)) = (scanBare none (rest ++ after)).map _
    rw [scanComment, if_pos hc, return_eq_map]
    rfl
  · refine .goesOn_silently .comment rest (by simp) fun after _ => ?_
    show scanComment (c :: (rest ++ after)) = scanComment (rest ++ after)
    rw [scanComment, if_neg hc]

/-- In single quotes only the quote counts. -/
theorem Mode.step_single (parts : Word.Draft) (c : Char) (rest : List Char) :
    (Mode.single parts).Step (c :: rest) := by
  by_cases hc : c = '\''
  · subst hc
    exact .goesOn_silently (.bare (some parts)) rest (by simp) fun _ _ => scanSingle_quote
  · exact .goesOn_silently (.single (parts.push .single c)) rest (by simp)
      fun _ _ => scanSingle_cons hc

/-- In double quotes a form or an escape is one step. -/
theorem Mode.step_double (parts : Word.Draft) (c : Char) (rest : List Char) :
    (Mode.double parts).Step (c :: rest) := by
  by_cases hquote : c = '"'
  · subst hquote
    exact .goesOn_silently (.bare (some parts)) rest (by simp) fun _ _ => scanDouble_quotes
  by_cases hbackslash : c = '\\'
  · subst hbackslash
    cases rest with
    | nil => exact .fails _ scanDouble_backslash_nil
    | cons d rest =>
      refine .goesOn_silently (.double (escapeInDouble parts d).1)
        (if (escapeInDouble parts d).2 then rest else d :: rest) ?_ fun after _ => ?_
      · split <;> simp only [List.length_cons] <;> omega
      · show scanDouble parts ('\\' :: d :: (rest ++ after)) = scanDouble _ _
        rw [scanDouble_backslash]
        split <;> rfl
  by_cases hdollar : c = '$'
  · subst hdollar
    obtain hclosed | ⟨hopen, -⟩ := Form.take_append_or rest
    · refine .goesOn_silently
        (.double ((parts.push .double '$').pushAll .double (Form.take rest).1))
        (Form.take rest).2 (Form.length_take_snd_lt _ _) fun after hafter => ?_
      show scanDouble parts ('$' :: (rest ++ after)) = scanDouble _ _
      rw [scanDouble_dollar, hclosed after hafter]
    · refine .fails (.unterminatedQuote '"') ?_
      show scanDouble parts ('$' :: rest) = _
      rw [scanDouble_dollar, hopen, scanDouble]
  · exact .goesOn_silently (.double (parts.push .double c)) rest (by simp)
      fun _ _ => scanDouble_cons hquote hbackslash hdollar

/-- A backslash at the end of a line takes the line break with it. -/
theorem Mode.step_bare_backslash (draft : Option Word.Draft) (rest : List Char) :
    (Mode.bare draft).Step ('\\' :: rest) := by
  cases rest with
  | nil =>
    refine .swallows _ (finish draft []) scanBare_backslash_nil ?_ (length_finish_nil_le draft)
    show scanBare draft ['\\', '\n'] = _
    rw [scanBare_backslash_newline, scanBare_nil]
  | cons c rest =>
    have hlt : rest.length < ('\\' :: c :: rest).length := by
      simp only [List.length_cons]
      omega
    by_cases hc : c = '\n'
    · subst hc
      exact .goesOn_silently (.bare draft) rest hlt fun _ _ => scanBare_backslash_newline
    · exact .goesOn_silently (.bare (some ((draft.getD []).push .single c))) rest hlt
        fun _ _ => scanBare_backslash hc

/-- A form that is not closed on its line takes the line break with it. -/
theorem Mode.step_bare_dollar (draft : Option Word.Draft) (rest : List Char) :
    (Mode.bare draft).Step ('$' :: rest) := by
  obtain hclosed | ⟨hopen, hlonger⟩ := Form.take_append_or rest
  · refine .goesOn_silently
      (.bare (some (((draft.getD []).push .none '$').pushAll .none (Form.take rest).1)))
      (Form.take rest).2 (Form.length_take_snd_lt _ _) fun after hafter => ?_
    show scanBare draft ('$' :: (rest ++ after)) = scanBare _ _
    rw [scanBare_dollar, hclosed after hafter]
  · have hword : ∀ form : List Char, (Form.take form).2 = [] →
        ∃ w, scanBare draft ('$' :: form) = .ok [.word w] := by
      intro form hform
      rw [scanBare_dollar, hform, scanBare_nil]
      exact ⟨_, rfl⟩
    obtain ⟨w, h⟩ := hword rest hopen
    obtain ⟨w', h'⟩ := hword _ hlonger
    exact .swallows _ _ h h' (Nat.le_refl 1)

/-- Outside of them an operator is one step. -/
theorem Mode.step_bare_plain {draft : Option Word.Draft} {c : Char} (hc : IsPlain draft c)
    (rest : List Char) : (Mode.bare draft).Step (c :: rest) := by
  have hread : ∀ after, LineEnd after → Operator.read? draft.isSome (c :: rest ++ after)
      = (Operator.read? draft.isSome (c :: rest)).map
        (·.map fun (o, left) => (o, left ++ after)) :=
    fun _ => Operator.read?_append (List.cons_ne_nil c rest)
  -- the character goes to the word, or begins an operator that ends the word
  cases h : Operator.read? draft.isSome (c :: rest) with
  | none =>
    refine .goesOn_silently (.bare (some ((draft.getD []).push .none c))) rest (by simp)
      fun after hafter => ?_
    show scanBare draft (c :: (rest ++ after)) = scanBare _ _
    rw [scanBare_plain hc, ← List.cons_append, hread after hafter, h]
    rfl
  | some result =>
    cases result with
    | error e =>
      refine .fails e ?_
      show scanBare draft (c :: rest) = _
      rw [scanBare_plain hc, h]
    | ok read =>
      obtain ⟨o, left⟩ := read
      refine .goesOn (finish draft [.operator o]) (.bare none) left
        (Operator.length_lt_of_read? h) fun after hafter => ?_
      show scanBare draft (c :: (rest ++ after)) = (scanBare none (left ++ after)).map _
      rw [scanBare_plain hc, ← List.cons_append, hread after hafter, h]
      show Except.map _ _ = _
      congr 1
      funext ts
      rw [finish_eq_append draft (.operator o :: ts), finish_eq_append draft [.operator o]]
      simp

/-- So are an escape, a quote and a form. -/
theorem Mode.step_bare (draft : Option Word.Draft) (c : Char) (rest : List Char) :
    (Mode.bare draft).Step (c :: rest) := by
  by_cases hblank : c = ' ' ∨ c = '\t' ∨ c = '\r'
  · refine .goesOn (finish draft []) (.bare none) rest (by simp) fun after _ => ?_
    show scanBare draft (c :: (rest ++ after)) = (scanBare none (rest ++ after)).map _
    rw [scanBare_blank hblank]
    congr 1
    funext ts
    rw [finish_eq_append]
  by_cases hcomment : c = '#' ∧ draft.isNone = true
  · obtain ⟨rfl, hnone⟩ := hcomment
    obtain rfl := Option.isNone_iff_eq_none.1 hnone
    exact .goesOn_silently .comment rest (by simp) fun _ _ => scanBare_number_sign
  by_cases hsingle : c = '\''
  · subst hsingle
    exact .goesOn_silently (.single _) rest (by simp) fun _ _ => scanBare_quote
  by_cases hdouble : c = '"'
  · subst hdouble
    exact .goesOn_silently (.double _) rest (by simp) fun _ _ => scanBare_quotes
  by_cases hbackslash : c = '\\'
  · subst hbackslash
    exact Mode.step_bare_backslash draft rest
  by_cases hdollar : c = '$'
  · subst hdollar
    exact Mode.step_bare_dollar draft rest
  · exact Mode.step_bare_plain ⟨hblank, hcomment, hsingle, hdouble, hbackslash, hdollar⟩ rest

/-- In every mode there is a step at every character. -/
theorem Mode.step (mode : Mode) (c : Char) (rest : List Char) : mode.Step (c :: rest) := by
  cases mode with
  | bare draft => exact Mode.step_bare draft c rest
  | comment => exact Mode.step_comment c rest
  | single parts => exact Mode.step_single parts c rest
  | double parts => exact Mode.step_double parts c rest

theorem isPlain_newline (draft : Option Word.Draft) : IsPlain draft '\n' := by
  simp [IsPlain]

/-- A line break ends a word or a comment. -/
theorem Mode.scan_newline {mode : Mode} {ts : List Token} (h : mode.scan [] = .ok ts)
    (more : List Char) :
    mode.scan ('\n' :: more) = (scanBare none more).map (ts ++ .operator .newline :: ·) := by
  cases mode with
  | bare draft =>
    obtain rfl := Except.ok.inj (scanBare_nil.symm.trans h)
    show scanBare draft ('\n' :: more) = _
    rw [scanBare_plain (isPlain_newline draft)]
    show Except.map _ _ = _
    congr 1
    funext ts
    exact finish_eq_append draft _
  | comment =>
    cases (scanComment.eq_1).symm.trans h
    show scanComment ('\n' :: more) = _
    rw [scanComment, if_pos rfl, return_eq_map]
    rfl
  | single parts => cases (scanSingle.eq_1 parts).symm.trans h
  | double parts => cases (scanDouble.eq_1 parts).symm.trans h

/-- Where a text is read and a line break after it becomes a token, the tokens of any more lines
follow. By induction on the steps of the reader, none of which swallows the line break. -/
theorem Mode.scan_append_newline (mode : Mode) (s : List Char) {ts : List Token}
    (h : mode.scan s = .ok ts)
    (hnewline : mode.scan (s ++ ['\n']) = .ok (ts ++ [.operator .newline])) (more : List Char) :
    mode.scan (s ++ '\n' :: more)
      = (scanBare none more).map (ts ++ .operator .newline :: ·) := by
  cases s with
  | nil => exact Mode.scan_newline h more
  | cons c rest =>
    cases mode.step c rest with
    | goesOn out next left hlt hstep =>
      -- the step is the same with nothing, a line break, or more lines after the line
      rw [← List.append_nil (c :: rest), hstep [] .nil, List.append_nil] at h
      rw [hstep _ (.newline [])] at hnewline
      obtain ⟨ts', hrest, rfl⟩ := exists_of_map_eq_ok h
      obtain ⟨ts'', hrest', happend⟩ := exists_of_map_eq_ok hnewline
      rw [List.append_assoc] at happend
      obtain rfl := List.append_cancel_left happend
      rw [hstep _ (.newline more), Mode.scan_append_newline next left hrest hrest' more]
      cases scanBare none more with
      | error e => rfl
      | ok ts => simp [Except.map]
    | fails e hfails => cases hfails.symm.trans h
    | swallows last ts' h' hnewline' hle =>
      -- there would be a token for the line break
      cases h'.symm.trans h
      have hlength := congrArg List.length (Except.ok.inj (hnewline'.symm.trans hnewline))
      simp only [List.length_append, List.length_cons, List.length_nil] at hlength
      omega
termination_by s.length

/-- The tokens of two scripts with a line break between them, where the first one ends neither
inside a form nor with a backslash. -/
theorem scan_append_newline {first : String} {ts : List Token} (h : scan first = .ok ts)
    (hnewline : scan (first ++ "\n") = .ok (ts ++ [.operator .newline])) (second : String) :
    scan (first ++ "\n" ++ second) = (scan second).map (ts ++ .operator .newline :: ·) := by
  have hlist : (first ++ "\n").toList = first.toList ++ ['\n'] := String.toList_append
  rw [scan, hlist] at hnewline
  rw [scan, String.toList_append, hlist, List.append_assoc]
  exact Mode.scan_append_newline (.bare none) first.toList h hnewline second.toList

end Token

end Sandshell
