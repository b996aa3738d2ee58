import Mathlib.Data.List.Basic
import Sandshell.Script.Token
import Sandshell.Script.Tree

/-!
# The grammar of scripts

Which token lists spell which trees, said without a reader: a command is a list of words and
redirections, or a script in parentheses with redirections after it; pipes and connectors may be
followed by line breaks, and so may the separators of a script. Every tree that is spelled is well
formed, and every well-formed tree is spelled by its own tokens.
-/

namespace Sandshell

/-! ## Words and redirections -/

namespace Redirection

/-- The word that names the file, if there is one. -/
def target? : Redirection → Option Word
  | .input w => some w
  | .output _ _ w => some w
  | .errorsToOutput => none

/-- The operator that starts the redirection. -/
def operator : Redirection → Operator
  | .input _ => .input
  | .output .out .truncate _ => .output
  | .output .out .append _ => .append
  | .output .err .truncate _ => .errors
  | .output .err .append _ => .errorsAppend
  | .errorsToOutput => .errorsToOutput

/-- The tokens of a redirection. -/
def tokens (r : Redirection) : List Token :=
  .operator r.operator :: (r.target?.map Token.word).toList

@[simp]
theorem isRedirection_operator (r : Redirection) : r.operator.isRedirection = true := by
  cases r with
  | input w => rfl
  | output stream mode w => cases stream <;> cases mode <;> rfl
  | errorsToOutput => rfl

end Redirection

/-- A word or a redirection of a command. -/
inductive Item where
  | word (w : Word)
  | redirection (r : Redirection)
deriving DecidableEq, Repr

namespace Item

/-- The tokens of an item. -/
def tokens : Item → List Token
  | .word w => [.word w]
  | .redirection r => r.tokens

/-- The words among items, in order. -/
def words (items : List Item) : List Word :=
  items.filterMap fun
    | .word w => some w
    | .redirection _ => none

/-- The redirections among items, in order. -/
def redirections (items : List Item) : List Redirection :=
  items.filterMap fun
    | .word _ => none
    | .redirection r => some r

@[simp] theorem words_nil : words [] = [] := rfl
@[simp] theorem words_word (w : Word) (items : List Item) :
    words (.word w :: items) = w :: words items := rfl
@[simp] theorem words_redirection (r : Redirection) (items : List Item) :
    words (.redirection r :: items) = words items := rfl
@[simp] theorem redirections_nil : redirections [] = [] := rfl
@[simp] theorem redirections_word (w : Word) (items : List Item) :
    redirections (.word w :: items) = redirections items := rfl
@[simp] theorem redirections_redirection (r : Redirection) (items : List Item) :
    redirections (.redirection r :: items) = r :: redirections items := rfl

@[simp]
theorem words_append (items items' : List Item) :
    words (items ++ items') = words items ++ words items' :=
  List.filterMap_append

@[simp]
theorem redirections_append (items items' : List Item) :
    redirections (items ++ items') = redirections items ++ redirections items' :=
  List.filterMap_append

/-- Words are items without redirections. -/
theorem words_map_word (ws : List Word) : words (ws.map .word) = ws := by
  induction ws with
  | nil => rfl
  | cons w rest ih => rw [List.map_cons, words_word, ih]

/-- Words alone redirect nothing. -/
theorem redirections_map_word (ws : List Word) : redirections (ws.map .word) = [] := by
  induction ws with
  | nil => rfl
  | cons w rest ih => rw [List.map_cons, redirections_word, ih]

/-- Redirections alone are no words. -/
theorem words_map_redirection (rs : List Redirection) : words (rs.map .redirection) = [] := by
  induction rs with
  | nil => rfl
  | cons r rest ih => rw [List.map_cons, words_redirection, ih]

theorem redirections_map_redirection (rs : List Redirection) :
    redirections (rs.map .redirection) = rs := by
  induction rs with
  | nil => rfl
  | cons r rest ih => rw [List.map_cons, redirections_redirection, ih]

/-- The words and redirections of a token list, in order; all other operators are passed over. -/
def ofTokens : List Token → List Item
  | [] => []
  | .word w :: rest => .word w :: ofTokens rest
  | .operator .errorsToOutput :: rest => .redirection .errorsToOutput :: ofTokens rest
  | .operator .input :: .word w :: rest => .redirection (.input w) :: ofTokens rest
  | .operator .output :: .word w :: rest =>
    .redirection (.output .out .truncate w) :: ofTokens rest
  | .operator .append :: .word w :: rest =>
    .redirection (.output .out .append w) :: ofTokens rest
  | .operator .errors :: .word w :: rest =>
    .redirection (.output .err .truncate w) :: ofTokens rest
  | .operator .errorsAppend :: .word w :: rest =>
    .redirection (.output .err .append w) :: ofTokens rest
  | .operator _ :: rest => ofTokens rest

/-- Items are read back from their tokens. -/
theorem ofTokens_tokens (item : Item) (rest : List Token) :
    ofTokens (item.tokens ++ rest) = item :: ofTokens rest := by
  cases item with
  | word w => rfl
  | redirection r =>
    cases r with
    | input w => rfl
    | output stream mode w => cases stream <;> cases mode <;> rfl
    | errorsToOutput => rfl

/-- An operator that does not redirect is no item. -/
theorem ofTokens_operator {o : Operator} (h : o.isRedirection = false) (rest : List Token) :
    ofTokens (.operator o :: rest) = ofTokens rest := by
  cases o <;> first | rfl | contradiction

end Item

/-! ## Spelling -/

/-- The operator of a connector. -/
def Connector.operator : Connector → Operator
  | .andThen => .andThen
  | .orElse => .orElse

/-- Ends a sequence. -/
def Operator.isSeparator : Operator → Bool
  | .semicolon | .newline => true
  | _ => false

namespace Grammar

/-- Line breaks in a row. -/
def newlines (n : Nat) : List Token :=
  List.replicate n (.operator .newline)

mutual

/-- Tokens that spell a command: words and redirections in any order with at least one word, or a
script that is not empty between parentheses, and redirections. -/
inductive SpellsCommand : List Token → Command → Prop
  | simple (items : List Item) (hwords : Item.words items ≠ []) :
    SpellsCommand (items.flatMap Item.tokens)
      (.simple (Item.words items) (Item.redirections items))
  | group {ts : List Token} {body : Script} (rs : List Redirection) (hbody : SpellsScript ts body)
      (hne : body ≠ []) :
    SpellsCommand
      (.operator .openParen :: ts ++ .operator .closeParen :: rs.flatMap Redirection.tokens)
      (.group body rs)

/-- Tokens that spell commands joined by pipes. -/
inductive SpellsPipeline : List Token → Pipeline → Prop
  | last {ts : List Token} {c : Command} (hlast : SpellsCommand ts c) : SpellsPipeline ts [c]
  | pipe {ts ts' : List Token} {c : Command} {p : Pipeline} (n : Nat) (hfirst : SpellsCommand ts c)
      (hrest : SpellsPipeline ts' p) :
    SpellsPipeline (ts ++ .operator .pipe :: newlines n ++ ts') (c :: p)

/-- Tokens that spell guarded pipelines. -/
inductive SpellsTail : List Token → List (Connector × Pipeline) → Prop
  | nil : SpellsTail [] []
  | cons {ts ts' : List Token} {p : Pipeline} {steps : List (Connector × Pipeline)}
      (connector : Connector) (n : Nat) (hfirst : SpellsPipeline ts p)
      (hrest : SpellsTail ts' steps) :
    SpellsTail (.operator connector.operator :: newlines n ++ ts ++ ts') ((connector, p) :: steps)

/-- Tokens that spell a sequence. -/
inductive SpellsSequence : List Token → Sequence → Prop
  | chain {ts ts' : List Token} {head : Pipeline} {tail : List (Connector × Pipeline)}
      (hhead : SpellsPipeline ts head) (htail : SpellsTail ts' tail) :
    SpellsSequence (ts ++ ts') (.chain head tail)

/-- Tokens that spell one sequence or more; a separator may follow the last one. -/
inductive SpellsSequences : List Token → Script → Prop
  | last {ts : List Token} {s : Sequence} (hlast : SpellsSequence ts s) : SpellsSequences ts [s]
  | closed {ts : List Token} {s : Sequence} {o : Operator} (n : Nat) (hlast : SpellsSequence ts s)
      (hseparator : o.isSeparator = true) :
    SpellsSequences (ts ++ .operator o :: newlines n) [s]
  | cons {ts ts' : List Token} {s : Sequence} {rest : Script} {o : Operator} (n : Nat)
      (hfirst : SpellsSequence ts s) (hseparator : o.isSeparator = true)
      (hrest : SpellsSequences ts' rest) :
    SpellsSequences (ts ++ .operator o :: newlines n ++ ts') (s :: rest)

/-- Tokens that spell a script, be it empty. -/
inductive SpellsScript : List Token → Script → Prop
  | empty (n : Nat) : SpellsScript (newlines n) []
  | sequences {ts : List Token} {ss : Script} (n : Nat) (hsequences : SpellsSequences ts ss) :
    SpellsScript (newlines n ++ ts) ss

end

variable {ts ts' : List Token} {ss ss' : Script}

/-- A pipeline has a first stage. -/
theorem SpellsPipeline.ne_nil {p : Pipeline} (h : SpellsPipeline ts p) : p ≠ [] := by
  cases h <;> exact List.cons_ne_nil _ _

/-! ## One script after another -/

theorem newlines_append (m n : Nat) : newlines m ++ newlines n = newlines (m + n) :=
  List.replicate_append_replicate

theorem newlines_succ (n : Nat) : newlines (n + 1) = .operator .newline :: newlines n :=
  rfl

/-- A script may begin with empty lines. -/
theorem SpellsScript.after_newlines (n : Nat) (h : SpellsScript ts ss) :
    SpellsScript (newlines n ++ ts) ss := by
  cases h with
  | empty m =>
    rw [newlines_append]
    exact .empty _
  | sequences m hsequences =>
    rw [← List.append_assoc, newlines_append]
    exact .sequences _ hsequences

/-- The first sequence ends a script, or a separator stands between it and a further script. -/
theorem SpellsSequences.exists_first (h : SpellsSequences ts ss) : ∃ first s,
    SpellsSequence first s ∧ (ts = first ∧ ss = [s] ∨ ∃ o more following, o.isSeparator = true
      ∧ ts = first ++ .operator o :: more ∧ SpellsScript more following ∧ ss = s :: following) := by
  cases h with
  | last hlast => exact ⟨_, _, hlast, .inl ⟨rfl, rfl⟩⟩
  | closed n hlast ho => exact ⟨_, _, hlast, .inr ⟨_, _, [], ho, rfl, .empty n, rfl⟩⟩
  | cons n hfirst ho hrest =>
    refine ⟨_, _, hfirst, .inr ⟨_, _, _, ho, ?_, .sequences n hrest, rfl⟩⟩
    rw [List.append_assoc, List.cons_append]

/-- A sequence and a separator before a script, with line breaks skipped in between. -/
theorem SpellsSequence.append {s : Sequence} {o : Operator} (h : SpellsSequence ts s)
    (ho : o.isSeparator = true) (n : Nat) (h' : SpellsScript ts' ss') :
    SpellsSequences (ts ++ .operator o :: (newlines n ++ ts')) (s :: ss') := by
  cases h' with
  | empty m =>
    rw [newlines_append]
    exact .closed _ h ho
  | sequences m hsequences =>
    have hcons := SpellsSequences.cons (n + m) h ho hsequences
    rwa [← newlines_append, List.append_assoc, List.cons_append, List.append_assoc] at hcons

/-- The line break ends the last sequence, or else it is one more after the separator that does. -/
theorem SpellsSequences.append (h' : SpellsScript ts' ss') : ∀ {ts ss}, SpellsSequences ts ss →
    SpellsSequences (ts ++ .operator .newline :: ts') (ss ++ ss')
  | _, _, .last hlast => hlast.append rfl 0 h'
  | _, _, .closed n hlast ho => by
    have hlonger := hlast.append ho (n + 1) h'
    rw [← newlines_append, List.append_assoc] at hlonger
    rwa [List.append_assoc, List.cons_append]
  | _, _, .cons n hfirst ho hrest => by
    rw [List.append_assoc]
    exact .cons n hfirst ho (.append h' hrest)

/-- Two scripts with a line break between them spell the sequences of both. -/
theorem SpellsScript.append (h : SpellsScript ts ss) (h' : SpellsScript ts' ss') :
    SpellsScript (ts ++ .operator .newline :: ts') (ss ++ ss') := by
  cases h with
  | empty n =>
    have hlonger := h'.after_newlines (n + 1)
    rwa [← newlines_append, List.append_assoc] at hlonger
  | sequences n hsequences =>
    rw [List.append_assoc]
    exact .sequences n (.append h' hsequences)

end Grammar

end Sandshell
