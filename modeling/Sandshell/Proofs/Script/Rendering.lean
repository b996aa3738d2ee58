import Sandshell.Proofs.Script.Grammar

/-!
# Trees and their tokens

Which trees are well formed, and the tokens that spell them. Tokens that spell a tree hold its words
and redirections in order, and the tree is well formed; the tokens of a well-formed tree spell it.
-/

namespace Sandshell

/-! ## Parts of a tree -/

/-- The words of a command; a group has none. -/
def Command.words : Command → List Word
  | .simple words _ => words
  | .group _ _ => []

/-- The script of a group. -/
def Command.body? : Command → Option Script
  | .simple _ _ => none
  | .group body _ => some body

/-- Either there are words and no script, or a script that is not empty and no words; and all
redirections have a target but those of the error stream to the output stream. -/
def Command.IsProper (c : Command) : Prop :=
  (c.words ≠ [] ∧ c.body? = none ∨ c.words = [] ∧ ∃ body, c.body? = some body ∧ body ≠ [])
    ∧ ∀ r ∈ c.redirections, r.target? = none ↔ r = .errorsToOutput

mutual

/-- The commands in a command, in the order in which they end. -/
def Command.commands : Command → List Command
  | .simple words redirections => [.simple words redirections]
  | .group body redirections => Script.commands body ++ [.group body redirections]

/-- The commands in a pipeline. -/
def Pipeline.commands : List Command → List Command
  | [] => []
  | c :: rest => c.commands ++ Pipeline.commands rest

/-- The commands in guarded pipelines. -/
def Tail.commands : List (Connector × List Command) → List Command
  | [] => []
  | (_, p) :: rest => Pipeline.commands p ++ Tail.commands rest

/-- The commands in a sequence. -/
def Sequence.commands : Sequence → List Command
  | .chain head tail => Pipeline.commands head ++ Tail.commands tail

/-- The commands in a script. -/
def Script.commands : List Sequence → List Command
  | [] => []
  | s :: rest => s.commands ++ Script.commands rest

end

mutual

/-- The pipelines in a command. -/
def Command.pipelines : Command → List Pipeline
  | .simple _ _ => []
  | .group body _ => Script.pipelines body

/-- The pipelines in the commands of a pipeline. -/
def Pipeline.pipelinesIn : List Command → List Pipeline
  | [] => []
  | c :: rest => c.pipelines ++ Pipeline.pipelinesIn rest

/-- The pipelines among and in guarded pipelines. -/
def Tail.pipelines : List (Connector × List Command) → List Pipeline
  | [] => []
  | (_, p) :: rest => (p :: Pipeline.pipelinesIn p) ++ Tail.pipelines rest

/-- The pipelines in a sequence. -/
def Sequence.pipelines : Sequence → List Pipeline
  | .chain head tail => (head :: Pipeline.pipelinesIn head) ++ Tail.pipelines tail

/-- The pipelines in a script, at any depth. -/
def Script.pipelines : List Sequence → List Pipeline
  | [] => []
  | s :: rest => s.pipelines ++ Script.pipelines rest

end

/-- No pipeline is empty and every command is proper, at any depth. -/
def Script.WellFormed (script : Script) : Prop :=
  (∀ p ∈ Script.pipelines script, p ≠ []) ∧ ∀ c ∈ Script.commands script, c.IsProper

mutual

/-- The tokens of a command: its words, then its redirections. -/
def Command.tokens : Command → List Token
  | .simple words redirections =>
    words.map .word ++ redirections.flatMap Redirection.tokens
  | .group body redirections =>
    .operator .openParen :: Script.tokens body
      ++ .operator .closeParen :: redirections.flatMap Redirection.tokens

/-- The tokens of a pipeline. -/
def Pipeline.tokens : List Command → List Token
  | [] => []
  | c :: rest =>
    c.tokens ++ if rest.isEmpty then [] else .operator .pipe :: Pipeline.tokens rest

/-- The tokens of guarded pipelines. -/
def Tail.tokens : List (Connector × List Command) → List Token
  | [] => []
  | (connector, p) :: rest =>
    .operator connector.operator :: Pipeline.tokens p ++ Tail.tokens rest

/-- The tokens of a sequence. -/
def Sequence.tokens : Sequence → List Token
  | .chain head tail => Pipeline.tokens head ++ Tail.tokens tail

/-- The tokens of a script, with semicolons between its sequences. -/
def Script.tokens : List Sequence → List Token
  | [] => []
  | s :: rest =>
    s.tokens ++ if rest.isEmpty then [] else .operator .semicolon :: Script.tokens rest

end

namespace Grammar

/-! ## Order -/

/-- The tokens stand for these words and redirections in this order, whatever comes next. -/
structure Holds (ts : List Token) (words : List Word) (redirections : List Redirection) : Prop where
  words_eq : ∀ rest, Item.words (Item.ofTokens (ts ++ rest))
    = words ++ Item.words (Item.ofTokens rest)
  redirections_eq : ∀ rest, Item.redirections (Item.ofTokens (ts ++ rest))
    = redirections ++ Item.redirections (Item.ofTokens rest)

variable {ts ts' : List Token} {ws ws' : List Word} {rs rs' : List Redirection}

theorem holds_nil : Holds [] [] [] :=
  ⟨fun _ => rfl, fun _ => rfl⟩

/-- What two runs of tokens hold they hold together, in order. -/
theorem Holds.append (h : Holds ts ws rs) (h' : Holds ts' ws' rs') :
    Holds (ts ++ ts') (ws ++ ws') (rs ++ rs') where
  words_eq rest := by
    rw [List.append_assoc, h.words_eq, h'.words_eq, List.append_assoc]
  redirections_eq rest := by
    rw [List.append_assoc, h.redirections_eq, h'.redirections_eq, List.append_assoc]

/-- An operator that does not redirect holds nothing. -/
theorem Holds.operator {o : Operator} (ho : o.isRedirection = false) (h : Holds ts ws rs) :
    Holds (.operator o :: ts) ws rs where
  words_eq rest := by
    rw [List.cons_append, Item.ofTokens_operator ho, h.words_eq]
  redirections_eq rest := by
    rw [List.cons_append, Item.ofTokens_operator ho, h.redirections_eq]

/-- Neither do newlines. -/
theorem Holds.newlines (h : Holds ts ws rs) (n : Nat) : Holds (newlines n ++ ts) ws rs := by
  induction n with
  | zero => exact h
  | succ n ih => exact ih.operator rfl

theorem holds_newlines (n : Nat) : Holds (Grammar.newlines n) [] [] := by
  have h := holds_nil.newlines n
  rwa [List.append_nil] at h

/-- Items hold their words and their redirections. -/
theorem holds_items (items : List Item) :
    Holds (items.flatMap Item.tokens) (Item.words items) (Item.redirections items) := by
  have hall : ∀ rest, Item.ofTokens (items.flatMap Item.tokens ++ rest)
      = items ++ Item.ofTokens rest := by
    intro rest
    induction items with
    | nil => rfl
    | cons item more ih =>
      rw [List.flatMap_cons, List.append_assoc, Item.ofTokens_tokens, ih, List.cons_append]
  exact ⟨fun rest => by rw [hall, Item.words_append],
    fun rest => by rw [hall, Item.redirections_append]⟩

/-- Redirections alone are items. -/
theorem flatMap_tokens_redirections (rs : List Redirection) :
    rs.flatMap Redirection.tokens = (rs.map Item.redirection).flatMap Item.tokens := by
  rw [List.flatMap_map]
  rfl

theorem flatMap_tokens_words (ws : List Word) :
    (ws.map Item.word).flatMap Item.tokens = ws.map Token.word := by
  rw [List.flatMap_map, List.map_eq_flatMap]
  rfl

/-- Redirections hold no words of a command. -/
theorem holds_redirections (rs : List Redirection) :
    Holds (rs.flatMap Redirection.tokens) [] rs := by
  have h := holds_items (rs.map Item.redirection)
  rwa [Item.words_map_redirection, Item.redirections_map_redirection,
    ← flatMap_tokens_redirections] at h

theorem isRedirection_connector (connector : Connector) :
    connector.operator.isRedirection = false := by
  cases connector <;> rfl

theorem isRedirection_of_isSeparator {o : Operator} (h : o.isSeparator = true) :
    o.isRedirection = false := by
  cases o <;> first | rfl | contradiction

mutual

/-- A spelled command holds its words and redirections in order, with those of a group inside. -/
theorem SpellsCommand.holds : ∀ {ts c}, SpellsCommand ts c →
    Holds ts (c.commands.flatMap Command.words) (c.commands.flatMap Command.redirections)
  | _, _, .simple items _ => by
    have h := holds_items items
    simpa [Command.commands, Command.words, Command.redirections] using h
  | _, _, .group rs hbody _ => by
    have h := hbody.holds.append ((holds_redirections rs).operator (o := .closeParen) rfl)
    have h := h.operator (o := .openParen) rfl
    simpa [Command.commands, Command.words, Command.redirections] using h

/-- So does a pipeline. -/
theorem SpellsPipeline.holds : ∀ {ts p}, SpellsPipeline ts p → Holds ts
    ((Pipeline.commands p).flatMap Command.words)
    ((Pipeline.commands p).flatMap Command.redirections)
  | _, _, .last hlast => by
    simpa [Pipeline.commands] using hlast.holds
  | _, _, .pipe n hfirst hrest => by
    have h := hfirst.holds.append ((hrest.holds.newlines n).operator (o := .pipe) rfl)
    simpa [Pipeline.commands] using h

/-- So does what is connected to one. -/
theorem SpellsTail.holds : ∀ {ts steps}, SpellsTail ts steps → Holds ts
    ((Tail.commands steps).flatMap Command.words)
    ((Tail.commands steps).flatMap Command.redirections)
  | _, _, .nil => holds_nil
  | _, _, .cons connector n hfirst hrest => by
    have h := ((hfirst.holds.append hrest.holds).newlines n).operator
      (isRedirection_connector connector)
    simpa [Tail.commands] using h

/-- So does a sequence. -/
theorem SpellsSequence.holds : ∀ {ts s}, SpellsSequence ts s →
    Holds ts (s.commands.flatMap Command.words) (s.commands.flatMap Command.redirections)
  | _, _, .chain hhead htail => by
    simpa [Sequence.commands] using hhead.holds.append htail.holds

/-- And so do sequences. -/
theorem SpellsSequences.holds : ∀ {ts ss}, SpellsSequences ts ss → Holds ts
    ((Script.commands ss).flatMap Command.words)
    ((Script.commands ss).flatMap Command.redirections)
  | _, _, .last hlast => by
    simpa [Script.commands] using hlast.holds
  | _, _, .closed n hlast ho => by
    have h := hlast.holds.append ((holds_newlines n).operator (isRedirection_of_isSeparator ho))
    simpa [Script.commands] using h
  | _, _, .cons n hfirst ho hrest => by
    have h := hfirst.holds.append
      ((hrest.holds.newlines n).operator (isRedirection_of_isSeparator ho))
    simpa [Script.commands] using h

/-- Words and redirections stand in the tree in the order in which they are spelled. -/
theorem SpellsScript.holds : ∀ {ts ss}, SpellsScript ts ss → Holds ts
    ((Script.commands ss).flatMap Command.words)
    ((Script.commands ss).flatMap Command.redirections)
  | _, _, .empty n => holds_newlines n
  | _, _, .sequences n hsequences => hsequences.holds.newlines n

end

/-! ## Well-formed trees -/

/-- Joining the errors to the output is the one redirection without target. -/
theorem target?_eq_none_iff (r : Redirection) : r.target? = none ↔ r = .errorsToOutput := by
  cases r <;> simp [Redirection.target?]

/-- A simple command has a word. -/
theorem isProper_simple {ws : List Word} : (Command.simple ws rs).IsProper ↔ ws ≠ [] := by
  simp [Command.IsProper, Command.words, Command.body?, target?_eq_none_iff]

/-- A group has something in it. -/
theorem isProper_group {body : Script} : (Command.group body rs).IsProper ↔ body ≠ [] := by
  simp [Command.IsProper, Command.words, Command.body?, target?_eq_none_iff]

/-- No pipeline is empty and every command is proper. -/
def AllProper (ps : List Pipeline) (cs : List Command) : Prop :=
  (∀ p ∈ ps, p ≠ []) ∧ ∀ c ∈ cs, c.IsProper

theorem allProper_nil : AllProper [] [] :=
  ⟨by simp, by simp⟩

/-- Nothing empty is in two lists if it is in neither. -/
theorem allProper_append {ps ps' : List Pipeline} {cs cs' : List Command} :
    AllProper (ps ++ ps') (cs ++ cs') ↔ AllProper ps cs ∧ AllProper ps' cs' := by
  simp only [AllProper, List.forall_mem_append]
  tauto

theorem allProper_cons {p : Pipeline} {ps : List Pipeline} {cs : List Command} :
    AllProper (p :: ps) cs ↔ p ≠ [] ∧ AllProper ps cs := by
  simp only [AllProper, List.forall_mem_cons]
  tauto

mutual

/-- A spelled command has nothing empty in it. -/
theorem SpellsCommand.allProper : ∀ {ts c}, SpellsCommand ts c → AllProper c.pipelines c.commands
  | _, _, .simple items hwords => ⟨by simp [Command.pipelines], by
    simpa [Command.commands, isProper_simple] using hwords⟩
  | _, _, .group rs hbody hne => by
    have h := hbody.allProper
    refine ⟨h.1, List.forall_mem_append.2 ⟨h.2, ?_⟩⟩
    simpa [isProper_group] using hne

/-- Nor has a pipeline. -/
theorem SpellsPipeline.allProper : ∀ {ts p}, SpellsPipeline ts p →
    AllProper (Pipeline.pipelinesIn p) (Pipeline.commands p)
  | _, _, .last hlast => allProper_append.2 ⟨hlast.allProper, allProper_nil⟩
  | _, _, .pipe _ hfirst hrest => allProper_append.2 ⟨hfirst.allProper, hrest.allProper⟩

theorem SpellsTail.allProper : ∀ {ts steps}, SpellsTail ts steps →
    AllProper (Tail.pipelines steps) (Tail.commands steps)
  | _, _, .nil => allProper_nil
  | _, _, .cons _ _ hfirst hrest => allProper_append.2
    ⟨allProper_cons.2 ⟨hfirst.ne_nil, hfirst.allProper⟩, hrest.allProper⟩

theorem SpellsSequence.allProper : ∀ {ts s}, SpellsSequence ts s →
    AllProper s.pipelines s.commands
  | _, _, .chain hhead htail => allProper_append.2
    ⟨allProper_cons.2 ⟨hhead.ne_nil, hhead.allProper⟩, htail.allProper⟩

/-- Nor have sequences. -/
theorem SpellsSequences.allProper : ∀ {ts ss}, SpellsSequences ts ss →
    AllProper (Script.pipelines ss) (Script.commands ss)
  | _, _, .last hlast => allProper_append.2 ⟨hlast.allProper, allProper_nil⟩
  | _, _, .closed _ hlast _ => allProper_append.2 ⟨hlast.allProper, allProper_nil⟩
  | _, _, .cons _ hfirst _ hrest => allProper_append.2 ⟨hfirst.allProper, hrest.allProper⟩

/-- What is spelled is well formed. -/
theorem SpellsScript.allProper : ∀ {ts ss}, SpellsScript ts ss →
    AllProper (Script.pipelines ss) (Script.commands ss)
  | _, _, .empty _ => allProper_nil
  | _, _, .sequences _ hsequences => hsequences.allProper

end

/-! ## Rendering -/

/-- A simple command with a word in it is spelled by its tokens. -/
theorem spellsCommand_simple {ws : List Word} (hws : ws ≠ []) (rs : List Redirection) :
    SpellsCommand (Command.simple ws rs).tokens (.simple ws rs) := by
  have h := SpellsCommand.simple (ws.map .word ++ rs.map .redirection)
  simp only [Item.words_append, Item.redirections_append, Item.words_map_word,
    Item.words_map_redirection, Item.redirections_map_word, Item.redirections_map_redirection,
    List.append_nil, List.nil_append, List.flatMap_append, flatMap_tokens_words,
    ← flatMap_tokens_redirections] at h
  exact h hws

mutual

/-- So is every command that has nothing empty in it. -/
theorem spellsCommand_tokens : ∀ c : Command, AllProper c.pipelines c.commands →
    SpellsCommand c.tokens c
  | .simple ws rs, h =>
    spellsCommand_simple (isProper_simple.1 (h.2 _ List.mem_cons_self)) rs
  | .group body rs, h => by
    obtain ⟨hcommands, hgroup⟩ := List.forall_mem_append.1 h.2
    exact .group rs (spellsScript_tokens body ⟨h.1, hcommands⟩)
      (isProper_group.1 (hgroup _ List.mem_cons_self))

/-- So is a pipeline, stage by stage. -/
theorem spellsPipeline_tokens : ∀ p : List Command, p ≠ [] →
    AllProper (Pipeline.pipelinesIn p) (Pipeline.commands p) →
    SpellsPipeline (Pipeline.tokens p) p
  | [], hne, _ => absurd rfl hne
  | c :: rest, _, h => by
    obtain ⟨hc, hrest⟩ := allProper_append.1 h
    have hfirst := spellsCommand_tokens c hc
    rw [Pipeline.tokens]
    by_cases hempty : rest = []
    · subst hempty
      simpa using SpellsPipeline.last hfirst
    · rw [if_neg (by simpa using hempty)]
      have hpipe := SpellsPipeline.pipe 0 hfirst (spellsPipeline_tokens rest hempty hrest)
      rwa [List.append_assoc] at hpipe

/-- So is what is connected to one. -/
theorem spellsTail_tokens : ∀ steps : List (Connector × List Command),
    AllProper (Tail.pipelines steps) (Tail.commands steps) → SpellsTail (Tail.tokens steps) steps
  | [], _ => .nil
  | (connector, p) :: rest, h => by
    obtain ⟨hfirst, hrest⟩ := allProper_append.1 h
    obtain ⟨hne, hp⟩ := allProper_cons.1 hfirst
    exact .cons connector 0 (spellsPipeline_tokens p hne hp) (spellsTail_tokens rest hrest)

theorem spellsSequence_tokens : ∀ s : Sequence, AllProper s.pipelines s.commands →
    SpellsSequence s.tokens s
  | .chain head tail, h => by
    obtain ⟨hfirst, htail⟩ := allProper_append.1 h
    obtain ⟨hne, hhead⟩ := allProper_cons.1 hfirst
    exact .chain (spellsPipeline_tokens head hne hhead) (spellsTail_tokens tail htail)

/-- And so are sequences, with their separators. -/
theorem spellsSequences_tokens : ∀ ss : List Sequence, ss ≠ [] →
    AllProper (Script.pipelines ss) (Script.commands ss) → SpellsSequences (Script.tokens ss) ss
  | [], hne, _ => absurd rfl hne
  | s :: rest, _, h => by
    obtain ⟨hs, hrest⟩ := allProper_append.1 h
    have hfirst := spellsSequence_tokens s hs
    rw [Script.tokens]
    by_cases hempty : rest = []
    · subst hempty
      simpa using SpellsSequences.last hfirst
    · rw [if_neg (by simpa using hempty)]
      have hcons := SpellsSequences.cons (o := .semicolon) 0 hfirst rfl
        (spellsSequences_tokens rest hempty hrest)
      rwa [List.append_assoc] at hcons

/-- A script without anything empty is spelled by its tokens. -/
theorem spellsScript_tokens : ∀ ss : List Sequence,
    AllProper (Script.pipelines ss) (Script.commands ss) → SpellsScript (Script.tokens ss) ss
  | [], _ => .empty 0
  | s :: rest, h => .sequences 0 (spellsSequences_tokens (s :: rest) (List.cons_ne_nil _ _) h)

end

end Grammar

end Sandshell
