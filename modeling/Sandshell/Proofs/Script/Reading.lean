import Sandshell.Proofs.Script.Readers
import Sandshell.Proofs.Script.Rendering

/-!
# Reading by the grammar

The reader of scripts accepts exactly the token lists that the grammar spells, and gives the tree
that they spell. What may come next decides how far a function of the reader goes, so the rest is
part of each statement.
-/

namespace Sandshell.Script

open Grammar

variable {ts rest : List Token} {o : Operator}

/-! ## Commands -/

/-- A simple command is its items, with a word among them. -/
theorem reads_simple_iff {c : Command} : Reads (readSimple ts) c rest ↔
    ∃ ws rs, ReadsItems ts ws rs rest ∧ ws ≠ [] ∧ c = .simple ws rs := by
  rw [readSimple, reads_bind_iff]
  constructor
  · intro ⟨items, hitems, hreads⟩
    split at hreads
    · exact absurd hreads not_reads_error
    · exact absurd hreads not_reads_error
    · obtain ⟨rfl, rfl⟩ := reads_pure_iff.1 hreads
      exact ⟨_, _, ⟨_, hitems, rfl, rfl, rfl⟩, List.cons_ne_nil _ _, rfl⟩
  · intro ⟨ws, rs, ⟨items, hitems, hws, hrs, hrest⟩, hne, hc⟩
    subst hws hrs hrest hc
    refine ⟨items, hitems, ?_⟩
    split
    · exact absurd rfl hne
    · exact absurd rfl hne
    · exact reads_pure_iff.2 ⟨rfl, rfl⟩

/-- Items with a word among them start a command that is no group. -/
theorem starts_items {items : List Item} (h : Item.words items ≠ []) (rest : List Token) :
    Starts (items.flatMap Item.tokens) ∧
      ∀ inner, items.flatMap Item.tokens ++ rest ≠ .operator .openParen :: inner := by
  rcases items with _ | ⟨w | r, more⟩
  · exact absurd rfl h
  · exact ⟨trivial, by simp [Item.tokens]⟩
  · refine ⟨.inl r.isRedirection_operator, fun inner heq => ?_⟩
    have hoperator : r.operator = .openParen := Token.operator.inj (List.cons.inj heq).1
    have hredirection := r.isRedirection_operator
    rw [hoperator] at hredirection
    contradiction

theorem starts_command {c : Command} (h : SpellsCommand ts c) : Starts ts := by
  cases h with
  | simple items hwords => exact (starts_items hwords []).1
  | group rs hbody hne => exact .inr rfl

theorem starts_pipeline {p : Pipeline} (h : SpellsPipeline ts p) : Starts ts := by
  cases h with
  | last hlast => exact starts_command hlast
  | pipe n hfirst hrest => exact ((starts_command hfirst).append _).append _

/-- Sequences start with a command. -/
theorem starts_sequences {ss : Script} (h : SpellsSequences ts ss) : Starts ts := by
  have hsequence : ∀ {ts s}, SpellsSequence ts s → Starts ts := by
    intro ts s h
    cases h with
    | chain hhead htail => exact (starts_pipeline hhead).append _
  cases h with
  | last hlast => exact hsequence hlast
  | closed n hlast ho => exact (hsequence hlast).append _
  | cons n hfirst ho hrest => exact ((hsequence hfirst).append _).append _

/-- The sequences that are read are those that are spelled, up to the end of the script. -/
def ReadsAsSpelled (ts : List Token) : Prop :=
  ∀ nested ss rest, Reads (readSequences nested ts) ss rest ↔
    ∃ used, ts = used ++ rest ∧ SpellsScript used ss ∧ atEnd nested rest = true

/-- A command is read exactly from the tokens that spell it, up to where it stops. -/
theorem reads_command_iff {c : Command} (ih : ∀ inner, inner.length < ts.length →
    ReadsAsSpelled inner) : Reads (readCommand ts) c rest ↔
      ∃ used, ts = used ++ rest ∧ SpellsCommand used c ∧ Stops 1 rest := by
  -- without a parenthesis in front there is one reader left
  have hplain : (∀ inner, ts ≠ .operator .openParen :: inner) → readCommand ts = readSimple ts := by
    intro h
    rw [readCommand]
    exact h
  constructor
  · intro h
    by_cases hopen : ∃ inner, ts = .operator .openParen :: inner
    · obtain ⟨inner, rfl⟩ := hopen
      obtain ⟨body, closing, hbody, more, rfl, hne, rs, after, hrs, hword, rfl, rfl⟩ :=
        reads_group_iff.1 h
      obtain ⟨used, rfl, hused, -⟩ := (ih inner (Nat.lt_succ_self _) _ _ _).1 hbody
      obtain ⟨rfl, hstops⟩ := reads_redirections_iff.1 ⟨hrs, hword⟩
      exact ⟨_, by simp, .group rs hused hne, hstops⟩
    · rw [hplain (by simpa using hopen)] at h
      obtain ⟨ws, rs, hitems, hne, rfl⟩ := reads_simple_iff.1 h
      obtain ⟨items, rfl, rfl, rfl, hstops⟩ := readsItems_iff.1 hitems
      exact ⟨_, rfl, .simple items hne, hstops⟩
  · rintro ⟨used, hts, hused, hstops⟩
    cases hused with
    | simple items hwords =>
      subst hts
      rw [hplain (starts_items hwords _).2]
      exact reads_simple_iff.2 ⟨_, _, readsItems_append items hstops, hwords, rfl⟩
    | @group inner body rs hbody hne =>
      rw [List.append_assoc, List.cons_append, List.cons_append] at hts
      subst hts
      obtain ⟨hrs, hword⟩ := reads_redirections_iff.2 ⟨rfl, hstops⟩
      have hinner := (ih _ (Nat.lt_succ_self _) _ _ _).2 ⟨inner, rfl, hbody, rfl⟩
      exact reads_group_iff.2 ⟨body, _, hinner, _, rfl, hne, rs, rest, hrs, hword, rfl, rfl⟩

/-! ## Pipelines, sequences and scripts -/

theorem skipNewlines_append {n : Nat} (h : Starts ts) :
    skipNewlines (newlines n ++ ts) = ts := by
  rw [skipNewlines_newlines_append, h.skipNewlines_eq]

/-- A pipeline that is read is spelled by the tokens it took. -/
theorem spelled_of_reads_pipeline {ts : List Token} {p : Pipeline}
    (ih : ∀ inner, inner.length < ts.length → ReadsAsSpelled inner)
    (h : Reads (readPipeline ts) p rest) :
    ∃ used, ts = used ++ rest ∧ SpellsPipeline used p ∧ Stops 2 rest := by
  obtain ⟨c, after, hc, hrest⟩ := reads_pipeline_iff.1 h
  obtain ⟨used, hts, hused, hstops⟩ := (reads_command_iff ih).1 hc
  obtain ⟨hpipe, rfl, rfl⟩ | ⟨more, hpipe, -, p', last, hp', rfl, rfl⟩ := hrest
  · exact ⟨used, hts, .last hused, stops_two_iff.2 ⟨hpipe, hstops⟩⟩
  · obtain ⟨n, hmore⟩ := exists_newlines_append more
    rw [afterPipe?_eq_some_iff.1 hpipe, hmore] at hts
    have hshorter : (skipNewlines more).length < ts.length := by
      rw [hts, List.length_append, List.length_cons, List.length_append]
      omega
    obtain ⟨used', heq, hused', hstops'⟩ :=
      spelled_of_reads_pipeline (fun inner hinner => ih inner (by omega)) hp'
    refine ⟨_, ?_, .pipe n hused hused', hstops'⟩
    rw [hts, heq]
    simp only [List.append_assoc, List.cons_append]
termination_by ts.length
decreasing_by exact hshorter

/-- A pipeline that is spelled is read, up to where it stops. -/
theorem reads_pipeline_of_spells {ts used : List Token} {p : Pipeline}
    (ih : ∀ inner, inner.length < ts.length → ReadsAsSpelled inner) (hts : ts = used ++ rest)
    (h : SpellsPipeline used p) (hstops : Stops 2 rest) : Reads (readPipeline ts) p rest := by
  cases h with
  | last hlast =>
    obtain ⟨hpipe, hstops'⟩ := stops_two_iff.1 hstops
    exact reads_pipeline_iff.2
      ⟨_, _, (reads_command_iff ih).2 ⟨used, hts, hlast, hstops'⟩, .inl ⟨hpipe, rfl, rfl⟩⟩
  | @pipe first second c p' n hfirst hrest =>
    simp only [List.append_assoc, List.cons_append] at hts
    have hstarts := (starts_pipeline hrest).append rest
    have hc : Reads (readCommand ts) c (.operator .pipe :: (newlines n ++ (second ++ rest))) :=
      (reads_command_iff ih).2 ⟨first, hts, hfirst, Nat.le_refl 1⟩
    have hlength := congrArg List.length hts
    rw [List.length_append, List.length_cons, List.length_append] at hlength
    have hshorter : (second ++ rest).length < ts.length := by omega
    have hp' : Reads (readPipeline (second ++ rest)) p' rest :=
      reads_pipeline_of_spells (fun inner hinner => ih inner (by omega)) rfl hrest hstops
    refine reads_pipeline_iff.2 ⟨c, _, hc, .inr ⟨_, rfl, ?_⟩⟩
    rw [skipNewlines_append hstarts]
    exact ⟨hstarts.ne_nil, p', rest, hp', rfl, rfl⟩
termination_by ts.length
decreasing_by exact hshorter

/-- So it is with what is connected to it. -/
theorem spelled_of_reads_tail {ts : List Token} {steps : List (Connector × Pipeline)}
    (ih : ∀ inner, inner.length < ts.length → ReadsAsSpelled inner) (hstops : Stops 2 ts)
    (h : Reads (readTail ts) steps rest) :
    ∃ used, ts = used ++ rest ∧ SpellsTail used steps ∧ Stops 3 rest := by
  obtain ⟨hconnector, rfl, rfl⟩ | ⟨connector, more, hconnector, -, p, after, hp, steps', last,
    hsteps', rfl, rfl⟩ := reads_tail_iff.1 h
  · exact ⟨[], rfl, .nil, stops_three_iff.2 ⟨hconnector, hstops⟩⟩
  · obtain ⟨n, hmore⟩ := exists_newlines_append more
    have hts := afterConnector?_eq_some_iff.1 hconnector
    rw [hmore] at hts
    have hlength := congrArg List.length hts
    rw [List.length_cons, List.length_append] at hlength
    obtain ⟨used, heq, hused, hafter⟩ :=
      spelled_of_reads_pipeline (fun inner hinner => ih inner (by omega)) hp
    have hshorter : after.length < ts.length := by
      rw [heq, List.length_append] at hlength
      omega
    obtain ⟨used', heq', hused', hlast⟩ :=
      spelled_of_reads_tail (fun inner hinner => ih inner (by omega)) hafter hsteps'
    refine ⟨_, ?_, .cons connector n hused hused', hlast⟩
    rw [hts, heq, heq']
    simp only [List.append_assoc, List.cons_append]
termination_by ts.length
decreasing_by exact hshorter

/-- A pipeline stops where a connector stands, or where all does. -/
theorem stops_tail {steps : List (Connector × Pipeline)} (h : SpellsTail ts steps)
    (hstops : Stops 3 rest) : Stops 2 (ts ++ rest) := by
  cases h with
  | nil => exact hstops.mono (by omega)
  | cons connector n hfirst hrest => cases connector <;> exact Nat.le_refl 2

/-- What is connected to a pipeline is read as it is spelled. -/
theorem reads_tail_of_spells {ts used : List Token} {steps : List (Connector × Pipeline)}
    (ih : ∀ inner, inner.length < ts.length → ReadsAsSpelled inner) (hts : ts = used ++ rest)
    (h : SpellsTail used steps) (hstops : Stops 3 rest) : Reads (readTail ts) steps rest := by
  cases h with
  | nil =>
    subst hts
    exact reads_tail_iff.2 (.inl ⟨(stops_three_iff.1 hstops).1, rfl, rfl⟩)
  | @cons first second p steps' connector n hfirst hrest =>
    simp only [List.append_assoc, List.cons_append] at hts
    have hlength := congrArg List.length hts
    rw [List.length_cons, List.length_append, List.length_append] at hlength
    have hstarts := (starts_pipeline hfirst).append (second ++ rest)
    have hp : Reads (readPipeline (first ++ (second ++ rest))) p (second ++ rest) := by
      refine reads_pipeline_of_spells (fun inner hinner => ih inner ?_) rfl hfirst
        (stops_tail hrest hstops)
      rw [List.length_append] at hinner
      omega
    have hshorter : (second ++ rest).length < ts.length := by omega
    have hsteps' : Reads (readTail (second ++ rest)) steps' rest :=
      reads_tail_of_spells (fun inner hinner => ih inner (by omega)) rfl hrest hstops
    refine reads_tail_iff.2
      (.inr ⟨connector, _, afterConnector?_eq_some_iff.2 hts, ?_⟩)
    rw [skipNewlines_append hstarts]
    exact ⟨hstarts.ne_nil, p, _, hp, steps', rest, hsteps', rfl, rfl⟩
termination_by ts.length
decreasing_by exact hshorter

theorem stops_separator {o : Operator} (h : o.isSeparator = true) :
    Stops 3 (.operator o :: ts) := by
  cases o <;> first | exact Nat.le_refl 3 | contradiction

/-- Sequences read to the end of the script are spelled, if shorter scripts are. -/
theorem spelled_of_reads_sequences {nested : Bool} {ss : Script}
    (ih : ∀ inner, inner.length < ts.length → ReadsAsSpelled inner)
    (h : Reads (readSequences nested ts) ss rest) :
    ∃ used, ts = used ++ rest ∧ SpellsScript used ss ∧ atEnd nested rest = true := by
  obtain ⟨n, hts⟩ := exists_newlines_append ts
  obtain ⟨hend, rfl, rfl⟩ | ⟨-, head, after, hhead, tail, last, htail, hrest⟩ :=
    reads_sequences_iff.1 h
  · exact ⟨newlines n, hts, .empty n, hend⟩
  have hlength := congrArg List.length hts
  rw [List.length_append] at hlength
  obtain ⟨used, heq, hused, hafter⟩ :=
    spelled_of_reads_pipeline (fun inner hinner => ih inner (by omega)) hhead
  rw [heq, List.length_append] at hlength
  obtain ⟨used', heq', hused', hlast⟩ :=
    spelled_of_reads_tail (fun inner hinner => ih inner (by omega)) hafter htail
  rw [heq', List.length_append] at hlength
  have hsequence : SpellsSequence (used ++ used') (.chain head tail) := .chain hused hused'
  obtain ⟨-, hend, rfl, rfl⟩ | ⟨more, hseparator, following, final, hfollowing, rfl, rfl⟩ := hrest
  · refine ⟨_, ?_, .sequences n (.last hsequence), hend⟩
    rw [hts, heq, heq']
    simp only [List.append_assoc]
  · obtain ⟨o, ho, rfl⟩ := afterSeparator?_eq_some_iff.1 hseparator
    rw [List.length_cons] at hlength
    obtain ⟨used'', heq'', hused'', hend⟩ := (ih more (by omega) _ _ _).1 hfollowing
    refine ⟨_, ?_, .sequences n (hsequence.append ho 0 hused''), hend⟩
    rw [hts, heq, heq', heq'']
    simp [newlines]

/-- A script that is spelled is read, up to the end of the tokens or of the group. -/
theorem reads_sequences_of_spells {used : List Token} {nested : Bool} {ss : Script}
    (ih : ∀ inner, inner.length < ts.length → ReadsAsSpelled inner) (hts : ts = used ++ rest)
    (h : SpellsScript used ss) (hend : atEnd nested rest = true) :
    Reads (readSequences nested ts) ss rest := by
  have hrest := stops_of_atEnd hend
  cases h with
  | empty n =>
    have hskip : skipNewlines ts = rest := by
      rw [hts, skipNewlines_newlines_append]
      exact skipNewlines_of_atEnd hend
    refine reads_sequences_iff.2 (.inl ?_)
    rw [hskip]
    exact ⟨hend, rfl, rfl⟩
  | @sequences all ss n hsequences =>
    rw [List.append_assoc] at hts
    have hlength := congrArg List.length hts
    rw [List.length_append] at hlength
    have hstarts := (starts_sequences hsequences).append rest
    have hskip : skipNewlines ts = all ++ rest := by rw [hts, skipNewlines_append hstarts]
    obtain ⟨first, s, hs, hall⟩ := hsequences.exists_first
    -- the first sequence is read up to the end or up to its separator
    have hread : ∀ last, Stops 3 last → all ++ rest = first ++ last → ∃ head after tail,
        Reads (readPipeline (all ++ rest)) head after ∧ Reads (readTail after) tail last
          ∧ s = .chain head tail := by
      intro last hlast heq
      cases hs with
      | @chain hd tl head tail hhead htail =>
        rw [List.append_assoc] at heq
        have hsame : (all ++ rest).length = hd.length + (tl ++ last).length := by
          rw [heq, List.length_append]
        exact ⟨head, tl ++ last, tail,
          reads_pipeline_of_spells (fun inner hinner => ih inner (by omega)) heq hhead
            (stops_tail htail hlast),
          reads_tail_of_spells (fun inner hinner => ih inner (by omega)) rfl htail hlast, rfl⟩
    refine reads_sequences_iff.2 (.inr ?_)
    rw [hskip]
    refine ⟨by rw [hstarts.atEnd_eq]; exact Bool.false_ne_true, ?_⟩
    obtain ⟨rfl, rfl⟩ | ⟨o, more, following, ho, rfl, hmore, rfl⟩ := hall
    · obtain ⟨head, after, tail, hhead, htail, rfl⟩ := hread rest hrest rfl
      refine ⟨head, after, hhead, tail, rest, htail, .inl ⟨?_, hend, rfl, rfl⟩⟩
      exact afterSeparator?_of_atEnd hend
    · rw [List.append_assoc, List.cons_append] at hread hlength ⊢
      obtain ⟨head, after, tail, hhead, htail, rfl⟩ := hread _ (stops_separator ho) rfl
      rw [List.length_append, List.length_cons] at hlength
      have hfollowing : Reads (readSequences nested (more ++ rest)) following rest :=
        (ih _ (by omega) _ _ _).2 ⟨more, rfl, hmore, hend⟩
      exact ⟨head, after, hhead, tail, _, htail, .inr ⟨_,
        afterSeparator?_eq_some_iff.2 ⟨o, ho, rfl⟩, following, rest, hfollowing, rfl, rfl⟩⟩

/-- Whatever its length, a token list is read as the grammar spells it. -/
theorem readsAsSpelled (ts : List Token) : ReadsAsSpelled ts := by
  have ih : ∀ inner : List Token, inner.length < ts.length → ReadsAsSpelled inner :=
    fun inner _ => readsAsSpelled inner
  intro nested ss rest
  constructor
  · exact spelled_of_reads_sequences ih
  · intro ⟨used, hts, hused, hend⟩
    exact reads_sequences_of_spells ih hts hused hend
termination_by ts.length

/-- Tokens are parsed as a script exactly if they spell it. -/
theorem ofTokens_eq_ok_iff {ss : Script} : ofTokens ts = .ok ss ↔ SpellsScript ts ss := by
  have hread : ofTokens ts = .ok ss ↔ Reads (readSequences false ts) ss [] := by
    rw [ofTokens]
    constructor
    · intro h
      cases hsequences : readSequences false ts with
      | error e =>
        rw [hsequences] at h
        cases h
      | ok result =>
        obtain ⟨script, left, hleft⟩ := result
        rw [hsequences] at h
        cases left with
        | nil =>
          cases h
          exact ⟨hleft, rfl⟩
        | cons t more => cases h
    · intro ⟨hleft, h⟩
      rw [h]
      rfl
  rw [hread, readsAsSpelled ts]
  constructor
  · intro ⟨used, hts, hused, _⟩
    rw [List.append_nil] at hts
    rwa [hts]
  · intro h
    exact ⟨ts, (List.append_nil ts).symm, h, rfl⟩

/-- A token list is read as a script exactly if the grammar spells it; it spells one script at most,
whose words and redirections keep their order and which is well formed; and the tokens of every
well-formed script are read as that script. -/
theorem ofTokens_iff_spells :
    (∀ ts ss, ofTokens ts = .ok ss ↔ SpellsScript ts ss)
      ∧ (∀ ts ss ss', SpellsScript ts ss → SpellsScript ts ss' → ss = ss')
      ∧ (∀ ts ss, SpellsScript ts ss → WellFormed ss
        ∧ (commands ss).flatMap Command.words = Item.words (Item.ofTokens ts)
        ∧ (commands ss).flatMap Command.redirections = Item.redirections (Item.ofTokens ts))
      ∧ ∀ ss, WellFormed ss → ofTokens (tokens ss) = .ok ss := by
  refine ⟨fun ts ss => ofTokens_eq_ok_iff, fun ts ss ss' h h' => ?_, fun ts ss h => ?_,
    fun ss h => ?_⟩
  · exact Except.ok.inj ((ofTokens_eq_ok_iff.2 h).symm.trans (ofTokens_eq_ok_iff.2 h'))
  · have hwords := h.holds.words_eq []
    have hredirections := h.holds.redirections_eq []
    rw [List.append_nil] at hwords hredirections
    exact ⟨h.allProper, by simpa [Item.ofTokens] using hwords.symm,
      by simpa [Item.ofTokens] using hredirections.symm⟩
  · exact ofTokens_eq_ok_iff.2 (spellsScript_tokens ss h)

/-- The script `(a) > out 2>&1 | a && a`. -/
def redirectedGroup : Script :=
  let word (text : String) : Word := ⟨[⟨.none, text⟩]⟩
  let simple : Command := .simple [word "a"] []
  let group : Command :=
    .group [.chain [simple] []] [.output .out .truncate (word "out"), .errorsToOutput]
  [.chain [group, simple] [(.andThen, [simple])]]

theorem ofTokens_tokens_redirectedGroup :
    WellFormed redirectedGroup ∧ ofTokens (tokens redirectedGroup) = .ok redirectedGroup := by
  have hproper : WellFormed redirectedGroup := by
    simp [redirectedGroup, WellFormed, pipelines, Sequence.pipelines, Pipeline.pipelinesIn,
      Tail.pipelines, Command.pipelines, commands, Sequence.commands, Pipeline.commands,
      Tail.commands, Command.commands, Command.IsProper, Command.words, Command.body?,
      Command.redirections, Redirection.target?]
  exact ⟨hproper, ofTokens_iff_spells.2.2.2 _ hproper⟩

end Sandshell.Script
