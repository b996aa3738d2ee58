import Sandshell.Proofs.Script.Grammar
import Sandshell.Script.Parse

/-!
# Readers as relations

Each function of the reader of scripts is said as a relation between what it reads and what it
leaves, without its errors and the proofs that it carries. The words and redirections of a command
are read as far as they go; what may come next is part of the statement.
-/

namespace Sandshell.Script

open Grammar

/-! ## One step of a reader -/

/-- Reading succeeds with a result and leaves these tokens. -/
def Reads {α : Type} {P : List Token → Prop}
    (reading : Except ParseError (α × { rest : List Token // P rest })) (a : α)
    (rest : List Token) : Prop :=
  ∃ h, reading = .ok (a, ⟨rest, h⟩)

variable {α β : Type} {P Q : List Token → Prop} {ts rest : List Token} {o : Operator}

theorem not_reads_error {e : ParseError} {a : α} :
    ¬ Reads (.error e : Except ParseError (α × { rest : List Token // P rest })) a rest := by
  intro ⟨_, h⟩
  cases h

/-- A step of a reader reads first what the others go on from. -/
theorem reads_bind_iff {x : Except ParseError α}
    {f : α → Except ParseError (β × { rest : List Token // P rest })} {b : β} :
    Reads (x >>= f) b rest ↔ ∃ a, x = .ok a ∧ Reads (f a) b rest := by
  cases x with
  | error e =>
    constructor
    · intro h
      exact absurd h not_reads_error
    · intro ⟨_, h, _⟩
      cases h
  | ok a =>
    constructor
    · intro h
      exact ⟨a, rfl, h⟩
    · intro ⟨a', h, hf⟩
      cases h
      exact hf

/-- Readers one after the other read one after the other. -/
theorem reads_bind {x : Except ParseError (α × { rest : List Token // P rest })}
    {f : α × { rest : List Token // P rest } →
      Except ParseError (β × { rest : List Token // Q rest })}
    {b : β} {continued : α → List Token → Prop}
    (hf : ∀ a mid h, Reads (f (a, ⟨mid, h⟩)) b rest ↔ continued a mid) :
    Reads (x >>= f) b rest ↔ ∃ a mid, Reads x a mid ∧ continued a mid := by
  rw [reads_bind_iff]
  constructor
  · intro ⟨⟨a, mid, h⟩, hx, hread⟩
    exact ⟨a, mid, ⟨h, hx⟩, (hf a mid h).1 hread⟩
  · intro ⟨a, mid, ⟨h, hx⟩, hthen⟩
    exact ⟨_, hx, (hf a mid h).2 hthen⟩

/-- A reader that only gives a result takes no tokens. -/
theorem reads_pure_iff {a b : α} {left : { rest : List Token // P rest }} :
    Reads (pure (a, left)) b rest ↔ b = a ∧ rest = left.val := by
  constructor
  · intro ⟨h, heq⟩
    cases heq
    exact ⟨rfl, rfl⟩
  · intro ⟨ha, hleft⟩
    subst ha hleft
    exact ⟨left.property, rfl⟩

/-- Reading goes on only where nothing is refused. -/
theorem reads_ite_throw_iff {c : Prop} [Decidable c] {e : ParseError} {a : α}
    {reading : Except ParseError (α × { rest : List Token // P rest })} :
    Reads (if c then (throw e : Except ParseError PUnit) >>= fun _ => reading else reading) a rest
      ↔ ¬ c ∧ Reads reading a rest := by
  by_cases hc : c
  · rw [if_pos hc]
    constructor
    · intro h
      exact absurd h not_reads_error
    · intro h
      exact absurd hc h.1
  · rw [if_neg hc]
    exact (and_iff_right hc).symm

theorem afterParen?_eq_some_iff {ts rest : List Token} :
    afterParen? ts = some rest ↔ ts = .operator .closeParen :: rest := by
  unfold afterParen?
  split <;> simp_all

/-- Only redirection operators start a redirection. -/
theorem readRedirection_eq_none_iff : readRedirection o ts = none ↔ o.isRedirection = false := by
  cases o <;> simp [readRedirection, Operator.isRedirection]

/-- A redirection is read exactly where its tokens stand. -/
theorem readRedirection_iff {r : Redirection} :
    (∃ h, readRedirection o ts = some (.ok (r, ⟨rest, h⟩)))
      ↔ .operator o :: ts = r.tokens ++ rest := by
  constructor
  · intro ⟨h, heq⟩
    unfold readRedirection at heq
    rcases ts with _ | ⟨o' | w, more⟩ <;> cases o <;>
      simp only [Option.some.injEq, Except.ok.injEq, Prod.mk.injEq, Subtype.mk.injEq,
        reduceCtorEq] at heq
    all_goals
      obtain ⟨rfl, rfl⟩ := heq
      rfl
  · intro h
    cases r with
    | input w =>
      cases h
      exact ⟨_, rfl⟩
    | output stream mode w => cases stream <;> cases mode <;> cases h <;> exact ⟨_, rfl⟩
    | errorsToOutput =>
      cases h
      exact ⟨_, rfl⟩


/-- A group is its body, a closing parenthesis and redirections with no word after them. -/
theorem reads_group_iff {inner : List Token} {c : Command} :
    Reads (readCommand (.operator .openParen :: inner)) c rest ↔ ∃ body closing,
      Reads (readSequences true inner) body closing ∧ ∃ more,
        closing = .operator .closeParen :: more ∧ body ≠ [] ∧ ∃ rs after,
          Reads (readRedirections more) rs after ∧ (∀ w, after.head? ≠ some (.word w))
            ∧ c = .group body rs ∧ rest = after := by
  rw [readCommand]
  refine reads_bind fun body closing hlength => ?_
  dsimp only
  split
  -- a group that is not closed is an error
  · next hparen =>
    simp only [← afterParen?_eq_some_iff, hparen]
    simp [throw, throwThe, MonadExceptOf.throw, not_reads_error]
  · next more hparen =>
    simp only [← afterParen?_eq_some_iff, hparen, Option.some.injEq, exists_eq_left']
    rw [reads_ite_throw_iff, List.isEmpty_iff]
    refine and_congr_right fun _ => reads_bind fun rs after hafter => ?_
    dsimp only
    split
    -- so is a word right behind a group
    · next w hword =>
      rw [hword]
      constructor
      · intro h
        exact absurd h not_reads_error
      · intro h
        exact absurd rfl (h.1 w)
    · next hword =>
      rw [reads_pure_iff]
      constructor
      · intro h
        exact ⟨hword, h⟩
      · intro h
        exact h.2

/-- A pipeline is one command, or a command, a bar and a pipeline after any newlines. -/
theorem reads_pipeline_iff {p : Pipeline} :
    Reads (readPipeline ts) p rest ↔ ∃ c after, Reads (readCommand ts) c after
      ∧ (afterPipe? after = none ∧ p = [c] ∧ rest = after
        ∨ ∃ more, afterPipe? after = some more ∧ skipNewlines more ≠ []
          ∧ ∃ p' last, Reads (readPipeline (skipNewlines more)) p' last ∧ p = c :: p'
            ∧ rest = last) := by
  rw [readPipeline]
  refine reads_bind fun c after hlength => ?_
  dsimp only
  split
  · next hpipe =>
    rw [reads_pure_iff, hpipe]
    simp
  · next more hpipe =>
    rw [reads_ite_throw_iff, List.isEmpty_iff]
    simp only [hpipe, reduceCtorEq, false_and, false_or, Option.some.injEq, exists_eq_left']
    refine and_congr_right fun _ => reads_bind fun p' last hlast => ?_
    rw [reads_pure_iff]

/-- Behind a pipeline come a connector and another one, or nothing that connects. -/
theorem reads_tail_iff {steps : List (Connector × Pipeline)} :
    Reads (readTail ts) steps rest ↔
      afterConnector? ts = none ∧ steps = [] ∧ rest = ts
      ∨ ∃ connector more, afterConnector? ts = some (connector, more) ∧ skipNewlines more ≠ []
          ∧ ∃ p after, Reads (readPipeline (skipNewlines more)) p after
            ∧ ∃ steps' last, Reads (readTail after) steps' last ∧ steps = (connector, p) :: steps'
              ∧ rest = last := by
  rw [readTail]
  split
  · next hconnector =>
    rw [reads_pure_iff, hconnector]
    simp
  · next connector more hconnector =>
    dsimp only
    rw [reads_ite_throw_iff, List.isEmpty_iff]
    simp only [hconnector, reduceCtorEq, false_and, false_or, Option.some.injEq, Prod.mk.injEq]
    constructor
    · rintro ⟨hne, hread⟩
      refine ⟨connector, more, ⟨rfl, rfl⟩, hne, (reads_bind fun p after hafter => ?_).1 hread⟩
      exact reads_bind fun steps' last hlast => reads_pure_iff
    · rintro ⟨_, _, ⟨rfl, rfl⟩, hne, hread⟩
      refine ⟨hne, (reads_bind fun p after hafter => ?_).2 hread⟩
      exact reads_bind fun steps' last hlast => reads_pure_iff

/-- Sequences are read up to the end of the script or of the group around them. -/
theorem reads_sequences_iff {nested : Bool} {ss : Script} :
    Reads (readSequences nested ts) ss rest ↔
      atEnd nested (skipNewlines ts) = true ∧ ss = [] ∧ rest = skipNewlines ts
      ∨ ¬ atEnd nested (skipNewlines ts) = true ∧ ∃ head after,
        Reads (readPipeline (skipNewlines ts)) head after ∧ ∃ tail last,
          Reads (readTail after) tail last ∧
          (afterSeparator? last = none ∧ atEnd nested last = true ∧ ss = [.chain head tail]
              ∧ rest = last
            ∨ ∃ more, afterSeparator? last = some more ∧ ∃ following final,
              Reads (readSequences nested more) following final
                ∧ ss = .chain head tail :: following ∧ rest = final) := by
  rw [readSequences]
  by_cases hend : atEnd nested (skipNewlines ts) = true
  · simp only [hend, if_true, reads_pure_iff]
    simp
  · rw [if_neg hend]
    simp only [hend, Bool.false_eq_true, false_and, false_or, not_false_eq_true, true_and]
    refine reads_bind fun head after hafter => reads_bind fun tail last hlast => ?_
    dsimp only
    split
    · next more hseparator =>
      simp only [hseparator, reduceCtorEq, false_and, false_or, Option.some.injEq, exists_eq_left']
      exact reads_bind fun following final hfinal => reads_pure_iff
    · next hseparator =>
      simp only [hseparator, reduceCtorEq, true_and, false_and, exists_false, or_false]
      by_cases hlastEnd : atEnd nested last = true
      · simp [hlastEnd, reads_pure_iff]
      · simp [hlastEnd, throw, throwThe, MonadExceptOf.throw, not_reads_error]

/-! ## What may come next -/

/-- How loosely an operator joins what stands around it. -/
def looseness : Operator → Nat
  | .input | .output | .append | .errors | .errorsAppend | .errorsToOutput => 0
  | .pipe => 1
  | .andThen | .orElse => 2
  | .semicolon | .newline | .openParen | .closeParen => 3

/-- Reading stops here: nothing is left, or an operator that joins no tighter than `n`. -/
def Stops (n : Nat) : List Token → Prop
  | [] => True
  | .operator o :: _ => n ≤ looseness o
  | .word _ :: _ => False

/-- A command may start here. -/
def Starts : List Token → Prop
  | [] => False
  | .operator o :: _ => o.isRedirection = true ∨ o = .openParen
  | .word _ :: _ => True

/-- What stops a loose reader stops a stricter one. -/
theorem Stops.mono {m n : Nat} (h : Stops n ts) (hmn : m ≤ n) : Stops m ts := by
  rcases ts with _ | ⟨o | w, more⟩
  · trivial
  · exact Nat.le_trans hmn h
  · exact h

theorem one_le_looseness_iff : 1 ≤ looseness o ↔ o.isRedirection = false := by
  cases o <;> decide

/-- A pipeline stops where a command does and no bar follows. -/
theorem stops_two_iff : Stops 2 ts ↔ afterPipe? ts = none ∧ Stops 1 ts := by
  rcases ts with _ | ⟨o | w, more⟩
  · simp [Stops, afterPipe?]
  · cases o <;> simp [Stops, afterPipe?, looseness]
  · simp [Stops]

/-- A sequence stops where a pipeline does and no connector follows. -/
theorem stops_three_iff : Stops 3 ts ↔ afterConnector? ts = none ∧ Stops 2 ts := by
  rcases ts with _ | ⟨o | w, more⟩
  · simp [Stops, afterConnector?]
  · cases o <;> simp [Stops, afterConnector?, looseness]
  · simp [Stops]

/-- Every reader stops at the end. -/
theorem stops_of_atEnd {nested : Bool} (h : atEnd nested ts = true) : Stops 3 ts := by
  rcases ts with _ | ⟨o | w, more⟩
  · trivial
  · cases o <;> first | exact Nat.le_refl 3 | simp [atEnd] at h
  · simp [atEnd] at h

theorem skipNewlines_of_atEnd {nested : Bool} (h : atEnd nested ts = true) :
    skipNewlines ts = ts := by
  rcases ts with _ | ⟨o | w, more⟩
  · rfl
  · cases o <;> first | rfl | simp [atEnd] at h
  · rfl

theorem afterSeparator?_of_atEnd {nested : Bool} (h : atEnd nested ts = true) :
    afterSeparator? ts = none := by
  rcases ts with _ | ⟨o | w, more⟩
  · rfl
  · cases o <;> first | rfl | simp [atEnd] at h
  · rfl

/-- What starts a command does so with anything after it. -/
theorem Starts.append (h : Starts ts) (rest : List Token) : Starts (ts ++ rest) := by
  rcases ts with _ | ⟨o | w, more⟩
  · exact h.elim
  · exact h
  · trivial

theorem Starts.ne_nil (h : Starts ts) : ts ≠ [] := by
  rintro rfl
  exact h

/-- Where a command starts is no end. -/
theorem Starts.atEnd_eq {nested : Bool} (h : Starts ts) : atEnd nested ts = false := by
  rcases ts with _ | ⟨o | w, more⟩
  · exact h.elim
  · cases o <;> first | rfl | simp [Starts, Operator.isRedirection] at h
  · rfl

theorem Starts.skipNewlines_eq (h : Starts ts) : skipNewlines ts = ts := by
  rcases ts with _ | ⟨o | w, more⟩
  · rfl
  · cases o <;> first | rfl | simp [Starts, Operator.isRedirection] at h
  · rfl

/-- Newlines in front are skipped, however many. -/
theorem skipNewlines_newlines_append (n : Nat) (ts : List Token) :
    skipNewlines (newlines n ++ ts) = skipNewlines ts := by
  induction n with
  | zero => rfl
  | succ n ih => rw [newlines_succ, List.cons_append, skipNewlines, ih]

/-- All that is skipped are newlines. -/
theorem exists_newlines_append (ts : List Token) : ∃ n, ts = newlines n ++ skipNewlines ts := by
  fun_induction skipNewlines ts with
  | case1 rest ih =>
    obtain ⟨n, hn⟩ := ih
    exact ⟨n + 1, congrArg _ hn⟩
  | case2 ts => exact ⟨0, rfl⟩

theorem afterPipe?_eq_some_iff : afterPipe? ts = some rest ↔ ts = .operator .pipe :: rest := by
  unfold afterPipe?
  split <;> simp_all

/-- A connector is found where its operator stands. -/
theorem afterConnector?_eq_some_iff {connector : Connector} :
    afterConnector? ts = some (connector, rest) ↔ ts = .operator connector.operator :: rest := by
  rcases ts with _ | ⟨o | w, more⟩
  · simp [afterConnector?]
  · cases o <;> cases connector <;> simp [afterConnector?, Connector.operator]
  · simp [afterConnector?]

/-- So is a separator. -/
theorem afterSeparator?_eq_some_iff :
    afterSeparator? ts = some rest ↔ ∃ o, o.isSeparator = true ∧ ts = .operator o :: rest := by
  rcases ts with _ | ⟨o | w, more⟩
  · simp [afterSeparator?]
  · cases o <;> simp [afterSeparator?, Operator.isSeparator]
  · simp [afterSeparator?]

/-! ## Words and redirections -/

/-- Reading items succeeds with these words and redirections and leaves these tokens. -/
def ReadsItems (ts : List Token) (ws : List Word) (rs : List Redirection) (rest : List Token) :
    Prop :=
  ∃ items, readItems ts = .ok items ∧ items.words = ws ∧ items.redirections = rs
    ∧ items.rest = rest

variable {ws : List Word} {rs : List Redirection}

/-- Where a redirection may stand there is none, a whole one, or one without a target. -/
theorem redirection_cases (o : Operator) (ts : List Token) :
    o.isRedirection = false
      ∨ (∃ (r : Redirection) (rest : List Token), .operator o :: ts = r.tokens ++ rest)
      ∨ ∃ e, readRedirection o ts = some (.error e) := by
  rcases hread : readRedirection o ts with _ | e | ⟨r, rest, hlength⟩
  · exact .inl (readRedirection_eq_none_iff.1 hread)
  · exact .inr (.inr ⟨e, rfl⟩)
  · exact .inr (.inl ⟨r, rest, readRedirection_iff.1 ⟨hlength, hread⟩⟩)

/-- The tokens of a redirection are read as this redirection, whatever follows. -/
theorem tokens_append (r : Redirection) (ts : List Token) :
    ∃ more hlength, r.tokens ++ ts = .operator r.operator :: more
      ∧ readRedirection r.operator more = some (.ok (r, ⟨ts, hlength⟩)) := by
  have h : .operator r.operator :: ((r.target?.map Token.word).toList ++ ts) = r.tokens ++ ts := rfl
  obtain ⟨hlength, hread⟩ := readRedirection_iff.2 h
  exact ⟨_, hlength, rfl, hread⟩

/-- Where a command stops, no items are read. -/
theorem readsItems_of_stops (h : Stops 1 ts) :
    ReadsItems ts ws rs rest ↔ ws = [] ∧ rs = [] ∧ rest = ts := by
  have hread : ∃ hlength, readItems ts = .ok ⟨[], [], ts, hlength⟩ := by
    rcases ts with _ | ⟨o | w, more⟩
    · exact ⟨_, by rw [readItems]⟩
    · have hnone : readRedirection o more = none :=
        readRedirection_eq_none_iff.2 (one_le_looseness_iff.1 h)
      refine ⟨by simp, ?_⟩
      rw [readItems]
      split <;> simp_all
    · exact h.elim
  obtain ⟨hlength, hread⟩ := hread
  constructor
  · rintro ⟨items, hitems, hws, hrs, hrest⟩
    obtain rfl := Except.ok.inj (hread.symm.trans hitems)
    exact ⟨hws.symm, hrs.symm, hrest.symm⟩
  · rintro ⟨hws, hrs, hrest⟩
    exact ⟨_, hread, hws.symm, hrs.symm, hrest.symm⟩

theorem exists_bind_eq_ok {ε : Type} {x : Except ε α} {f : α → Except ε β} {Q : β → Prop} :
    (∃ b, (x >>= f) = .ok b ∧ Q b) ↔ ∃ a, x = .ok a ∧ ∃ b, f a = .ok b ∧ Q b := by
  cases x with
  | error e =>
    constructor
    · intro ⟨b, hb, _⟩
      cases hb
    · intro ⟨a, ha, _⟩
      cases ha
  | ok a =>
    constructor
    · intro h
      exact ⟨a, rfl, h⟩
    · intro ⟨a', ha, h⟩
      cases ha
      exact h

/-- A word is the first item that is read. -/
theorem readsItems_word {w : Word} :
    ReadsItems (.word w :: ts) ws rs rest ↔ ∃ ws', ReadsItems ts ws' rs rest ∧ ws = w :: ws' := by
  rw [ReadsItems, readItems, exists_bind_eq_ok]
  constructor
  · rintro ⟨items, hitems, _, hall, hws, hrs, hrest⟩
    cases hall
    exact ⟨_, ⟨items, hitems, rfl, hrs, hrest⟩, hws.symm⟩
  · rintro ⟨ws', ⟨items, hitems, hws, hrs, hrest⟩, hcons⟩
    subst hws
    exact ⟨items, hitems, _, rfl, hcons.symm, hrs, hrest⟩

/-- So is a redirection. -/
theorem readsItems_redirection {r : Redirection} :
    ReadsItems (r.tokens ++ ts) ws rs rest ↔ ∃ rs', ReadsItems ts ws rs' rest ∧ rs = r :: rs' := by
  obtain ⟨more, hlength, heq, hread⟩ := tokens_append r ts
  rw [heq, ReadsItems, readItems]
  split
  · next r' ts' hlength' hread' =>
    rw [hread] at hread'
    cases hread'
    rw [exists_bind_eq_ok]
    constructor
    · rintro ⟨items, hitems, _, hall, hws, hrs, hrest⟩
      cases hall
      exact ⟨_, ⟨items, hitems, hws, rfl, hrest⟩, hrs.symm⟩
    · rintro ⟨rs', ⟨items, hitems, hws, hrs, hrest⟩, hcons⟩
      subst hrs
      exact ⟨items, hitems, _, rfl, hws, hcons.symm, hrest⟩
  · simp_all
  · simp_all

/-- An operator without target spoils all that follows. -/
theorem not_readsItems_of_error {e : ParseError} (h : readRedirection o ts = some (.error e)) :
    ¬ ReadsItems (.operator o :: ts) ws rs rest := by
  intro ⟨items, hitems, _⟩
  rw [readItems] at hitems
  split at hitems <;> simp_all

/-- Items are read back from their tokens, words and redirections apart. -/
theorem readsItems_append (items : List Item) (h : Stops 1 rest) : ReadsItems
    (items.flatMap Item.tokens ++ rest) (Item.words items) (Item.redirections items) rest := by
  induction items with
  | nil => exact (readsItems_of_stops h).2 ⟨rfl, rfl, rfl⟩
  | cons item more ih =>
    rw [List.flatMap_cons, List.append_assoc]
    cases item with
    | word w => exact readsItems_word.2 ⟨_, ih, rfl⟩
    | redirection r => exact readsItems_redirection.2 ⟨_, ih, rfl⟩

/-- Whatever is read has been spelled by some items. -/
theorem exists_of_readsItems {ts : List Token} {ws : List Word} {rs : List Redirection}
    (h : ReadsItems ts ws rs rest) : ∃ items, ts = items.flatMap Item.tokens ++ rest
      ∧ ws = Item.words items ∧ rs = Item.redirections items ∧ Stops 1 rest := by
  match ts, h with
  | [], h =>
    obtain ⟨rfl, rfl, rfl⟩ := (readsItems_of_stops (by trivial)).1 h
    exact ⟨[], rfl, rfl, rfl, trivial⟩
  | .word w :: more, h =>
    obtain ⟨ws', h', rfl⟩ := readsItems_word.1 h
    obtain ⟨items, rfl, rfl, rfl, hstops⟩ := exists_of_readsItems h'
    exact ⟨.word w :: items, rfl, rfl, rfl, hstops⟩
  | .operator o :: more, h =>
    obtain hnone | ⟨r, ts', htokens⟩ | ⟨e, herror⟩ := redirection_cases o more
    · have hstops : Stops 1 (.operator o :: more) := one_le_looseness_iff.2 hnone
      obtain ⟨rfl, rfl, rfl⟩ := (readsItems_of_stops hstops).1 h
      exact ⟨[], rfl, rfl, rfl, hstops⟩
    · have hshorter : ts'.length < (Token.operator o :: more).length := by
        rw [htokens, List.length_append, Redirection.tokens, List.length_cons]
        omega
      rw [htokens] at h ⊢
      obtain ⟨rs', h', rfl⟩ := readsItems_redirection.1 h
      obtain ⟨items, rfl, rfl, rfl, hstops⟩ := exists_of_readsItems h'
      refine ⟨.redirection r :: items, ?_, rfl, rfl, hstops⟩
      rw [List.flatMap_cons, List.append_assoc]
      rfl
    · exact absurd h (not_readsItems_of_error herror)
termination_by ts.length
decreasing_by
  · exact Nat.lt_succ_self _
  · exact hshorter

theorem readsItems_iff : ReadsItems ts ws rs rest ↔ ∃ items,
    ts = items.flatMap Item.tokens ++ rest ∧ ws = Item.words items ∧ rs = Item.redirections items
      ∧ Stops 1 rest := by
  constructor
  · exact exists_of_readsItems
  · intro ⟨items, hts, hws, hrs, hstops⟩
    subst hts hws hrs
    exact readsItems_append items hstops

/-- Behind a group nothing else than redirections is read. -/
theorem reads_redirections_of_stops (h : ∀ o more, ts = .operator o :: more →
    o.isRedirection = false) : Reads (readRedirections ts) rs rest ↔ rs = [] ∧ rest = ts := by
  rcases ts with _ | ⟨o | w, more⟩
  · rw [readRedirections]
    exact reads_pure_iff
    all_goals simp
  · have hnone : readRedirection o more = none := readRedirection_eq_none_iff.2 (h o more rfl)
    rw [readRedirections]
    split
    · simp_all
    · simp_all
    · exact reads_pure_iff
  · rw [readRedirections]
    exact reads_pure_iff
    all_goals simp

/-- They are read one after the other. -/
theorem reads_redirections_cons {r : Redirection} :
    Reads (readRedirections (r.tokens ++ ts)) rs rest ↔
      ∃ rs' last, Reads (readRedirections ts) rs' last ∧ rs = r :: rs' ∧ rest = last := by
  obtain ⟨more, hlength, heq, hread⟩ := tokens_append r ts
  rw [heq, readRedirections]
  split
  · next r' ts' hlength' hread' =>
    rw [hread] at hread'
    cases hread'
    exact reads_bind fun rs' last hlast => reads_pure_iff
  · simp_all
  · simp_all

theorem not_reads_redirections_of_error {e : ParseError}
    (h : readRedirection o ts = some (.error e)) :
    ¬ Reads (readRedirections (.operator o :: ts)) rs rest := by
  intro hreads
  rw [readRedirections] at hreads
  split at hreads
  · simp_all
  · exact not_reads_error hreads
  · simp_all

/-- Redirections are read back from their tokens. -/
theorem reads_redirections_append (rs : List Redirection) (h : Stops 1 rest) :
    Reads (readRedirections (rs.flatMap Redirection.tokens ++ rest)) rs rest := by
  induction rs with
  | nil =>
    refine (reads_redirections_of_stops fun o more hrest => ?_).2 ⟨rfl, rfl⟩
    subst hrest
    exact one_le_looseness_iff.1 h
  | cons r more ih =>
    rw [List.flatMap_cons, List.append_assoc]
    exact reads_redirections_cons.2 ⟨_, _, ih, rfl, rfl⟩

/-- All that is read are their tokens, up to where no redirection starts. -/
theorem eq_append_of_reads_redirections {ts : List Token} {rs : List Redirection}
    (h : Reads (readRedirections ts) rs rest) :
    ts = rs.flatMap Redirection.tokens ++ rest
      ∧ ∀ o more, rest = .operator o :: more → o.isRedirection = false := by
  match ts, h with
  | [], h =>
    obtain ⟨rfl, rfl⟩ := (reads_redirections_of_stops (by simp)).1 h
    exact ⟨rfl, by simp⟩
  | .word w :: more, h =>
    obtain ⟨rfl, rfl⟩ := (reads_redirections_of_stops (by simp)).1 h
    exact ⟨rfl, by simp⟩
  | .operator o :: more, h =>
    obtain hnone | ⟨r, ts', htokens⟩ | ⟨e, herror⟩ := redirection_cases o more
    · have hstops : ∀ o' more', Token.operator o :: more = .operator o' :: more' →
          o'.isRedirection = false := by
        intro o' more' heq
        cases heq
        exact hnone
      obtain ⟨rfl, rfl⟩ := (reads_redirections_of_stops hstops).1 h
      exact ⟨rfl, hstops⟩
    · have hshorter : ts'.length < (Token.operator o :: more).length := by
        rw [htokens, List.length_append, Redirection.tokens, List.length_cons]
        omega
      rw [htokens] at h ⊢
      obtain ⟨rs', last, h', rfl, rfl⟩ := reads_redirections_cons.1 h
      obtain ⟨rfl, hstops⟩ := eq_append_of_reads_redirections h'
      refine ⟨?_, hstops⟩
      rw [List.flatMap_cons, List.append_assoc]
    · exact absurd h (not_reads_redirections_of_error herror)
termination_by ts.length
decreasing_by exact hshorter

/-- A redirection is read as long as there is one, and no word may follow. -/
theorem reads_redirections_iff :
    Reads (readRedirections ts) rs rest ∧ (∀ w, rest.head? ≠ some (.word w))
      ↔ ts = rs.flatMap Redirection.tokens ++ rest ∧ Stops 1 rest := by
  constructor
  · intro ⟨h, hword⟩
    obtain ⟨hts, hstops⟩ := eq_append_of_reads_redirections h
    refine ⟨hts, ?_⟩
    rcases rest with _ | ⟨o | w, more⟩
    · trivial
    · exact one_le_looseness_iff.2 (hstops o more rfl)
    · exact absurd rfl (hword w)
  · intro ⟨hts, hstops⟩
    subst hts
    refine ⟨reads_redirections_append rs hstops, fun w hw => ?_⟩
    rcases rest with _ | ⟨o | w', more⟩
    · cases hw
    · cases hw
    · exact hstops

end Sandshell.Script
