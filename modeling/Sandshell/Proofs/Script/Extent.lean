import Sandshell.Proofs.Script.Reading
import Sandshell.Proofs.Script.Scan

/-!
# Extents of scripts in parentheses

The end of a script in parentheses is found by its quotes, backslashes and parentheses alone. The
reader of tokens sees more: it skips comments, and it takes a form as one whole, also in double
quotes. Where these passages are balanced, the search for the end goes through a script that can be
read without closing it, and comes out of it as it went in.
-/

namespace Sandshell

/-! ## The search for the end -/

namespace Form

/-- Where the search for the closing parenthesis stands after a text, and how many parentheses are
open there; `none` if the form closes in the text. -/
def walk (region : Region) (depth : Nat) : List Char → Option (Region × Nat)
  | [] => some (region, depth)
  | c :: rest =>
    if region = .bare ∧ c = ')' then
      match depth with
      | 0 => none
      | d + 1 => walk .bare d rest
    else walk (region.step c) (if region = .bare ∧ c = '(' then depth + 1 else depth) rest

/-- The search comes out of the text as it went in. -/
def IsBalanced (region : Region) (text : List Char) : Prop :=
  walk region 0 text = some (region, 0)

instance (region : Region) (text : List Char) : Decidable (IsBalanced region text) :=
  inferInstanceAs (Decidable (_ = _))

variable {region region' : Region} {depth depth' : Nat} {text : List Char}

/-- Walking over a text is walking over its first part and on over the rest. -/
theorem walk_append (region : Region) (depth : Nat) (text rest : List Char) :
    walk region depth (text ++ rest)
      = (walk region depth text).bind fun (region', depth') => walk region' depth' rest := by
  fun_induction walk region depth text with
  | case1 => rfl
  | case2 region c text hclose =>
    simp only [List.cons_append, walk, if_pos hclose, Option.bind_none]
  | case3 region c text hclose d ih => simp only [List.cons_append, walk, if_pos hclose, ih]
  | case4 region depth c text hopen ih =>
    rw [List.cons_append, walk.eq_def]
    exact (if_neg hopen).trans ih

theorem walk_append_of_walk (h : walk region depth text = some (region', depth'))
    (rest : List Char) : walk region depth (text ++ rest) = walk region' depth' rest := by
  rw [walk_append, h, Option.bind_some]

/-- Parentheses that are open before a text stay open. -/
theorem walk_add (h : walk region depth text = some (region', depth')) (more : Nat) :
    walk region (depth + more) text = some (region', depth' + more) := by
  fun_induction walk region depth text with
  | case1 => cases h; rfl
  | case2 => cases h
  | case3 region c text hclose d ih =>
    rw [show d.succ + more = (d + more) + 1 by omega, walk, if_pos hclose]
    exact ih h
  | case4 region depth c text hopen ih =>
    rw [walk.eq_def]
    refine (if_neg hopen).trans ?_
    rw [← ih h]
    split <;> simp only [Nat.add_right_comm]

/-- A balanced text is one however many parentheses are open. -/
theorem IsBalanced.walk_eq (h : IsBalanced region text) (depth : Nat) :
    walk region depth text = some (region, depth) := by
  have hadd := walk_add h depth
  rwa [Nat.zero_add] at hadd

/-- A text that is walked over does not hold the closing parenthesis. -/
theorem splitAtParen_append_of_walk (h : walk region depth text = some (region', depth'))
    (rest : List Char) : splitAtParen region depth (text ++ rest)
      = (splitAtParen region' depth' rest).map fun (inside, after) => (text ++ inside, after) := by
  fun_induction walk region depth text with
  | case1 =>
    cases h
    exact Option.map_id'.symm
  | case2 => cases h
  | case3 region c text hclose d ih =>
    rw [List.cons_append, splitAtParen, if_pos hclose, ih h, Option.map_map]
    rfl
  | case4 region depth c text hopen ih =>
    rw [List.cons_append, splitAtParen_cons hopen]
    refine (congrArg (Option.map _) (ih h)).trans ?_
    rw [Option.map_map]
    rfl

/-- The walk up to the closing parenthesis ends at depth 0, outside of quotes. -/
theorem walk_of_splitAtParen (region : Region) (depth : Nat) (text : List Char) :
    ∀ inside after, splitAtParen region depth text = some (inside, after) →
      walk region depth inside = some (.bare, 0) := by
  fun_induction splitAtParen region depth text with
  | case1 =>
    intro inside after h
    cases h
  | case2 region c rest hclose =>
    intro inside after h
    cases h
    rw [hclose.1, walk]
  | case3 region c rest hclose d ih =>
    intro inside after h
    obtain ⟨⟨i, a⟩, hrest, hcons⟩ := Option.map_eq_some_iff.1 h
    cases hcons
    rw [walk, if_pos hclose]
    exact ih _ _ hrest
  | case4 region depth c rest hopen _ ih =>
    intro inside after h
    obtain ⟨⟨i, a⟩, hrest, hcons⟩ := Option.map_eq_some_iff.1 h
    cases hcons
    rw [walk.eq_def]
    exact (if_neg hopen).trans (ih _ _ hrest)

/-- A form ends behind a text exactly if the text is balanced. -/
theorem splitAtParen_eq_some_iff {text after : List Char} :
    splitAtParen .bare 0 (text ++ ')' :: after) = some (text, after) ↔ IsBalanced .bare text := by
  refine ⟨walk_of_splitAtParen _ _ _ _ _, fun h => ?_⟩
  rw [splitAtParen_append_of_walk h, splitAtParen, if_pos ⟨rfl, rfl⟩]
  simp

/-- The form after a dollar sign is closed; a lone dollar sign encloses nothing. -/
def isClosed : List Char → Bool
  | '(' :: rest => (splitAtParen .bare 0 rest).isSome
  | '{' :: rest => (splitAtBrace rest).isSome
  | _ => true

/-- A form that closes at once after a balanced text is that text in parentheses. -/
theorem take_of_isBalanced {text : List Char} (h : IsBalanced .bare text) (after : List Char) :
    take ('(' :: text ++ ')' :: after) = ('(' :: text ++ [')'], after) := by
  rw [List.cons_append, take, splitAtParen_eq_some_iff.2 h]

/-- A form in parentheses that is closed is balanced. -/
theorem isBalanced_take {rest : List Char} (hclosed : isClosed rest)
    (hhead : (take rest).1.head? = some '(') : IsBalanced .bare (take rest).1 := by
  fun_cases take rest with
  | case1 rest inside after hsplit =>
    have hwalk := walk_add (walk_of_splitAtParen _ _ _ _ _ hsplit) 1
    show walk .bare 0 ('(' :: (inside ++ [')'])) = _
    rw [walk, if_neg (by decide)]
    exact walk_append_of_walk hwalk [')']
  | case2 rest hsplit => simp [isClosed, hsplit] at hclosed
  | case3 rest inside after hsplit => simp [take, hsplit] at hhead
  | case4 rest hsplit => simp [isClosed, hsplit] at hclosed
  | case5 => rfl

end Form

/-! ## Parentheses among tokens -/

namespace Token

/-- How many groups are open after tokens; `none` if one closes that is not open. -/
def openAfter (depth : Nat) : List Token → Option Nat
  | [] => some depth
  | .operator .openParen :: rest => openAfter (depth + 1) rest
  | .operator .closeParen :: rest =>
    match depth with
    | 0 => none
    | d + 1 => openAfter d rest
  | _ :: rest => openAfter depth rest

/-- Opens as many groups as it closes, whatever comes next. -/
def IsLevel (ts : List Token) : Prop :=
  ∀ depth rest, openAfter depth (ts ++ rest) = openAfter depth rest

variable {ts ts' : List Token}

theorem isLevel_nil : IsLevel [] :=
  fun _ _ => rfl

/-- Level tokens one after another are level. -/
theorem IsLevel.append (h : IsLevel ts) (h' : IsLevel ts') : IsLevel (ts ++ ts') := by
  intro depth rest
  rw [List.append_assoc, h, h']

/-- An operator that is no parenthesis leaves tokens level. -/
theorem IsLevel.operator {o : Operator} (hopen : o ≠ .openParen) (hclose : o ≠ .closeParen)
    (h : IsLevel ts) : IsLevel (.operator o :: ts) := by
  intro depth rest
  rw [List.cons_append, openAfter]
  · exact h depth rest
  · simpa using hopen
  · simpa using hclose

theorem IsLevel.word (w : Word) (h : IsLevel ts) : IsLevel (.word w :: ts) :=
  h

/-- A group of level tokens is level. -/
theorem IsLevel.group (h : IsLevel ts) (h' : IsLevel ts') :
    IsLevel (.operator .openParen :: ts ++ .operator .closeParen :: ts') := by
  intro depth rest
  rw [List.append_assoc, List.cons_append, openAfter, h, List.cons_append, openAfter]
  exact h' depth rest

/-- A finished word opens and closes nothing. -/
theorem openAfter_finish (draft : Option Word.Draft) (depth : Nat) (ts : List Token) :
    openAfter depth (finish draft ts) = openAfter depth ts := by
  cases draft <;> rfl

end Token

namespace Grammar

open Token (IsLevel isLevel_nil)

theorem isLevel_newlines (n : Nat) : IsLevel (newlines n) := by
  induction n with
  | zero => exact isLevel_nil
  | succ n ih => exact ih.operator (by decide) (by decide)

/-- Redirections open no group. -/
theorem isLevel_redirections (rs : List Redirection) :
    IsLevel (rs.flatMap Redirection.tokens) := by
  induction rs with
  | nil => exact isLevel_nil
  | cons r rest ih =>
    have hne : ∀ o : Operator, o.isRedirection = false → r.operator ≠ o := by
      rintro o ho rfl
      exact absurd ho (by simp)
    have htarget : IsLevel (r.target?.map Token.word).toList := by
      cases r.target? with
      | none => exact isLevel_nil
      | some w => exact isLevel_nil.word w
    exact (htarget.operator (hne _ rfl) (hne _ rfl)).append ih

/-- Nor do the words among them. -/
theorem isLevel_items (items : List Item) : IsLevel (items.flatMap Item.tokens) := by
  induction items with
  | nil => exact isLevel_nil
  | cons item rest ih =>
    cases item with
    | word w => exact ih.word w
    | redirection r =>
      have hone := isLevel_redirections [r]
      rw [List.flatMap_cons, List.flatMap_nil, List.append_nil] at hone
      exact hone.append ih

theorem isLevel_connector (connector : Connector) {ts : List Token} (h : IsLevel ts) :
    IsLevel (.operator connector.operator :: ts) := by
  cases connector <;> exact h.operator (by decide) (by decide)

theorem isLevel_separator {o : Operator} (ho : o.isSeparator) {ts : List Token} (h : IsLevel ts) :
    IsLevel (.operator o :: ts) := by
  cases o <;> first | exact h.operator (by decide) (by decide) | cases ho

mutual

/-- A command closes all the groups that it opens. -/
theorem SpellsCommand.isLevel : ∀ {ts c}, SpellsCommand ts c → IsLevel ts
  | _, _, .simple items _ => isLevel_items items
  | _, _, .group rs hbody _ => hbody.isLevel.group (isLevel_redirections rs)

/-- So does a pipeline. -/
theorem SpellsPipeline.isLevel : ∀ {ts p}, SpellsPipeline ts p → IsLevel ts
  | _, _, .last hlast => hlast.isLevel
  | _, _, .pipe n hfirst hrest => by
    rw [List.append_assoc]
    exact hfirst.isLevel.append
      (((isLevel_newlines n).append hrest.isLevel).operator (by decide) (by decide))

theorem SpellsTail.isLevel : ∀ {ts steps}, SpellsTail ts steps → IsLevel ts
  | _, _, .nil => isLevel_nil
  | _, _, .cons connector n hfirst hrest => by
    rw [List.append_assoc]
    exact isLevel_connector connector
      ((isLevel_newlines n).append (hfirst.isLevel.append hrest.isLevel))

theorem SpellsSequence.isLevel : ∀ {ts s}, SpellsSequence ts s → IsLevel ts
  | _, _, .chain hhead htail => hhead.isLevel.append htail.isLevel

/-- And so do sequences. -/
theorem SpellsSequences.isLevel : ∀ {ts ss}, SpellsSequences ts ss → IsLevel ts
  | _, _, .last hlast => hlast.isLevel
  | _, _, .closed n hlast ho =>
    hlast.isLevel.append (isLevel_separator ho (isLevel_newlines n))
  | _, _, .cons n hfirst ho hrest => by
    rw [List.append_assoc]
    exact hfirst.isLevel.append
      (isLevel_separator ho ((isLevel_newlines n).append hrest.isLevel))

/-- A script closes all the groups that it opens. -/
theorem SpellsScript.isLevel : ∀ {ts ss}, SpellsScript ts ss → IsLevel ts
  | _, _, .empty n => isLevel_newlines n
  | _, _, .sequences n hsequences => (isLevel_newlines n).append hsequences.isLevel

end

end Grammar

/-! ## Comments and forms -/

/-- What the reader of tokens takes as one whole. -/
inductive Passage where
  /-- A comment without its number sign. -/
  | comment (text : List Char)
  /-- A form without its dollar sign. -/
  | form (quoted : Bool) (text : List Char) (closed : Bool)
deriving DecidableEq, Repr

namespace Passage

/-- The form, if it is one, is closed. -/
def isClosed : Passage → Bool
  | .comment _ => true
  | .form _ _ closed => closed

/-- Does not mislead the search for the end. A form in parentheses outside quotes never does, since
its own end was found by the same search. -/
def IsHarmless : Passage → Prop
  | .comment text => Form.IsBalanced .bare text
  | .form true text _ => Form.IsBalanced .double text
  | .form false text _ => text.head? = some '(' ∨ Form.IsBalanced .bare text

instance : DecidablePred IsHarmless
  | .comment text => inferInstanceAs (Decidable (Form.IsBalanced .bare text))
  | .form true text _ => inferInstanceAs (Decidable (Form.IsBalanced .double text))
  | .form false text _ =>
    inferInstanceAs (Decidable (text.head? = some '(' ∨ Form.IsBalanced .bare text))

end Passage

namespace Token

mutual

/-- The comments and forms of a text outside quotes, in order; `inWord` if a word has begun before
the text. -/
def passages (inWord : Bool) (s : List Char) : List Passage :=
  match s with
  | [] => []
  | c :: rest =>
    if c = ' ' ∨ c = '\t' ∨ c = '\r' then passages false rest
    else if c = '#' ∧ ¬inWord then
      .comment (rest.takeWhile (· ≠ '\n')) :: passages false (rest.dropWhile (· ≠ '\n'))
    else if c = '\'' then passagesInSingle rest
    else if c = '"' then passagesInDouble rest
    else if c = '\\' then
      match rest with
      | [] => []
      | next :: rest => passages (inWord || next ≠ '\n') rest
    else if c = '$' then
      .form false (Form.take rest).1 (Form.isClosed rest) :: passages true (Form.take rest).2
    else
      match _h : Operator.read? inWord (c :: rest) with
      | some (.ok (_, rest')) => passages false rest'
      | some (.error _) => []
      | none => passages true rest
termination_by s.length
decreasing_by
  all_goals first
    | exact Operator.length_lt_of_read? ‹_›
    | exact Form.length_take_snd_lt _ _
    | exact Nat.lt_succ_of_le (List.dropWhile_sublist _).length_le
    | (simp only [List.length_cons]; omega)

/-- The comments and forms after single quotes. -/
def passagesInSingle (s : List Char) : List Passage :=
  match s with
  | [] => []
  | c :: rest => if c = '\'' then passages true rest else passagesInSingle rest
termination_by s.length

/-- The forms in double quotes, and the comments and forms after them. -/
def passagesInDouble (s : List Char) : List Passage :=
  match s with
  | [] => []
  | c :: rest =>
    if c = '"' then passages true rest
    else if c = '\\' then passagesInDouble (rest.drop 1)
    else if c = '$' then
      .form true (Form.take rest).1 (Form.isClosed rest) :: passagesInDouble (Form.take rest).2
    else passagesInDouble rest
termination_by s.length
decreasing_by
  all_goals first
    | exact Form.length_take_snd_lt _ _
    | (simp only [List.length_cons, List.length_drop]; omega)

end

section Steps

variable {inWord : Bool} {c : Char} {rest : List Char}

theorem passages_blank (hc : c = ' ' ∨ c = '\t' ∨ c = '\r') :
    passages inWord (c :: rest) = passages false rest := by
  rw [passages.eq_def]
  exact if_pos hc

/-- A comment goes up to the end of the line. -/
theorem passages_number_sign : passages false ('#' :: rest)
    = .comment (rest.takeWhile (· ≠ '\n')) :: passages false (rest.dropWhile (· ≠ '\n')) := by
  rw [passages.eq_def]
  rfl

theorem passages_quote : passages inWord ('\'' :: rest) = passagesInSingle rest := by
  rw [passages.eq_def]
  dsimp only
  rw [if_neg (by decide), if_neg (by simp), if_pos rfl]

theorem passages_quotes : passages inWord ('"' :: rest) = passagesInDouble rest := by
  rw [passages.eq_def]
  dsimp only
  rw [if_neg (by decide), if_neg (by simp), if_neg (by decide), if_pos rfl]

theorem passages_backslash_newline :
    passages inWord ('\\' :: '\n' :: rest) = passages inWord rest := by
  rw [passages.eq_def]
  dsimp only
  rw [if_neg (by decide), if_neg (by simp), if_neg (by decide), if_neg (by decide), if_pos rfl,
    decide_eq_false (by decide), Bool.or_false]

theorem passages_backslash (hc : c ≠ '\n') :
    passages inWord ('\\' :: c :: rest) = passages true rest := by
  rw [passages.eq_def]
  dsimp only
  rw [if_neg (by decide), if_neg (by simp), if_neg (by decide), if_neg (by decide), if_pos rfl,
    decide_eq_true hc, Bool.or_true]

/-- A form is one passage, with or without its end. -/
theorem passages_dollar : passages inWord ('$' :: rest)
    = .form false (Form.take rest).1 (Form.isClosed rest) :: passages true (Form.take rest).2 := by
  rw [passages.eq_def]
  dsimp only
  rw [if_neg (by decide), if_neg (by simp), if_neg (by decide), if_neg (by decide),
    if_neg (by decide), if_pos rfl]

/-- A plain character makes no passage, but may end the word. -/
theorem passages_plain {draft : Option Word.Draft} (hc : IsPlain draft c) :
    passages draft.isSome (c :: rest) = match Operator.read? draft.isSome (c :: rest) with
      | some (.ok (_, left)) => passages false left
      | some (.error _) => []
      | none => passages true rest := by
  obtain ⟨hblank, hcomment, hsingle, hdouble, hbackslash, hdollar⟩ := hc
  rw [passages.eq_def]
  dsimp only
  rw [if_neg hblank, if_neg (by simpa using hcomment), if_neg hsingle, if_neg hdouble,
    if_neg hbackslash, if_neg hdollar]
  split
  · next h => simp only [h]
  · next h => simp only [h]
  · next h => simp only [h]

theorem passagesInSingle_quote : passagesInSingle ('\'' :: rest) = passages true rest := by
  rw [passagesInSingle, if_pos rfl]

theorem passagesInSingle_cons (hc : c ≠ '\'') :
    passagesInSingle (c :: rest) = passagesInSingle rest := by
  rw [passagesInSingle, if_neg hc]

theorem passagesInDouble_quotes : passagesInDouble ('"' :: rest) = passages true rest := by
  rw [passagesInDouble, if_pos rfl]

theorem passagesInDouble_backslash :
    passagesInDouble ('\\' :: c :: rest) = passagesInDouble rest := by
  rw [passagesInDouble, if_neg (by decide), if_pos rfl, List.drop_one, List.tail_cons]

/-- Double quotes have forms in them. -/
theorem passagesInDouble_dollar : passagesInDouble ('$' :: rest)
    = .form true (Form.take rest).1 (Form.isClosed rest)
      :: passagesInDouble (Form.take rest).2 := by
  rw [passagesInDouble, if_neg (by decide), if_neg (by decide), if_pos rfl]

theorem passagesInDouble_cons (hquote : c ≠ '"') (hbackslash : c ≠ '\\') (hdollar : c ≠ '$') :
    passagesInDouble (c :: rest) = passagesInDouble rest := by
  rw [passagesInDouble, if_neg hquote, if_neg hbackslash, if_neg hdollar]

end Steps

/-! ## A script as the search sees it -/

open Form (walk)

/-- The passages are closed and do not mislead the search. -/
def Clear (ps : List Passage) : Prop :=
  ∀ p ∈ ps, p.isClosed ∧ p.IsHarmless

/-- The region of the search where the reader stands. -/
def Mode.region : Mode → Form.Region
  | .bare _ | .comment => .bare
  | .single _ => .single
  | .double _ => .double

/-- What the reader passes over from here on is clear. A comment is passed over as one whole, so no
place in it counts. -/
def Mode.IsClear : Mode → List Char → Prop
  | .bare draft, s => Clear (passages draft.isSome s)
  | .comment, _ => False
  | .single _, s => Clear (passagesInSingle s)
  | .double _, s => Clear (passagesInDouble s)

/-- The reader comes to the end of the text, and the groups that are open change from `depth` to
`depth'`. -/
structure Mode.Reads (mode : Mode) (s : List Char) (depth depth' : Nat) : Prop where
  scan_eq : ∃ ts, mode.scan s = .ok ts ∧ openAfter depth ts = some depth'
  clear : mode.IsClear s
  /-- No backslash at the end could take something after the text with it. -/
  last_ne : s.getLast? ≠ some '\\'

/-- The search goes with the reader over the front of the text. -/
def Mode.Passes (mode : Mode) (s : List Char) (depth depth' : Nat) : Prop :=
  ∃ (front : List Char) (next : Mode) (rest : List Char) (depth₁ : Nat),
    s = front ++ rest ∧ front ≠ [] ∧ walk mode.region depth front = some (next.region, depth₁)
      ∧ next.Reads rest depth₁ depth'

variable {mode next : Mode} {rest s : List Char} {draft : Option Word.Draft}
variable {ts : List Token} {depth depth' : Nat}

/-- What a text does not end in none of its ends does. -/
theorem last_ne_of_append (front : List Char) (h : (front ++ s).getLast? ≠ some '\\') :
    s.getLast? ≠ some '\\' := by
  intro hs
  rw [List.getLast?_append, hs] at h
  exact h rfl

/-- A step without a token. -/
theorem Mode.Reads.passes (front : List Char) (next : Mode)
    (h : mode.Reads (front ++ rest) depth depth') (hne : front ≠ [])
    (hscan : mode.scan (front ++ rest) = next.scan rest)
    (hclear : mode.IsClear (front ++ rest) → next.IsClear rest)
    (hwalk : walk mode.region depth front = some (next.region, depth)) :
    mode.Passes (front ++ rest) depth depth' := by
  refine ⟨front, next, rest, depth, rfl, hne, hwalk, ?_, hclear h.clear,
    last_ne_of_append front h.last_ne⟩
  rw [← hscan]
  exact h.scan_eq

/-- A comment is read as nothing. -/
theorem scanComment_eq (s : List Char) :
    scanComment s = scanBare none (s.dropWhile (· ≠ '\n')) := by
  induction s with
  | nil =>
    rw [scanComment, List.dropWhile_nil, scanBare_nil]
    rfl
  | cons c rest ih =>
    by_cases hc : c = '\n'
    · subst hc
      rw [scanComment, if_pos rfl, List.dropWhile_cons_of_neg (by simp),
        scanBare_plain (isPlain_newline none), return_eq_map]
      rfl
    · rw [scanComment, if_neg hc, List.dropWhile_cons_of_pos (by simpa using hc), ih]

/-- The search counts the parentheses among operators, and passes over all other operators. -/
theorem walk_of_read? {inWord : Bool} {o : Operator}
    (h : Operator.read? inWord s = some (.ok (o, rest)))
    (hopen : openAfter depth (.operator o :: ts) = some depth') :
    ∃ front depth₁, s = front ++ rest ∧ front ≠ [] ∧ walk .bare depth front = some (.bare, depth₁)
      ∧ openAfter depth₁ ts = some depth' := by
  unfold Operator.read? at h
  split at h
  all_goals try split at h
  all_goals try split at h
  all_goals simp only [Option.some.injEq, Except.ok.injEq, Prod.mk.injEq, reduceCtorEq] at h
  all_goals obtain ⟨rfl, rfl⟩ := h
  case h_3 => exact ⟨['('], depth + 1, rfl, List.cons_ne_nil _ _, rfl, hopen⟩
  case h_4 =>
    cases depth with
    | zero => cases hopen
    | succ depth => exact ⟨[')'], depth, rfl, List.cons_ne_nil _ _, rfl, hopen⟩
  all_goals first
    | exact ⟨[_], depth, rfl, List.cons_ne_nil _ _, rfl, hopen⟩
    | exact ⟨[_, _], depth, rfl, List.cons_ne_nil _ _, rfl, hopen⟩
    | exact ⟨[_, _, _], depth, rfl, List.cons_ne_nil _ _, rfl, hopen⟩
    | exact ⟨[_, _, _, _], depth, rfl, List.cons_ne_nil _ _, rfl, hopen⟩

/-- In single quotes each character is passed as it is. -/
theorem Mode.Reads.passes_single {parts : Word.Draft} {c : Char}
    (h : (Mode.single parts).Reads (c :: rest) depth depth') :
    (Mode.single parts).Passes (c :: rest) depth depth' := by
  by_cases hc : c = '\''
  · subst hc
    exact h.passes ['\''] (.bare (some parts)) (List.cons_ne_nil _ _)
      scanSingle_quote (congrArg Clear passagesInSingle_quote).mp rfl
  · refine h.passes [c] (.single (parts.push .single c)) (List.cons_ne_nil _ _)
      (scanSingle_cons hc) (congrArg Clear (passagesInSingle_cons hc)).mp ?_
    simp [walk, Mode.region, Form.Region.step, hc]

/-- A balanced form is passed as a whole. -/
theorem Mode.Reads.passes_form (next : Mode) (h : mode.Reads ('$' :: rest) depth depth')
    (hbalanced : Form.IsBalanced mode.region (Form.take rest).1)
    (hdollar : walk mode.region depth ['$'] = some (mode.region, depth))
    (hscan : mode.scan ('$' :: rest) = next.scan (Form.take rest).2)
    (hclear : next.IsClear (Form.take rest).2) (hregion : next.region = mode.region) :
    mode.Passes ('$' :: rest) depth depth' := by
  have hrest : '$' :: rest = ('$' :: (Form.take rest).1) ++ (Form.take rest).2 := by
    rw [List.cons_append, Form.take_append]
  have hwalk : walk mode.region depth ('$' :: (Form.take rest).1) = some (next.region, depth) := by
    rw [hregion]
    exact (Form.walk_append_of_walk hdollar _).trans (hbalanced.walk_eq depth)
  rw [hrest] at h hscan ⊢
  exact h.passes _ next (List.cons_ne_nil _ _) hscan (fun _ => hclear) hwalk

/-- In double quotes the scanner and the walk pass the same characters, a form at once. -/
theorem Mode.Reads.passes_double {parts : Word.Draft} {c : Char}
    (h : (Mode.double parts).Reads (c :: rest) depth depth') :
    (Mode.double parts).Passes (c :: rest) depth depth' := by
  by_cases hquote : c = '"'
  · subst hquote
    exact h.passes ['"'] (.bare (some parts)) (List.cons_ne_nil _ _)
      scanDouble_quotes (congrArg Clear passagesInDouble_quotes).mp rfl
  by_cases hbackslash : c = '\\'
  · subst hbackslash
    cases rest with
    | nil => exact absurd rfl h.last_ne
    | cons d rest =>
      have hwalk : walk .double depth ['\\', d] = some (.double, depth) := rfl
      obtain ⟨parts', hscan⟩ : ∃ parts', scanDouble parts ('\\' :: d :: rest)
          = scanDouble parts' rest := by
        -- a character that the backslash does not escape is a plain one, and is read next
        rw [scanDouble_backslash, escapeInDouble]
        split
        · exact ⟨_, rfl⟩
        · split
          · exact ⟨_, rfl⟩
          · next hquoted hdollar =>
            rw [not_or] at hquoted
            exact ⟨_, scanDouble_cons hquoted.1 hquoted.2 hdollar⟩
      exact h.passes ['\\', d] (.double parts') (List.cons_ne_nil _ _) hscan
        (congrArg Clear passagesInDouble_backslash).mp hwalk
  by_cases hdollar : c = '$'
  · subst hdollar
    have hclear := (congrArg Clear passagesInDouble_dollar).mp h.clear
    obtain ⟨⟨-, hharmless⟩, hrest⟩ := List.forall_mem_cons.1 hclear
    exact h.passes_form (.double _) hharmless rfl scanDouble_dollar hrest rfl
  · refine h.passes [c] (.double (parts.push .double c)) (List.cons_ne_nil _ _)
      (scanDouble_cons hquote hbackslash hdollar)
      (congrArg Clear (passagesInDouble_cons hquote hbackslash hdollar)).mp ?_
    simp [walk, Mode.region, Form.Region.step, hquote, hbackslash]

/-- They pass an operator at once too, and count its parenthesis. -/
theorem Mode.Reads.passes_plain {c : Char} (hc : IsPlain draft c)
    (h : (Mode.bare draft).Reads (c :: rest) depth depth') :
    (Mode.bare draft).Passes (c :: rest) depth depth' := by
  obtain ⟨ts, hscan, hopen⟩ := h.scan_eq
  have hscan : scanBare draft (c :: rest) = .ok ts := hscan
  have hclear : Clear (passages draft.isSome (c :: rest)) := h.clear
  rw [scanBare_plain hc] at hscan
  rw [passages_plain hc] at hclear
  rcases hread : Operator.read? draft.isSome (c :: rest) with _ | ⟨e | ⟨o, left⟩⟩
  -- no operator begins here, so the character is none that the search would look at
  · rw [hread] at hscan hclear
    have hopening : c ≠ '(' := by
      rintro rfl
      cases hread
    have hclosing : c ≠ ')' := by
      rintro rfl
      cases hread
    have hwalk : walk .bare depth [c] = some (.bare, depth) := by
      obtain ⟨-, -, hsingle, hdouble, hbackslash, -⟩ := hc
      simp [walk, Form.Region.step, hopening, hclosing, hsingle, hdouble, hbackslash]
    exact ⟨[c], .bare (some ((draft.getD []).push .none c)), rest, depth, rfl,
      List.cons_ne_nil _ _, hwalk, ⟨ts, hscan, hopen⟩, hclear,
      last_ne_of_append [c] h.last_ne⟩
  · rw [hread] at hscan
    cases hscan
  · rw [hread] at hscan hclear
    obtain ⟨ts', hscan', rfl⟩ := exists_of_map_eq_ok hscan
    rw [openAfter_finish] at hopen
    obtain ⟨front, depth₁, hs, hne, hwalk, hopen⟩ := walk_of_read? hread hopen
    have hlast := h.last_ne
    rw [hs] at hlast
    exact ⟨front, .bare none, left, depth₁, hs, hne, hwalk, ⟨ts', hscan', hopen⟩, hclear,
      last_ne_of_append front hlast⟩

/-- Outside of quotes they pass blanks, comments, quotes, escapes and forms alike. -/
theorem Mode.Reads.passes_bare {c : Char} (h : (Mode.bare draft).Reads (c :: rest) depth depth') :
    (Mode.bare draft).Passes (c :: rest) depth depth' := by
  by_cases hblank : c = ' ' ∨ c = '\t' ∨ c = '\r'
  · obtain ⟨ts, hscan, hopen⟩ := h.scan_eq
    obtain ⟨ts', hscan', rfl⟩ := exists_of_map_eq_ok ((scanBare_blank hblank).symm.trans hscan)
    rw [openAfter_finish] at hopen
    have hwalk : walk .bare depth [c] = some (.bare, depth) := by
      obtain rfl | rfl | rfl := hblank <;> rfl
    exact ⟨[c], .bare none, rest, depth, rfl, List.cons_ne_nil _ _, hwalk, ⟨ts', hscan', hopen⟩,
      (congrArg Clear (passages_blank hblank)).mp h.clear,
      last_ne_of_append [c] h.last_ne⟩
  by_cases hcomment : c = '#' ∧ draft.isNone = true
  -- the whole comment is one step, for the search may be in quotes in the middle of it
  · obtain ⟨rfl, hnone⟩ := hcomment
    obtain rfl := Option.isNone_iff_eq_none.1 hnone
    have hclear := (congrArg Clear passages_number_sign).mp h.clear
    obtain ⟨⟨-, hharmless⟩, hleft⟩ := List.forall_mem_cons.1 hclear
    have hrest : '#' :: rest
        = ('#' :: rest.takeWhile (· ≠ '\n')) ++ rest.dropWhile (· ≠ '\n') := by
      rw [List.cons_append, List.takeWhile_append_dropWhile]
    have hwalk : walk .bare depth ('#' :: rest.takeWhile (· ≠ '\n')) = some (.bare, depth) :=
      Form.IsBalanced.walk_eq hharmless depth
    have hscan : scanBare none ('#' :: rest) = scanBare none (rest.dropWhile (· ≠ '\n')) :=
      scanBare_number_sign.trans (scanComment_eq rest)
    rw [hrest] at h hscan ⊢
    exact h.passes _ (.bare none) (List.cons_ne_nil _ _) hscan (fun _ => hleft) hwalk
  by_cases hsingle : c = '\''
  · subst hsingle
    exact h.passes ['\''] (.single _) (List.cons_ne_nil _ _) scanBare_quote
      (congrArg Clear passages_quote).mp rfl
  by_cases hdouble : c = '"'
  · subst hdouble
    exact h.passes ['"'] (.double _) (List.cons_ne_nil _ _) scanBare_quotes
      (congrArg Clear passages_quotes).mp rfl
  by_cases hbackslash : c = '\\'
  · subst hbackslash
    cases rest with
    | nil => exact absurd rfl h.last_ne
    | cons d rest =>
      have hwalk : walk .bare depth ['\\', d] = some (.bare, depth) := rfl
      by_cases hd : d = '\n'
      · subst hd
        exact h.passes ['\\', '\n'] (.bare draft) (List.cons_ne_nil _ _)
          scanBare_backslash_newline (congrArg Clear passages_backslash_newline).mp hwalk
      · exact h.passes ['\\', d] (.bare (some _)) (List.cons_ne_nil _ _)
          (scanBare_backslash hd) (congrArg Clear (passages_backslash hd)).mp hwalk
  by_cases hdollar : c = '$'
  · subst hdollar
    have hclear := (congrArg Clear passages_dollar).mp h.clear
    obtain ⟨⟨hclosed, hharmless⟩, hrest⟩ := List.forall_mem_cons.1 hclear
    -- outside quotes a form in parentheses is balanced because it is closed
    have hbalanced : Form.IsBalanced .bare (Form.take rest).1 :=
      hharmless.elim (Form.isBalanced_take hclosed) id
    exact h.passes_form (.bare (some _)) hbalanced rfl scanBare_dollar hrest rfl
  · exact h.passes_plain ⟨hblank, hcomment, hsingle, hdouble, hbackslash, hdollar⟩

/-- The search goes with the reader to the end of the text, by induction on the steps of the
reader. -/
theorem Mode.Reads.walk_eq {mode : Mode} {s : List Char} {depth : Nat}
    (h : mode.Reads s depth depth') : walk mode.region depth s = some (.bare, depth') := by
  cases s with
  | nil =>
    obtain ⟨ts, hscan, hopen⟩ := h.scan_eq
    cases mode with
    | bare draft =>
      cases scanBare_nil.symm.trans hscan
      rw [openAfter_finish] at hopen
      exact congrArg (Option.map (Form.Region.bare, ·)) hopen
    | comment => exact h.clear.elim
    | single parts => cases (scanSingle.eq_1 parts).symm.trans hscan
    | double parts => cases (scanDouble.eq_1 parts).symm.trans hscan
  | cons c rest =>
    have hpasses : mode.Passes (c :: rest) depth depth' := by
      cases mode with
      | bare draft => exact h.passes_bare
      | comment => exact h.clear.elim
      | single parts => exact h.passes_single
      | double parts => exact h.passes_double
    -- the invariant is `Reads`: what is left of the text is read, clear, and ends in no backslash
    obtain ⟨front, next, left, depth₁, hs, hne, hwalk, hnext⟩ := hpasses
    have hlt : left.length < (c :: rest).length := by
      have hfront := List.length_pos_iff.2 hne
      rw [hs, List.length_append]
      omega
    rw [hs, Form.walk_append_of_walk hwalk]
    exact hnext.walk_eq
termination_by s.length

end Token

namespace Script

/-- The passages of a script that the reader of tokens takes as one whole. -/
def passages (script : String) : List Passage :=
  Token.passages false script.toList

/-- A script that can be read, whose forms are closed and whose passages do not mislead the search,
is balanced. -/
theorem isBalanced_of_parse {text : String} {script : Script} (hparse : parse text = .ok script)
    (hlast : text.toList.getLast? ≠ some '\\') (hclosed : ∀ p ∈ passages text, p.isClosed)
    (hharmless : ∀ p ∈ passages text, p.IsHarmless) : Form.IsBalanced .bare text.toList := by
  rw [parse] at hparse
  cases hscan : Token.scan text with
  | error e => rw [hscan] at hparse; cases hparse
  | ok ts =>
    rw [hscan] at hparse
    have hlevel : Token.openAfter 0 (ts ++ []) = some 0 :=
      (ofTokens_eq_ok_iff.1 hparse).isLevel 0 []
    rw [List.append_nil] at hlevel
    have hreads : (Token.Mode.bare none).Reads text.toList 0 0 :=
      ⟨⟨ts, hscan, hlevel⟩, fun p hp => ⟨hclosed p hp, hharmless p hp⟩, hlast⟩
    exact hreads.walk_eq

end Script

end Sandshell
