import Mathlib.Data.List.Chain
import Sandshell.Proofs.Script.DoubleQuotes
import Sandshell.Proofs.Script.Openings

/-!
# Forms in words

The reader of tokens passes over a form where it stands in the script, and the expansion looks for
the form again where it stands in the word. Both find the same extent: a form is copied as a whole,
and what is copied behind it cannot change where it ends.
-/

namespace Sandshell

/-! ## What a text consists of -/

namespace Form

/-- A part of a text as the expansion comes to it. -/
inductive Span where
  /-- A character outside the forms. -/
  | outside (c : Char)
  /-- A form in parentheses or braces, without its dollar sign. -/
  | form (text : List Char) (closed : Bool)
deriving DecidableEq, Repr

/-- What stands at a dollar sign: a form, or the dollar sign alone. -/
def Span.ofDollar (rest : List Char) : Span :=
  if (take rest).1 = [] then .outside '$' else .form (take rest).1 (isClosed rest)

/-- The characters of a text outside its forms, and its forms, from left to right. -/
def spans (s : List Char) : List Span :=
  match s with
  | [] => []
  | c :: rest =>
    if c = '$' then .ofDollar rest :: spans (take rest).2 else .outside c :: spans rest
termination_by s.length
decreasing_by
  · exact length_take_snd_lt _ _
  · simp only [List.length_cons]; omega

variable {rest s t x : List Char} {c : Char}

theorem spans_nil : spans [] = [] := by
  rw [spans]

theorem spans_cons (hc : c ≠ '$') (rest : List Char) :
    spans (c :: rest) = .outside c :: spans rest := by
  rw [spans, if_neg hc]

/-- A dollar sign begins a span, with the form behind it. -/
theorem spans_dollar (rest : List Char) :
    spans ('$' :: rest) = .ofDollar rest :: spans (take rest).2 := by
  rw [spans, if_pos rfl]

theorem opensNone_of_ne (hparen : ∀ more, rest = '(' :: more → False)
    (hbrace : ∀ more, rest = '{' :: more → False) : OpensNone rest := by
  refine ⟨fun h => ?_, fun h => ?_⟩
  · obtain ⟨more, rfl⟩ := List.head?_eq_some_iff.1 h
    exact hparen more rfl
  · obtain ⟨more, rfl⟩ := List.head?_eq_some_iff.1 h
    exact hbrace more rfl

/-- Nothing is taken where nothing opens. -/
theorem take_fst_eq_nil_iff : (take rest).1 = [] ↔ OpensNone rest := by
  fun_cases take rest with
  | case1 => simp [OpensNone]
  | case2 => simp [OpensNone]
  | case3 => simp [OpensNone]
  | case4 => simp [OpensNone]
  | case5 rest hparen hbrace => exact iff_of_true rfl (opensNone_of_ne hparen hbrace)

/-! ## What may follow -/

/-- The text is read alike whatever follows it, as long as that opens no form or begins like `s`. -/
def Continues (t s : List Char) : Prop :=
  ∀ x, OpensNone x ∨ x.head? = s.head? → spans (t ++ x) = spans t ++ spans x

theorem continues_nil (s : List Char) : Continues [] s := by
  intro x _
  rw [spans_nil]
  rfl

/-- Then all of the text is left. -/
theorem take_of_opensNone (h : OpensNone x) : take x = ([], x) := by
  have hfst := take_fst_eq_nil_iff.2 h
  have htake := take_append x
  rw [hfst, List.nil_append] at htake
  exact Prod.ext hfst htake

/-- What opens nothing counts as closed. -/
theorem isClosed_of_opensNone (h : OpensNone x) : isClosed x := by
  fun_cases isClosed x with
  | case1 rest => exact absurd rfl h.1
  | case2 rest => exact absurd rfl h.2
  | case3 => rfl

/-- A braced form goes up to the first closing brace. -/
theorem brace_not_mem_of_splitAtBrace {inside after : List Char}
    (h : splitAtBrace s = some (inside, after)) : '}' ∉ inside := by
  induction s generalizing inside with
  | nil => cases h
  | cons c rest ih =>
    rw [splitAtBrace] at h
    split at h
    · cases h
      exact List.not_mem_nil
    · next hc =>
      obtain ⟨⟨i, a⟩, hrest, hcons⟩ := Option.map_eq_some_iff.1 h
      cases hcons
      rw [List.mem_cons, not_or]
      exact ⟨Ne.symm hc, ih hrest⟩

/-- A closed form is found again where it was copied to. -/
theorem take_take (hclosed : isClosed rest) (hx : OpensNone x ∨ x.head? = (take rest).2.head?) :
    take ((take rest).1 ++ x) = ((take rest).1, x) ∧ isClosed ((take rest).1 ++ x) := by
  fun_cases take rest with
  | case1 rest inside after hsplit =>
    have hbalanced := splitAtParen_eq_some_iff.1 (eq_of_splitAtParen hsplit ▸ hsplit)
    have hcons : '(' :: inside ++ [')'] ++ x = '(' :: inside ++ ')' :: x := by simp
    rw [hcons, take_of_isBalanced hbalanced]
    exact ⟨rfl, by rw [List.cons_append, isClosed, splitAtParen_eq_some_iff.2 hbalanced]; rfl⟩
  | case2 rest hsplit => simp [isClosed, hsplit] at hclosed
  | case3 rest inside after hsplit =>
    have hinside := splitAtBrace_append_cons (brace_not_mem_of_splitAtBrace hsplit) x
    have hcons : '{' :: inside ++ ['}'] ++ x = '{' :: (inside ++ '}' :: x) := by simp
    rw [hcons, take, hinside, isClosed, hinside]
    exact ⟨rfl, rfl⟩
  | case4 rest hsplit => simp [isClosed, hsplit] at hclosed
  | case5 rest hparen hbrace =>
    have hrest := opensNone_of_ne hparen hbrace
    have hnone : OpensNone x := hx.elim id fun h => by
      rw [take_of_opensNone hrest] at h
      rwa [OpensNone, h]
    exact ⟨take_of_opensNone hnone, isClosed_of_opensNone hnone⟩

/-- A character that is copied is read as itself, and nothing behind it depends on it. -/
theorem Continues.push (h : Continues t s) (hc : c ≠ '$')
    (hhead : OpensNone [c] ∨ s.head? = some c) :
    spans (t ++ [c]) = spans t ++ [.outside c] ∧ ∀ s', Continues (t ++ [c]) s' := by
  have hpush : ∀ x, spans (t ++ [c] ++ x) = spans t ++ .outside c :: spans x := by
    intro x
    rw [List.append_assoc, List.singleton_append, h (c :: x) (hhead.imp id Eq.symm), spans_cons hc]
  have hself : spans (t ++ [c]) = spans t ++ [.outside c] := by
    rw [← List.append_nil (t ++ [c]), hpush, spans_nil]
  refine ⟨hself, fun s' x _ => ?_⟩
  rw [hpush, hself, List.append_assoc, List.singleton_append]

/-- A form that is never closed is the rest of the text. -/
theorem take_of_not_isClosed (h : ¬ isClosed rest) :
    take rest = (rest, []) ∧ Span.ofDollar rest = .form rest false := by
  have htake : take rest = (rest, []) ∧ rest ≠ [] := by
    fun_cases take rest with
    | case1 rest inside after hsplit => simp [isClosed, hsplit] at h
    | case2 rest hsplit => exact ⟨rfl, List.cons_ne_nil _ _⟩
    | case3 rest inside after hsplit => simp [isClosed, hsplit] at h
    | case4 rest hsplit => exact ⟨rfl, List.cons_ne_nil _ _⟩
    | case5 rest hparen hbrace =>
      rw [isClosed] at h
      · exact absurd rfl h
      · exact hparen
      · exact hbrace
  refine ⟨htake.1, ?_⟩
  rw [Span.ofDollar, htake.1, if_neg htake.2, Bool.eq_false_iff.2 h]

/-- A form that is copied is read as itself. -/
theorem Continues.spans_form (h : Continues t ('$' :: rest)) :
    spans (t ++ '$' :: (take rest).1) = spans t ++ [.ofDollar rest] := by
  have hnil : OpensNone [] := ⟨by simp, by simp⟩
  rw [h ('$' :: (take rest).1) (.inr rfl), spans_dollar]
  by_cases hclosed : isClosed rest
  · obtain ⟨htake, hagain⟩ := take_take hclosed (.inl hnil)
    rw [List.append_nil] at htake hagain
    rw [Span.ofDollar, htake, hagain, Span.ofDollar, hclosed, spans_nil]
  · rw [(take_of_not_isClosed hclosed).1, (take_of_not_isClosed hclosed).1, spans_nil]

/-- Where a closed form ends does not depend on what comes behind it. -/
theorem Continues.form (h : Continues t ('$' :: rest)) (hclosed : isClosed rest) :
    Continues (t ++ '$' :: (take rest).1) (take rest).2 := by
  intro x hx
  obtain ⟨htake, hagain⟩ := take_take hclosed hx
  rw [h.spans_form, List.append_assoc, List.cons_append, h ('$' :: ((take rest).1 ++ x)) (.inr rfl),
    spans_dollar, Span.ofDollar, htake, hagain, Span.ofDollar, hclosed, List.append_assoc,
    List.singleton_append]

end Form

/-! ## Parts of words -/

open Form (Span spans Continues)

/-- Ends a word, or begins a quotation. -/
def IsSyntax (c : Char) : Prop :=
  c ∈ [' ', '\t', '\r', '\n', '\'', '"', ';', '&', '|', '<', '>', '(', ')']

instance (c : Char) : Decidable (IsSyntax c) :=
  inferInstanceAs (Decidable (_ ∈ _))

/-- The part of a text is closed if it is a form. -/
def Form.Span.IsClosed : Span → Prop
  | .outside _ => True
  | .form _ closed => closed = true

/-- A closed form, or a character that means nothing to the reader of tokens. -/
def Form.Span.IsPlain : Span → Prop
  | .outside c => ¬ IsSyntax c ∧ c ≠ '\\'
  | .form _ closed => closed = true

/-- The form as a passage of a script. -/
def Form.Span.passage? (quoted : Bool) : Span → Option Passage
  | .outside _ => none
  | .form text closed => some (.form quoted text closed)

/-- What a part of a word in this quoting may consist of. -/
def Quote.Allows : Quote → Span → Prop
  | .none, x => x.IsPlain
  | .single, _ => True
  | .double, x => x.IsClosed

/-- The part of a word holds no unclosed form, and is not empty if it is not quoted. -/
structure WordPart.IsRegular (p : WordPart) : Prop where
  ne_empty : p.quote = .none → p.text ≠ ""
  allowed : ∀ x ∈ spans p.text.toList, p.quote.Allows x

/-- At most one of the parts is not quoted. -/
def WordPart.Apart (p q : WordPart) : Prop :=
  ¬(p.quote = .none ∧ q.quote = .none)

/-- The forms that the expansion comes to in a part of a word. -/
def WordPart.forms (p : WordPart) : List Passage :=
  if p.quote = .single then []
  else (spans p.text.toList).filterMap (Span.passage? (p.quote = .double))

/-- The forms that the expansion comes to in a word. -/
def Word.forms (w : Word) : List Passage :=
  w.parts.flatMap WordPart.forms

def Token.forms : Token → List Passage
  | .operator _ => []
  | .word w => w.forms

/-- The words of a token have regular parts, and no two of them that are not quoted are
neighbours. -/
def Token.IsRegular : Token → Prop
  | .operator _ => True
  | .word w => (∀ p ∈ w.parts, p.IsRegular) ∧ w.parts.IsChain WordPart.Apart

/-- The passage is a form in parentheses or braces. -/
def Passage.isForm : Passage → Bool
  | .comment _ => false
  | .form _ text _ => text ≠ []

/-- A span shows as a passage exactly if it is a form. -/
theorem Form.Span.filterMap_ofDollar (quoted : Bool) (rest : List Char) :
    [Span.ofDollar rest].filterMap (Span.passage? quoted)
      = [Passage.form quoted (Form.take rest).1 (Form.isClosed rest)].filter Passage.isForm := by
  by_cases hnone : (Form.take rest).1 = []
  · simp [Span.ofDollar, Span.passage?, Passage.isForm, hnone]
  · simp [Span.ofDollar, Span.passage?, Passage.isForm, hnone]

namespace Word.Draft

variable {draft older : Draft} {quote : Quote} {t s : List Char} {c : Char} {cs : List Char}

/-- The forms that the expansion will come to in what has been read of a word. -/
def forms (draft : Draft) : List Passage :=
  draft.reverse.flatMap WordPart.forms

/-- What has been read of a word is regular. -/
structure Sound (draft : Draft) : Prop where
  regular : ∀ p ∈ draft, p.IsRegular
  apart : draft.IsChain WordPart.Apart

/-- The newest part can go on in this quoting with a text that begins like `s`. -/
def Settled (draft : Draft) (quote : Quote) (s : List Char) : Prop :=
  ∀ text older, draft = ⟨quote, text⟩ :: older → Continues text.toList s

/-- The text that goes on in a quoting, which is empty where a part begins, and the parts before. -/
structure GoesOn (draft : Draft) (quote : Quote) (t : List Char) (older : Draft) : Prop where
  pushAll : ∀ c cs,
    (draft.push quote c).pushAll quote cs = ⟨quote, String.ofList (t ++ c :: cs)⟩ :: older
  forms : draft.forms = older.forms ++ WordPart.forms ⟨quote, String.ofList t⟩
  allowed : ∀ x ∈ spans t, quote.Allows x
  sound : older.Sound
  apart : ∀ p ∈ older.head?, quote = .none → p.quote ≠ .none

theorem forms_cons (p : WordPart) (older : Draft) :
    forms (p :: older) = older.forms ++ p.forms := by
  simp [forms]

/-- A sound word goes on in a part of its own, or in the one it is in. -/
theorem Sound.goesOn (h : draft.Sound) (quote : Quote) :
    ∃ t older, draft.GoesOn quote t older ∧ ∀ s, draft.Settled quote s → Continues t s := by
  by_cases hnewest : ∃ text older, draft = ⟨quote, text⟩ :: older
  · obtain ⟨text, older, rfl⟩ := hnewest
    obtain ⟨hapart, hchain⟩ := List.isChain_cons.1 h.apart
    refine ⟨text.toList, older, ⟨fun c cs => ?_, ?_, ?_, ⟨?_, hchain⟩, ?_⟩,
      fun s hs => hs text older rfl⟩
    · rw [String.ofList_append, String.ofList_toList]
      exact pushAll_newest quote text older (c :: cs)
    · rw [forms_cons, String.ofList_toList]
    · exact (h.regular _ List.mem_cons_self).allowed
    · exact fun p hp => h.regular p (List.mem_cons_of_mem _ hp)
    · exact fun p hp hnone hquote => hapart p hp ⟨hnone, hquote⟩
  · refine ⟨[], draft, ⟨fun c cs => ?_, ?_, ?_, h, ?_⟩,
      fun s _ => Form.continues_nil s⟩
    · obtain ⟨text, older, hdraft, -⟩ | ⟨-, hpush⟩ := draft.pushAll_push quote c cs
      · exact absurd ⟨text, older, hdraft⟩ hnewest
      · exact hpush
    · simp [WordPart.forms, Form.spans_nil]
    · rw [Form.spans_nil]
      exact List.forall_mem_nil _
    · intro p hp hnone hquote
      obtain ⟨older, rfl⟩ := List.head?_eq_some_iff.1 hp
      exact hnewest ⟨p.text, older, by rw [hnone, ← hquote]⟩

/-- Parts that are allowed may be copied to the end of the newest part. -/
theorem GoesOn.sound_cons (h : draft.GoesOn quote t older) {new : List Span}
    (hspans : spans (t ++ c :: cs) = spans t ++ new) (hnew : ∀ x ∈ new, quote.Allows x) :
    Sound (⟨quote, String.ofList (t ++ c :: cs)⟩ :: older) where
  regular := by
    refine List.forall_mem_cons.2 ⟨⟨fun _ => by simp, fun x hx => ?_⟩, h.sound.regular⟩
    rw [String.toList_ofList, hspans, List.mem_append] at hx
    exact hx.elim (h.allowed x) (hnew x)
  apart := List.isChain_cons.2
    ⟨fun p hp hnone => h.apart p hp hnone.1 hnone.2, h.sound.apart⟩

/-- What a part is made to go on by adds its forms to those of the word. -/
theorem GoesOn.forms_eq (h : draft.GoesOn quote t older) {new : List Span}
    (hquote : quote ≠ .single) (hspans : spans (t ++ c :: cs) = spans t ++ new) :
    Draft.forms (⟨quote, String.ofList (t ++ c :: cs)⟩ :: older)
      = draft.forms ++ new.filterMap (Span.passage? (quote = .double)) := by
  rw [forms_cons, h.forms, WordPart.forms, WordPart.forms, if_neg hquote, if_neg hquote,
    String.toList_ofList, String.toList_ofList, hspans, List.filterMap_append, List.append_assoc]

/-- What is taken as it stands has no forms. -/
theorem Sound.push_single (h : draft.Sound) (c : Char) : (draft.push .single c).Sound
    ∧ (draft.push .single c).forms = draft.forms
    ∧ ∃ text older, draft.push .single c = ⟨.single, text⟩ :: older := by
  obtain ⟨t, older, hgoes, -⟩ := h.goesOn .single
  have hpush : draft.push .single c = ⟨.single, String.ofList (t ++ [c])⟩ :: older :=
    hgoes.pushAll c []
  rw [hpush]
  refine ⟨⟨?_, ?_⟩, ?_, _, _, rfl⟩
  · exact List.forall_mem_cons.2
      ⟨⟨fun hnone => Quote.noConfusion hnone, fun _ _ => trivial⟩, hgoes.sound.regular⟩
  · exact List.isChain_cons.2
      ⟨fun p _ hnone => Quote.noConfusion hnone.1, hgoes.sound.apart⟩
  · rw [forms_cons, hgoes.forms]
    rfl

/-- A quotation begins as an empty part. -/
theorem Sound.openPart (h : draft.Sound) {quote : Quote} (hquote : quote ≠ .none) :
    (draft.openPart quote).Sound ∧ (draft.openPart quote).forms = draft.forms := by
  refine ⟨⟨?_, ?_⟩, ?_⟩
  · refine List.forall_mem_cons.2 ⟨⟨fun hnone => absurd hnone hquote, ?_⟩, h.regular⟩
    rw [String.toList_empty, Form.spans_nil]
    exact List.forall_mem_nil _
  · exact List.isChain_cons.2 ⟨fun p _ hnone => hquote hnone.1, h.apart⟩
  · rw [Draft.openPart, forms_cons]
    simp [WordPart.forms, Form.spans_nil]

/-- A character that is read as itself. -/
theorem Sound.push (h : draft.Sound) (hs : draft.Settled quote s) (hquote : quote ≠ .single)
    (hc : c ≠ '$') (hhead : Form.OpensNone [c] ∨ s.head? = some c)
    (hallows : quote.Allows (.outside c)) : (draft.push quote c).Sound
    ∧ (draft.push quote c).forms = draft.forms
    ∧ ∃ text older, draft.push quote c = ⟨quote, text⟩ :: older
      ∧ ∀ s', Continues text.toList s' := by
  obtain ⟨t, older, hgoes, hcontinues⟩ := h.goesOn quote
  obtain ⟨hspans, hnext⟩ := (hcontinues s hs).push hc hhead
  have hpush : draft.push quote c = ⟨quote, String.ofList (t ++ [c])⟩ :: older :=
    hgoes.pushAll c []
  rw [hpush]
  refine ⟨hgoes.sound_cons hspans (by simpa using hallows), ?_, _, _, rfl, ?_⟩
  · rw [hgoes.forms_eq hquote hspans]
    exact List.append_nil _
  · rwa [String.toList_ofList]

/-- A form that is copied as a whole. Unless it is closed, nothing comes behind it. -/
theorem Sound.pushForm {rest : List Char} (h : draft.Sound) (hs : draft.Settled quote ('$' :: rest))
    (hquote : quote ≠ .single) : ∃ t older, draft.GoesOn quote t older
      ∧ (draft.push quote '$').pushAll quote (Form.take rest).1
        = ⟨quote, String.ofList (t ++ '$' :: (Form.take rest).1)⟩ :: older
      ∧ spans (t ++ '$' :: (Form.take rest).1) = spans t ++ [.ofDollar rest]
      ∧ Draft.forms (⟨quote, String.ofList (t ++ '$' :: (Form.take rest).1)⟩ :: older)
        = draft.forms ++ [Passage.form (quote = .double) (Form.take rest).1
          (Form.isClosed rest)].filter Passage.isForm
      ∧ (Form.isClosed rest →
        Sound (⟨quote, String.ofList (t ++ '$' :: (Form.take rest).1)⟩ :: older)
          ∧ Continues (t ++ '$' :: (Form.take rest).1) (Form.take rest).2) := by
  obtain ⟨t, older, hgoes, hcontinues⟩ := h.goesOn quote
  have hnext := hcontinues _ hs
  refine ⟨t, older, hgoes, hgoes.pushAll '$' _, hnext.spans_form, ?_, fun hclosed => ?_⟩
  · rw [hgoes.forms_eq hquote hnext.spans_form, Span.filterMap_ofDollar]
  · refine ⟨hgoes.sound_cons hnext.spans_form ?_, hnext.form hclosed⟩
    intro x hx
    rw [List.mem_singleton.1 hx, Span.ofDollar, hclosed]
    cases quote with
    | none =>
      split
      · exact ⟨by decide, by decide⟩
      · rfl
    | single => trivial
    | double =>
      split
      · trivial
      · rfl

end Word.Draft

/-! ## Reading -/

namespace Token

open Word (Draft)

variable {mode next : Mode} {s rest : List Char} {out ts : List Token} {draft : Option Draft}

/-- All tokens are regular, but that the last part of the last word ends in `x`. -/
def EndsIn (ts : List Token) (x : Span) : Prop :=
  ∃ before parts p front, ts = before ++ [.word ⟨parts ++ [p]⟩] ∧ (∀ t ∈ before, t.IsRegular)
    ∧ (∀ q ∈ parts, q.IsRegular) ∧ (parts ++ [p]).IsChain WordPart.Apart ∧ p.quote = .none
    ∧ (∀ y ∈ front, y.IsPlain) ∧ spans p.text.toList = front ++ [x]

/-- The word that has begun. -/
def Mode.begun : Mode → Draft
  | .bare draft => draft.getD []
  | .comment => []
  | .single parts | .double parts => parts

/-- The forms in the text ahead. -/
def Mode.ahead (mode : Mode) (s : List Char) : List Passage :=
  (match mode with
    | .bare draft => passages draft.isSome s
    | .comment => passages false (s.dropWhile (· ≠ '\n'))
    | .single _ => passagesInSingle s
    | .double _ => passagesInDouble s).filter Passage.isForm

/-- What has been read of a word is regular, and can go on with the text ahead. -/
def Mode.Sound : Mode → List Char → Prop
  | .bare draft, s => (draft.getD []).Sound ∧ (draft.getD []).Settled .none s
  | .comment, _ => True
  | .single parts, _ => parts.Sound ∧ ∃ text older, parts = ⟨.single, text⟩ :: older
  | .double parts, s => parts.Sound
    ∧ ∃ text older, parts = ⟨.double, text⟩ :: older ∧ Continues text.toList s

theorem sound_nil : Draft.Sound [] :=
  ⟨List.forall_mem_nil _, .nil⟩

theorem settled_nil {quote : Quote} : Draft.Settled [] quote s := by
  intro text older h
  cases h

/-- A part with other quotes is settled. -/
theorem settled_of_ne {quote quote' : Quote} {text : String} {older : Draft}
    (h : quote' ≠ quote) : Draft.Settled (⟨quote', text⟩ :: older) quote s := by
  intro text' older' heq
  cases heq
  exact absurd rfl h

/-- A part with the same quotes is settled where its text can go on. -/
theorem settled_of_continues {quote : Quote} {parts : Draft}
    (h : ∃ text older, parts = ⟨quote, text⟩ :: older ∧ Continues text.toList s) :
    parts.Settled quote s := by
  obtain ⟨text, older, rfl, hcontinues⟩ := h
  intro text' older' heq
  cases heq
  exact hcontinues

/-- A sound word is a regular token. -/
theorem isRegular_word {parts : Draft} (h : parts.Sound) : IsRegular (.word parts.word) := by
  refine ⟨fun p hp => h.regular p (List.mem_reverse.1 hp), ?_⟩
  refine List.isChain_reverse.2 (h.apart.imp fun p q hapart hnone => hapart hnone.symm)

/-- A word that goes on by one span ends in it. -/
theorem endsIn_of_goesOn {parts older : Draft} {t cs : List Char} {c : Char} {x : Span}
    (h : parts.GoesOn .none t older) (hspans : spans (t ++ c :: cs) = spans t ++ [x]) :
    EndsIn [.word (Draft.word (⟨.none, String.ofList (t ++ c :: cs)⟩ :: older))] x := by
  have hchain : (⟨.none, String.ofList (t ++ c :: cs)⟩ :: older).IsChain WordPart.Apart :=
    List.isChain_cons.2 ⟨fun p hp hnone => h.apart p hp rfl hnone.2, h.sound.apart⟩
  refine ⟨[], older.reverse, ⟨.none, String.ofList (t ++ c :: cs)⟩, spans t, ?_,
    List.forall_mem_nil _, fun q hq => h.sound.regular q (List.mem_reverse.1 hq), ?_, rfl,
    h.allowed, ?_⟩
  · rw [Word.Draft.word, List.reverse_cons]
    rfl
  · rw [← List.reverse_cons, List.isChain_reverse]
    exact hchain.imp fun p q hapart hnone => hapart hnone.symm
  · rw [String.toList_ofList, hspans]

/-- A sound word is finished as a regular token. -/
theorem isRegular_of_mem_finish (h : (draft.getD []).Sound) {t : Token}
    (ht : t ∈ finish draft []) : t.IsRegular := by
  cases draft with
  | none => cases ht
  | some parts =>
    rw [List.mem_singleton.1 ht]
    exact isRegular_word h

/-- Its forms are those of the draft. -/
theorem forms_finish (draft : Option Draft) :
    (finish draft []).flatMap forms = (draft.getD []).forms := by
  cases draft with
  | none => rfl
  | some parts => exact List.append_nil _

/-- What has been read of a word ends in a form that is never closed. -/
def Mode.EndsUnclosed : Mode → Prop
  | .bare draft => ∃ parts f, draft = some parts ∧ EndsIn [.word parts.word] (.form f false)
  | .double _ => True
  | _ => False

/-- A move keeps what has been read regular, and neither loses nor adds a form. A form that is never
closed ends the text. -/
structure Mode.Steps (mode : Mode) (s : List Char) (out : List Token) (next : Mode)
    (rest : List Char) : Prop where
  regular : ∀ t ∈ out, t.IsRegular
  sound : next.Sound rest ∨ rest = [] ∧ next.EndsUnclosed
  forms_eq : out.flatMap forms ++ (next.begun.forms ++ next.ahead rest)
    = mode.begun.forms ++ mode.ahead s

/-- A move without a token and without a form. -/
theorem Mode.Steps.silently (hsound : next.Sound rest)
    (hbegun : next.begun.forms = mode.begun.forms) (hahead : next.ahead rest = mode.ahead s) :
    mode.Steps s [] next rest where
  regular := List.forall_mem_nil _
  sound := .inl hsound
  forms_eq := by rw [List.flatMap_nil, List.nil_append, hbegun, hahead]

/-- A plain character that starts no operator is no syntax. -/
theorem not_isSyntax_of_isPlain {c : Char} (hc : IsPlain draft c)
    (hread : Operator.read? draft.isSome (c :: rest) = none) : ¬ IsSyntax c := by
  obtain ⟨hblank, -, hsingle, hdouble, -, -⟩ := hc
  rw [not_or, not_or] at hblank
  have hoperator : c ∉ ['\n', ';', '(', ')', '<', '>', '|', '&'] := by
    intro hmem
    simp only [List.mem_cons, List.not_mem_nil, or_false] at hmem
    unfold Operator.read? at hread
    split at hread
    all_goals try contradiction
    all_goals simp_all
  simp only [List.mem_cons, List.not_mem_nil, or_false, not_or] at hoperator
  simp only [IsSyntax, List.mem_cons, List.not_mem_nil, or_false, not_or]
  tauto

/-- Operators make no passages, but end the word. -/
theorem passages_operator {o : Operator}
    (hread : Operator.read? draft.isSome s = some (.ok (o, rest))) :
    passages draft.isSome s = passages false rest := by
  cases s with
  | nil => cases hread
  | cons c more =>
    have hplain : IsPlain draft c := by
      refine ⟨?_, ?_, ?_, ?_, ?_, ?_⟩
      · rintro (rfl | rfl | rfl) <;> cases hread
      · rintro ⟨rfl, -⟩
        cases hread
      all_goals
        rintro rfl
        cases hread
    rw [passages_plain hplain, hread]

/-- Nor do characters that double quotes keep. -/
theorem passagesInDouble_plain {c : Char} (hquote : c ≠ '"') (hdollar : c ≠ '$')
    (hescape : c = '\\' → ∀ d ∈ rest.head?, d ≠ '"' ∧ d ≠ '\\' ∧ d ≠ '$') :
    passagesInDouble (c :: rest) = passagesInDouble rest := by
  by_cases hbackslash : c = '\\'
  · subst hbackslash
    cases rest with
    | nil =>
      rw [passagesInDouble.eq_def]
      rfl
    | cons d more =>
      obtain ⟨hd, hd', hd''⟩ := hescape rfl d rfl
      rw [passagesInDouble_backslash, passagesInDouble_cons hd hd' hd'']
  · exact passagesInDouble_cons hquote hbackslash hdollar

/-- A character that is kept adds neither a form nor a passage. -/
theorem Mode.steps_plain {c : Char} (hread : Operator.read? draft.isSome (c :: rest) = none)
    (hc : IsPlain draft c) (hs : (Mode.bare draft).Sound (c :: rest)) :
    (Mode.bare draft).Steps (c :: rest) [] (.bare (some ((draft.getD []).push .none c))) rest := by
  have hbackslash : c ≠ '\\' := hc.2.2.2.2.1
  have hdollar : c ≠ '$' := hc.2.2.2.2.2
  obtain ⟨hsound, hforms, text, older, hpush, hcontinues⟩ :=
    hs.1.push hs.2 (by decide) hdollar (.inr rfl) ⟨not_isSyntax_of_isPlain hc hread, hbackslash⟩
  refine .silently ⟨hsound, fun text' older' heq => ?_⟩ hforms ?_
  · rw [Option.getD_some, hpush] at heq
    cases heq
    exact hcontinues rest
  · rw [Mode.ahead, Mode.ahead, passages_plain hc, hread]
    rfl

/-- A form in a word is a passage of its own. -/
theorem Mode.steps_form (hs : (Mode.bare draft).Sound ('$' :: rest)) :
    (Mode.bare draft).Steps ('$' :: rest) []
      (.bare (some (((draft.getD []).push .none '$').pushAll .none (Form.take rest).1)))
      (Form.take rest).2 := by
  obtain ⟨t, older, hgoes, hpush, hspans, hforms, hsound⟩ := hs.1.pushForm hs.2 (by decide)
  rw [hpush]
  refine ⟨List.forall_mem_nil _, ?_, ?_⟩
  · by_cases hclosed : Form.isClosed rest
    · obtain ⟨hsound, hcontinues⟩ := hsound hclosed
      refine .inl ⟨hsound, fun text older' heq => ?_⟩
      cases heq
      rwa [String.toList_ofList]
    · obtain ⟨htake, hform⟩ := Form.take_of_not_isClosed hclosed
      rw [hform] at hspans
      exact .inr ⟨by rw [htake], _, rest, rfl, endsIn_of_goesOn hgoes hspans⟩
  · rw [List.flatMap_nil, List.nil_append, Mode.begun, Option.getD_some, hforms, Mode.ahead,
      Mode.ahead, passages_dollar, List.append_assoc, ← List.filter_append]
    rfl

/-- So it is in double quotes. -/
theorem Mode.steps_formInDouble {parts : Draft} (hs : (Mode.double parts).Sound ('$' :: rest)) :
    (Mode.double parts).Steps ('$' :: rest) []
      (.double ((parts.push .double '$').pushAll .double (Form.take rest).1))
      (Form.take rest).2 := by
  obtain ⟨t, older, hgoes, hpush, hspans, hforms, hsound⟩ :=
    hs.1.pushForm (settled_of_continues hs.2) (by decide)
  rw [hpush]
  refine ⟨List.forall_mem_nil _, ?_, ?_⟩
  · by_cases hclosed : Form.isClosed rest
    · obtain ⟨hsound, hcontinues⟩ := hsound hclosed
      exact .inl ⟨hsound, _, _, rfl, by rwa [String.toList_ofList]⟩
    · exact .inr ⟨by rw [(Form.take_of_not_isClosed hclosed).1], trivial⟩
  · rw [List.flatMap_nil, List.nil_append, Mode.begun, hforms, Mode.ahead,
      Mode.ahead, passagesInDouble_dollar, List.append_assoc, ← List.filter_append]
    rfl

/-- With each move of the scanner come the passages of what it has read. -/
theorem Mode.Moves.steps (h : mode.Moves s out next rest) (hs : mode.Sound s)
    (hno : ¬ ['\\', '\n'] <:+: s) : mode.Steps s out next rest := by
  cases h with
  | @blank draft c rest hc =>
    refine ⟨fun t ht => isRegular_of_mem_finish hs.1 ht, .inl ⟨sound_nil, settled_nil⟩, ?_⟩
    rw [forms_finish, Mode.ahead, Mode.ahead, passages_blank hc]
    rfl
  -- in these modes no part of a word is open
  | comment =>
    refine .silently trivial rfl ?_
    rw [Mode.ahead, Mode.ahead, Option.isSome_none, passages_number_sign]
    rfl
  | @quote draft rest =>
    obtain ⟨hsound, hforms⟩ := hs.1.openPart (show Quote.single ≠ .none by decide)
    refine .silently ⟨hsound, _, _, rfl⟩ hforms ?_
    rw [Mode.ahead, Mode.ahead, passages_quote]
  | @quotes draft rest =>
    obtain ⟨hsound, hforms⟩ := hs.1.openPart (show Quote.double ≠ .none by decide)
    refine .silently ⟨hsound, _, _, rfl, ?_⟩ hforms ?_
    · rw [String.toList_empty]
      exact Form.continues_nil rest
    · rw [Mode.ahead, Mode.ahead, passages_quotes]
  -- left out of the word by the scanner, and the reason why such texts are excluded
  | continuation => exact absurd ⟨[], _, rfl⟩ hno
  | @escape draft c rest hc =>
    obtain ⟨hsound, hforms, text, older, hpush⟩ := hs.1.push_single c
    refine .silently ⟨hsound, ?_⟩ hforms ?_
    · rw [Option.getD_some, hpush]
      exact settled_of_ne (by decide)
    · rw [Mode.ahead, Mode.ahead, passages_backslash hc]
      rfl
  | form => exact Mode.steps_form hs
  | operator hread =>
    refine ⟨fun t ht => ?_, .inl ⟨sound_nil, settled_nil⟩, ?_⟩
    · rw [finish_eq_append, List.mem_append, List.mem_singleton] at ht
      rcases ht with ht | rfl
      · exact isRegular_of_mem_finish hs.1 ht
      · trivial
    · rw [finish_eq_append, List.flatMap_append, forms_finish, Mode.ahead, Mode.ahead,
        passages_operator hread, List.append_assoc]
      rfl
  | plain hread hc => exact Mode.steps_plain hread hc hs
  -- a comment ends before its newline, which is an operator of its own
  | @commentEnd rest =>
    refine ⟨by simp [IsRegular], .inl ⟨sound_nil, settled_nil⟩, ?_⟩
    have hread : Operator.read? (none : Option Draft).isSome ('\n' :: rest)
        = some (.ok (.newline, rest)) := rfl
    have hnewline : passages false ('\n' :: rest) = passages false rest := passages_operator hread
    rw [Mode.ahead, Mode.ahead, List.dropWhile_cons_of_neg (by simp), hnewline]
    rfl
  | commented hc =>
    refine .silently trivial rfl ?_
    rw [Mode.ahead, Mode.ahead, List.dropWhile_cons_of_pos (by simpa using hc)]
  | singleEnd =>
    obtain ⟨hsound, text, older, rfl⟩ := hs
    refine .silently ⟨hsound, settled_of_ne (by decide)⟩ rfl ?_
    rw [Mode.ahead, Mode.ahead, passagesInSingle_quote]
    rfl
  | @single parts c rest hc =>
    obtain ⟨hsound, hforms, hpush⟩ := hs.1.push_single c
    refine .silently ⟨hsound, hpush⟩ hforms ?_
    rw [Mode.ahead, Mode.ahead, passagesInSingle_cons hc]
  -- the span that the part ends with stays as it is once the part is closed
  | doubleEnd =>
    obtain ⟨hsound, text, older, rfl, -⟩ := hs
    refine .silently ⟨hsound, settled_of_ne (by decide)⟩ rfl ?_
    rw [Mode.ahead, Mode.ahead, passagesInDouble_quotes]
    rfl
  -- escaped characters open a part in single quotes, so that they are no forms
  | @escapeInDouble parts c rest hc =>
    have hopens : Form.OpensNone [c] ∧ c ≠ '$' := by
      rcases hc with rfl | rfl <;> exact ⟨⟨by simp, by simp⟩, by decide⟩
    obtain ⟨hsound, hforms, text, older, hpush, hcontinues⟩ := hs.1.push
      (settled_of_continues hs.2) (by decide) hopens.2 (.inl hopens.1) trivial
    refine .silently ⟨hsound, text, older, hpush, hcontinues rest⟩ hforms ?_
    rw [Mode.ahead, Mode.ahead, passagesInDouble_backslash]
  | @dollarInDouble parts rest =>
    obtain ⟨hsound, hforms, -⟩ := hs.1.push_single '$'
    obtain ⟨hsound', hforms'⟩ := hsound.openPart (show Quote.double ≠ .none by decide)
    refine .silently ⟨hsound', _, _, rfl, ?_⟩ (hforms'.trans hforms) ?_
    · rw [String.toList_empty]
      exact Form.continues_nil rest
    · rw [Mode.ahead, Mode.ahead, passagesInDouble_backslash]
  | formInDouble => exact Mode.steps_formInDouble hs
  | @double parts c rest hquote hdollar hescape =>
    obtain ⟨hsound, hforms, text, older, hpush, hcontinues⟩ := hs.1.push
      (settled_of_continues hs.2) (by decide) hdollar (.inr rfl) trivial
    refine .silently ⟨hsound, text, older, hpush, hcontinues rest⟩ hforms ?_
    rw [Mode.ahead, Mode.ahead, passagesInDouble_plain hquote hdollar hescape]

/-- A move leaves the end of the text. -/
theorem Mode.Moves.suffix (h : mode.Moves s out next rest) : rest <:+ s := by
  cases h with
  | form | formInDouble =>
    rename_i rest
    exact List.IsSuffix.trans ⟨_, Form.take_append rest⟩ (List.suffix_cons _ _)
  | operator hread => exact ⟨_, (Operator.append_of_read? hread).symm⟩
  | continuation | escape | escapeInDouble | dollarInDouble =>
    exact (List.suffix_cons _ _).trans (List.suffix_cons _ _)
  | _ => exact List.suffix_cons _ _

/-- At the end of a text the word that has begun ends. -/
theorem Mode.Gives.of_nil (h : mode.Gives [] ts) :
    (∃ draft, mode = .bare draft ∧ ts = finish draft []) ∨ mode = .comment ∧ ts = [] := by
  cases h with
  | bareEnd => exact .inl ⟨_, rfl, rfl⟩
  | commentEnd => exact .inr ⟨rfl, rfl⟩
  | moves hmove _ =>
    cases hmove with
    | operator hread => cases hread

/-- The words of a text are regular, but that its last part may end in a backslash, which ends the
text too, or in a form that is never closed. -/
inductive WellRead (s : List Char) (ts : List Token) : Prop
  | regular (h : ∀ t ∈ ts, t.IsRegular)
  | backslash (h : EndsIn ts (.outside '\\')) (hlast : s.getLast? = some '\\')
  | unclosed (f : List Char) (h : EndsIn ts (.form f false))

/-- What tokens end in does not depend on those before. -/
theorem EndsIn.append {x : Span} (h : EndsIn ts x) (hout : ∀ t ∈ out, t.IsRegular) :
    EndsIn (out ++ ts) x := by
  obtain ⟨before, parts, p, front, rfl, hbefore, hrest⟩ := h
  refine ⟨out ++ before, parts, p, front, (List.append_assoc _ _ _).symm, fun t ht => ?_, hrest⟩
  exact (List.mem_append.1 ht).elim (hout t) (hbefore t)

/-- A well read rest makes a well read text with regular tokens before it. -/
theorem WellRead.append (h : WellRead rest ts) (hout : ∀ t ∈ out, t.IsRegular)
    (hsuffix : rest <:+ s) : WellRead s (out ++ ts) := by
  cases h with
  | regular h => exact .regular fun t ht => (List.mem_append.1 ht).elim (hout t) (h t)
  | backslash h hlast =>
    obtain ⟨front, rfl⟩ := hsuffix
    refine .backslash (h.append hout) ?_
    rw [List.getLast?_append, hlast]
    rfl
  | unclosed f h => exact .unclosed f (h.append hout)

/-- By induction on the moves of the reader: each keeps what has been read regular and all forms in
their order, until the text ends. -/
theorem Mode.Gives.wellRead (h : mode.Gives s ts) (hs : mode.Sound s)
    (hno : ¬ ['\\', '\n'] <:+: s) :
    WellRead s ts ∧ ts.flatMap forms = mode.begun.forms ++ mode.ahead s := by
  induction h with
  | @bareEnd draft =>
    refine ⟨.regular fun t ht => isRegular_of_mem_finish hs.1 ht, ?_⟩
    rw [forms_finish, Mode.ahead, passages, List.filter_nil, List.append_nil]
    rfl
  | @lastBackslash draft =>
    obtain ⟨t, older, hgoes, hcontinues⟩ := hs.1.goesOn .none
    have hspans : spans (t ++ ['\\']) = spans t ++ [.outside '\\'] :=
      ((hcontinues _ hs.2).push (by decide) (.inr rfl)).1
    have hpush : (draft.getD []).push .none '\\' = ⟨.none, String.ofList (t ++ ['\\'])⟩ :: older :=
      hgoes.pushAll '\\' []
    have hahead : (Mode.bare draft).ahead ['\\'] = [] := by
      rw [Mode.ahead, passages.eq_def]
      rfl
    rw [hpush]
    refine ⟨.backslash (endsIn_of_goesOn hgoes hspans) rfl, ?_⟩
    rw [forms_finish, Option.getD_some, hgoes.forms_eq (by decide) hspans, hahead]
    rfl
  | commentEnd =>
    refine ⟨.regular (List.forall_mem_nil _), ?_⟩
    rw [Mode.ahead, List.dropWhile_nil, passages]
    rfl
  | @moves mode next s rest out ts hmove hrest ih =>
    have hsteps := hmove.steps hs hno
    have hsuffix := hmove.suffix
    rcases hsteps.sound with hsound | ⟨rfl, hends⟩
    · obtain ⟨hreads, hforms⟩ := ih hsound fun h => hno (h.trans hsuffix.isInfix)
      refine ⟨hreads.append hsteps.regular hsuffix, ?_⟩
      rw [List.flatMap_append, hforms, hsteps.forms_eq]
    -- the unclosed form has taken all that was left
    · rcases hrest.of_nil with ⟨draft, rfl, rfl⟩ | ⟨rfl, -⟩
      · obtain ⟨parts, f, rfl, hends⟩ := hends
        refine ⟨(WellRead.unclosed f hends).append hsteps.regular hsuffix, ?_⟩
        rw [← hsteps.forms_eq, List.flatMap_append, forms_finish, Mode.ahead, passages,
          List.filter_nil, List.append_nil]
        rfl
      · exact hends.elim

end Token

end Sandshell
