import Sandshell.Proofs.Script.Characters

/-!
# Openings of substitutions

Reading a script removes quotes, escapes and line breaks, but never brings a dollar sign and a
parenthesis together that did not stand together. So the parts of a word that are expanded hold no
more openings of substitutions than the script, nor more characters, and what is inside a
substitution holds fewer of both.
-/

namespace Sandshell

/-- How often a dollar sign stands before a parenthesis. -/
def openings : List Char → Nat
  | [] => 0
  | c :: rest => (if c = '$' ∧ rest.head? = some '(' then 1 else 0) + openings rest

/-- A count in texts that finds no less in the whole than in two parts of it, and no more unless the
second part begins with a parenthesis. -/
structure Counts (f : List Char → Nat) : Prop where
  append_le : ∀ a b, f a + f b ≤ f (a ++ b)
  le_append : ∀ a b, b.head? ≠ some '(' → f (a ++ b) ≤ f a + f b

theorem counts_length : Counts List.length where
  append_le _ _ := Nat.le_of_eq List.length_append.symm
  le_append _ _ _ := Nat.le_of_eq List.length_append

/-- Putting texts together may make one opening more, across the seam. -/
theorem openings_append (a b : List Char) : openings (a ++ b)
    = openings a + openings b + if a.getLast? = some '$' ∧ b.head? = some '(' then 1 else 0 := by
  induction a with
  | nil => simp [openings]
  | cons c rest ih =>
    cases rest with
    | nil =>
      -- the dollar sign may end the first part, and the parenthesis begin the second
      simp only [List.cons_append, List.nil_append, openings, List.head?_nil,
        List.getLast?_singleton, Option.some.injEq]
      split <;> simp_all
      omega
    | cons d rest =>
      have hlast : (c :: d :: rest).getLast? = (d :: rest).getLast? := List.getLast?_cons_cons
      have hhead : (d :: rest ++ b).head? = (d :: rest).head? := rfl
      rw [hlast, List.cons_append, openings, ih, hhead, openings.eq_2 c]
      omega

/-- Openings are counted like characters are. -/
theorem counts_openings : Counts openings where
  append_le a b := by
    rw [openings_append]
    omega
  le_append a b hb := by
    rw [openings_append, if_neg fun h => hb h.2]
    omega

namespace Counts

variable {f : List Char → Nat} (hf : Counts f)
include hf

/-- There is nothing to count in an empty text. -/
theorem nil_eq : f [] = 0 := by
  have h := hf.append_le [] []
  rw [List.append_nil] at h
  omega

/-- The end of a text counts no more than the text. -/
theorem le_of_suffix {s t : List Char} (h : t <:+ s) : f t ≤ f s := by
  obtain ⟨front, rfl⟩ := h
  have := hf.append_le front t
  omega

/-- Neither does any part of it. -/
theorem le_of_infix {s t : List Char} (h : t <:+: s) : f t ≤ f s := by
  obtain ⟨front, back, rfl⟩ := h
  have h1 := hf.append_le (front ++ t) back
  have h2 := hf.append_le front t
  omega

end Counts

/-! ## Words -/

/-- The count in a part, where it is expanded. -/
def WordPart.count (f : List Char → Nat) (p : WordPart) : Nat :=
  if p.quote = .single then 0 else f p.text.toList

theorem WordPart.count_of_ne {f : List Char → Nat} {quote : Quote} (h : quote ≠ .single)
    (text : String) : count f ⟨quote, text⟩ = f text.toList :=
  if_neg h

open scoped Arithmetic in
/-- The count in all parts of a word that has begun. -/
def Word.Draft.count (f : List Char → Nat) (draft : Draft) : Nat :=
  (draft.map (WordPart.count f)).sum

open scoped Arithmetic in
/-- The count in all parts of a word. -/
def Word.count (f : List Char → Nat) (w : Word) : Nat :=
  (w.parts.map (WordPart.count f)).sum

def Token.count (f : List Char → Nat) : Token → Nat
  | .operator _ => 0
  | .word w => w.count f

namespace Word

variable {f : List Char → Nat}

/-- A part counts no more than its word. -/
theorem count_le_of_mem {w : Word} {p : WordPart} (h : p ∈ w.parts) : p.count f ≤ w.count f := by
  obtain ⟨before, after, hparts⟩ := List.append_of_mem h
  rw [Word.count, hparts, List.map_append, List.sum_append, List.map_cons, List.sum_cons]
  omega

theorem Draft.count_word (draft : Draft) : draft.word.count f = draft.count f := by
  rw [Word.count, Draft.word, List.map_reverse, List.sum_reverse]
  rfl

/-- Characters that are pushed go on with the newest part, or begin a new one. -/
theorem Draft.pushAll_push (draft : Draft) (quote : Quote) (c : Char) (cs : List Char) :
    (∃ text older, draft = ⟨quote, text⟩ :: older
      ∧ (draft.push quote c).pushAll quote cs
        = ⟨quote, text ++ String.ofList (c :: cs)⟩ :: older)
      ∨ (∀ text older, draft ≠ ⟨quote, text⟩ :: older)
        ∧ (draft.push quote c).pushAll quote cs = ⟨quote, String.ofList (c :: cs)⟩ :: draft := by
  have hnew : Draft.pushAll (⟨quote, String.singleton c⟩ :: draft) quote cs
      = ⟨quote, String.ofList (c :: cs)⟩ :: draft := by
    rw [pushAll_newest, String.ofList_cons]
  cases draft with
  | nil => exact .inr ⟨nofun, hnew⟩
  | cons newest older =>
    obtain ⟨q, text⟩ := newest
    by_cases hq : q = quote
    · subst hq
      exact .inl ⟨text, older, rfl, pushAll_newest q text older (c :: cs)⟩
    · refine .inr ⟨fun text' older' h => hq (WordPart.mk.inj (List.cons.inj h).1).1, ?_⟩
      rw [push, if_neg hq]
      exact hnew

theorem Draft.count_cons (p : WordPart) (older : Draft) :
    Draft.count f (p :: older) = p.count f + Draft.count f older := by
  rw [count, List.map_cons, List.sum_cons]
  rfl

/-- Opening a part does not count. -/
theorem Draft.count_openPart (hf : Counts f) (draft : Draft) (quote : Quote) :
    (draft.openPart quote).count f = draft.count f := by
  rw [openPart, count_cons, WordPart.count]
  split
  · omega
  · rw [String.toList_empty, hf.nil_eq]
    omega

/-- What is taken as it stands does not count. -/
theorem Draft.count_push_single (draft : Draft) (c : Char) :
    (draft.push .single c).count f = draft.count f := by
  obtain ⟨text, older, rfl, hpush⟩ | ⟨-, hpush⟩ := draft.pushAll_push .single c []
  · refine (congrArg (Draft.count f) hpush).trans ?_
    simp [count_cons, WordPart.count]
  · refine (congrArg (Draft.count f) hpush).trans ?_
    simp [count_cons, WordPart.count]

/-- Characters that are pushed add no more than they count, unless the first is a parenthesis. -/
theorem Draft.count_pushAll_le (hf : Counts f) (draft : Draft) {quote : Quote}
    (hquote : quote ≠ .single) {c : Char} (hc : c ≠ '(') (cs : List Char) :
    ((draft.push quote c).pushAll quote cs).count f ≤ draft.count f + f (c :: cs) := by
  obtain ⟨text, older, rfl, hpush⟩ | ⟨-, hpush⟩ := draft.pushAll_push quote c cs
  · have happend := hf.le_append text.toList (c :: cs) (by simpa using hc)
    rw [hpush, count_cons, count_cons, WordPart.count_of_ne hquote, WordPart.count_of_ne hquote,
      String.toList_append, String.toList_ofList]
    omega
  · rw [hpush, count_cons, WordPart.count_of_ne hquote, String.toList_ofList]
    omega

/-- The count in a word that has begun together with a text that goes on in double quotes. -/
def Draft.countWith (f : List Char → Nat) (draft : Draft) (s : List Char) : Nat :=
  match draft with
  | ⟨.double, text⟩ :: older => Draft.count f older + f (text.toList ++ s)
  | _ => draft.count f + f s

/-- Pushing what comes next in double quotes changes nothing, whatever it is. -/
theorem Draft.countWith_pushAll (draft : Draft) (c : Char) (cs s : List Char) :
    ((draft.push .double c).pushAll .double cs).countWith f s
      = draft.countWith f (c :: (cs ++ s)) := by
  obtain ⟨text, older, rfl, hpush⟩ | ⟨hne, hpush⟩ := draft.pushAll_push .double c cs
  · rw [hpush, countWith, countWith, String.toList_append, String.toList_ofList,
      List.append_assoc, List.cons_append]
  · rw [hpush, countWith, String.toList_ofList, List.cons_append, countWith.eq_def]
    split
    · next text older => exact absurd rfl (hne text older)
    · rfl

/-- What has been read and what comes next count no more apart than together. -/
theorem Draft.le_countWith (hf : Counts f) (draft : Draft) (s : List Char) :
    draft.count f + f s ≤ draft.countWith f s := by
  rw [countWith.eq_def]
  split
  · next text older =>
    have happend := hf.append_le text.toList s
    rw [count_cons, WordPart.count_of_ne (by decide)]
    omega
  · exact Nat.le_refl _

theorem Draft.countWith_openPart (draft : Draft) (s : List Char) :
    (draft.openPart .double).countWith f s = draft.count f + f s := by
  rw [openPart, countWith, String.toList_empty, List.nil_append]

/-- Leaving out a backslash adds nothing, unless a parenthesis comes after it. -/
theorem Draft.countWith_backslash (hf : Counts f) (draft : Draft) {c : Char} (hc : c ≠ '(')
    (s : List Char) : draft.countWith f (c :: s) ≤ draft.countWith f ('\\' :: c :: s) := by
  have hshorter : f (c :: s) ≤ f ('\\' :: c :: s) := hf.le_of_suffix (List.suffix_cons _ _)
  unfold countWith
  split
  · next text older =>
    have hleft := hf.le_append text.toList (c :: s) (by simpa using hc)
    have hright := hf.append_le text.toList ('\\' :: c :: s)
    omega
  · omega

end Word

/-! ## Reading -/

namespace Token

variable {f : List Char → Nat} {mode next : Mode} {s rest : List Char} {out ts : List Token}

/-- The count in what is kept and in the text that is left. -/
def Mode.count (f : List Char → Nat) : Mode → List Char → Nat
  | .bare draft, s => (draft.getD []).count f + f s
  | .comment, s => f s
  | .single parts, s => parts.count f + f s
  | .double parts, s => parts.countWith f s

/-- A finished word counts no more than its draft. -/
theorem count_of_mem_finish {draft : Option Word.Draft} {t : Token} (h : t ∈ finish draft []) :
    t.count f ≤ (draft.getD []).count f := by
  cases draft with
  | none => exact absurd h List.not_mem_nil
  | some parts =>
    rw [List.mem_singleton.1 h]
    exact Nat.le_of_eq parts.count_word

/-- No token of a move counts more than there was. -/
theorem Mode.Moves.count_of_mem (h : mode.Moves s out next rest) {t : Token} (ht : t ∈ out) :
    t.count f ≤ mode.count f s := by
  cases h with
  | blank => exact Nat.le_trans (count_of_mem_finish ht) (Nat.le_add_right _ _)
  | operator =>
    rw [finish_eq_append, List.mem_append, List.mem_singleton] at ht
    rcases ht with ht | rfl
    · exact Nat.le_trans (count_of_mem_finish ht) (Nat.le_add_right _ _)
    · exact Nat.zero_le _
  | commentEnd =>
    rw [List.mem_singleton.1 ht]
    exact Nat.zero_le _
  | _ => exact absurd ht List.not_mem_nil

/-- Nor does what is kept and what is left count more: no move joins what did not stand together,
but at a place where no parenthesis comes next. -/
theorem Mode.Moves.count_next (hf : Counts f) (h : mode.Moves s out next rest) :
    next.count f rest ≤ mode.count f s := by
  have hcons : ∀ (c : Char) (t : List Char), f t ≤ f (c :: t) :=
    fun c t => hf.le_of_suffix (List.suffix_cons c t)
  cases h with
  | blank => exact Nat.add_le_add (Nat.zero_le _) (hcons _ _)
  | comment => exact Nat.le_trans (hcons _ _) (Nat.le_add_left _ _)
  | commentEnd => exact Nat.le_trans (Nat.le_of_eq (Nat.zero_add _)) (hcons _ _)
  | commented => exact hcons _ _
  | quote =>
    rw [Mode.count, Mode.count, Word.Draft.count_openPart hf]
    exact Nat.add_le_add_left (hcons _ _) _
  | quotes =>
    rw [Mode.count, Mode.count, Word.Draft.countWith_openPart]
    exact Nat.add_le_add_left (hcons _ _) _
  | continuation =>
    exact Nat.add_le_add_left (Nat.le_trans (hcons _ _) (hcons _ _)) _
  | escape =>
    rw [Mode.count, Mode.count, Option.getD_some, Word.Draft.count_push_single]
    exact Nat.add_le_add_left (Nat.le_trans (hcons _ _) (hcons _ _)) _
  | @form draft rest =>
    -- a form is pushed as a whole, and begins with its dollar sign
    have hpush := (draft.getD []).count_pushAll_le hf (show Quote.none ≠ .single by decide)
      (show '$' ≠ '(' by decide) (Form.take rest).1
    have hsplit := hf.append_le ('$' :: (Form.take rest).1) (Form.take rest).2
    rw [List.cons_append, Form.take_append] at hsplit
    rw [Mode.count, Mode.count, Option.getD_some]
    omega
  | @operator _ _ _ rest hread =>
    have hrest : f rest ≤ f s := hf.le_of_suffix ⟨_, (Operator.append_of_read? hread).symm⟩
    exact Nat.add_le_add (Nat.zero_le _) hrest
  | @plain draft c rest hread =>
    -- outside of quotes a parenthesis is an operator
    have hc : c ≠ '(' := by
      rintro rfl
      cases hread
    have hpush : ((draft.getD []).push .none c).count f ≤ (draft.getD []).count f + f [c] :=
      (draft.getD []).count_pushAll_le hf (by decide) hc []
    have hsplit : f [c] + f rest ≤ f (c :: rest) := hf.append_le [c] rest
    rw [Mode.count, Mode.count, Option.getD_some]
    omega
  | singleEnd => exact Nat.add_le_add_left (hcons _ _) _
  | single =>
    rw [Mode.count, Mode.count, Word.Draft.count_push_single]
    exact Nat.add_le_add_left (hcons _ _) _
  | @doubleEnd parts rest =>
    refine Nat.le_trans ?_ (parts.le_countWith hf _)
    exact Nat.add_le_add_left (hcons _ _) _
  | @escapeInDouble parts c rest hc =>
    have hparen : c ≠ '(' := by rcases hc with rfl | rfl <;> decide
    exact Nat.le_trans (Nat.le_of_eq (parts.countWith_pushAll c [] rest))
      (parts.countWith_backslash hf hparen rest)
  | @dollarInDouble parts rest =>
    -- the dollar sign goes into a part of its own, where it is not expanded
    rw [Mode.count, Mode.count, Word.Draft.countWith_openPart, Word.Draft.count_push_single]
    refine Nat.le_trans ?_ (parts.le_countWith hf _)
    exact Nat.add_le_add_left (Nat.le_trans (hcons _ _) (hcons _ _)) _
  | @formInDouble parts rest =>
    have hpush := parts.countWith_pushAll (f := f) '$' (Form.take rest).1 (Form.take rest).2
    rw [Form.take_append] at hpush
    exact Nat.le_of_eq hpush
  | @double parts c rest => exact Nat.le_of_eq (parts.countWith_pushAll c [] rest)

/-- By induction on the moves of the reader. -/
theorem Mode.Gives.count_le (hf : Counts f) (h : mode.Gives s ts) :
    ∀ t ∈ ts, t.count f ≤ mode.count f s := by
  induction h with
  | bareEnd => exact fun t ht => Nat.le_trans (count_of_mem_finish ht) (Nat.le_add_right _ _)
  | @lastBackslash draft =>
    intro t ht
    exact Nat.le_trans (count_of_mem_finish ht)
      ((draft.getD []).count_pushAll_le hf (by decide) (by decide) [])
  | commentEnd => exact List.forall_mem_nil _
  | moves hmove _ ih =>
    intro t ht
    rcases List.mem_append.1 ht with ht | ht
    · exact hmove.count_of_mem ht
    · exact Nat.le_trans (ih t ht) (hmove.count_next hf)

end Token

/-! ## Scripts -/

/-- The parts of the words in a script that are expanded count no more than its text. -/
theorem Script.count_le_of_parse {f : List Char → Nat} (hf : Counts f) {text : String}
    {ss : Script} (h : parse text = .ok ss) {w : Word} (hw : w ∈ words ss) {p : WordPart}
    (hp : p ∈ w.parts) (hquote : p.quote ≠ .single) : f p.text.toList ≤ f text.toList := by
  obtain ⟨ts, hscan, hwords⟩ := tokens_of_parse h
  have htoken : w.count f ≤ _ := (Token.gives_of_scan hscan).count_le hf _ (hwords w hw)
  have hpart := Word.count_le_of_mem (f := f) hp
  rw [WordPart.count, if_neg hquote] at hpart
  rw [Token.Mode.count, Option.getD_none, Word.Draft.count, List.map_nil, List.sum_nil] at htoken
  omega

end Sandshell
