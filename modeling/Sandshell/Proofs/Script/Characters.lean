import Sandshell.Proofs.Path.Segments
import Sandshell.Proofs.Script.Moves
import Sandshell.Proofs.Script.Reading
import Sandshell.Shell.Expansion.Piece

/-!
# Characters of a script

The words and operators of a script hold no character that its text does not hold, and the scripts in
its substitutions hold none that its words do not hold. So whatever a script is made of, at any depth
of groups and substitutions, stands in its text.
-/

namespace Sandshell

/-! ## Tokens and commands -/

namespace Word

/-- The characters of all parts. -/
def chars (w : Word) : List Char :=
  w.parts.flatMap (·.text.toList)

/-- The characters read so far. -/
def Draft.chars (draft : Draft) : List Char :=
  draft.flatMap (·.text.toList)

variable {draft : Draft} {quote : Quote} {c x : Char} {cs : List Char}

theorem Draft.mem_chars_word : x ∈ draft.word.chars ↔ x ∈ draft.chars := by
  simp [Word.chars, Draft.chars, Draft.word]

/-- Pushing a character adds just this one. -/
theorem Draft.mem_chars_push : x ∈ (draft.push quote c).chars ↔ x ∈ draft.chars ∨ x = c := by
  unfold Draft.push
  split
  · split
    · simp only [Draft.chars, List.flatMap_cons, List.mem_append, String.toList_push,
        List.mem_singleton]
      tauto
    · simp only [Draft.chars, List.flatMap_cons, List.mem_append, String.toList_singleton,
        List.mem_singleton]
      tauto
  · simp [Draft.chars]

theorem Draft.mem_chars_pushAll :
    x ∈ (draft.pushAll quote cs).chars ↔ x ∈ draft.chars ∨ x ∈ cs := by
  unfold Draft.pushAll
  induction cs generalizing draft with
  | nil => simp
  | cons c rest ih => rw [List.foldl_cons, ih, mem_chars_push, List.mem_cons, or_assoc]

/-- Opening a part adds none. -/
theorem Draft.mem_chars_openPart : x ∈ (draft.openPart quote).chars ↔ x ∈ draft.chars := by
  simp [Draft.chars, Draft.openPart]

end Word

/-- How the operator is written. -/
def Operator.chars : Operator → List Char
  | .newline => ['\n']
  | o => o.spelling.toList

/-- What is read is an operator and the text after it. -/
theorem Operator.append_of_read? {inWord : Bool} {s rest : List Char} {o : Operator}
    (h : Operator.read? inWord s = some (.ok (o, rest))) : s = o.chars ++ rest := by
  unfold Operator.read? at h
  split at h
  all_goals try split at h
  all_goals try split at h
  all_goals simp only [Option.some.injEq, Except.ok.injEq, Prod.mk.injEq, reduceCtorEq] at h
  all_goals
    obtain ⟨rfl, rfl⟩ := h
    rfl

def Token.chars : Token → List Char
  | .operator o => o.chars
  | .word w => w.chars

/-- The characters of a redirection, those of its operator first. -/
def Redirection.chars (r : Redirection) : List Char :=
  r.tokens.flatMap Token.chars

theorem Redirection.chars_subset_of_target? {r : Redirection} {w : Word} (h : r.target? = some w) :
    w.chars ⊆ r.chars := by
  rw [chars, tokens, h]
  exact fun x hx => List.mem_flatMap.2 ⟨.word w, by simp, hx⟩

/-- All operators that direct output to a file are written with a `>`. -/
theorem Redirection.arrow_mem_output (stream : OutputStream) (mode : OpenMode) (w : Word) :
    '>' ∈ (Redirection.output stream mode w).chars := by
  have harrow : ∀ o ∈ [Operator.output, .append, .errors, .errorsAppend], '>' ∈ o.chars := by
    decide
  refine List.mem_flatMap.2 ⟨_, List.mem_cons_self, harrow _ ?_⟩
  cases stream <;> cases mode <;> simp [operator]

/-- The characters of the words and redirections of a command. -/
def Command.chars (c : Command) : List Char :=
  c.words.flatMap Word.chars ++ c.redirections.flatMap Redirection.chars

/-- The characters of the words and redirections of all commands in a script. -/
def Script.chars (ss : Script) : List Char :=
  (Script.commands ss).flatMap Command.chars

/-! ## The reader takes what is there -/

namespace Token

open Word (Draft)

variable {mode next : Mode} {s rest : List Char} {draft : Option Draft} {out : List Token} {x : Char}

/-- The characters of the word that has begun. -/
def Mode.chars : Mode → List Char
  | .bare draft => (draft.getD []).chars
  | .comment => []
  | .single parts | .double parts => parts.chars

/-- Finishing a word makes tokens of the characters it has. -/
theorem chars_of_mem_finish {t : Token} (h : t ∈ finish draft []) :
    t.chars ⊆ (draft.getD []).chars := by
  cases draft with
  | none => exact absurd h List.not_mem_nil
  | some parts =>
    rw [List.mem_singleton.1 h]
    exact fun x => Draft.mem_chars_word.1

/-- Taking a form parts a text in two. -/
theorem mem_take (s : List Char) : x ∈ s ↔ x ∈ (Form.take s).1 ∨ x ∈ (Form.take s).2 := by
  rw [← List.mem_append, Form.take_append]

/-- What a move makes tokens of stood in the text, or was kept before. -/
theorem Mode.Moves.chars_of_mem (h : mode.Moves s out next rest) {t : Token} (ht : t ∈ out) :
    t.chars ⊆ mode.chars ++ s := by
  cases h with
  | blank => exact List.subset_append_of_subset_left _ (chars_of_mem_finish ht)
  | operator hread =>
    rw [finish_eq_append, List.mem_append, List.mem_singleton] at ht
    rw [Operator.append_of_read? hread]
    rcases ht with ht | rfl
    · exact List.subset_append_of_subset_left _ (chars_of_mem_finish ht)
    · exact List.subset_append_of_subset_right _ (List.subset_append_left _ _)
  | commentEnd =>
    rw [List.mem_singleton.1 ht]
    exact List.cons_subset_cons _ (List.nil_subset _)
  | _ => exact absurd ht List.not_mem_nil

/-- So did what it keeps for the word that has begun. -/
theorem Mode.Moves.chars_next (h : mode.Moves s out next rest) :
    next.chars ++ rest ⊆ mode.chars ++ s := by
  intro x
  cases h with
  | form | formInDouble =>
    rename_i rest
    simp only [Mode.chars, Option.getD_some, List.mem_append, Draft.mem_chars_push,
      Draft.mem_chars_pushAll, List.mem_cons, mem_take rest]
    tauto
  | operator hread =>
    rw [Operator.append_of_read? hread]
    simp only [Mode.chars, Option.getD_none, Draft.chars, List.flatMap_nil, List.nil_append,
      List.mem_append]
    tauto
  | blank | comment | commentEnd =>
    simp only [Mode.chars, Option.getD_none, Draft.chars, List.flatMap_nil, List.nil_append,
      List.mem_append, List.mem_cons]
    tauto
  | _ =>
    simp only [Mode.chars, Option.getD_some, List.mem_append, Draft.mem_chars_push,
      Draft.mem_chars_openPart, List.mem_cons]
    tauto

/-- By induction on the moves of the reader. -/
theorem Mode.Gives.chars_subset {ts : List Token} (h : mode.Gives s ts) :
    ∀ t ∈ ts, t.chars ⊆ mode.chars ++ s := by
  induction h with
  | bareEnd => exact fun t ht => List.subset_append_of_subset_left _ (chars_of_mem_finish ht)
  | lastBackslash =>
    intro t ht x hx
    simpa [Draft.mem_chars_push, Mode.chars] using chars_of_mem_finish ht hx
  | commentEnd => exact List.forall_mem_nil _
  | moves hmove _ ih =>
    intro t ht
    rcases List.mem_append.1 ht with ht | ht
    · exact hmove.chars_of_mem ht
    · exact List.Subset.trans (ih t ht) hmove.chars_next

/-- The tokens of a text hold no other characters than the text. -/
theorem chars_subset_of_scan {text : String} {ts : List Token} (h : scan text = .ok ts) :
    ∀ t ∈ ts, t.chars ⊆ text.toList :=
  (gives_of_scan h).chars_subset

end Token

/-! ## Scripts -/

/-- The words and redirections that tokens spell are spelled by some of them. -/
theorem Item.tokens_sublist (ts : List Token) :
    ((Item.ofTokens ts).flatMap Item.tokens).Sublist ts := by
  fun_induction Item.ofTokens ts with
  | case1 => exact List.Sublist.slnil
  | case2 w rest ih => exact ih.cons_cons _
  | case3 rest ih => exact ih.cons_cons _
  | case9 o rest _ _ _ _ _ _ ih => exact ih.cons _
  | _ _ _ ih => exact (ih.cons_cons _).cons_cons _

/-- What an item is made of stands in the tokens. -/
theorem Item.chars_subset {ts : List Token} {item : Item} (h : item ∈ Item.ofTokens ts) :
    item.tokens.flatMap Token.chars ⊆ ts.flatMap Token.chars := by
  intro x hx
  obtain ⟨t, ht, hxt⟩ := List.mem_flatMap.1 hx
  have hmem := (Item.tokens_sublist ts).subset (List.mem_flatMap.2 ⟨item, h, ht⟩)
  exact List.mem_flatMap.2 ⟨t, hmem, hxt⟩

/-- The words of a command are those among its items. -/
theorem Item.mem_words {w : Word} {items : List Item} : w ∈ Item.words items ↔ .word w ∈ items := by
  rw [Item.words, List.mem_filterMap]
  constructor
  · rintro ⟨item, hitem, heq⟩
    cases item with
    | word w' => exact Option.some.inj heq ▸ hitem
    | redirection r => contradiction
  · exact fun h => ⟨_, h, rfl⟩

/-- So are its redirections. -/
theorem Item.mem_redirections {r : Redirection} {items : List Item} :
    r ∈ Item.redirections items ↔ .redirection r ∈ items := by
  rw [Item.redirections, List.mem_filterMap]
  constructor
  · rintro ⟨item, hitem, heq⟩
    cases item with
    | word w => contradiction
    | redirection r' => exact Option.some.inj heq ▸ hitem
  · exact fun h => ⟨_, h, rfl⟩

/-- The words of a command, and the targets of its redirections. -/
def Command.allWords (c : Command) : List Word :=
  c.words ++ c.redirections.filterMap Redirection.target?

namespace Script

/-- The words of all commands in a script, and the targets of their redirections. -/
def words (ss : Script) : List Word :=
  (Script.commands ss).flatMap Command.allWords

/-- The commands of a script have their words and redirections from its text. -/
theorem items_of_parse {text : String} {ss : Script} (h : parse text = .ok ss) :
    ∃ ts, Token.scan text = .ok ts ∧ ∀ c ∈ commands ss,
      (∀ w ∈ c.words, .word w ∈ Item.ofTokens ts)
        ∧ ∀ r ∈ c.redirections, .redirection r ∈ Item.ofTokens ts := by
  rw [parse] at h
  cases hscan : Token.scan text with
  | error e =>
    rw [hscan] at h
    contradiction
  | ok ts =>
    rw [hscan] at h
    have hholds := (ofTokens_eq_ok_iff.1 h).holds
    have hwords := hholds.words_eq []
    have hredirections := hholds.redirections_eq []
    rw [List.append_nil] at hwords hredirections
    refine ⟨ts, rfl, fun c hc => ⟨fun w hw => Item.mem_words.1 ?_,
      fun r hr => Item.mem_redirections.1 ?_⟩⟩
    · rw [hwords]
      exact List.mem_append_left _ (List.mem_flatMap.2 ⟨c, hc, hw⟩)
    · rw [hredirections]
      exact List.mem_append_left _ (List.mem_flatMap.2 ⟨c, hc, hr⟩)

/-- Every word of a script is one of its tokens. -/
theorem tokens_of_parse {text : String} {ss : Script} (h : parse text = .ok ss) :
    ∃ ts, Token.scan text = .ok ts ∧ ∀ w ∈ words ss, .word w ∈ ts := by
  obtain ⟨ts, hscan, hitems⟩ := items_of_parse h
  refine ⟨ts, hscan, fun w hw => ?_⟩
  obtain ⟨c, hc, hw⟩ := List.mem_flatMap.1 hw
  rcases List.mem_append.1 hw with hw | hw
  · exact (Item.tokens_sublist ts).subset
      (List.mem_flatMap.2 ⟨_, (hitems c hc).1 w hw, List.mem_singleton_self _⟩)
  · obtain ⟨r, hr, htarget⟩ := List.mem_filterMap.1 hw
    refine (Item.tokens_sublist ts).subset
      (List.mem_flatMap.2 ⟨_, (hitems c hc).2 r hr, ?_⟩)
    rw [Item.tokens, Redirection.tokens, htarget]
    exact List.mem_cons_of_mem _ (List.mem_singleton_self _)

/-- The commands of a script hold no other characters than its text. -/
theorem chars_subset_of_parse {text : String} {ss : Script} (h : parse text = .ok ss) :
    chars ss ⊆ text.toList := by
  obtain ⟨ts, hscan, hitems⟩ := items_of_parse h
  have htokens : ts.flatMap Token.chars ⊆ text.toList := by
    intro x hx
    obtain ⟨t, ht, hxt⟩ := List.mem_flatMap.1 hx
    exact Token.chars_subset_of_scan hscan t ht hxt
  intro x hx
  obtain ⟨c, hc, hx⟩ := List.mem_flatMap.1 hx
  rcases List.mem_append.1 hx with hx | hx
  · obtain ⟨w, hw, hx⟩ := List.mem_flatMap.1 hx
    refine htokens (Item.chars_subset ((hitems c hc).1 w hw) ?_)
    exact List.mem_flatMap.2 ⟨.word w, List.mem_singleton_self _, hx⟩
  · obtain ⟨r, hr, hx⟩ := List.mem_flatMap.1 hx
    exact htokens (Item.chars_subset ((hitems c hc).2 r hr) hx)

end Script

/-! ## Substitutions -/

mutual

/-- The scripts that a piece may run. -/
def Piece.scripts : Piece → List String
  | .parameterOr _ default => Piece.scriptsIn default
  | .substitution script => [script]
  | _ => []

/-- The scripts that pieces may run. -/
def Piece.scriptsIn : List Piece → List String
  | [] => []
  | p :: rest => p.scripts ++ Piece.scriptsIn rest

end

/-- The scripts that a part of a word may run. -/
def WordPart.scripts (p : WordPart) : List String :=
  if p.quote = .single then [] else Piece.scriptsIn (Piece.scan p.text.toList)

/-- The scripts that a word may run. -/
def Word.scripts (w : Word) : List String :=
  w.parts.flatMap WordPart.scripts

mutual

/-- A piece, with the pieces of its default and all below them. -/
def Piece.all : Piece → List Piece
  | .parameterOr p default => .parameterOr p default :: Piece.allIn default
  | p => [p]

/-- Pieces, with all below them. -/
def Piece.allIn : List Piece → List Piece
  | [] => []
  | p :: rest => p.all ++ Piece.allIn rest

end

mutual

/-- The scripts of a piece are those of the substitutions in it, however deep. -/
theorem Piece.mem_scripts_iff {script : String} : ∀ p : Piece,
    script ∈ p.scripts ↔ .substitution script ∈ p.all
  | .parameterOr p default => by
    rw [scripts, all, mem_scriptsIn_iff default, List.mem_cons]
    exact (or_iff_right nofun).symm
  | .substitution other => by simp [scripts, all]
  | .char _ => by simp [scripts, all]
  | .parameter _ => by simp [scripts, all]
  | .unclosedSubstitution => by simp [scripts, all]
  | .badSubstitution _ => by simp [scripts, all]

theorem Piece.mem_scriptsIn_iff {script : String} : ∀ ps : List Piece,
    script ∈ Piece.scriptsIn ps ↔ .substitution script ∈ Piece.allIn ps
  | [] => by simp [scriptsIn, allIn]
  | p :: rest => by
    rw [scriptsIn, allIn, List.mem_append, List.mem_append, mem_scripts_iff p,
      mem_scriptsIn_iff rest]

end

/-- The pieces of a part of a word, with all below them. -/
def WordPart.pieces (p : WordPart) : List Piece :=
  if p.quote = .single then [] else Piece.allIn (Piece.scan p.text.toList)

/-- The pieces of a word, with all below them. -/
def Word.pieces (w : Word) : List Piece :=
  w.parts.flatMap WordPart.pieces

/-- Those of a part are in its pieces. -/
theorem WordPart.mem_scripts_iff {p : WordPart} {script : String} :
    script ∈ p.scripts ↔ .substitution script ∈ p.pieces := by
  rw [scripts, pieces]
  split
  · exact iff_of_false List.not_mem_nil List.not_mem_nil
  · exact Piece.mem_scriptsIn_iff _

theorem Word.mem_scripts_iff {w : Word} {script : String} :
    script ∈ w.scripts ↔ .substitution script ∈ w.pieces := by
  simp only [scripts, pieces, List.mem_flatMap, WordPart.mem_scripts_iff]

namespace DollarForm

/-- What a form encloses, and what is left after it, stands in the text. -/
theorem spelled_of_read? {s after : List Char} {form : DollarForm}
    (h : read? s = some (form, after)) : after <:+ s
      ∧ (∀ text, form = .script text → '(' :: text ++ [')'] <+: s)
      ∧ ∀ body, form = .braces body → '{' :: body ++ ['}'] <+: s := by
  unfold read? at h
  split at h
  · cases h
  · next c rest =>
    split_ifs at h with hparen hbrace hname
    · split at h
      -- a form that is closed takes what stands up to its end; one that is not leaves nothing
      · next inside after' hsplit =>
        cases h
        have hs : c :: rest = ('(' :: inside ++ [')']) ++ after := by
          rw [hparen, Form.eq_of_splitAtParen hsplit]
          simp
        rw [hs]
        refine ⟨List.suffix_append _ _, fun text htext => ?_, by simp⟩
        cases htext
        exact List.prefix_append _ _
      · cases h
        exact ⟨List.nil_suffix, by simp, by simp⟩
    · split at h
      · next inside after' hsplit =>
        cases h
        have hs : c :: rest = ('{' :: inside ++ ['}']) ++ after := by
          rw [hbrace, Form.eq_of_splitAtBrace hsplit]
          simp
        rw [hs]
        refine ⟨List.suffix_append _ _, by simp, fun body hbody => ?_⟩
        cases hbody
        exact List.prefix_append _ _
      · cases h
        exact ⟨List.nil_suffix, by simp, by simp⟩
    · cases h
      exact ⟨(List.dropWhile_suffix _).trans (List.suffix_cons _ _), by simp, by simp⟩
    · obtain ⟨p, -, heq⟩ := Option.map_eq_some_iff.1 h
      cases heq
      exact ⟨List.suffix_cons _ _, by simp, by simp⟩

/-- A default stands at the end of its form. -/
theorem spelled_of_splitDefault {body name default : List Char}
    (h : splitDefault body = (name, some default)) : ':' :: '-' :: default <:+ body := by
  induction body using splitDefault.induct generalizing name default with
  | case1 rest =>
    rw [splitDefault] at h
    cases h
    exact List.suffix_refl _
  | case2 c rest hne name' default' hrest ih =>
    rw [splitDefault, hrest] at h
    · cases h
      exact (ih hrest).trans (List.suffix_cons _ _)
    · exact hne
  | case3 => cases h

end DollarForm

/-- A piece that runs or expands a text has it from a text that spells it. -/
def Piece.IsSpelled (s : List Char) : Piece → Prop
  | .substitution script => '$' :: '(' :: script.toList ++ [')'] <:+: s
  | .parameterOr _ default => ∃ text, default = Piece.scan text ∧ ':' :: '-' :: text <:+: s
  | _ => True

/-- What is spelled in a part of a text is spelled in the text. -/
theorem Piece.IsSpelled.mono {s s' : List Char} {p : Piece} (h : p.IsSpelled s)
    (hs : s <:+: s') : p.IsSpelled s' := by
  cases p with
  | substitution script => exact List.IsInfix.trans h hs
  | parameterOr p default =>
    obtain ⟨text, heq, htext⟩ := h
    exact ⟨text, heq, htext.trans hs⟩
  | _ => trivial

/-- The pieces of a text, also those of defaults, are spelled in it. -/
theorem Piece.isSpelled_of_scan {s : List Char} {p : Piece}
    (h : p ∈ Piece.allIn (Piece.scan s)) : p.IsSpelled s := by
  -- by induction on the text behind the dollar sign; what is spelled there is spelled in all of it
  fun_induction Piece.scan s with
  | case1 => exact absurd h List.not_mem_nil
  | case2 rest _ ih =>
    rcases List.mem_cons.1 h with rfl | h
    · trivial
    · exact (ih h).mono (List.suffix_cons _ _).isInfix
  | case3 rest text after hform ih =>
    obtain ⟨hafter, htext, -⟩ := DollarForm.spelled_of_read? hform
    rcases List.mem_cons.1 h with rfl | h
    · rw [IsSpelled, String.toList_ofList]
      exact ((List.prefix_cons_inj '$').2 (htext text rfl)).isInfix
    · exact (ih h).mono (hafter.trans (List.suffix_cons _ _)).isInfix
  | case4 =>
    rw [List.mem_singleton.1 h]
    trivial
  | case5 =>
    rw [List.mem_singleton.1 h]
    trivial
  | case6 rest p' after hform ih =>
    have hafter := (DollarForm.spelled_of_read? hform).1
    rcases List.mem_cons.1 h with rfl | h
    · trivial
    · exact (ih h).mono (hafter.trans (List.suffix_cons _ _)).isInfix
  | case7 rest body after hform name default? hsplit piece ihdefault ih =>
    obtain ⟨hafter, -, hbody⟩ := DollarForm.spelled_of_read? hform
    rcases List.mem_append.1 h with h | h
    · -- only a default is expanded
      cases hname : Parameter.ofName? name with
      | none =>
        simp only [piece, hname] at h
        rw [List.mem_singleton.1 h]
        trivial
      | some p' =>
        cases default? with
        | none =>
          simp only [piece, hname] at h
          rw [List.mem_singleton.1 h]
          trivial
        | some default =>
          simp only [piece, hname] at h
          have hdefault := DollarForm.spelled_of_splitDefault hsplit
          have hspelled : ':' :: '-' :: default <:+: '$' :: rest :=
            hdefault.isInfix.trans <| (List.infix_append ['{'] body ['}']).trans <|
              (hbody body rfl).isInfix.trans (List.suffix_cons _ _).isInfix
          rcases List.mem_cons.1 h with rfl | h
          · exact ⟨default, rfl, hspelled⟩
          · exact (ihdefault default hsplit h).mono
              (((List.suffix_cons _ _).trans (List.suffix_cons _ _)).isInfix.trans hspelled)
    · exact (ih h).mono (hafter.trans (List.suffix_cons _ _)).isInfix
  | case8 c rest _ ih =>
    rcases List.mem_cons.1 h with rfl | h
    · trivial
    · exact (ih h).mono (List.suffix_cons _ _).isInfix

/-- The pieces of a text run no script that does not stand in the text. -/
theorem Piece.infix_of_scan {s : List Char} {script : String}
    (h : script ∈ Piece.scriptsIn (Piece.scan s)) : '$' :: '(' :: script.toList ++ [')'] <:+: s :=
  Piece.isSpelled_of_scan ((Piece.mem_scriptsIn_iff _).1 h)

/-- The scripts in a word are made of its characters. -/
theorem Word.chars_subset_of_mem_scripts {w : Word} {script : String} (h : script ∈ w.scripts) :
    script.toList ⊆ w.chars := by
  obtain ⟨p, hp, hscript⟩ := List.mem_flatMap.1 h
  rw [WordPart.scripts] at hscript
  split at hscript
  · exact absurd hscript List.not_mem_nil
  · intro x hx
    refine List.mem_flatMap.2 ⟨p, hp, (Piece.infix_of_scan hscript).subset ?_⟩
    simp [hx]

/-- An assignment begins with its name and an equals sign; its value is what comes after them. -/
theorem Word.exists_of_assignment? {w value : Word} {name : String}
    (h : w.assignment? = some (name, value)) : ∃ text front rest,
      w.parts = ⟨.none, text⟩ :: rest ∧ isName name
        ∧ text.toList = name.toList ++ '=' :: front.toList
        ∧ value.parts ⊆ ⟨.none, front⟩ :: rest := by
  unfold assignment? at h
  split at h
  · next text rest hparts =>
    split at h
    · next name' front hsplit =>
      split at h
      · next hname =>
        cases h
        refine ⟨text, front, rest, hparts, hname, Text.toList_of_splitFirst? hsplit, ?_⟩
        split
        · exact List.subset_cons_self _ _
        · exact List.Subset.refl _
      · cases h
    · cases h
  · cases h

/-- The value of an assignment holds no other characters than the assignment. -/
theorem Word.chars_subset_of_assignment? {w value : Word} {name : String}
    (h : w.assignment? = some (name, value)) : value.chars ⊆ w.chars := by
  obtain ⟨text, front, rest, hparts, -, htext, hvalue⟩ := exists_of_assignment? h
  intro x hx
  obtain ⟨p, hp, hx⟩ := List.mem_flatMap.1 hx
  rw [chars, hparts, List.flatMap_cons, List.mem_append]
  rcases List.mem_cons.1 (hvalue hp) with rfl | hp
  · left
    rw [htext, List.mem_append, List.mem_cons]
    exact .inr (.inr hx)
  · exact .inr (List.mem_flatMap.2 ⟨p, hp, hx⟩)

end Sandshell
