import Sandshell.Proofs.Script.Reading
import Sandshell.Proofs.Script.Scan
import Sandshell.Shell.Run

/-!
# Single quotes

Strings written between single quotes reach a command as they are. The reader of tokens makes one
word of each, all of whose parts are single quoted; such words are no assignments, and expansion
gives their text without looking at anything.
-/

namespace Sandshell

namespace Quoting

/-- A character between single quotes. A quote cannot stand there: it closes them, follows behind a
backslash, and opens them again. -/
def escaped (c : Char) : List Char :=
  if c = '\'' then ['\'', '\\', '\'', '\''] else [c]

/-- A string between single quotes. -/
def quoted (s : String) : String :=
  String.ofList ('\'' :: s.toList.flatMap escaped ++ ['\''])

/-- A script of quoted strings with blanks between them. -/
def commandLine (args : List String) : String :=
  " ".intercalate (args.map quoted)

end Quoting

/-! ## Quoted words -/

namespace Word

/-- The word has parts and all of them are single quoted. -/
structure IsSingleQuoted (w : Word) : Prop where
  ne_nil : w.parts ≠ []
  quote_eq : ∀ p ∈ w.parts, p.quote = .single

/-- A word in quotes assigns nothing. -/
theorem IsSingleQuoted.assignment?_eq {w : Word} (h : w.IsSingleQuoted) : w.assignment? = none := by
  obtain ⟨parts⟩ := w
  cases parts with
  | nil => exact absurd rfl h.ne_nil
  | cons p rest =>
    obtain ⟨quote, text⟩ := p
    obtain rfl : quote = .single := h.quote_eq _ List.mem_cons_self
    rfl

/-- A single-quoted word under construction, whose text is `s` so far. -/
structure Draft.Quotes (draft : Draft) (s : String) : Prop where
  ne_nil : draft ≠ []
  quote_eq : ∀ p ∈ draft, p.quote = .single
  literal_eq : draft.word.literal = s

variable {draft : Draft} {s : String}

theorem Draft.literal_word_cons (p : WordPart) (older : Draft) :
    (Draft.word (p :: older)).literal = older.word.literal ++ p.text := by
  simp [literal, Draft.word, String.join_append]

theorem Draft.Quotes.openPart_nil : (Draft.openPart [] .single).Quotes "" where
  ne_nil := List.cons_ne_nil _ _
  quote_eq := by simp [Draft.openPart]
  literal_eq := rfl

theorem Draft.Quotes.openPart (h : draft.Quotes s) : (draft.openPart .single).Quotes s where
  ne_nil := List.cons_ne_nil _ _
  quote_eq := List.forall_mem_cons.2 ⟨rfl, h.quote_eq⟩
  literal_eq := by rw [Draft.openPart, literal_word_cons, h.literal_eq, String.append_empty]

/-- A character in single quotes is added to the literal text. -/
theorem Draft.Quotes.push (h : draft.Quotes s) (c : Char) :
    (draft.push .single c).Quotes (s.push c) := by
  obtain ⟨hne, hquote, hliteral⟩ := h
  cases draft with
  | nil => exact absurd rfl hne
  | cons p older =>
    obtain ⟨quote, text⟩ := p
    obtain ⟨rfl, holder⟩ := List.forall_mem_cons.1 hquote
    rw [literal_word_cons] at hliteral
    rw [Draft.push, if_pos rfl]
    refine ⟨List.cons_ne_nil _ _, List.forall_mem_cons.2 ⟨rfl, holder⟩, ?_⟩
    rw [literal_word_cons, ← hliteral, String.push_eq_append, String.push_eq_append,
      String.append_assoc]

theorem Draft.Quotes.isSingleQuoted (h : draft.Quotes s) : draft.word.IsSingleQuoted where
  ne_nil := by simpa [Draft.word] using h.ne_nil
  quote_eq := by simpa [Draft.word] using h.quote_eq

end Word

/-! ## Reading -/

namespace Quoting

open Token

/-- Reading the escaped characters adds the characters to the word, by induction on them. -/
theorem scanSingle_escaped (chars rest : List Char) {draft : Word.Draft} {s : String}
    (h : draft.Quotes s) : ∃ draft' : Word.Draft, draft'.Quotes (s ++ String.ofList chars)
      ∧ scanSingle draft (chars.flatMap escaped ++ '\'' :: rest) = scanBare (some draft') rest := by
  induction chars generalizing draft s with
  | nil =>
    refine ⟨draft, ?_, scanSingle_quote⟩
    rwa [String.ofList_nil, String.append_empty]
  | cons c chars ih =>
    rw [show s ++ String.ofList (c :: chars) = s.push c ++ String.ofList chars by
      rw [String.push_eq_append, String.append_assoc, String.ofList_cons]]
    by_cases hc : c = '\''
    -- the quote is pushed outside the quotes, and a part begins where they open again
    · subst hc
      obtain ⟨draft', hquotes, hscan⟩ := ih (h.push '\'').openPart
      refine ⟨draft', hquotes, ?_⟩
      rw [← hscan]
      show scanSingle draft ('\'' :: '\\' :: '\'' :: '\'' :: (chars.flatMap escaped ++ _)) = _
      rw [scanSingle_quote, scanBare_backslash (by decide), scanBare_quote]
      rfl
    · obtain ⟨draft', hquotes, hscan⟩ := ih (h.push c)
      refine ⟨draft', hquotes, ?_⟩
      rw [← hscan, List.flatMap_cons, escaped, if_neg hc]
      exact scanSingle_cons hc

/-- A quoted text is scanned as a word with this text. -/
theorem scanBare_quoted (s : String) (rest : List Char) :
    ∃ draft : Word.Draft, draft.Quotes s
      ∧ scanBare none ((quoted s).toList ++ rest) = scanBare (some draft) rest := by
  obtain ⟨draft, hquotes, hscan⟩ := scanSingle_escaped s.toList rest Word.Draft.Quotes.openPart_nil
  rw [String.empty_append, String.ofList_toList] at hquotes
  refine ⟨draft, hquotes, ?_⟩
  rw [← hscan, quoted, String.toList_ofList, List.append_assoc]
  exact scanBare_quote

theorem commandLine_cons_cons (s s' : String) (args : List String) :
    (commandLine (s :: s' :: args)).toList
      = (quoted s).toList ++ ' ' :: (commandLine (s' :: args)).toList := by
  rw [commandLine, List.map_cons, List.map_cons, String.intercalate_cons_cons, String.toList_append,
    String.toList_append, List.append_assoc]
  rfl

/-- Each string is read as one word, by induction on the strings. -/
theorem scan_commandLine (s : String) (args : List String) :
    ∃ ws : List Word, scan (commandLine (s :: args)) = .ok (ws.map .word)
      ∧ (∀ w ∈ ws, w.IsSingleQuoted) ∧ ws.map Word.literal = s :: args := by
  induction args generalizing s with
  | nil =>
    obtain ⟨draft, hquotes, hscan⟩ := scanBare_quoted s []
    refine ⟨[draft.word], ?_, ?_, ?_⟩
    · rw [List.append_nil, scanBare_nil] at hscan
      exact hscan
    · simpa using hquotes.isSingleQuoted
    · simp [hquotes.literal_eq]
  | cons s' args ih =>
    obtain ⟨ws, htail, hquoted, hliteral⟩ := ih s'
    obtain ⟨draft, hquotes, hscan⟩ :=
      scanBare_quoted s (' ' :: (commandLine (s' :: args)).toList)
    rw [scan] at htail
    refine ⟨draft.word :: ws, ?_, ?_, ?_⟩
    · rw [scan, commandLine_cons_cons, hscan, scanBare_blank (.inl rfl), htail]
      rfl
    · exact List.forall_mem_cons.2 ⟨hquotes.isSingleQuoted, hquoted⟩
    · rw [List.map_cons, hquotes.literal_eq, hliteral]

end Quoting

/-- Words alone are one simple command. -/
theorem Script.ofTokens_map_word {ws : List Word} (h : ws ≠ []) :
    ofTokens (ws.map .word) = .ok [.chain [.simple ws []] []] := by
  have hitems : ((ws.map Item.word).flatMap Item.tokens) = ws.map .word := by
    rw [List.flatMap_map]
    exact (List.map_eq_flatMap).symm
  have hcommand := Grammar.SpellsCommand.simple (ws.map Item.word)
    (by rwa [Item.words_map_word])
  rw [Item.words_map_word, Item.redirections_map_word, hitems] at hcommand
  rw [ofTokens_eq_ok_iff]
  have hsequence := Grammar.SpellsSequence.chain (.last hcommand) .nil
  rw [List.append_nil] at hsequence
  exact .sequences 0 (.last hsequence)

/-- Words in quotes are all arguments. -/
theorem Run.splitAssignments_of_isSingleQuoted {ws : List Word} (h : ∀ w ∈ ws, w.IsSingleQuoted) :
    splitAssignments ws = ([], ws) := by
  cases ws with
  | nil => rfl
  | cons w rest => rw [splitAssignments, (h w List.mem_cons_self).assignment?_eq]

/-! ## Expansion -/

/-- Glyphs that do not cut are collected. -/
theorem Field.cut_map_glyph (done : List Field) (quoted : Bool) (newest glyphs : List Glyph)
    (rest : List Fragment.Mark) :
    cut done quoted newest (glyphs.map .glyph ++ rest)
      = cut done quoted (glyphs.reverse ++ newest) rest := by
  induction glyphs generalizing newest with
  | nil => rfl
  | cons g glyphs ih =>
    rw [List.map_cons, List.cons_append, cut, ih, List.reverse_cons, List.append_assoc]
    rfl

/-- A quoted fragment is collected as a whole. -/
theorem Field.cut_marks_quoted (quoted : Bool) (newest : List Glyph) (text : String)
    (rest : List Fragment.Mark) :
    cut [] quoted newest (Fragment.marks ⟨.quoted, text⟩ ++ rest)
      = cut [] true ((text.toList.map .char).reverse ++ newest) rest := by
  rw [← cut_map_glyph, List.map_map]
  rfl

/-- Quoted texts add their characters to the field that has begun, by induction on the texts. -/
theorem Field.cut_quoted (texts : List String) (newest : List Glyph) :
    cut [] true newest ((texts.map (⟨.quoted, ·⟩)).flatMap Fragment.marks)
      = [⟨true, newest.reverse ++ (String.join texts).toList.map .char⟩] := by
  induction texts generalizing newest with
  | nil => simp [cut, ofNewest?]
  | cons text texts ih =>
    rw [List.map_cons, List.flatMap_cons, cut_marks_quoted, ih, String.join_cons]
    simp

/-- Quoted texts are one field, which holds no wildcard. -/
theorem Field.ofFragments_quoted {texts : List String} (h : texts ≠ []) :
    ofFragments (texts.map (⟨.quoted, ·⟩)) = [⟨true, (String.join texts).toList.map .char⟩] := by
  cases texts with
  | nil => exact absurd rfl h
  | cons text texts =>
    rw [ofFragments, List.map_cons, List.flatMap_cons, cut_marks_quoted, cut_quoted,
      String.join_cons]
    simp

/-- Literal characters are no wildcards. -/
theorem Field.hasWildcard_map_char (quoted : Bool) (chars : List Char) :
    Field.hasWildcard ⟨quoted, chars.map .char⟩ = false := by
  simp [hasWildcard]

theorem Field.text_map_char (quoted : Bool) (s : String) :
    Field.text ⟨quoted, s.toList.map .char⟩ = s := by
  have hchars : s.toList.map (Glyph.toChar ∘ Glyph.char) = s.toList := List.map_id' _
  rw [text, Wildcard.text, List.map_map, hchars, String.ofList_toList]

namespace Expand

variable {W : Type} (ctx : ExpandContext W) (e : Expanding W)

/-- A word in quotes falls into its quoted parts. -/
theorem fragments_of_isSingleQuoted {w : Word} (h : w.IsSingleQuoted) :
    fragments ctx w e = (.ok ((w.parts.map (·.text)).map (⟨.quoted, ·⟩)), e) := by
  have hpart : ∀ p ∈ w.parts, part ctx p e = (.ok [⟨.quoted, p.text⟩], e) := by
    intro p hp
    rw [part, h.quote_eq p hp]
    rfl
  have hflat : (w.parts.map fun p => [(⟨.quoted, p.text⟩ : Fragment)]).flatten
      = (w.parts.map (·.text)).map (⟨.quoted, ·⟩) := by
    rw [← List.flatMap_def, List.map_map]
    exact (List.map_eq_flatMap).symm
  rw [fragments, bind_apply_ok (mapM_apply_ok hpart), hflat]
  rfl

variable [Workspace W]

/-- A word whose fragments are all quoted stands for one field: it is neither cut nor matched. -/
theorem word_of_quoted_fragments {w : Word} {e' : Expanding W} (texts : List String)
    (h : fragments ctx w e = (.ok (texts.map (⟨.quoted, ·⟩)), e')) (hne : texts ≠ []) :
    word ctx w e = (.ok [String.join texts], e') := by
  have hfield : ∀ f ∈ [(⟨true, (String.join texts).toList.map .char⟩ : Field)],
      field ctx.state.cwd f e' = (.ok [f.text], e') := by
    intro f hf
    obtain rfl := List.mem_singleton.1 hf
    rw [field, Field.hasWildcard_map_char]
    rfl
  rw [word, bind_apply_ok h, Field.ofFragments_quoted hne, bind_apply_ok (mapM_apply_ok hfield),
    List.map_cons, Field.text_map_char]
  rfl

/-- A single-quoted word stands for its text, and expanding it changes nothing. -/
theorem word_of_isSingleQuoted {w : Word} (h : w.IsSingleQuoted) :
    word ctx w e = (.ok [w.literal], e) :=
  word_of_quoted_fragments ctx e _ (fragments_of_isSingleQuoted ctx e h) (by simpa using h.ne_nil)

/-- Words in quotes expand to their literal texts. -/
theorem words_of_isSingleQuoted {ws : List Word} (h : ∀ w ∈ ws, w.IsSingleQuoted) :
    words ctx ws e = (.ok (ws.map Word.literal), e) := by
  have hword : ∀ w ∈ ws, word ctx w e = (.ok [w.literal], e) :=
    fun w hw => word_of_isSingleQuoted ctx e (h w hw)
  have hflat : (ws.map fun w => [w.literal]).flatten = ws.map Word.literal := by
    rw [← List.flatMap_def]
    exact (List.map_eq_flatMap).symm
  rw [words, bind_apply_ok (mapM_apply_ok hword), hflat]
  rfl

end Expand

namespace Quoting

/-- The script of quoted strings is one simple command without redirections or assignments. Its
words expand to the strings, whatever the state, the substitutions and the workspace are; the
workspace and the diagnostics stay as they are. -/
theorem words_commandLine (s : String) (args : List String) : ∃ ws : List Word,
    Token.scan (commandLine (s :: args)) = .ok (ws.map .word)
      ∧ Script.parse (commandLine (s :: args)) = .ok [.chain [.simple ws []] []]
      ∧ (∀ w ∈ ws, w.assignment? = none)
      ∧ Run.splitAssignments ws = ([], ws)
      ∧ ∀ (W : Type) [Workspace W] (ctx : ExpandContext W) (e : Expanding W),
        Expand.words ctx ws e = (.ok (s :: args), e) := by
  obtain ⟨ws, hscan, hquoted, hliteral⟩ := scan_commandLine s args
  have hne : ws ≠ [] := by
    intro h
    rw [h] at hliteral
    cases hliteral
  refine ⟨ws, hscan, ?_, fun w hw => (hquoted w hw).assignment?_eq,
    Run.splitAssignments_of_isSingleQuoted hquoted, fun W _ ctx e => ?_⟩
  · rw [Script.parse, hscan]
    exact Script.ofTokens_map_word hne
  · rw [Expand.words_of_isSingleQuoted ctx e hquoted, hliteral]

end Quoting

end Sandshell
