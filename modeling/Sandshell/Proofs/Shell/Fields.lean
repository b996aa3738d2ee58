import Sandshell.Proofs.Shell.Quoting
import Sandshell.Workspace.Tree

/-!
# Cutting words into fields

The fields of a word, told from its characters alone: each character is tagged with where it comes
from, the characters are cut at the blanks of unquoted values, and what stands between two cuts is a
field unless it is empty.
-/

namespace Sandshell

/-- What an expanded word is made of: characters, and the places where its quoted parts begin. -/
inductive Tagged where
  | quotedPart
  | char (origin : Origin) (c : Char)
deriving DecidableEq, Repr

namespace Tagged

/-- A blank that comes from an unquoted value. -/
def isCut : Tagged → Bool
  | .char .value c => Fragment.isSeparator c
  | _ => false

/-- A star that is not quoted. -/
def isWildcard : Tagged → Bool
  | .char .literal c | .char .value c => c = '*'
  | _ => false

def char? : Tagged → Option Char
  | .quotedPart => none
  | .char _ c => some c

/-- The characters alone. -/
def text (stream : List Tagged) : String :=
  String.ofList (stream.filterMap char?)

/-- What stands between the cuts, where there is a character or a quoted part. -/
def pieces (stream : List Tagged) : List (List Tagged) :=
  (stream.splitOnP isCut).filter (· ≠ [])

end Tagged

/-- The characters of a fragment. -/
def Fragment.tagged (f : Fragment) : List Tagged :=
  match f.origin with
  | .quoted => .quotedPart :: f.text.toList.map (.char .quoted)
  | origin => f.text.toList.map (.char origin)

namespace Tagged

variable {stream begun piece : List Tagged}

/-! ## Marks and glyphs of characters -/

/-- What a character contributes to the cutting of a word. -/
def mark : Tagged → Fragment.Mark
  | .quotedPart => .quote
  | .char .quoted c => .glyph (.char c)
  | .char .literal c => Fragment.unquotedMark c
  | .char .value c => if Fragment.isSeparator c then .cut else Fragment.unquotedMark c

/-- The tagged characters of a fragment show as its marks. -/
theorem map_mark_tagged (f : Fragment) : f.tagged.map mark = f.marks := by
  obtain ⟨origin, text⟩ := f
  cases origin <;> simp [Fragment.tagged, Fragment.marks, mark, Function.comp_def]

/-- What a character stands for when names are matched. -/
def glyph? : Tagged → Option Glyph
  | .quotedPart => none
  | .char .quoted c => some (.char c)
  | .char _ c => some (if c = '*' then .star else .char c)

theorem map_toChar_glyph? (x : Tagged) : x.glyph?.map Glyph.toChar = x.char? := by
  cases x with
  | quotedPart => rfl
  | char origin c =>
    have hstar : (if c = '*' then Glyph.star else .char c).toChar = c := by
      split
      · next h => exact h.symm
      · rfl
    cases origin with
    | quoted => rfl
    | literal => exact congrArg some hstar
    | value => exact congrArg some hstar

/-- Only a star outside of quotes shows as a wildcard. -/
theorem glyph?_eq_star_iff {x : Tagged} : x.glyph? = some .star ↔ x.isWildcard = true := by
  cases x with
  | quotedPart => simp [glyph?, isWildcard]
  | char origin c =>
    cases origin <;> simp [glyph?, isWildcard]

/-- A character that does not cut is put into the field that has begun. -/
theorem mark_eq_of_isCut_eq_false {x : Tagged} (h : x.isCut = false) :
    x = .quotedPart ∧ x.mark = .quote
      ∨ x ≠ .quotedPart ∧ ∃ g, x.glyph? = some g ∧ x.mark = .glyph g := by
  cases x with
  | quotedPart => exact .inl ⟨rfl, rfl⟩
  | char origin c =>
    refine .inr ⟨nofun, ?_⟩
    cases origin with
    | quoted => exact ⟨_, rfl, rfl⟩
    | literal => exact ⟨_, rfl, rfl⟩
    | value =>
      have hblank : Fragment.isSeparator c = false := h
      exact ⟨_, rfl, by rw [mark, hblank]; rfl⟩

/-- A blank outside of quotes cuts. -/
theorem mark_eq_of_isCut {x : Tagged} (h : x.isCut = true) : x.mark = .cut := by
  cases x with
  | quotedPart => cases h
  | char origin c =>
    cases origin with
    | quoted => cases h
    | literal => cases h
    | value => exact if_pos h

/-! ## Texts -/

theorem text_append (first second : List Tagged) :
    text (first ++ second) = text first ++ text second := by
  simp [text]

theorem filterMap_char?_map (origin : Origin) (chars : List Char) :
    (chars.map (Tagged.char origin)).filterMap char? = chars := by
  rw [List.filterMap_map]
  exact List.filterMap_some

/-- Tagging keeps the text. -/
theorem text_tagged (f : Fragment) : text f.tagged = f.text := by
  obtain ⟨origin, s⟩ := f
  cases origin with
  | quoted =>
    rw [Fragment.tagged, text, List.filterMap_cons_none (show char? .quotedPart = none from rfl),
      filterMap_char?_map, String.ofList_toList]
  | literal => rw [Fragment.tagged, text, filterMap_char?_map, String.ofList_toList]
  | value => rw [Fragment.tagged, text, filterMap_char?_map, String.ofList_toList]

/-- It keeps that of several fragments, too. -/
theorem text_flatMap_tagged (fs : List Fragment) :
    text (fs.flatMap Fragment.tagged) = Fragment.join fs := by
  induction fs with
  | nil => rfl
  | cons f fs ih =>
    rw [List.flatMap_cons, text_append, text_tagged, ih, Fragment.join, Fragment.join,
      List.map_cons, String.join_cons]

/-! ## Pieces -/

/-- Where nothing cuts there is one piece, or none if there is nothing. -/
theorem pieces_of_forall_isCut_eq_false (h : ∀ x ∈ piece, x.isCut = false) :
    pieces piece = if piece = [] then [] else [piece] := by
  rw [pieces, List.splitOnP_eq_singleton h]
  by_cases hnil : piece = []
  · simp [hnil]
  · simp [hnil]

/-- A cut parts what is before it from what is behind. -/
theorem pieces_append_cons (first : List Tagged) {x : Tagged} (hx : x.isCut = true)
    (rest : List Tagged) : pieces (first ++ x :: rest) = pieces first ++ pieces rest := by
  rw [pieces, List.splitOnP_append_cons first rest hx, List.filter_append]
  rfl

theorem pieces_cons_of_isCut {x : Tagged} (hx : x.isCut = true) (rest : List Tagged) :
    pieces (x :: rest) = pieces rest :=
  pieces_append_cons [] hx rest

/-- Without a cut in front, a character goes into the first piece. -/
theorem splitOnP_cons_of_not_isCut {x : Tagged} (hx : x.isCut = false) (rest : List Tagged) :
    ∃ first more, rest.splitOnP isCut = first :: more
      ∧ (x :: rest).splitOnP isCut = (x :: first) :: more := by
  obtain ⟨first, more, hrest⟩ := List.exists_cons_of_ne_nil (List.splitOnP_ne_nil isCut rest)
  refine ⟨first, more, hrest, ?_⟩
  rw [List.splitOnP_cons_eq_if_modifyHead, hx, hrest]
  rfl

/-- Nothing is left exactly of cuts. -/
theorem pieces_eq_nil_iff : pieces stream = [] ↔ ∀ x ∈ stream, x.isCut = true := by
  induction stream with
  | nil => simp [pieces]
  | cons x rest ih =>
    rw [List.forall_mem_cons]
    cases hx : x.isCut with
    | true => simpa [pieces_cons_of_isCut hx] using ih
    | false =>
      obtain ⟨first, more, -, hcons⟩ := splitOnP_cons_of_not_isCut hx rest
      simp [pieces, hcons]

/-- Pieces are made of what is there. -/
theorem subset_of_mem_pieces (h : piece ∈ pieces stream) : piece ⊆ stream := by
  have hsplit : ∀ l ∈ stream.splitOnP isCut, l ⊆ stream := by
    clear h
    induction stream with
    | nil => simp
    | cons x rest ih =>
      intro l hl
      cases hx : x.isCut with
      | true =>
        rw [List.splitOnP_cons_eq_if_modifyHead, if_pos hx] at hl
        rcases List.mem_cons.1 hl with rfl | hl
        · exact List.nil_subset _
        · exact List.subset_cons_of_subset x (ih l hl)
      | false =>
        obtain ⟨first, more, hrest, hcons⟩ := splitOnP_cons_of_not_isCut hx rest
        rw [hcons] at hl
        rw [hrest, List.forall_mem_cons] at ih
        rcases List.mem_cons.1 hl with rfl | hl
        · exact List.cons_subset_cons x ih.1
        · exact List.subset_cons_of_subset x (ih.2 l hl)
  exact hsplit piece (List.mem_of_mem_filter h)

/-! ## Pieces as fields -/

/-- The field of a piece. -/
def toField (piece : List Tagged) : Field :=
  ⟨decide (.quotedPart ∈ piece), piece.filterMap glyph?⟩

/-- One more character makes the field longer, or only says that it is quoted. -/
theorem toField_concat (begun : List Tagged) (x : Tagged) : toField (begun ++ [x])
    = ⟨(toField begun).quoted || x = .quotedPart, (toField begun).glyphs ++ x.glyph?.toList⟩ := by
  cases hglyph : x.glyph? <;> simp [toField, hglyph, eq_comm]

/-- A piece shows as a field with the same text. -/
theorem text_toField (piece : List Tagged) : (toField piece).text = text piece := by
  rw [Field.text, Wildcard.text, toField, text, List.map_filterMap]
  simp only [map_toChar_glyph?]

/-- The field has a wildcard if the piece does. -/
theorem hasWildcard_toField : (toField piece).hasWildcard = piece.any isWildcard := by
  rw [Bool.eq_iff_iff, toField, Field.hasWildcard, List.contains_iff_mem, List.mem_filterMap,
    List.any_eq_true]
  simp only [glyph?_eq_star_iff]

/-- What has been read of a field begins one exactly if it is not empty. -/
theorem ofNewest?_toField (piece : List Tagged) :
    Field.ofNewest? (toField piece).quoted (toField piece).glyphs.reverse
      = if piece = [] then none else some (toField piece) := by
  have hbegun : ((toField piece).quoted || !(toField piece).glyphs.reverse.isEmpty) = true
      ↔ piece ≠ [] := by
    cases piece with
    | nil => simp [toField]
    | cons x rest =>
      cases x with
      | quotedPart => simp [toField]
      | char origin c => cases origin <;> simp [toField, glyph?]
  rw [Field.ofNewest?, List.reverse_reverse]
  split
  · next h => rw [if_neg (hbegun.1 h)]
  · next h => rw [if_pos (not_not.1 (mt hbegun.2 h))]

/-- The reader of marks finds the pieces. By induction on what is left to read; what has been read of
a field is the piece that has begun. -/
theorem cut_map_mark (done : List Field) (hbegun : ∀ x ∈ begun, x.isCut = false)
    (stream : List Tagged) :
    Field.cut done (toField begun).quoted (toField begun).glyphs.reverse (stream.map mark)
      = done.reverse ++ (pieces (begun ++ stream)).map toField := by
  induction stream generalizing done begun with
  | nil =>
    rw [List.append_nil, pieces_of_forall_isCut_eq_false hbegun, List.map_nil, Field.cut,
      ofNewest?_toField]
    split <;> simp
  | cons x rest ih =>
    rw [List.map_cons]
    cases hx : x.isCut with
    | true =>
      -- a separator ends the field that was begun, if there is one
      have hempty : Field.cut ((if begun = [] then none else some (toField begun)).toList ++ done)
          false [] (rest.map mark) = _ := ih _ (List.forall_mem_nil _)
      rw [mark_eq_of_isCut hx, Field.cut, ofNewest?_toField, hempty, pieces_append_cons begun hx,
        pieces_of_forall_isCut_eq_false hbegun, List.nil_append]
      split <;> simp
    | false =>
      -- the field goes on with one more character
      have hlonger : ∀ y ∈ begun ++ [x], y.isCut = false := by
        intro y hy
        rcases List.mem_append.1 hy with hy | hy
        · exact hbegun y hy
        · exact List.mem_singleton.1 hy ▸ hx
      rw [List.append_cons, ← ih done hlonger, toField_concat]
      obtain ⟨rfl, hmark⟩ | ⟨hne, g, hglyph, hmark⟩ := mark_eq_of_isCut_eq_false hx
      · rw [hmark, Field.cut]
        simp [glyph?]
      · rw [hmark, Field.cut]
        simp [hglyph, hne]

end Tagged

/-- The fields of fragments are the pieces of their characters. -/
theorem Field.ofFragments_eq (fs : List Fragment) :
    ofFragments fs = (Tagged.pieces (fs.flatMap Fragment.tagged)).map Tagged.toField := by
  have hmarks : fs.flatMap Fragment.marks = (fs.flatMap Fragment.tagged).map Tagged.mark := by
    rw [List.map_flatMap]
    simp only [Tagged.map_mark_tagged]
  rw [ofFragments, hmarks]
  exact Tagged.cut_map_mark [] (List.forall_mem_nil _) _

/-! ## Words -/

namespace Expand

variable {W : Type} (ctx : ExpandContext W) (w : Word) (e : Expanding W)

/-- The characters of a word that is neither cut nor matched, each with where it comes from. -/
def tagged : ExpandM W (List Tagged) :=
  return (← fragments ctx w).flatMap Fragment.tagged

/-- Without the tags they are the text that the word stands for. -/
theorem toText_eq_tagged : toText ctx w = (do return Tagged.text (← tagged ctx w)) := by
  simp [toText, tagged, Tagged.text_flatMap_tagged]

/-- A quoted part is one quoted fragment. -/
theorem exists_of_quoted_part {p : WordPart} (hquote : p.quote ≠ .none) {fs : List Fragment}
    {e e' : Expanding W} (h : part ctx p e = (.ok fs, e')) : ∃ text, fs = [⟨.quoted, text⟩] := by
  obtain ⟨quote, text⟩ := p
  cases quote with
  | none => exact absurd rfl hquote
  | single =>
    cases h
    exact ⟨_, rfl⟩
  | double =>
    obtain ⟨_, _, -, hlast⟩ := exists_of_bind_apply_ok h
    cases hlast
    exact ⟨_, rfl⟩

/-- So is each of its quoted parts for a whole word. -/
theorem quotedPart_mem_of_parts {ps : List WordPart} {fss : List (List Fragment)}
    {e e' : Expanding W} (h : ps.mapM (part ctx) e = (.ok fss, e')) {p : WordPart} (hp : p ∈ ps)
    (hquote : p.quote ≠ .none) : .quotedPart ∈ fss.flatten.flatMap Fragment.tagged := by
  induction ps generalizing fss e with
  | nil => cases hp
  | cons q rest ih =>
    rw [List.mapM_cons] at h
    obtain ⟨fs, mid, hq, hrest⟩ := exists_of_bind_apply_ok h
    obtain ⟨more, last, hmore, hall⟩ := exists_of_bind_apply_ok hrest
    cases hall
    rw [List.flatten_cons, List.flatMap_append, List.mem_append]
    rcases List.mem_cons.1 hp with rfl | hp
    · obtain ⟨text, rfl⟩ := exists_of_quoted_part ctx hquote hq
      exact .inl (by simp [Fragment.tagged])
    · exact .inr (ih hmore hp)

/-- A word of quoted parts alone is quoted fragments alone. -/
theorem exists_of_quoted_parts {ps : List WordPart} (hquote : ∀ p ∈ ps, p.quote ≠ .none)
    {fss : List (List Fragment)} {e e' : Expanding W} (h : ps.mapM (part ctx) e = (.ok fss, e')) :
    ∃ texts : List String, texts.length = ps.length ∧ fss.flatten = texts.map (⟨.quoted, ·⟩) := by
  induction ps generalizing fss e with
  | nil =>
    cases h
    exact ⟨[], rfl, rfl⟩
  | cons p rest ih =>
    rw [List.forall_mem_cons] at hquote
    rw [List.mapM_cons] at h
    obtain ⟨fs, mid, hp, hrest⟩ := exists_of_bind_apply_ok h
    obtain ⟨more, last, hmore, hall⟩ := exists_of_bind_apply_ok hrest
    cases hall
    obtain ⟨text, rfl⟩ := exists_of_quoted_part ctx hquote.1 hp
    obtain ⟨texts, hlength, hflat⟩ := ih hquote.2 hmore
    exact ⟨text :: texts, congrArg (· + 1) hlength, congrArg (_ :: ·) hflat⟩

variable [Workspace W]

/-- Matching names does not fail, and a field stands for something. -/
theorem exists_field (cwd : String) (f : Field) (e : Expanding W) :
    ∃ names e', field cwd f e = (.ok names, e') ∧ names ≠ [] := by
  unfold field
  split
  · exact ⟨_, _, rfl, List.cons_ne_nil _ _⟩
  · have hnames : ∀ names : List String, (if names.isEmpty then [f.text] else names) ≠ [] := by
      intro names
      cases names <;> simp
    exact ⟨_, _, rfl, hnames _⟩

/-- Fields never fail, and each of them gives some name. -/
theorem exists_mapM_field (cwd : String) (fs : List Field) (e : Expanding W) :
    ∃ names e', fs.mapM (field cwd) e = (.ok names, e') ∧ (fs ≠ [] → names.flatten ≠ []) := by
  induction fs generalizing e with
  | nil => exact ⟨_, _, rfl, absurd rfl⟩
  | cons f rest ih =>
    obtain ⟨first, mid, hfirst, hne⟩ := exists_field cwd f e
    obtain ⟨more, last, hmore, -⟩ := ih mid
    refine ⟨first :: more, last, ?_, fun _ hnil => hne (List.append_eq_nil_iff.1 hnil).1⟩
    rw [List.mapM_cons, bind_apply_ok hfirst, bind_apply_ok hmore]
    rfl

/-- A word stands for what the pieces of its characters stand for. -/
theorem word_eq_tagged : word ctx w = (do
    let stream ← tagged ctx w
    return (← ((Tagged.pieces stream).map Tagged.toField).mapM (field ctx.state.cwd)).flatten) := by
  simp [word, tagged, Field.ofFragments_eq]

/-- Pieces without wildcards stand for their texts. -/
theorem mapM_field_apply (cwd : String) {ps : List (List Tagged)}
    (h : ∀ piece ∈ ps, ∀ x ∈ piece, x.isWildcard = false) (e : Expanding W) :
    (ps.map Tagged.toField).mapM (field cwd) e = (.ok (ps.map ([Tagged.text ·])), e) := by
  have hfield : ∀ f ∈ ps.map Tagged.toField, field cwd f e = (.ok [f.text], e) := by
    intro f hf
    obtain ⟨piece, hpiece, rfl⟩ := List.mem_map.1 hf
    have hplain : (Tagged.toField piece).hasWildcard = false := by
      rw [Tagged.hasWildcard_toField, List.any_eq_false]
      exact fun x hx => Bool.eq_false_iff.1 (h piece hpiece x hx)
    rw [field, hplain]
    rfl
  rw [mapM_apply_ok hfield, List.map_map]
  simp only [Function.comp_def, Tagged.text_toField]

/-- Reading a word as one text and cutting it into fields fail alike. Where they succeed and no star
is left to match, the fields are the text cut at the blanks of unquoted values, without the pieces
that have neither a character nor a quoted part. So quoted parts alone are one field, one of them is
enough for a field, and unquoted values that are blank are none. -/
theorem word_cuts_text :
    match tagged ctx w e with
    | (.error error, e') =>
      toText ctx w e = (.error error, e') ∧ word ctx w e = (.error error, e')
    | (.ok stream, e') =>
      toText ctx w e = (.ok (Tagged.text stream), e')
        ∧ ((∀ x ∈ stream, x.isWildcard = false) →
          word ctx w e = (.ok ((Tagged.pieces stream).map Tagged.text), e'))
        ∧ (w.parts ≠ [] → (∀ p ∈ w.parts, p.quote ≠ .none) →
          word ctx w e = (.ok [Tagged.text stream], e'))
        ∧ ((∀ x ∈ stream, x.isCut = true) → word ctx w e = (.ok [], e'))
        ∧ ∃ fields e'', word ctx w e = (.ok fields, e'')
          ∧ ((∃ p ∈ w.parts, p.quote ≠ .none) → fields ≠ []) := by
  have htext := congrFun (toText_eq_tagged ctx w) e
  have hword := congrFun (word_eq_tagged ctx w) e
  rcases hstream : tagged ctx w e with ⟨error | stream, e'⟩
  · exact ⟨htext.trans (bind_apply_error hstream), hword.trans (bind_apply_error hstream)⟩
  rw [bind_apply_ok hstream] at htext hword
  obtain ⟨fs, mid, hfragments, hlast⟩ := exists_of_bind_apply_ok hstream
  obtain ⟨fss, mid', hparts, hflat⟩ := exists_of_bind_apply_ok hfragments
  cases hlast
  cases hflat
  refine ⟨htext, fun hplain => ?_, fun hne hquote => ?_, fun hcut => ?_, ?_⟩
  · have hpieces : ∀ piece ∈ Tagged.pieces (fss.flatten.flatMap Fragment.tagged), ∀ x ∈ piece,
        x.isWildcard = false :=
      fun piece hpiece x hx => hplain x (Tagged.subset_of_mem_pieces hpiece hx)
    rw [hword, bind_apply_ok (mapM_field_apply _ hpieces e'), ← List.flatMap_def,
      ← List.map_eq_flatMap]
    rfl
  · obtain ⟨texts, hlength, htexts⟩ := exists_of_quoted_parts ctx hquote hparts
    have hsome : texts ≠ [] := by
      rw [← List.length_pos_iff, hlength]
      exact List.length_pos_iff.2 hne
    rw [htexts] at hfragments ⊢
    rw [word_of_quoted_fragments ctx e texts hfragments hsome, Tagged.text_flatMap_tagged,
      Fragment.join, List.map_map]
    exact congrArg (fun l => (Except.ok [String.join l], e')) (List.map_id' texts).symm
  · rw [hword, Tagged.pieces_eq_nil_iff.2 hcut]
    rfl
  · obtain ⟨names, last, hnames, hne⟩ := exists_mapM_field ctx.state.cwd
      ((Tagged.pieces (fss.flatten.flatMap Fragment.tagged)).map Tagged.toField) e'
    refine ⟨names.flatten, last, by rw [hword, bind_apply_ok hnames]; rfl, ?_⟩
    rintro ⟨p, hp, hquote⟩
    refine hne fun hnil => ?_
    -- a quoted part is no cut, so there is a piece
    have hmem := quotedPart_mem_of_parts ctx hparts hp hquote
    have hcut := Tagged.pieces_eq_nil_iff.1 (List.map_eq_nil_iff.1 hnil) _ hmem
    cases hcut

/-- The word `a$X"d *"` where `X` is ` b  c `. -/
def mixed : Word := ⟨[⟨.none, "a$X"⟩, ⟨.double, "d *"⟩]⟩

def seesBlanks : ExpandContext Tree where
  state := { vars := (∅ : Environment).insert "X" " b  c " }
  substitute _ := return ""

/-- Blanks of a value cut where it stands bare; those in quotes do not. -/
theorem word_cuts_text_mixed : ∃ stream e',
    tagged seesBlanks mixed ⟨Tree.empty, []⟩ = (.ok stream, e')
      ∧ (∀ x ∈ stream, x.isWildcard = false)
      ∧ word seesBlanks mixed ⟨Tree.empty, []⟩ = (.ok ["a", "b", "c", "d *"], e') := by
  have h := word_cuts_text seesBlanks mixed ⟨Tree.empty, []⟩
  have hstream : (tagged seesBlanks mixed ⟨Tree.empty, []⟩).1 = .ok (
      .char .literal 'a' :: " b  c ".toList.map (.char .value)
        ++ .quotedPart :: "d *".toList.map (.char .quoted)) := by
    decide +kernel
  rcases hrun : tagged seesBlanks mixed ⟨Tree.empty, []⟩ with ⟨result, e'⟩
  rw [hrun] at h hstream
  subst hstream
  have hplain : ∀ x ∈ .char .literal 'a' :: " b  c ".toList.map (Tagged.char .value)
      ++ .quotedPart :: "d *".toList.map (.char .quoted), x.isWildcard = false := by decide +kernel
  exact ⟨_, e', rfl, hplain, h.2.1 hplain⟩

end Expand

end Sandshell
