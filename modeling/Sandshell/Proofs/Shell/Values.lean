import Sandshell.Proofs.Shell.Fields
import Sandshell.Proofs.Shell.Frame
import Sandshell.Proofs.Shell.Parameters
import Sandshell.Workspace.Rooted

/-!
# Values are data

What a parameter holds is put in place of its form and is not read again. Between double quotes it
is part of one field, whatever characters it holds; outside quotes it is cut at its blanks. No
script in it runs, and no other parameter that it spells is asked for.
-/

namespace Sandshell

/-- What a parameter stands for: nothing where it has no value. -/
def Parameter.text (p : Parameter) (state : ShellState) : String :=
  (p.value? state).getD ""

/-- What stands between the blanks of a text. -/
def Text.unblanked (text : String) : List String :=
  ((text.toList.splitOnP Fragment.isSeparator).filter (· ≠ [])).map String.ofList

/-- The field of a text that is not quoted. -/
def Field.unquoted (text : String) : Field :=
  ⟨false, text.toList.map fun c => if c = '*' then .star else .char c⟩

/-- Looking at a workspace leaves it as it is. -/
def Workspace.StaysWhenSeen (W : Type) [Workspace W] : Prop :=
  ∀ {w w' : W}, Peeks w w' → w' = w

/-- Where looking leaves a workspace as it is, so does looking many times. -/
theorem Workspace.StaysWhenSeen.eq {W : Type} [Workspace W] (h : StaysWhenSeen W) {w w' : W}
    (hlooked : Relation.ReflTransGen Peeks w w') : w' = w := by
  induction hlooked with
  | refl => rfl
  | tail _ hpeeks ih => exact (h hpeeks).trans ih

theorem Tree.staysWhenSeen : Workspace.StaysWhenSeen Tree := by
  rintro w _ (_ | _ | _) <;> rfl

theorem Rooted.staysWhenSeen : Workspace.StaysWhenSeen Rooted := by
  rintro w _ (_ | _ | _) <;> rfl

/-- Any call may look at a workspace. -/
def Workspace.Terms.looking {W : Type} [Workspace W] (w : W) : Terms W where
  holds := Relation.ReflTransGen Peeks w
  fails _ := Relation.ReflTransGen Peeks w
  path _ := True
  name _ := True
  writes := False
  endless := True

/-- Looking asks for no more than leave to look. -/
theorem Workspace.Terms.looking_sound {W : Type} [Workspace W] (w : W) : (looking w).Sound where
  root := trivial
  resolve _ _ := trivial
  enter _ _ := trivial
  leave _ := trivial
  segment _ _ _ _ := trivial
  read _ := Invariant.keeps_steady_iff.2 fun w' hw => hw.tail (.read _ w')
  stat _ := Invariant.keeps_steady_iff.2 fun w' hw => hw.tail (.stat _ w')
  list _ := (Invariant.keeps_steady_iff.2 fun w' hw => hw.tail (.list _ w')).imp fun _ _ _ _ => trivial
  search _ _ := trivial

/-! ## Cutting a value -/

/-- Cutting a list commutes with changing its members. -/
theorem List.splitOnP_map {α β : Type} (f : α → β) (p : β → Bool) (l : List α) :
    (l.map f).splitOnP p = (l.splitOnP (p ∘ f)).map (·.map f) := by
  induction l with
  | nil => rfl
  | cons a rest ih =>
    rw [List.map_cons, List.splitOnP_cons_eq_if_modifyHead, List.splitOnP_cons_eq_if_modifyHead, ih,
      Function.comp_apply]
    split
    · rfl
    · cases rest.splitOnP (p ∘ f) <;> rfl

/-- The pieces of an unquoted value stand between its blanks. -/
theorem Tagged.pieces_map_value (chars : List Char) : pieces (chars.map (.char .value))
    = ((chars.splitOnP Fragment.isSeparator).filter (· ≠ [])).map (·.map (.char .value)) := by
  have hcut : isCut ∘ Tagged.char .value = Fragment.isSeparator := rfl
  rw [pieces, List.splitOnP_map, hcut, List.filter_map]
  simp [Function.comp_def]

theorem Tagged.toField_map_value (chars : List Char) :
    toField (chars.map (.char .value)) = .unquoted (String.ofList chars) := by
  simp [toField, Field.unquoted, glyph?, List.filterMap_map, Function.comp_def]

namespace Field

/-- A bare value falls apart at blanks. -/
theorem ofFragments_value (text : String) :
    ofFragments [⟨.value, text⟩] = (Text.unblanked text).map unquoted := by
  rw [ofFragments_eq, List.flatMap_singleton]
  show (Tagged.pieces (text.toList.map (.char .value))).map _ = _
  rw [Tagged.pieces_map_value, Text.unblanked, List.map_map, List.map_map]
  exact List.map_congr_left fun chars _ => Tagged.toField_map_value chars

theorem text_unquoted (text : String) : (unquoted text).text = text := by
  have h := Tagged.text_toField (text.toList.map (.char .value))
  rwa [Tagged.toField_map_value, Tagged.text, Tagged.filterMap_char?_map, String.ofList_toList] at h

/-- A star in a value is a wildcard. -/
theorem hasWildcard_unquoted {text : String} :
    (unquoted text).hasWildcard = true ↔ '*' ∈ text.toList := by
  simp [hasWildcard, unquoted]

end Field

/-- A piece between blanks has no characters of its own. -/
theorem Text.mem_of_mem_unblanked {text piece : String} (h : piece ∈ unblanked text) {c : Char}
    (hc : c ∈ piece.toList) : c ∈ text.toList := by
  obtain ⟨chars, hchars, rfl⟩ := List.mem_map.1 h
  have hpiece : chars.map (.char .value) ∈ Tagged.pieces (text.toList.map (.char .value)) := by
    rw [Tagged.pieces_map_value]
    exact List.mem_map_of_mem hchars
  rw [String.toList_ofList] at hc
  simpa using Tagged.subset_of_mem_pieces hpiece (List.mem_map_of_mem hc)

/-! ## Texts of fragments -/

namespace Fragment

theorem join_append (fs gs : List Fragment) : join (fs ++ gs) = join fs ++ join gs := by
  simp [join, String.join_append]

theorem join_cons (f : Fragment) (fs : List Fragment) : join (f :: fs) = f.text ++ join fs := by
  simp [join]

/-- The fragments of characters that stand for themselves. -/
theorem join_literals (chars : List Char) :
    join (chars.map fun c => ⟨.literal, String.singleton c⟩) = String.ofList chars := by
  induction chars with
  | nil => rfl
  | cons c rest ih => rw [List.map_cons, join_cons, ih, String.ofList_cons]

end Fragment

/-! ## Expanding -/

namespace Expand

variable {W : Type} (ctx : ExpandContext W) (e : Expanding W)

/-- Pieces are expanded one after the other. -/
theorem pieces_append (ps qs : List Piece) : pieces ctx (ps ++ qs) = (do
    return (← pieces ctx ps) ++ (← pieces ctx qs)) := by
  induction ps with
  | nil => simp [pieces]
  | cons p rest ih => simp [pieces, ih]

/-- Pieces are expanded from left to right. -/
theorem pieces_append_ok {ps qs : List Piece} {fs gs : List Fragment} {e mid e' : Expanding W}
    (hps : pieces ctx ps e = (.ok fs, mid)) (hqs : pieces ctx qs mid = (.ok gs, e')) :
    pieces ctx (ps ++ qs) e = (.ok (fs ++ gs), e') := by
  rw [pieces_append, bind_apply_ok hps, bind_apply_ok hqs]
  rfl

theorem pieces_parameter (p : Parameter) :
    pieces ctx [.parameter p] e = (.ok [⟨.value, p.text ctx.state⟩], e) :=
  rfl

/-- The fields that a word is cut into, before they are matched against names. -/
def fields (w : Word) : ExpandM W (List Field) :=
  return Field.ofFragments (← fragments ctx w)

/-- A word is cut into fields before their names are looked up. -/
theorem word_eq_fields [Workspace W] (w : Word) : word ctx w = (do
    return (← (← fields ctx w).mapM (field ctx.state.cwd)).flatten) := by
  simp [word, fields]

/-- Double quotes make one fragment of all pieces. -/
theorem fragments_doubleQuotes (text : String) : fragments ctx (DoubleQuotes.word text) = (do
    return [⟨.quoted, Fragment.join (← pieces ctx (Piece.scan text.toList))⟩]) := by
  simp [fragments, DoubleQuotes.word, part]

variable {p : Parameter} {name form before after : String}

/-- A parameter between braces is put in place of its form; the texts around it stay. -/
theorem pieces_around (hname : Parameter.ofName? name.toList = some p) (hbefore : '$' ∉ before.toList)
    (hafter : '$' ∉ after.toList) :
    ∃ fs, pieces ctx (Piece.scan (before ++ Parameter.braced name ++ after).toList) e = (.ok fs, e)
      ∧ Fragment.join fs = before ++ p.text ctx.state ++ after := by
  have hrest : Piece.scan after.toList = after.toList.map .char := by
    have happend := Piece.scan_append hafter []
    rwa [List.append_nil, Piece.scan, List.append_nil] at happend
  have hscan : Piece.scan (before ++ Parameter.braced name ++ after).toList
      = before.toList.map .char ++ ([.parameter p] ++ after.toList.map .char) := by
    rw [String.toList_append, String.toList_append, List.append_assoc, Piece.scan_append hbefore,
      Parameter.toList_braced]
    simp [Piece.scan_braced hname, hrest]
  rw [hscan]
  refine ⟨_, pieces_append_ok ctx (pieces_chars ctx e _)
    (pieces_append_ok ctx (pieces_parameter ctx e p) (pieces_chars ctx e _)), ?_⟩
  rw [Fragment.join_append, Fragment.join_append, Fragment.join_literals, Fragment.join_literals,
    String.ofList_toList, String.ofList_toList, String.append_assoc]
  simp [Fragment.join]

/-- A bare parameter gives the pieces of its value. -/
theorem fields_bare (hform : p.IsAskedBy form) : fields ctx (.bare form) e
    = (.ok ((Text.unblanked (p.text ctx.state)).map Field.unquoted), e) := by
  have hfragments : fragments ctx (.bare form) e = (.ok [⟨.value, p.text ctx.state⟩], e) := by
    rw [fragments_bare, Piece.scan_of_isAskedBy hform]
    exact pieces_parameter ctx e p
  rw [fields, bind_apply_ok hfragments, Field.ofFragments_value]
  rfl

variable [Workspace W]

/-- Nothing has been done to the workspace but to look at it, and nothing has been reported. -/
structure Looked (e e' : Expanding W) : Prop where
  workspace : Relation.ReflTransGen Workspace.Peeks e.workspace e'.workspace
  diagnostics : e'.diagnostics = e.diagnostics

/-- Looking leaves the expansion as it is, where it leaves the workspace. -/
theorem Looked.eq {e e' : Expanding W} (h : Looked e e') (hstays : Workspace.StaysWhenSeen W) :
    e' = e := by
  have hworkspace := hstays.eq h.workspace
  have hdiagnostics := h.diagnostics
  cases e
  cases e'
  simp_all

/-- A text between double quotes stands for one field. -/
theorem word_doubleQuotes (text : String) : word ctx (DoubleQuotes.word text) = (do
    return [Fragment.join (← pieces ctx (Piece.scan text.toList))]) := by
  funext e
  have hfragments := congrFun (fragments_doubleQuotes ctx text) e
  rcases hpieces : pieces ctx (Piece.scan text.toList) e with ⟨error | fs, e'⟩
  · rw [bind_apply_error hpieces] at hfragments ⊢
    exact bind_apply_error hfragments
  · rw [bind_apply_ok hpieces] at hfragments ⊢
    rw [word_of_quoted_fragments ctx e [Fragment.join fs] hfragments (List.cons_ne_nil _ _),
      String.join_cons, String.join_nil, String.append_empty]
    rfl

/-- In double quotes a value stands as it is between the texts around it. -/
theorem word_around (hname : Parameter.ofName? name.toList = some p) (hbefore : '$' ∉ before.toList)
    (hafter : '$' ∉ after.toList) :
    word ctx (DoubleQuotes.word (before ++ Parameter.braced name ++ after)) e
      = (.ok [before ++ p.text ctx.state ++ after], e) := by
  obtain ⟨fs, hfs, hjoin⟩ := pieces_around ctx e hname hbefore hafter
  rw [word_doubleQuotes, bind_apply_ok hfs, hjoin]
  rfl

/-- Without a star the fields stand for their texts. -/
theorem word_bare (hform : p.IsAskedBy form) (hstar : '*' ∉ (p.text ctx.state).toList) :
    word ctx (.bare form) e = (.ok (Text.unblanked (p.text ctx.state)), e) := by
  have hfield : ∀ f ∈ (Text.unblanked (p.text ctx.state)).map Field.unquoted,
      field ctx.state.cwd f e = (.ok [f.text], e) := by
    intro f hf
    obtain ⟨piece, hpiece, rfl⟩ := List.mem_map.1 hf
    have hplain : (Field.unquoted piece).hasWildcard = false := by
      rw [Bool.eq_false_iff, ne_eq, Field.hasWildcard_unquoted]
      exact fun hmem => hstar (Text.mem_of_mem_unblanked hpiece hmem)
    rw [field, hplain]
    rfl
  rw [word_eq_fields, bind_apply_ok (fields_bare ctx e hform), bind_apply_ok (mapM_apply_ok hfield),
    List.map_map, ← List.flatMap_def]
  simp [Function.comp_def, Field.text_unquoted]
  rfl

/-- Matching a field does nothing but look at the workspace. -/
theorem keeps_field_looked (cwd : String) (f : Field) :
    (Invariant.steady (Looked e)).Keeps (field cwd f) fun _ => True := by
  refine Invariant.keeps_steady_iff.2 fun mid hmid => ⟨?_, ?_⟩
  · unfold field
    split
    · exact hmid.workspace
    · have hsound : (Workspace.Terms.looking e.workspace).Sound := Workspace.Terms.looking_sound _
      exact (hsound.sustains_expand trivial f.glyphs mid.workspace hmid.workspace).1
  · exact (Law.obeys_along_iff.1 (silent_field cwd f) mid).trans hmid.diagnostics

/-- Expansion of an unquoted parameter does nothing but look at the workspace. -/
theorem looked_of_word_bare (hform : p.IsAskedBy form) : Looked e (word ctx (.bare form) e).2 := by
  have hmatch := (Invariant.Keeps.mapM_silent
    (l := (Text.unblanked (p.text ctx.state)).map Field.unquoted)
    fun f _ => keeps_field_looked e ctx.state.cwd f)
  rw [word_eq_fields, bind_apply_ok (fields_bare ctx e hform), bind_pure_apply_snd]
  exact Invariant.keeps_steady_iff.1 hmatch e ⟨.refl, rfl⟩

end Expand

/-! ## Data -/

/-- Stands for itself between double quotes, and opens no form. -/
def DoubleQuotes.IsLiteral (text : List Char) : Prop :=
  IsPlain text ∧ '$' ∉ text

instance (text : List Char) : Decidable (DoubleQuotes.IsLiteral text) :=
  inferInstanceAs (Decidable (_ ∧ _))

namespace DoubleQuotes

variable {p : Parameter} {name before after : String}

theorem isPlain_append {text rest : List Char} :
    IsPlain (text ++ rest) ↔ IsPlain text ∧ IsPlain rest := by
  simp only [IsPlain, List.mem_append, not_or]
  exact and_and_and_comm

/-- So the form is scanned as one word. -/
theorem scan_around (hname : Parameter.ofName? name.toList = some p)
    (hbefore : IsLiteral before.toList) (hafter : IsLiteral after.toList) :
    Token.scan (quoted (before ++ Parameter.braced name ++ after))
      = .ok [.word (word (before ++ Parameter.braced name ++ after))] := by
  have hletters : ∀ {c}, Parameter.isNameChar c = false → c ∉ name.toList :=
    fun hc => Parameter.not_mem_of_ofName? hname hc
  refine scan_quoted ?_ ?_
  · rw [String.toList_append, String.toList_append, Parameter.toList_braced, isPlain_append,
      isPlain_append]
    refine ⟨⟨hbefore.1, ?_⟩, hafter.1⟩
    simp [IsPlain, hletters (c := '"') (by decide), hletters (c := '\\') (by decide)]
  · have hform : (Parameter.braced name).toList ++ after.toList
        = '$' :: '{' :: (name.toList ++ '}' :: after.toList) := by
      simp [Parameter.toList_braced]
    rw [String.toList_append, String.toList_append, List.append_assoc,
      Form.allClosed_append_iff hbefore.2, hform]
    refine ⟨fun _ => ?_, Form.allClosed_of_not_mem ?_⟩
    · rw [Form.isClosed, Form.splitAtBrace_append_cons (hletters (c := '}') (by decide))]
      rfl
    · simp [hletters (c := '$') (by decide), hafter.2]

end DoubleQuotes

namespace Expand

/-- The value of a parameter is data. Between double quotes it is put in place of its form, and with
the text around it makes one field. Outside quotes it is cut at its blanks, and the pieces are
matched against names. No script is run, the workspace is at most looked at, and nothing else that
the state holds plays a part. -/
theorem values_are_data {p : Parameter} {name before after form : String}
    (hname : Parameter.ofName? name.toList = some p)
    (hbefore : DoubleQuotes.IsLiteral before.toList) (hafter : DoubleQuotes.IsLiteral after.toList)
    (hform : p.IsAskedBy form) :
    let text := before ++ Parameter.braced name ++ after
    Token.scan (DoubleQuotes.quoted text) = .ok [.word (DoubleQuotes.word text)]
      ∧ Token.scan form = .ok [.word (.bare form)]
      ∧ ∀ (W : Type) [Workspace W] (ctx : ExpandContext W) (e : Expanding W),
        let value := p.text ctx.state
        word ctx (DoubleQuotes.word text) e = (.ok [before ++ value ++ after], e)
          ∧ fields ctx (.bare form) e = (.ok ((Text.unblanked value).map Field.unquoted), e)
          ∧ ('*' ∉ value.toList → word ctx (.bare form) e = (.ok (Text.unblanked value), e))
          ∧ Looked e (word ctx (.bare form) e).2
          ∧ (Workspace.StaysWhenSeen W → (word ctx (.bare form) e).2 = e)
          ∧ ∀ ctx' : ExpandContext W, p.value? ctx'.state = p.value? ctx.state →
            word ctx' (DoubleQuotes.word text) e = word ctx (DoubleQuotes.word text) e
              ∧ fields ctx' (.bare form) e = fields ctx (.bare form) e
              ∧ (ctx'.state.cwd = ctx.state.cwd →
                word ctx' (.bare form) e = word ctx (.bare form) e) := by
  intro text
  refine ⟨DoubleQuotes.scan_around hname hbefore hafter, Token.scan_of_isAskedBy hform,
    fun W _ ctx e => ?_⟩
  have hquoted := fun ctx' => word_around ctx' e hname hbefore.2 hafter.2
  refine ⟨hquoted ctx, fields_bare ctx e hform, word_bare ctx e hform,
    looked_of_word_bare ctx e hform, (looked_of_word_bare ctx e hform).eq,
    fun ctx' hvalue => ?_⟩
  -- the value is all that either form sees of the state
  have hvalue : p.text ctx'.state = p.text ctx.state := congrArg (·.getD "") hvalue
  have hfields : fields ctx' (.bare form) e = fields ctx (.bare form) e := by
    rw [fields_bare ctx' e hform, fields_bare ctx e hform, hvalue]
  refine ⟨?_, hfields, fun hcwd => ?_⟩
  · rw [hquoted ctx', hquoted ctx, hvalue]
  · rw [word_eq_fields, word_eq_fields, hcwd]
    exact bind_apply_congr hfields

/-- What `X` holds spells other forms, quotes and operators. -/
def spellsForms : String :=
  "$(cat f)\t$\x7bY\x7d '\"`;\n"

/-- A state with this value of `X` and another value of `Y`. -/
def seesForms (other : String) : ExpandContext Tree where
  state := { vars := ((∅ : Environment).insert "Y" other).insert "X" spellsForms }
  substitute _ := return other

/-- A value that spells forms and quotes makes none: in quotes it stays as it is, and without them it
is only cut at blanks. On a host directory, too, nothing changes. -/
theorem values_are_data_forms :
    let e : Expanding Tree := ⟨Tree.empty, []⟩
    Token.scan "\"a$\x7bX\x7d b\"" = .ok [.word (DoubleQuotes.word "a$\x7bX\x7d b")]
      ∧ word (seesForms "1") (DoubleQuotes.word "a$\x7bX\x7d b") e
        = (.ok ["a" ++ spellsForms ++ " b"], e)
      ∧ word (seesForms "1") (.bare "$X") e = (.ok ["$(cat", "f)", "$\x7bY\x7d", "'\"`;"], e)
      ∧ word (seesForms "2") (.bare "$X") e = word (seesForms "1") (.bare "$X") e
      ∧ ∀ (ctx : ExpandContext Rooted) (e : Expanding Rooted), (word ctx (.bare "$X") e).2 = e := by
  have hform : (Parameter.variable "X").IsAskedBy ("$" ++ "X") :=
    .bare (by decide +kernel) (.inl (by decide +kernel))
  have h := @values_are_data (.variable "X") "X" "a" " b" "$X" (by decide +kernel) (by decide +kernel)
    (by decide +kernel) hform
  obtain ⟨hquoted, -, hexpand⟩ := h
  obtain ⟨hdouble, -, hbare, -, -, hother⟩ := hexpand Tree (seesForms "1") ⟨Tree.empty, []⟩
  have hvalue : ∀ other, (Parameter.variable "X").value? (seesForms other).state = some spellsForms := by
    intro other
    simp [Parameter.value?, ShellState.lookup, seesForms]
  have htext : (Parameter.variable "X").text (seesForms "1").state = spellsForms := by
    rw [Parameter.text, hvalue]
    rfl
  rw [htext] at hdouble hbare
  refine ⟨hquoted, hdouble, ?_, ?_, fun ctx e => ?_⟩
  · exact hbare (by decide +kernel)
  · exact (hother (seesForms "2") (by rw [hvalue, hvalue])).2.2 rfl
  · obtain ⟨-, -, -, -, hstays, -⟩ := hexpand Rooted ctx e
    exact hstays Rooted.staysWhenSeen

end Expand

end Sandshell
