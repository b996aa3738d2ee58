import Sandshell.Proofs.Script.Extent

/-!
# Text between double quotes

Text without quotes and backslashes whose forms are closed is read between double quotes as it
stands: it becomes one part of a word, and the quotes around it are the only ones that count.
-/

namespace Sandshell

/-! ## Closed forms -/

namespace Form

/-- Every form that begins in the text is closed in it. -/
def AllClosed : List Char → Prop
  | [] => True
  | c :: rest => (c = '$' → isClosed rest) ∧ AllClosed rest

instance decidableAllClosed : (text : List Char) → Decidable (AllClosed text)
  | [] => inferInstanceAs (Decidable True)
  | c :: rest =>
    have := decidableAllClosed rest
    inferInstanceAs (Decidable ((c = '$' → isClosed rest) ∧ AllClosed rest))

variable {text rest after : List Char}

/-- No form is opened by what follows a dollar sign. -/
def OpensNone (after : List Char) : Prop :=
  after.head? ≠ some '(' ∧ after.head? ≠ some '{'

/-- A closed form is taken alike whatever comes behind it, unless that makes a form of a lone dollar
sign. -/
theorem take_append_of_isClosed (hclosed : isClosed rest) (hafter : OpensNone after) :
    take (rest ++ after) = ((take rest).1, (take rest).2 ++ after) := by
  fun_cases take rest with
  | case1 rest inside left h => simp [take, splitAtParen_append _ _ _ after _ _ h]
  | case2 rest h => simp [isClosed, h] at hclosed
  | case3 rest inside left h => simp [take, splitAtBrace_append _ after _ _ h]
  | case4 rest h => simp [isClosed, h] at hclosed
  | case5 rest hparen hbrace =>
    cases rest with
    | nil =>
      rw [List.nil_append, take]
      · rintro more rfl
        exact hafter.1 rfl
      · rintro more rfl
        exact hafter.2 rfl
    | cons c rest =>
      rw [List.cons_append, take]
      · intro more h
        exact hparen rest (by rw [(List.cons.inj h).1])
      · intro more h
        exact hbrace rest (by rw [(List.cons.inj h).1])

/-- A closed form stays closed before a text that opens none. -/
theorem isClosed_append (hclosed : isClosed rest) (hafter : OpensNone after) :
    isClosed (rest ++ after) := by
  fun_cases isClosed rest with
  | case1 rest =>
    obtain ⟨⟨inside, left⟩, hsplit⟩ := Option.isSome_iff_exists.1 hclosed
    rw [List.cons_append, isClosed, splitAtParen_append _ _ _ after _ _ hsplit, Option.isSome_some]
  | case2 rest =>
    obtain ⟨⟨inside, left⟩, hsplit⟩ := Option.isSome_iff_exists.1 hclosed
    rw [List.cons_append, isClosed, splitAtBrace_append _ after _ _ hsplit, Option.isSome_some]
  | case3 rest hparen hbrace =>
    rw [isClosed]
    · intro more h
      cases rest with
      | nil => exact hafter.1 (by rw [← List.nil_append after, h]; rfl)
      | cons c rest => exact hparen rest (by rw [(List.cons.inj h).1])
    · intro more h
      cases rest with
      | nil => exact hafter.2 (by rw [← List.nil_append after, h]; rfl)
      | cons c rest => exact hbrace rest (by rw [(List.cons.inj h).1])

/-- A text whose forms are all closed can be followed by another such text. -/
theorem AllClosed.append (h : AllClosed rest) (hafter : AllClosed after) (hopens : OpensNone after) :
    AllClosed (rest ++ after) := by
  induction rest with
  | nil => exact hafter
  | cons c rest ih => exact ⟨fun hc => isClosed_append (h.1 hc) hopens, ih h.2⟩

/-- What is closed is closed from any place on. -/
theorem AllClosed.of_suffix (h : AllClosed text) (hsuffix : rest <:+ text) : AllClosed rest := by
  induction text with
  | nil =>
    rw [List.suffix_nil.1 hsuffix]
    trivial
  | cons c text ih =>
    rcases List.suffix_cons_iff.1 hsuffix with rfl | hsuffix
    · exact h
    · exact ih h.2 hsuffix

/-- What a form leaves over has closed forms only. -/
theorem AllClosed.take (h : AllClosed text) : AllClosed (take text).2 :=
  h.of_suffix ⟨_, take_append text⟩

/-- Text without dollar signs has no forms, wherever it stands. -/
theorem allClosed_append_iff {front : List Char} (hfront : '$' ∉ front) :
    AllClosed (front ++ rest) ↔ AllClosed rest := by
  induction front with
  | nil => exact Iff.rfl
  | cons c front ih =>
    rw [List.mem_cons, not_or] at hfront
    rw [List.cons_append, AllClosed, ih hfront.2]
    exact and_iff_right fun hc => absurd hc.symm hfront.1

/-- Without a dollar sign there is nothing to close. -/
theorem allClosed_of_not_mem (h : '$' ∉ text) : AllClosed text := by
  rw [← List.append_nil text, allClosed_append_iff h]
  trivial

/-- A text splits at its first closing brace. -/
theorem splitAtBrace_append_cons {inside : List Char} (hinside : '}' ∉ inside) (after : List Char) :
    splitAtBrace (inside ++ '}' :: after) = some (inside, after) := by
  induction inside with
  | nil => rfl
  | cons c inside ih =>
    rw [List.mem_cons, not_or] at hinside
    rw [List.cons_append, splitAtBrace, if_neg (Ne.symm hinside.1), ih hinside.2]
    rfl

end Form

/-! ## Reading -/

namespace DoubleQuotes

/-- A text between double quotes. -/
def quoted (text : String) : String :=
  "\"" ++ text ++ "\""

/-- The word of a text between double quotes. -/
def word (text : String) : Word :=
  ⟨[⟨.double, text⟩]⟩

/-- Stands for itself between double quotes. -/
def IsPlain (text : List Char) : Prop :=
  '"' ∉ text ∧ '\\' ∉ text

instance (text : List Char) : Decidable (IsPlain text) :=
  inferInstanceAs (Decidable (_ ∧ _))

theorem IsPlain.of_suffix {text rest : List Char} (h : IsPlain text) (hsuffix : rest <:+ text) :
    IsPlain rest :=
  ⟨fun hmem => h.1 (hsuffix.subset hmem), fun hmem => h.2 (hsuffix.subset hmem)⟩

open Token in
/-- Plain text is added to the word as it stands, up to the closing quotes. By induction on what is
left of it; forms are passed over as a whole. -/
theorem scanDouble_append {text : List Char} (hplain : IsPlain text)
    (hclosed : Form.AllClosed text) (parts : Word.Draft) (rest : List Char) :
    scanDouble parts (text ++ '"' :: rest) = scanBare (some (parts.pushAll .double text)) rest := by
  cases text with
  | nil => exact scanDouble_quotes
  | cons c text =>
    have hrest : IsPlain text := hplain.of_suffix (List.suffix_cons c text)
    by_cases hdollar : c = '$'
    · subst hdollar
      have hlt := Form.length_take_snd_lt '$' text
      have hsuffix : (Form.take text).2 <:+ text := ⟨_, Form.take_append text⟩
      have hform : Form.take (text ++ '"' :: rest)
          = ((Form.take text).1, (Form.take text).2 ++ '"' :: rest) :=
        Form.take_append_of_isClosed (hclosed.1 rfl) ⟨by simp, by simp⟩
      rw [List.cons_append, scanDouble_dollar, hform,
        scanDouble_append (hrest.of_suffix hsuffix) hclosed.2.take]
      rw [Word.Draft.pushAll, Word.Draft.pushAll, ← List.foldl_append, Form.take_append]
      rfl
    · have hquote : c ≠ '"' := fun h => hplain.1 (h ▸ List.mem_cons_self)
      have hbackslash : c ≠ '\\' := fun h => hplain.2 (h ▸ List.mem_cons_self)
      rw [List.cons_append, scanDouble_cons hquote hbackslash hdollar,
        scanDouble_append hrest hclosed.2]
      rfl
termination_by text.length

variable {text : String}

/-- Wherever it stands, plain text between double quotes is read as one part of a word. -/
theorem scanBare_quoted (hplain : IsPlain text.toList) (hclosed : Form.AllClosed text.toList)
    (draft : Option Word.Draft) (rest : List Char) :
    Token.scanBare draft ((quoted text).toList ++ rest)
      = Token.scanBare (some (⟨.double, text⟩ :: draft.getD [])) rest := by
  have hquoted : (quoted text).toList ++ rest = '"' :: (text.toList ++ '"' :: rest) := by
    simp [quoted]
  have hpart : Word.Draft.pushAll ((draft.getD []).openPart .double) .double text.toList
      = ⟨.double, text⟩ :: draft.getD [] := by
    rw [Word.Draft.openPart, Word.Draft.pushAll_newest, String.empty_append, String.ofList_toList]
  rw [hquoted, Token.scanBare_quotes, scanDouble_append hplain hclosed, hpart]

/-- Alone it is one word. -/
theorem scan_quoted (hplain : IsPlain text.toList) (hclosed : Form.AllClosed text.toList) :
    Token.scan (quoted text) = .ok [.word (word text)] := by
  have hscan := scanBare_quoted hplain hclosed none []
  rw [List.append_nil] at hscan
  rw [Token.scan, hscan, Token.scanBare_nil]
  rfl

end DoubleQuotes

end Sandshell
