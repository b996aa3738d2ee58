/-!
# Extents of dollar forms

Where a parenthesised or braced form ends. The lexer copies a form as it stands and the expansion
reads it again; both find its end here.
-/

namespace Sandshell.Form

/-- What surrounds a character inside a parenthesised form. -/
inductive Region where
  | bare
  | escaped
  | single
  | double
  | escapedInDouble
deriving DecidableEq, Repr

/-- The region after a character. -/
def Region.step : Region → Char → Region
  | .bare, c =>
    if c = '\\' then .escaped else if c = '\'' then .single else if c = '"' then .double else .bare
  | .escaped, _ => .bare
  | .single, c => if c = '\'' then .bare else .single
  | .double, c => if c = '"' then .bare else if c = '\\' then .escapedInDouble else .double
  | .escapedInDouble, _ => .double

/-- The text before the parenthesis that closes the form, and the text after it. Parentheses nest;
quoted and escaped ones do not count. -/
def splitAtParen (region : Region) (depth : Nat) : List Char → Option (List Char × List Char)
  | [] => none
  | c :: rest =>
    if region = .bare ∧ c = ')' then
      match depth with
      | 0 => some ([], rest)
      | d + 1 => (splitAtParen .bare d rest).map fun (inside, after) => (c :: inside, after)
    else
      let deeper := if region = .bare ∧ c = '(' then depth + 1 else depth
      (splitAtParen (region.step c) deeper rest).map fun (inside, after) => (c :: inside, after)

/-- The text before the first closing brace, and the text after it. -/
def splitAtBrace : List Char → Option (List Char × List Char)
  | [] => none
  | c :: rest =>
    if c = '}' then some ([], rest)
    else (splitAtBrace rest).map fun (inside, after) => (c :: inside, after)

/-- The rest of a form whose dollar sign has been read, and the text after it. A form that is never
closed takes all the text; a lone dollar sign takes nothing. -/
def take : List Char → List Char × List Char
  | '(' :: rest =>
    match splitAtParen .bare 0 rest with
    | some (inside, after) => ('(' :: inside ++ [')'], after)
    | none => ('(' :: rest, [])
  | '{' :: rest =>
    match splitAtBrace rest with
    | some (inside, after) => ('{' :: inside ++ ['}'], after)
    | none => ('{' :: rest, [])
  | rest => ([], rest)

theorem eq_of_splitAtParen {region : Region} {depth : Nat} {s inside after : List Char}
    (h : splitAtParen region depth s = some (inside, after)) : s = inside ++ ')' :: after := by
  induction s generalizing region depth inside after with
  | nil => simp [splitAtParen] at h
  | cons c rest ih =>
    unfold splitAtParen at h
    split at h
    · next hc =>
      split at h
      · simp_all
      · simp only [Option.map_eq_some_iff, Prod.mk.injEq] at h
        obtain ⟨⟨i, a⟩, hi, rfl, rfl⟩ := h
        rw [ih hi]; rfl
    · simp only [Option.map_eq_some_iff, Prod.mk.injEq] at h
      obtain ⟨⟨i, a⟩, hi, rfl, rfl⟩ := h
      rw [ih hi]; rfl

theorem eq_of_splitAtBrace {s inside after : List Char}
    (h : splitAtBrace s = some (inside, after)) : s = inside ++ '}' :: after := by
  induction s generalizing inside after with
  | nil => simp [splitAtBrace] at h
  | cons c rest ih =>
    rw [splitAtBrace] at h
    split at h
    · simp_all
    · simp only [Option.map_eq_some_iff, Prod.mk.injEq] at h
      obtain ⟨⟨i, a⟩, hi, rfl, rfl⟩ := h
      rw [ih hi]; rfl

/-- Taking a form splits the text in two. -/
theorem take_append (s : List Char) : (take s).1 ++ (take s).2 = s := by
  unfold take
  split
  · split
    · next h => simp [eq_of_splitAtParen h]
    · simp
  · split
    · next h => simp [eq_of_splitAtBrace h]
    · simp
  · simp

/-- A form and its dollar sign are longer than nothing. -/
theorem length_take_snd_lt (c : Char) (s : List Char) :
    (take s).2.length < (c :: s).length := by
  have h := congrArg List.length (take_append s)
  simp only [List.length_append, List.length_cons] at h ⊢
  omega

end Sandshell.Form
