import Sandshell.Proofs.Step
import Sandshell.Utility.Search

/-!
# Options of the output

Some letters say what is printed of a search and not what is searched for. Arguments made of such
letters, in front of others, change neither what the others ask for nor what is wrong with them.
-/

namespace Sandshell.Search

variable {quiet : Bool} {o o' : Options} {d d' : Options.Draft} {letters : List Char}
variable {args lead values : List String}

theorem exists_of_rel_some {α β : Type} {r : α → β → Prop} {a : α} {x : Option β}
    (h : Option.Rel r (some a) x) : ∃ b, x = some b ∧ r a b := by
  cases h with
  | some h => exact ⟨_, rfl, h⟩

theorem eq_none_of_rel_none {α β : Type} {r : α → β → Prop} {x : Option β}
    (h : Option.Rel r none x) : x = none := by
  cases h
  rfl

namespace Options

/-- The same search, with nothing said of the output. -/
def plain (o : Options) : Options :=
  { o with
    lineNumber := false
    count := false
    filesOnly := false
    withFilename := false
    silent := false
    maxCount := none }

/-- Both options ask for the same search; the second ones are silent where that is known. -/
structure Agree (quiet : Bool) (o o' : Options) : Prop where
  plain_eq : o'.plain = o.plain
  silent : quiet → o'.silent

/-- Options that agree do so after one more letter. -/
theorem Agree.letter? (h : o.Agree quiet o') (c : Char) :
    Option.Rel (Agree quiet) (o.letter? c) (o'.letter? c) := by
  obtain ⟨hplain, hsilent⟩ := h
  simp only [plain, mk.injEq] at hplain
  unfold Options.letter?
  split
  all_goals first
    | exact .none
    | exact .some ⟨by simp [plain, hplain], fun hquiet => by simp [hsilent hquiet]⟩

/-- They do so after one more long option. -/
theorem Agree.long? (h : o.Agree quiet o') (name : String) :
    Option.Rel (Agree quiet) (o.long? name) (o'.long? name) := by
  obtain ⟨hplain, hsilent⟩ := h
  simp only [plain, mk.injEq] at hplain
  unfold Options.long?
  split
  all_goals first
    | exact .none
    | exact .some ⟨by simp [plain, hplain], fun hquiet => by simp [hsilent hquiet]⟩

theorem Agree.maxCount (h : o.Agree quiet o') (n n' : Option Nat) :
    Agree quiet { o with maxCount := n } { o' with maxCount := n' } :=
  ⟨h.plain_eq, h.silent⟩

/-- The drafts have options that agree, and the same other arguments. -/
structure Draft.Agree (quiet : Bool) (d d' : Draft) : Prop where
  options : d.options.Agree quiet d'.options
  pattern : d'.pattern = d.pattern
  positional : d'.positional = d.positional

/-- A dash with letters is read letter by letter. -/
theorem Draft.read_dash {argument : String} {c : Char} {more : List Char}
    (h : argument.toList = '-' :: c :: more) (hc : c ≠ '-') (d : Draft) (rest : List String) :
    d.read [] (argument :: rest) = d.read (c :: more) rest := by
  conv_lhs => rw [Draft.read, h]
  split
  · next heq => exact absurd (List.cons.inj (List.cons.inj heq).2).1 hc
  · next heq =>
    cases heq
    rfl
  · next hnone => exact absurd rfl (hnone c more)

/-- Anything else without a dash is an operand. -/
theorem Draft.read_operand {argument : String}
    (h : ∀ (c : Char) (more : List Char), argument.toList ≠ '-' :: c :: more) (d : Draft)
    (rest : List String) :
    d.read [] (argument :: rest) = { d with positional := argument :: d.positional }.read [] rest := by
  conv_lhs => rw [Draft.read]
  split
  · next name heq => exact absurd heq (h '-' name)
  · next heq => exact absurd heq (h _ _)
  · rfl

/-- Drafts that agree are read on alike, by induction on what is read. -/
theorem Draft.Agree.read (h : d.Agree quiet d') (letters : List Char) (args : List String) :
    SameOutcome (Draft.Agree quiet) (d.read letters args) (d'.read letters args) := by
  -- after a letter the rest of the argument is read, or the next one, from drafts that agree again
  fun_induction Draft.read d letters args generalizing d' with
  | case1 d =>
    rw [Draft.read]
    exact .error _
  | case2 d value rest ih =>
    rw [Draft.read]
    exact ih ⟨h.options, rfl, h.positional⟩
  | case3 d args c more ih =>
    rw [Draft.read]
    exact ih ⟨h.options, rfl, h.positional⟩
  | case4 d more =>
    rw [Draft.read]
    exact .error _
  | case5 d more value rest n hn ih =>
    rw [Draft.read, hn]
    exact ih ⟨h.options.maxCount _ _, h.pattern, h.positional⟩
  | case6 d more value rest hn =>
    rw [Draft.read, hn]
    exact .error _
  -- a letter that is no option of its own takes the same place in both drafts
  | case7 d args c more hlast hvalue hcount options hletter ih =>
    obtain ⟨options', hletter', hoptions⟩ := exists_of_rel_some (hletter ▸ h.options.letter? c)
    rw [Draft.read, hletter']
    · exact ih ⟨hoptions, h.pattern, h.positional⟩
    · exact hlast
    · exact hvalue
    · exact hcount
  | case8 d args c more hlast hvalue hcount hletter =>
    have hletter' := eq_none_of_rel_none (hletter ▸ h.options.letter? c)
    rw [Draft.read, hletter']
    · exact .error _
    · exact hlast
    · exact hvalue
    · exact hcount
  | case9 d =>
    rw [Draft.read]
    exact .ok h
  | case10 d argument rest hargument =>
    rw [Draft.read, hargument]
    refine .ok ⟨h.options, h.pattern, ?_⟩
    exact congrArg (rest.reverse ++ ·) h.positional
  -- so does a long option
  | case11 d argument rest name hargument hname options hlong ih =>
    obtain ⟨options', hlong', hoptions⟩ := exists_of_rel_some (hlong ▸ h.options.long? _)
    rw [Draft.read, hargument]
    simp only [if_neg hname, hlong']
    exact ih ⟨hoptions, h.pattern, h.positional⟩
  | case12 d argument rest name hargument hname hlong =>
    have hlong' := eq_none_of_rel_none (hlong ▸ h.options.long? _)
    rw [Draft.read, hargument]
    simp only [if_neg hname, hlong']
    exact .error _
  | case13 d argument rest c more hc hargument ih =>
    rw [Draft.read_dash hargument hc d']
    exact ih h
  | case14 d argument rest htwo hone ih =>
    rw [Draft.read_operand hone d']
    exact ih ⟨h.options, h.pattern, congrArg (argument :: ·) h.positional⟩

/-! ## Leading options -/

/-- The letters that say something of the output; a number comes with the last one. -/
def outputLetters : List Char :=
  ['n', 'c', 'l', 'H', 'q', 'm']

/-- Arguments that say something of the output alone: letters in any order behind dashes, each `m`
with a number for it in the arguments behind its cluster. Told with them is whether there is a `q`
among the letters. -/
inductive Outputs : Bool → List String → Prop
  | nothing : Outputs false []
  | cluster {quiet : Bool} {letters : List Char} {values rest : List String} (hne : letters ≠ [])
      (hletters : ∀ c ∈ letters, c ∈ outputLetters) (hcount : values.length = letters.count 'm')
      (hvalues : ∀ value ∈ values, (Text.natural? value).isSome) (hrest : Outputs quiet rest) :
      Outputs (letters.contains 'q' || quiet) (String.ofList ('-' :: letters) :: (values ++ rest))

theorem Draft.Agree.refl (d : Draft) : d.Agree d.options.silent d :=
  ⟨⟨rfl, id⟩, rfl, rfl⟩

/-- Agreement is weaker where it may rely on silence. -/
theorem Draft.Agree.mono {quiet' : Bool} (h : d.Agree quiet d') (hle : quiet' → quiet) :
    d.Agree quiet' d' :=
  ⟨⟨h.options.plain_eq, fun hquiet => h.options.silent (hle hquiet)⟩, h.pattern, h.positional⟩

/-- What was silent before stays silent. -/
theorem Draft.Agree.trans {d'' : Draft} {quiet' : Bool} (h : d.Agree quiet d')
    (h' : d'.Agree (quiet' || d'.options.silent) d'') : d.Agree (quiet' || quiet) d'' where
  options := {
    plain_eq := h'.options.plain_eq.trans h.options.plain_eq
    silent := fun hquiet => by
      apply h'.options.silent
      rcases Bool.or_eq_true_iff.1 hquiet with hq | hq
      · simp [hq]
      · simp [h.options.silent hq] }
  pattern := h'.pattern.trans h.pattern
  positional := h'.positional.trans h.positional

/-- A letter of the output without a number leaves the search as it is. -/
theorem exists_letter? {c : Char} (hc : c ∈ outputLetters) (hm : c ≠ 'm') (o : Options) :
    ∃ o', o.letter? c = some o' ∧ o.Agree (c == 'q' || o.silent) o' := by
  simp only [outputLetters, List.mem_cons, List.not_mem_nil, or_false] at hc
  rcases hc with rfl | rfl | rfl | rfl | rfl | rfl
  all_goals first
    | exact absurd rfl hm
    | exact ⟨_, rfl, rfl, by simp⟩

/-- A letter of the output is read, `m` with its number. -/
theorem Draft.exists_read_letter {c : Char} (hc : c ∈ outputLetters)
    (hcount : values.length = (c :: letters).count 'm')
    (hvalues : ∀ value ∈ values, (Text.natural? value).isSome) (d : Draft) :
    ∃ d' values',
      (∀ rest, d.read (c :: letters) (values ++ rest) = d'.read letters (values' ++ rest))
      ∧ values'.length = letters.count 'm' ∧ values' ⊆ values
      ∧ d.Agree (c == 'q' || d.options.silent) d' := by
  by_cases hm : c = 'm'
  · subst hm
    rw [List.count_cons_self] at hcount
    obtain ⟨value, values', rfl⟩ := List.exists_cons_of_length_eq_add_one hcount
    obtain ⟨n, hn⟩ := Option.isSome_iff_exists.1 (hvalues value List.mem_cons_self)
    refine ⟨{ d with options := { d.options with maxCount := some n } }, values', fun rest => ?_,
      Nat.succ.inj hcount, List.subset_cons_self _ _, ⟨rfl, id⟩, rfl, rfl⟩
    rw [List.cons_append, Draft.read, hn]
  · obtain ⟨o', hletter, hoptions⟩ := exists_letter? hc hm d.options
    rw [List.count_cons_of_ne hm] at hcount
    refine ⟨{ d with options := o' }, values, fun rest => ?_, hcount, List.Subset.refl _, hoptions,
      rfl, rfl⟩
    have he : c ≠ 'e' := by
      rintro rfl
      exact absurd hc (by decide)
    rw [Draft.read, hletter]
    · exact fun h => absurd h he
    · exact fun _ _ h => absurd h he
    · exact hm

/-- Letters of the output are read with their numbers, by induction on the letters. -/
theorem Draft.exists_read_letters (hletters : ∀ c ∈ letters, c ∈ outputLetters)
    (hcount : values.length = letters.count 'm')
    (hvalues : ∀ value ∈ values, (Text.natural? value).isSome) (d : Draft) :
    ∃ d', (∀ rest, d.read letters (values ++ rest) = d'.read [] rest)
      ∧ d.Agree (letters.contains 'q' || d.options.silent) d' := by
  induction letters generalizing d values with
  | nil =>
    obtain rfl := List.length_eq_zero_iff.1 hcount
    exact ⟨d, fun _ => rfl, .refl d⟩
  | cons c more ih =>
    obtain ⟨hc, hmore⟩ := List.forall_mem_cons.1 hletters
    obtain ⟨mid, values', hfirst, hcount', hsubset, hmid⟩ := exists_read_letter hc hcount hvalues d
    obtain ⟨d', hread, hagree⟩ := ih hmore hcount' (fun value hv => hvalues value (hsubset hv)) mid
    refine ⟨d', fun rest => (hfirst rest).trans (hread rest),
      (hmid.trans hagree).mono fun hquiet => ?_⟩
    rw [List.contains_cons, Bool.beq_comm] at hquiet
    rwa [← Bool.or_assoc, Bool.or_comm (more.contains 'q')]

/-- Leading options of the output are read, by induction on their clusters. -/
theorem Draft.exists_read_outputs (h : Outputs quiet lead) (d : Draft) :
    ∃ d', (∀ args, d.read [] (lead ++ args) = d'.read [] args)
      ∧ d.Agree (quiet || d.options.silent) d' := by
  induction h generalizing d with
  | nothing => exact ⟨d, fun _ => rfl, .refl d⟩
  | @cluster quiet letters values rest hne hletters hcount hvalues _ ih =>
    obtain ⟨c, more, rfl⟩ := List.exists_cons_of_ne_nil hne
    have hc : c ≠ '-' := by
      rintro rfl
      exact absurd (hletters _ List.mem_cons_self) (by decide)
    obtain ⟨mid, hcluster, hmid⟩ := exists_read_letters hletters hcount hvalues d
    obtain ⟨d', hread, hagree⟩ := ih mid
    refine ⟨d', fun args => ?_, (hmid.trans hagree).mono fun hquiet => ?_⟩
    · rw [List.cons_append, List.append_assoc, read_dash (String.toList_ofList ..) hc, hcluster,
        hread]
    · rwa [← Bool.or_assoc, Bool.or_comm quiet]

/-- Options of the output in front of other arguments leave the search as it is, and leave what is
wrong with the other arguments. -/
theorem parse_append (h : Outputs quiet lead) (args : List String) :
    SameOutcome (Agree quiet) (parse args) (parse (lead ++ args)) := by
  obtain ⟨d', hread, hagree⟩ := Draft.exists_read_outputs h {}
  rw [parse, parse, hread]
  have hstart : Draft.Agree quiet {} d' := hagree.mono fun hquiet => by simp [hquiet]
  refine (hstart.read [] args).bind fun first second hboth => ?_
  rw [hboth.pattern, hboth.positional]
  have hfields : ∀ pattern files, Agree quiet { first.options with pattern, files }
      { second.options with pattern, files } := fun pattern files =>
    ⟨congrArg (fun o : Options => { o with pattern, files }) hboth.options.plain_eq,
      hboth.options.silent⟩
  split
  · exact .ok (hfields _ _)
  · exact .ok (hfields _ _)
  · exact .error _

/-- Options that agree search for the same expression. -/
theorem Agree.expression_eq (h : o.Agree quiet o') : o'.expression = o.expression := by
  show o'.plain.expression = o.plain.expression
  rw [h.plain_eq]

end Options

end Sandshell.Search
