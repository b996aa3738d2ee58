import Sandshell.Proofs.Path.Descent

/-!
# Ways down

The segments of a path below a directory lead from the directory to the path. Names can be put after
any text that stands for the directory, normal or not, and lead on from it.
-/

namespace Sandshell.Path

variable {d p cwd operand name : String} {names here path : List String}

/-- The segments of a path below a directory. -/
def segmentsBelow (d p : String) : List String :=
  (below? d p).elim [] segments

/-! ## Names in one text -/

/-- Names lead to one text after the place. -/
theorem descend_eq_join (hnames : ∀ name ∈ names, name ≠ "") (hne : names ≠ []) (place : String) :
    descend place names = join place (ofSegments names) := by
  by_cases hplace : place = ""
  · rw [hplace, join_empty]
    exact foldl_join_ofSegments hnames
  · rw [join_of_ne hplace]
    exact foldl_join hplace hne

/-- Going down from a path by names adds them to its own. -/
theorem descend_ofSegments (hhere : ∀ name ∈ here, name ≠ "") (hnames : ∀ name ∈ names, name ≠ "") :
    descend (ofSegments here) names = ofSegments (here ++ names) := by
  have hall := List.forall_mem_append.2 ⟨hhere, hnames⟩
  rw [← foldl_join_ofSegments hhere, ← foldl_join_ofSegments hall]
  exact (descend_append "" here names).symm

/-- Going down by some names leads below. -/
theorem below_descend {place : String} (hplace : place ≠ "") (hne : names ≠ []) :
    Below place (descend place names) := by
  rw [descend, foldl_join hplace hne]
  exact below_append place _

/-- The names by which one has gone down are the segments below. -/
theorem segmentsBelow_descend (hnames : ∀ name ∈ names, IsName name) (hne : names ≠ [])
    (d : String) : segmentsBelow d (descend d names) = names := by
  have hnonempty : ∀ name ∈ names, name ≠ "" := fun name hname => (hnames name hname).ne_empty
  rw [segmentsBelow, descend_eq_join hnonempty hne, below?_join]
  exact segments_ofSegments hne fun name hname => (hnames name hname).no_slash

/-- The segments of a normal path below a directory lead to it. -/
theorem IsNormal.segmentsBelow (hp : IsNormal p) (hwithin : isWithin d p) (hne : p ≠ d) :
    (∀ name ∈ segmentsBelow d p, IsName name) ∧ segmentsBelow d p ≠ []
      ∧ descend d (segmentsBelow d p) = p := by
  obtain ⟨rest, hrest⟩ : ∃ rest, below? d p = some rest := by
    rcases isWithin_iff.1 hwithin with rfl | heq | hbelow
    · exact ⟨p, if_pos rfl⟩
    · exact absurd heq hne
    · obtain ⟨rest, rfl⟩ := below_iff.1 hbelow
      by_cases hd : d = ""
      · exact ⟨_, by rw [below?, if_pos hd]⟩
      · exact ⟨rest, (below?_eq_some_iff hd).2 rfl⟩
  obtain rfl := eq_join_of_below? hrest
  have hsegments : Path.segmentsBelow d (join d rest) = segments rest := by
    rw [Path.segmentsBelow, hrest]
    rfl
  have hnames : ∀ name ∈ segments rest, IsName name := by
    by_cases hd : d = ""
    · rw [hd, join_empty] at hp hne
      exact hp.isName_segments hne
    · rw [join_of_ne hd] at hp
      intro name hname
      apply hp.isName_segments (below_append d rest).ne_empty
      rw [segments_append]
      exact List.mem_append_right _ hname
  rw [hsegments]
  refine ⟨hnames, segments_ne_nil rest, ?_⟩
  rw [descend_eq_join (fun name hname => (hnames name hname).ne_empty) (segments_ne_nil rest),
    ofSegments_segments]

/-- One way leads on to another one's place only if the other one goes on after it. -/
theorem prefix_of_isWithin_descend {names' : List String} (hd : IsNormal d)
    (hnames : ∀ name ∈ names, IsName name) (hnames' : ∀ name ∈ names', IsName name)
    (hwithin : isWithin (descend d names) (descend d names')) : names <+: names' := by
  have hnormal : IsNormal (descend d names') := by
    obtain ⟨above, habove, rfl⟩ := isNormal_iff.1 hd
    rw [descend_ofSegments (fun name hname => (habove name hname).ne_empty)
      fun name hname => (hnames' name hname).ne_empty]
    exact isNormal_ofSegments (List.forall_mem_append.2 ⟨habove, hnames'⟩)
  by_cases heq : descend d names' = descend d names
  · exact (descend_inj hnames' hnames heq) ▸ List.prefix_rfl
  · obtain ⟨hrest, -, hleads⟩ := hnormal.segmentsBelow hwithin heq
    rw [← descend_append] at hleads
    exact ⟨_, descend_inj (List.forall_mem_append.2 ⟨hnames, hrest⟩) hnames' hleads⟩

/-! ## Names after a text -/

/-- A relative path that never goes up is normalized by leaving out dots. -/
theorem normalize?_of_components (hnul : hasNul p = false) (hrelative : isAbsolute p = false)
    (hdots : ".." ∉ components p) : normalize? p = some (ofSegments (components p)) := by
  have hcontains : (components p).contains ".." = false := by
    rwa [Bool.eq_false_iff, ne_eq, List.contains_iff_mem]
  rw [normalize?, hnul, hrelative]
  simp only [Bool.or_self, Bool.false_eq_true, if_false]
  exact if_neg (by rw [← components, hcontains]; exact Bool.false_ne_true)

theorem not_of_normalize? (h : normalize? p = some d) :
    hasNul p = false ∧ isAbsolute p = false := by
  rw [normalize?] at h
  split at h
  · contradiction
  · next hneither => simpa using hneither

/-- A NUL in a text is in one of its parts. -/
theorem hasNul_append (p rest : String) : hasNul (p ++ rest) = (hasNul p || hasNul rest) := by
  simp [hasNul, String.toList_append]

/-- What stands first decides whether a path is absolute. -/
theorem isAbsolute_append (hp : p ≠ "") (rest : String) :
    isAbsolute (p ++ rest) = isAbsolute p := by
  obtain ⟨c, cs, hcs⟩ := List.exists_cons_of_ne_nil fun hnil => hp (String.toList_eq_nil_iff.1 hnil)
  rw [isAbsolute, isAbsolute, String.toList_append, hcs]
  rfl

theorem components_of_isName (hname : IsName name) : components name = [name] := by
  rw [components, segments_of_no_slash hname.no_slash]
  simp [hname.ne_empty, hname.ne_dot]

/-- A name after a path is a name after the path's normal form. -/
theorem normalize?_join (h : normalize? p = some d) (hname : IsName name) :
    normalize? (join p name) = some (join d name) := by
  by_cases hp : p = ""
  · subst hp
    obtain rfl : "" = d := Option.some.inj h
    exact isNormal_join isNormal_empty hname
  · obtain ⟨hnames, rfl⟩ := of_normalize?_eq_some h
    obtain ⟨hnul, hrelative⟩ := not_of_normalize? h
    have hcomponents : components (join p name) = components p ++ [name] := by
      rw [join_of_ne hp, components, segments_append, List.filter_append]
      exact congrArg (components p ++ ·) (components_of_isName hname)
    have hnul' : hasNul (join p name) = false := by
      rw [join_of_ne hp, hasNul_append, hasNul_append, hnul]
      rw [← ofSegments_singleton name, hasNul_ofSegments (List.forall_mem_singleton.2 hname)]
      rfl
    have hrelative' : isAbsolute (join p name) = false := by
      rw [join_of_ne hp, String.append_assoc, isAbsolute_append hp, hrelative]
    have hall := isName_concat hnames hname
    rw [normalize?_of_components hnul' hrelative', hcomponents]
    · rw [← descend_ofSegments (fun n hn => (hnames n hn).ne_empty)
        (List.forall_mem_singleton.2 hname.ne_empty)]
      rfl
    · rw [hcomponents]
      exact fun hmem => (hall _ hmem).ne_dots rfl

/-- Names after a path are names after its normal form. -/
theorem normalize?_descend (h : normalize? p = some d) (hnames : ∀ name ∈ names, IsName name) :
    normalize? (descend p names) = some (descend d names) := by
  induction names generalizing p d with
  | nil => exact h
  | cons name rest ih =>
    obtain ⟨hname, hrest⟩ := List.forall_mem_cons.1 hnames
    exact ih (normalize?_join h hname) hrest

/-! ## Names after an operand -/

/-- Following a path is following its first part and then the rest. -/
theorem follow?_append (here path path' : List String) :
    follow? here (path ++ path') = (follow? here path).bind (follow? · path') := by
  induction path generalizing here with
  | nil => rfl
  | cons name rest ih =>
    rw [List.cons_append, follow?, follow?]
    split_ifs
    · exact ih here
    · rfl
    · exact ih here.dropLast
    · exact ih (here ++ [name])

/-- Empty segments and single dots lead nowhere. -/
theorem follow?_blanks (h : ∀ name ∈ path, name = "" ∨ name = ".") (here : List String) :
    follow? here path = some here := by
  induction path with
  | nil => rfl
  | cons name rest ih =>
    obtain ⟨hname, hrest⟩ := List.forall_mem_cons.1 h
    rw [follow?, if_pos hname, ih hrest]

/-- A relative operand resolves to where its segments lead from the working directory. -/
theorem resolve?_eq_some_iff (hrelative : isAbsolute operand = false) :
    resolve? cwd operand = some p ↔ hasNul operand = false ∧ ∃ names,
      follow? ((segments cwd).filter (· ≠ "")) (segments operand) = some names
        ∧ ofSegments names = p := by
  rw [resolve?, hrelative]
  cases hasNul operand <;> simp

/-- `shown` is `operand` without some blank segments at its end. -/
inductive Shortens (operand : String) : String → Prop
  | nothing (hblanks : ∀ name ∈ segments operand, name = "" ∨ name = ".") : Shortens operand ""
  | text {shown rest : String} {blanks : List String} (hne : shown ≠ "")
      (htext : operand = shown ++ rest) (hsegments : segments operand = segments shown ++ blanks)
      (hblanks : ∀ name ∈ blanks, name = "" ∨ name = ".") : Shortens operand shown

/-- Names after a relative operand that is shortened lead on from where the operand does. -/
theorem resolve?_descend {shown : String} (h : resolve? cwd operand = some p)
    (hrelative : isAbsolute operand = false) (hshown : Shortens operand shown)
    (hnames : ∀ name ∈ names, IsName name) (hne : names ≠ []) :
    resolve? cwd (descend shown names) = some (descend p names) := by
  obtain ⟨hnul, reached, hreached, rfl⟩ := (resolve?_eq_some_iff hrelative).1 h
  have hnonempty : ∀ name ∈ names, name ≠ "" := fun name hname => (hnames name hname).ne_empty
  have hreachedNonempty : ∀ name ∈ reached, name ≠ "" := by
    refine forall_of_follow? (fun name hname => ?_) (fun _ _ hname _ _ => hname) hreached
    simpa using (List.mem_filter.1 hname).2
  rw [descend_eq_join hnonempty hne, descend_ofSegments hreachedNonempty hnonempty]
  have hsegments := segments_ofSegments hne fun name hname => (hnames name hname).no_slash
  have htext := hasNul_ofSegments hnames
  cases hshown with
  -- the operand leads nowhere and is not shown, so that the names are all there is
  | nothing hblanks =>
    rw [follow?_blanks hblanks] at hreached
    obtain rfl := Option.some.inj hreached
    rw [join_empty, resolve?_eq_some_iff (isAbsolute_ofSegments hnames)]
    exact ⟨htext, _, by rw [hsegments, follow?_names hnames], rfl⟩
  -- what is shown is a front of the operand, and the blanks behind it lead no further
  | @text shown rest blanks hshown hoperand hparts hblanks =>
    rw [hoperand, hasNul_append, Bool.or_eq_false_iff] at hnul
    rw [hoperand, isAbsolute_append hshown] at hrelative
    rw [hparts, follow?_append, Option.bind_eq_some_iff] at hreached
    obtain ⟨mid, hmid, hrest⟩ := hreached
    rw [follow?_blanks hblanks] at hrest
    obtain rfl := Option.some.inj hrest
    rw [join_of_ne hshown, resolve?_eq_some_iff]
    · refine ⟨?_, mid ++ names, ?_, rfl⟩
      · rw [hasNul_append, hasNul_append, hnul.1, htext]
        rfl
      · rw [segments_append, hsegments, follow?_append, hmid, Option.bind_some,
          follow?_names hnames]
    · rw [String.append_assoc, isAbsolute_append hshown, hrelative]

end Sandshell.Path
