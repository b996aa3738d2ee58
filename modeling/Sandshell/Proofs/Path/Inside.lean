import Sandshell.Proofs.Path.Below

/-!
# Paths that stay inside

What a host or a store may take for a way out of its root is a leading slash, an empty segment or one
of the two dots. Resolving a path, going down by a name and going up give paths without them.
-/

namespace Sandshell.Path

variable {p d name : String}

/-- A segment that leads one step down: not empty, neither of the two dots, without slash. -/
structure LeadsDown (name : String) : Prop where
  ne_empty : name ≠ ""
  ne_dot : name ≠ "."
  ne_dots : name ≠ ".."
  no_slash : '/' ∉ name.toList

/-- No leading slash, and, but for the root, which is the empty path, neither empty segments nor
dots. -/
structure StaysInside (path : String) : Prop where
  relative : isAbsolute path = false
  segments : path ≠ "" → ∀ name ∈ segments path, name ≠ "" ∧ name ≠ "." ∧ name ≠ ".."

/-- A name leads one step down. -/
theorem IsName.leadsDown (h : IsName name) : LeadsDown name :=
  ⟨h.ne_empty, h.ne_dot, h.ne_dots, h.no_slash⟩

/-- A leading slash stands after an empty segment. -/
theorem staysInside_of_segments
    (h : p ≠ "" → ∀ name ∈ segments p, name ≠ "" ∧ name ≠ "." ∧ name ≠ "..") : StaysInside p := by
  refine ⟨?_, h⟩
  rw [isAbsolute, decide_eq_false_iff_not]
  intro hslash
  obtain ⟨rest, hrest⟩ : ∃ rest, p.toList = '/' :: rest := List.head?_eq_some_iff.1 hslash
  have hp : p = "" ++ "/" ++ String.ofList rest := by
    rw [← String.toList_inj, hrest]
    simp
  have hempty : "" ∈ Path.segments p := by
    rw [hp, segments_append, segments_empty]
    exact List.mem_append_left _ (List.mem_singleton_self "")
  have hne : p ≠ "" := by
    rintro rfl
    contradiction
  exact (h hne "" hempty).1 rfl

theorem staysInside_empty : StaysInside "" :=
  staysInside_of_segments fun hne => absurd rfl hne

/-- A normal path stays inside. -/
theorem IsNormal.staysInside (h : IsNormal p) : StaysInside p :=
  staysInside_of_segments fun hne name hname =>
    have hisName := h.isName_segments hne name hname
    ⟨hisName.ne_empty, hisName.ne_dot, hisName.ne_dots⟩

theorem staysInside_ofSegments {names : List String} (h : ∀ name ∈ names, LeadsDown name) :
    StaysInside (ofSegments names) := by
  refine staysInside_of_segments fun hne name hname => ?_
  have hnames : names ≠ [] := fun hnil => hne (hnil ▸ ofSegments_nil)
  rw [segments_ofSegments hnames fun name hname => (h name hname).no_slash] at hname
  exact ⟨(h name hname).ne_empty, (h name hname).ne_dot, (h name hname).ne_dots⟩

namespace StaysInside

/-- The segments lead down, and the root has none that counts. -/
theorem leadsDown (h : StaysInside p) :
    ∀ name ∈ (Path.segments p).filter (· ≠ ""), LeadsDown name := by
  intro name hname
  obtain ⟨hmem, hne⟩ := List.mem_filter.1 hname
  have hroot : p ≠ "" := by
    rintro rfl
    rw [segments_empty, List.mem_singleton] at hmem
    simp [hmem] at hne
  obtain ⟨hne, hdot, hdots⟩ := h.segments hroot name hmem
  exact ⟨hne, hdot, hdots, no_slash_of_mem_segments hmem⟩

/-- From inside every path leads to one that stays inside, if anywhere. -/
theorem resolve? {cwd operand : String} (hcwd : StaysInside cwd)
    (h : resolve? cwd operand = some p) : StaysInside p := by
  unfold Path.resolve? at h
  split at h
  · cases h
  · dsimp only at h
    rw [Option.map_eq_some_iff] at h
    obtain ⟨names, hfollow, rfl⟩ := h
    refine staysInside_ofSegments (forall_of_follow? ?_ (fun name hname hne hdot hdots =>
      ⟨hne, hdot, hdots, no_slash_of_mem_segments hname⟩) hfollow)
    split
    · exact List.forall_mem_nil _
    · exact hcwd.leadsDown

/-- So does a path with one more name after it. -/
theorem join (hd : StaysInside d) (hname : LeadsDown name) : StaysInside (join d name) := by
  have hsingle := segments_of_no_slash hname.no_slash
  have hdown : name ≠ "" ∧ name ≠ "." ∧ name ≠ ".." := ⟨hname.ne_empty, hname.ne_dot, hname.ne_dots⟩
  refine staysInside_of_segments fun _ => ?_
  by_cases hroot : d = ""
  · rw [hroot, join_empty, hsingle]
    exact List.forall_mem_singleton.2 hdown
  · rw [join_of_ne hroot, segments_append, hsingle]
    exact List.forall_mem_append.2 ⟨hd.segments hroot, List.forall_mem_singleton.2 hdown⟩

/-- And so does the parent of a path that does. -/
theorem parent (h : StaysInside p) : StaysInside (parent p) := by
  by_cases hslash : '/' ∈ p.toList
  · obtain ⟨d, last, rfl, hlast⟩ := exists_eq_append_last hslash
    rw [parent_append hlast]
    refine staysInside_of_segments fun _ name hname =>
      h.segments (below_append d last).ne_empty name ?_
    rw [segments_append]
    exact List.mem_append_left _ hname
  · rw [parent_of_no_slash hslash]
    exact staysInside_empty

end StaysInside

end Sandshell.Path
