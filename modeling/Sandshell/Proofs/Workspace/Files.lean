import Sandshell.Proofs.Path.Ways
import Sandshell.Proofs.Tree.Update
import Sandshell.Proofs.Workspace.Containment

/-!
# Contents of files

What reading files tells of a workspace, and what writing one changes of it: the file holds what has
been written, and all others hold what they held.
-/

namespace Sandshell

open Sandshell.Path (IsName IsNormal descend join)

/-- The contents of the file at a path, if one can be read there. -/
def Workspace.contents? {W : Type} [Workspace W] (w : W) (path : String) : Option Bytes :=
  (Workspace.read path w).1.toOption

/-- In sound states files hold what was last written to them. Paths are told apart by their normal
forms. -/
structure Workspace.KeepsFiles {W : Type} [Workspace W] (sound : W → Prop) : Prop where
  sound_read : ∀ {w : W} path, sound w → sound (Workspace.read path w).2
  contents_read : ∀ {w : W} path other, sound w →
    contents? (Workspace.read path w).2 other = contents? w other
  sound_write : ∀ {w w' : W} {p data}, sound w → IsNormal p →
    Workspace.write p data w = (.ok (), w') → sound w'
  contents_write : ∀ {w w' : W} {p q data}, sound w → IsNormal p → IsNormal q →
    Workspace.write p data w = (.ok (), w') →
      contents? w' q = if q = p then some data else contents? w q

/-! ## Trees -/

namespace Tree

variable {t : Tree} {p : String}

/-- The contents of a file are those in the tree. -/
theorem contents?_eq (hp : IsNormal p) : Workspace.contents? t p = t.files[p]? := by
  show (t.read p).toOption = _
  rw [read, normalize_of_isNormal hp]
  simp only [bind, Except.bind]
  cases t.files[p]? with
  | some data => rfl
  | none => cases t.isDirectory p <;> rfl

/-- Trees keep files in all states. -/
theorem keepsFiles : Workspace.KeepsFiles fun _ : Tree => True where
  sound_read _ _ := trivial
  contents_read _ _ _ := rfl
  sound_write _ _ _ := trivial
  contents_write := by
    intro t t' p q data _ hp hq hwrite
    have hchange : t.write p data = .ok t' := by
      have h : change (·.write p data) t = (.ok (), t') := hwrite
      rw [change] at h
      split at h
      · next hok =>
        cases h
        exact hok
      · cases h
    rw [contents?_eq hq, contents?_eq hq, (of_write_eq_ok hp hchange).2,
      Std.ExtTreeMap.getElem?_insert]
    have hcompare : compare p q = .eq ↔ q = p := Std.compare_eq_iff_eq.trans eq_comm
    simp only [hcompare]

end Tree

/-! ## Host directories -/

namespace Host

variable {h h' mid : Host} {root names : List String} {place : String} {data : Bytes}

/-- The same files stand on both hosts. -/
def SameFiles (h h' : Host) : Prop :=
  ∀ p data, h'.node? p = some (.file data) ↔ h.node? p = some (.file data)

theorem SameFiles.trans (hm : SameFiles h mid) (hm' : SameFiles mid h') : SameFiles h h' :=
  fun p data => (hm' p data).trans (hm p data)

/-- A directory is made where nothing stands. -/
theorem sameFiles_makeDirectory {path : List String} (hmake : h.makeDirectory path = .ok h') :
    SameFiles h h' := by
  rw [makeDirectory] at hmake
  cases hlocate : h.locate false path with
  | error e =>
    rw [hlocate] at hmake
    contradiction
  | ok location =>
    rw [hlocate] at hmake
    cases hnode : h.node? location with
    | some node =>
      simp only [bind, Except.bind, hnode] at hmake
      contradiction
    | none =>
      simp only [bind, Except.bind, hnode] at hmake
      obtain rfl : h.edit location (some .directory) = h' := Except.ok.inj hmake
      intro p data
      have hne : location ≠ "" := by
        rintro rfl
        rw [node?_root] at hnode
        contradiction
      rw [node?_edit hne]
      split
      · next hp => simp [hp, hnode]
      · exact Iff.rfl

/-- By induction on the directories above, which are made first. -/
theorem sameFiles_makeDirectories (h : Host) (path : List String) :
    SameFiles h (h.makeDirectories path).2 := by
  have hsettle : ∀ (h : Host) (path : List String), SameFiles h (h.settle path).2 := by
    intro h path
    rw [settle]
    split
    · next hmake => exact sameFiles_makeDirectory hmake
    · exact fun _ _ => Iff.rfl
  induction path using List.reverseRecOn with
  | nil =>
    by_cases hmake : h.makeDirectory [] = .error .noEntry
    · rw [makeDirectories]
      simp only [hmake, dif_pos]
      exact fun _ _ => Iff.rfl
    · rw [makeDirectories_of_ne hmake]
      exact hsettle h []
  | append_singleton front name ih =>
    by_cases hmake : h.makeDirectory (front ++ [name]) = .error .noEntry
    · rw [makeDirectories_of_noEntry (by simp) hmake, List.dropLast_concat]
      rcases hfront : h.makeDirectories front with ⟨e | ⟨⟩, mid⟩
      · rw [hfront] at ih
        exact ih
      · rw [hfront] at ih
        exact ih.trans (hsettle mid _)
    · rw [makeDirectories_of_ne hmake]
      exact hsettle h _

/-- Where nothing is in the way, the path is short enough. -/
theorem fits_of_blocked?_eq_none (h' : h.blocked? root place names = none) :
    pathSize (root ++ names) ≤ maxPathLength ∧ Short names := by
  rw [blocked?] at h'
  split at h'
  · contradiction
  · next hsize => exact ⟨Nat.le_of_not_lt hsize, (obstacle?_eq_none_iff.1 h').1⟩

/-- A file that is shown stands in directories, so no link leads to it. -/
theorem Anchored.unlinked_of_file (ha : h.Anchored root place) (hnames : ∀ n ∈ names, IsName n)
    (hfile : h.status root place names = .ok (.file data)) : h.Unlinked root place names := by
  rintro q target ⟨rest, rfl⟩ hlink
  by_cases hrest : rest = []
  · rw [hrest, List.append_nil, hlink] at hfile
    cases hfile
  · have hq := isName_front hnames (List.prefix_append q rest)
    obtain ⟨-, -, hview⟩ := (status_eq_ok_iff ha.wellFormed hnames).1 hfile
    obtain ⟨-, -, hnode⟩ := (status_eq_ok_iff ha.wellFormed hq).1 hlink
    rw [view, Path.descend_append] at hview
    have hdirectory := ha.wellFormed.directory_of_descend
      (fun n hn => hnames n (List.mem_append_right q hn)) hrest hview
    rw [view, hdirectory] at hnode
    cases hnode

/-- Where nothing is in the way, writing puts the file in its place. -/
theorem Anchored.of_write_eq_ok (ha : h.Anchored root place) (hnames : ∀ n ∈ names, IsName n)
    (hu : h.Unlinked root place names) (hwrite : h.write (root ++ names) data = .ok h') :
    h.blocked? root place names = none ∧ h.view place names ≠ some .directory
      ∧ h' = h.edit (descend place names) (some (.file data)) := by
  rw [Host.write, ha.locate hnames (hu.direct ha.wellFormed hnames)] at hwrite
  cases hblocked : h.blocked? root place names with
  | some e =>
    rw [hblocked] at hwrite
    contradiction
  | none =>
    rw [hblocked] at hwrite
    simp only [bind, Except.bind] at hwrite
    split at hwrite
    · contradiction
    · next hdirectory => exact ⟨rfl, hdirectory, (Except.ok.inj hwrite).symm⟩

/-- Once the directories above a file are made and it is written, the same files are shown but for
that one. -/
theorem Anchored.of_place_eq_ok (ha : h.Anchored root place) (hnames : ∀ n ∈ names, IsName n)
    (hu : h.Unlinked root place names)
    (hmake : h.makeDirectories (root ++ names.dropLast) = (.ok (), mid))
    (hwrite : mid.write (root ++ names) data = .ok h') :
    h'.Anchored root place ∧ pathSize (root ++ names) ≤ maxPathLength ∧ Short names
      ∧ ∀ other old, (∀ n ∈ other, IsName n) → (h'.view place other = some (.file old) ↔
        if other = names then old = data else h.view place other = some (.file old)) := by
  have hdirectory := List.dropLast_prefix names
  obtain ⟨-, honward⟩ := ha.twin.makeDirectories (isName_front hnames hdirectory)
    (hu.of_longer hdirectory)
  have hmade := sameFiles_makeDirectories h (root ++ names.dropLast)
  rw [hmake] at honward hmade
  have hmid : mid.Anchored root place := honward.twin.left
  have hu' := honward.contained.unlinked ha.wellFormed hmid.wellFormed hnames hu
  have hafter := honward.twin.write hnames hu' data
  rw [hwrite] at hafter
  obtain ⟨hfree, hold, rfl⟩ := hmid.of_write_eq_ok hnames hu' hwrite
  obtain ⟨hsize, hshort⟩ := fits_of_blocked?_eq_none hfree
  cases hafter with | ok honward' => ?_
  refine ⟨honward'.twin.left, hsize, hshort, fun other old hother => ?_⟩
  have hplace : descend place names ≠ "" := by
    intro hroot
    rw [view, hroot, node?_root] at hold
    exact hold rfl
  rw [view, node?_edit hplace]
  by_cases hsame : other = names
  · simp [hsame, eq_comm]
  · rw [if_neg (mt (Path.descend_inj hother hnames) hsame), if_neg hsame]
    exact hmade _ old

end Host

namespace Rooted

variable {w w' : Rooted} {place p q : String} {data : Bytes}

/-- The file at a path can be read exactly if it is shown there. -/
theorem read_eq_ok_iff_status (ha : w.host.Anchored w.root place) (hp : IsNormal p) :
    w.read p = .ok data
      ↔ w.host.status w.root place (Path.components p) = .ok (.file data) := by
  have hnames := (Path.of_normalize?_eq_some hp).1
  have hpath := hostPath_of_normalize? (w := w) hp
  by_cases hu : w.host.Unlinked w.root place (Path.components p)
  · rw [if_pos ((ha.linkFree_iff hnames).2 hu), ← contained_eq_ok_iff] at hpath
    have hfind := ha.find_of_unlinked hnames hu
    rw [read, hpath]
    simp only [bind, Except.bind]
    rw [Host.linkStatus, Host.read, hfind, hfind]
    rcases w.host.status w.root place (Path.components p) with e | (found | _ | target)
    · exact iff_of_false (fun h => by cases h) (by simp)
    · show Except.ok found = .ok data ↔ Except.ok (Host.Node.file found) = .ok (.file data)
      simp
    · exact iff_of_false (fun h => by cases h) (by simp)
    · exact iff_of_false (fun h => by cases h) (by simp)
  · rw [if_neg (mt (ha.linkFree_iff hnames).1 hu)] at hpath
    refine iff_of_false ?_ fun hfile => hu (ha.unlinked_of_file hnames hfile)
    rw [read, contained_eq, hpath]
    simp [bind, Except.bind]

/-- What a write that succeeds leaves: the same files but for the one that was written, which is
shown. -/
theorem of_write_eq_ok (ha : w.host.Anchored w.root place) (hp : IsNormal p)
    (hwrite : write p data w = (.ok (), w')) :
    w'.root = w.root ∧ w'.host.Anchored w.root place
      ∧ Host.pathSize (w.root ++ Path.components p) ≤ Host.maxPathLength
      ∧ Host.Short (Path.components p)
      ∧ ∀ names old, (∀ n ∈ names, IsName n) → (w'.host.view place names = some (.file old) ↔
        if names = Path.components p then old = data
        else w.host.view place names = some (.file old)) := by
  rw [write] at hwrite
  cases hcontained : w.contained p with
  | error e =>
    rw [hcontained] at hwrite
    cases hwrite
  | ok found =>
    rcases found with ⟨path, location⟩
    obtain ⟨hpath, rfl, hnames, hu⟩ := of_hostPath_eq_ok ha (contained_eq_ok_iff.1 hcontained)
    obtain rfl : p = path := Option.some.inj (hp.symm.trans hpath)
    rw [hcontained] at hwrite
    dsimp only at hwrite
    split at hwrite
    · cases hwrite
    next hne =>
    have hnonempty : Path.components p ≠ [] := by
      intro hnil
      rw [(Path.of_normalize?_eq_some hp).2, hnil] at hne
      exact hne Path.ofSegments_nil
    rw [List.dropLast_append_of_ne_nil hnonempty] at hwrite
    -- the directories above the file are made first
    split at hwrite
    · cases hwrite
    · next mid hmake =>
      split at hwrite
      · next host' hhost =>
        cases hwrite
        exact ⟨rfl, ha.of_place_eq_ok hnames hu hmake hhost⟩
      · cases hwrite

/-- Of sound workspaces the path of the directory leads to it, and no link does. -/
theorem keepsFiles :
    Workspace.KeepsFiles fun w : Rooted => ∃ place, w.host.Anchored w.root place where
  sound_read _ h := h
  contents_read _ _ _ := rfl
  sound_write := by
    rintro w w' p data ⟨place, ha⟩ hp hwrite
    obtain ⟨hroot, ha', -⟩ := of_write_eq_ok ha hp hwrite
    exact ⟨place, hroot ▸ ha'⟩
  contents_write := by
    rintro w w' p q data ⟨place, ha⟩ hp hq hwrite
    obtain ⟨hroot, ha', hsize, hshort, hview⟩ := of_write_eq_ok ha hp hwrite
    have hnames := (Path.of_normalize?_eq_some hq).1
    have hread : ∀ {w : Rooted} {place old}, w.host.Anchored w.root place →
        (Workspace.contents? w q = some old
          ↔ w.host.status w.root place (Path.components q) = .ok (.file old)) := by
      intro w place old ha
      rw [← read_eq_ok_iff_status ha hq]
      show (w.read q).toOption = some old ↔ _
      cases w.read q <;> simp [Except.toOption]
    ext old
    rw [hread (hroot ▸ ha'), Host.status_eq_ok_iff ha'.wellFormed hnames, hview _ _ hnames, hroot]
    by_cases hsame : q = p
    · subst hsame
      simp [hsize, hshort, eq_comm]
    · have hother : Path.components q ≠ Path.components p := by
        intro heq
        rw [(Path.of_normalize?_eq_some hq).2, heq, ← (Path.of_normalize?_eq_some hp).2] at hsame
        exact hsame rfl
      rw [if_neg hsame, if_neg hother, hread ha, Host.status_eq_ok_iff ha.wellFormed hnames]

end Rooted

end Sandshell
