import Sandshell.Proofs.Tree.Entries
import Sandshell.Proofs.Tree.Update
import Sandshell.Proofs.Workspace.Containment

/-!
# Trees in memory and directories of the host

A tree in memory and a directory of the host that hold the same files and directories answer alike
when they are read or listed. They tell the same of a path as well, unless a file stands above it:
there the tree has nothing, and the host refuses the path.
-/

namespace Sandshell

open Sandshell.Path (Below IsName IsNormal descend join)

/-! ## What stops a path -/

namespace Host

variable {h : Host} {root names : List String} {place : String} {node : Node}

/-- No link stands below the place. -/
def LinkFree (h : Host) (place : String) : Prop :=
  ∀ names target, (∀ n ∈ names, IsName n) → h.view place names ≠ some (.link target)

theorem LinkFree.join {name : String} (hfree : h.LinkFree place) (hname : IsName name) :
    h.LinkFree (join place name) :=
  fun names target hnames => hfree (name :: names) target (List.forall_mem_cons.2 ⟨hname, hnames⟩)

/-- Where there are no links, no way meets one. -/
theorem LinkFree.unlinked (hfree : h.LinkFree place) (hh : h.WellFormed)
    (hnames : ∀ n ∈ names, IsName n) : h.Unlinked root place names := by
  intro q target hq hlink
  have hq' := isName_front hnames hq
  exact hfree q target hq' ((status_eq_ok_iff hh hq').1 hlink).2.2

/-- A file stands where the first names lead, and more names follow. -/
def PassesFile (h : Host) (place : String) (names : List String) : Prop :=
  ∃ front rest data, front ++ rest = names ∧ rest ≠ [] ∧ h.view place front = some (.file data)

/-- A way of one name passes nothing. -/
theorem not_passesFile_of_short (hplace : h.node? place = some .directory)
    (hnames : names.length ≤ 1) : ¬ h.PassesFile place names := by
  rintro ⟨front, rest, data, rfl, hrest, hfile⟩
  have hpos := List.length_pos_iff.2 hrest
  rw [List.length_append] at hnames
  have hfront : front = [] := List.length_eq_zero_iff.1 (by omega)
  rw [hfront, view, Path.descend_nil, hplace] at hfile
  cases hfile

/-- After a directory it is the names behind it that may pass a file. -/
theorem passesFile_cons_iff {name : String} {rest : List String}
    (hplace : h.node? place = some .directory) (hnode : h.node? (join place name) = some .directory) :
    h.PassesFile place (name :: rest) ↔ h.PassesFile (join place name) rest := by
  constructor
  · rintro ⟨front, tail, data, happend, htail, hfile⟩
    cases front with
    | nil =>
      rw [view, Path.descend_nil, hplace] at hfile
      cases hfile
    | cons first front =>
      obtain ⟨rfl, rfl⟩ := List.cons.inj happend
      exact ⟨front, tail, data, rfl, htail, hfile⟩
  · rintro ⟨front, tail, data, rfl, htail, hfile⟩
    exact ⟨name :: front, tail, data, rfl, htail, hfile⟩

/-- Nothing stands behind what is no directory. -/
theorem view_cons_eq_none (hh : h.WellFormed) (place name : String) {rest : List String}
    (hnames : ∀ n ∈ rest, IsName n) (hrest : rest ≠ [])
    (hnode : h.node? (join place name) ≠ some .directory) : h.view place (name :: rest) = none := by
  cases hview : h.view place (name :: rest) with
  | none => rfl
  | some node => exact absurd (hh.directory_of_descend hnames hrest hview) hnode

/-- What stops a walk, unless it is a name that is too long, has nothing behind it. It is a file if
the names pass one, and else a name under which nothing stands. -/
theorem obstacle?_cases (hh : h.WellFormed) (hfree : h.LinkFree place)
    (hplace : h.node? place = some .directory) (hnames : ∀ n ∈ names, IsName n)
    (hlong : h.obstacle? place names ≠ some .nameTooLong) :
    (h.obstacle? place names = none ∧ ¬ h.PassesFile place names)
      ∨ (h.obstacle? place names = some .notDirectory ∧ h.PassesFile place names
        ∧ h.view place names = none)
      ∨ (h.obstacle? place names = some .noEntry ∧ ¬ h.PassesFile place names
        ∧ h.view place names = none) := by
  induction names generalizing place with
  | nil => exact .inl ⟨rfl, not_passesFile_of_short hplace (Nat.zero_le 1)⟩
  | cons name rest ih =>
    obtain ⟨hname, hrestNames⟩ := List.forall_mem_cons.1 hnames
    rw [obstacle?] at hlong ⊢
    split at hlong
    · contradiction
    next hshort =>
    rw [if_neg hshort]
    by_cases hrest : rest = []
    · subst hrest
      rw [if_pos rfl]
      exact .inl ⟨rfl, not_passesFile_of_short hplace (Nat.le_refl 1)⟩
    rw [if_neg hrest] at hlong ⊢
    have hnothing := view_cons_eq_none hh place name hrestNames hrest
    cases hnode : h.node? (join place name) with
    | none =>
      refine .inr (.inr ⟨rfl, ?_, hnothing (by simp [hnode])⟩)
      -- a file on the way would stand in a directory under the first name
      rintro ⟨front, tail, data, happend, htail, hfile⟩
      cases front with
      | nil =>
        rw [view, Path.descend_nil, hplace] at hfile
        cases hfile
      | cons first front =>
        obtain ⟨rfl, rfl⟩ := List.cons.inj happend
        by_cases hfront : front = []
        · rw [hfront] at hfile
          exact absurd (hnode.symm.trans hfile) (by simp)
        · have hfrontNames := isName_front hrestNames (List.prefix_append front tail)
          have hnone := view_cons_eq_none hh place first hfrontNames hfront
            (by simp [hnode])
          rw [hnone] at hfile
          contradiction
    | some node =>
      cases node with
      | file data =>
        refine .inr (.inl ⟨rfl, ⟨[name], rest, data, rfl, hrest, hnode⟩, hnothing (by simp [hnode])⟩)
      | link target =>
        exact absurd hnode (hfree [name] target (List.forall_mem_singleton.2 hname))
      | directory =>
        rw [hnode] at hlong
        rw [passesFile_cons_iff hplace hnode]
        exact ih (hfree.join hname) hnode hrestNames hlong

/-- What a path shows that is not too long for the host. -/
theorem Anchored.status_cases (ha : h.Anchored root place) (hfree : h.LinkFree place)
    (hnames : ∀ n ∈ names, IsName n) (hlong : h.status root place names ≠ .error .nameTooLong) :
    (∃ node, h.status root place names = .ok node ∧ h.view place names = some node
        ∧ ¬ h.PassesFile place names)
      ∨ (h.status root place names = .error .notDirectory ∧ h.view place names = none
        ∧ h.PassesFile place names)
      ∨ (h.status root place names = .error .noEntry ∧ h.view place names = none
        ∧ ¬ h.PassesFile place names) := by
  have hsize : ¬ maxPathLength < pathSize (root ++ names) :=
    fun hsize => hlong (by rw [status, blocked?, if_pos hsize])
  have hblocked : h.blocked? root place names = h.obstacle? place names := if_neg hsize
  have hname : h.obstacle? place names ≠ some .nameTooLong :=
    fun hobstacle => hlong (by rw [status, hblocked, hobstacle])
  rw [status, hblocked]
  rcases obstacle?_cases ha.wellFormed hfree ha.directory hnames hname
    with ⟨hobstacle, hpasses⟩ | ⟨hobstacle, hpasses, hview⟩ | ⟨hobstacle, hpasses, hview⟩
  · rw [hobstacle]
    cases hview : h.view place names with
    | none => exact .inr (.inr ⟨rfl, rfl, hpasses⟩)
    | some node => exact .inl ⟨node, rfl, rfl, hpasses⟩
  · exact .inr (.inl ⟨by rw [hobstacle], hview, hpasses⟩)
  · exact .inr (.inr ⟨by rw [hobstacle], hview, hpasses⟩)

end Host

/-! ## The tree in memory -/

namespace Tree

variable {t : Tree} {p : String} {node : Host.Node}

/-- What stands at a path of a tree, as on a host. -/
def node? (t : Tree) (p : String) : Option Host.Node :=
  match t.files[p]? with
  | some data => some (.file data)
  | none => if t.isDirectory p then some .directory else none

/-- Files of a tree are what its nodes show. -/
theorem node?_eq_file_iff {data : Bytes} : t.node? p = some (.file data) ↔ t.files[p]? = some data := by
  rw [node?]
  split
  · next hfile => rw [hfile, Option.some_inj, Host.Node.file.injEq, Option.some_inj]
  · next hfile =>
    refine iff_of_false ?_ (by simp [hfile])
    split <;> simp

theorem node?_ne_link {target : String} : t.node? p ≠ some (.link target) := by
  rw [node?]
  split
  · simp
  · split <;> simp

/-- The kind that a tree tells is that of what stands there. -/
theorem kind?_eq (t : Tree) (p : String) : t.kind? p = (t.node? p).bind Rooted.kind? := by
  rw [kind?, node?, Std.ExtTreeMap.contains_eq_isSome_getElem?]
  cases t.files[p]? with
  | some data => rfl
  | none => cases t.isDirectory p <;> rfl

end Tree

/-- What a status tells of a node, in a directory without links. -/
def Host.Node.stat? : Host.Node → Option Stat
  | .file data => some ⟨.file, data.length⟩
  | .directory => some ⟨.directory, 0⟩
  | .link _ => none

namespace Tree

variable {t : Tree} {p : String}

/-- A tree tells what stands at a path. -/
theorem stat_eq (hp : IsNormal p) : t.stat p = .ok ((t.node? p).bind Host.Node.stat?) := by
  rw [stat, normalize_of_isNormal hp, node?]
  show (match t.files[p]? with | some data => _ | none => _ : Except WorkspaceError (Option Stat)) = _
  cases t.files[p]? with
  | some data => rfl
  | none => cases t.isDirectory p <;> rfl

/-- Reading a tree gives the file that stands at the path. -/
theorem read_eq_ok_iff (hp : IsNormal p) {data : Bytes} :
    t.read p = .ok data ↔ t.node? p = some (.file data) := by
  rw [node?_eq_file_iff, read, normalize_of_isNormal hp]
  show (match t.files[p]? with | some data => _ | none => _ : Except WorkspaceError Bytes) = _ ↔ _
  cases t.files[p]? with
  | some found =>
    exact ⟨fun h => congrArg some (Except.ok.inj h), fun h => congrArg _ (Option.some.inj h)⟩
  | none =>
    cases t.isDirectory p with
    | true => exact iff_of_false (fun h => nomatch h) (by simp)
    | false => exact iff_of_false (fun h => nomatch h) (by simp)

/-- Listing it gives the entries of a directory that stands there. -/
theorem list_eq_ok_iff (hp : IsNormal p) {found : List DirEntry} :
    t.list p = .ok found ↔ t.node? p = some .directory ∧ t.entries p = found := by
  rw [list, normalize_of_isNormal hp, node?]
  show (if t.files.contains p then _ else if !t.isDirectory p then _ else _ :
    Except WorkspaceError (List DirEntry)) = _ ↔ _
  rw [Std.ExtTreeMap.contains_eq_isSome_getElem?]
  cases t.files[p]? with
  | some data => exact iff_of_false (fun h => nomatch h) (by simp)
  | none =>
    cases t.isDirectory p with
    | true => exact ⟨fun h => ⟨rfl, Except.ok.inj h⟩, fun h => congrArg Except.ok h.2⟩
    | false => exact iff_of_false (fun h => nomatch h) (by simp)

end Tree

/-! ## The directory of the host -/

namespace Rooted

variable {w : Rooted} {place p : String}

/-- What a listing shows of a name and the node that it stands for. -/
def shown : String × Host.Node → Option DirEntry
  | (name, .file _) => some ⟨name, .file⟩
  | (name, .directory) => some ⟨name, .directory⟩
  | (_, .link _) => none

theorem shown_eq : shown = fun (name, node) =>
    match node with
    | .file _ => some ⟨name, .file⟩
    | .directory => some ⟨name, .directory⟩
    | .link _ => none := by
  funext ⟨name, node⟩
  cases node <;> rfl

/-- All entries but links are shown, with their kinds. -/
theorem shown_eq_some_iff {name : String} {node : Host.Node} {entry : DirEntry} :
    shown (name, node) = some entry ↔ entry.name = name ∧ kind? node = some entry.kind := by
  rcases entry with ⟨name', kind⟩
  cases node <;> simp [shown, kind?, eq_comm]

section

variable (ha : w.host.Anchored w.root place) (hfree : w.host.LinkFree place)
variable (hp : IsNormal p)

include ha hfree hp

/-- Without links every path is found below the root. -/
theorem hostPath_of_linkFree :
    w.hostPath p = .ok (p, some (w.root ++ Path.components p)) := by
  have hnames := (Path.of_normalize?_eq_some hp).1
  rw [hostPath_of_normalize? hp, if_pos]
  exact (ha.linkFree_iff hnames).2 (hfree.unlinked ha.wellFormed hnames)

theorem contained_of_linkFree : w.contained p = .ok (p, w.root ++ Path.components p) :=
  contained_eq_ok_iff.2 (hostPath_of_linkFree ha hfree hp)

/-- There what is found is what is shown. -/
theorem find_of_linkFree (follow : Bool) : w.host.find follow (w.root ++ Path.components p) =
    (w.host.status w.root place (Path.components p)).map fun node =>
      (descend place (Path.components p), node) := by
  have hnames := (Path.of_normalize?_eq_some hp).1
  exact ha.find_of_unlinked hnames (hfree.unlinked ha.wellFormed hnames) follow

theorem linkStatus_of_linkFree : w.host.linkStatus (w.root ++ Path.components p) =
    w.host.status w.root place (Path.components p) := by
  rw [Host.linkStatus, find_of_linkFree ha hfree hp]
  cases w.host.status w.root place (Path.components p) <;> rfl

/-- What is shown is what asking tells. -/
theorem stat_eq_of_status {node : Host.Node}
    (hstatus : w.host.status w.root place (Path.components p) = .ok node) :
    w.stat p = .ok node.stat? := by
  rw [stat, hostPath_of_linkFree ha hfree hp]
  simp only [bind, Except.bind]
  rw [linkStatus_of_linkFree ha hfree hp, hstatus]
  cases node with
  | file data => rfl
  | directory => rfl
  | link target =>
    have hnames := (Path.of_normalize?_eq_some hp).1
    exact absurd hstatus (hfree.unlinked ha.wellFormed hnames _ target List.prefix_rfl)

/-- A missing entry is no error. -/
theorem stat_eq_of_status_eq_error {e : Host.Failure}
    (hstatus : w.host.status w.root place (Path.components p) = .error e) :
    w.stat p = if e = .noEntry then .ok none else .error (explain p e) := by
  rw [stat, hostPath_of_linkFree ha hfree hp]
  simp only [bind, Except.bind]
  rw [linkStatus_of_linkFree ha hfree hp, hstatus]
  cases e <;> rfl

/-- A file can be read exactly if it is shown. -/
theorem read_eq_ok_iff {data : Bytes} : w.read p = .ok data ↔
    w.host.status w.root place (Path.components p) = .ok (.file data) := by
  rw [read, contained_of_linkFree ha hfree hp]
  simp only [bind, Except.bind]
  rw [linkStatus_of_linkFree ha hfree hp, Host.read, find_of_linkFree ha hfree hp]
  cases w.host.status w.root place (Path.components p) with
  | error e => exact iff_of_false (fun h => by cases h) (by simp)
  | ok node =>
    cases node with
    | file found =>
      show Except.ok found = .ok data ↔ Except.ok (Host.Node.file found) = .ok (.file data)
      simp
    | directory => exact iff_of_false (fun h => by cases h) (by simp)
    | link target => exact iff_of_false (fun h => by cases h) (by simp)

/-- A directory can be listed exactly if it is shown. -/
theorem list_eq_ok_iff {found : List DirEntry} : w.list p = .ok found ↔
    w.host.status w.root place (Path.components p) = .ok .directory
      ∧ (w.host.entries (descend place (Path.components p))).filterMap shown = found := by
  rw [list, contained_of_linkFree ha hfree hp]
  simp only [bind, Except.bind]
  rw [Host.readDirectory, find_of_linkFree ha hfree hp]
  cases w.host.status w.root place (Path.components p) with
  | error e => exact iff_of_false (fun h => by cases h) (by simp)
  | ok node =>
    cases node with
    | file found => exact iff_of_false (fun h => by cases h) (by simp)
    | directory =>
      rw [shown_eq]
      exact ⟨fun h => ⟨rfl, Except.ok.inj h⟩, fun h => congrArg Except.ok h.2⟩
    | link target => exact iff_of_false (fun h => by cases h) (by simp)

end

/-! ## The same files and directories -/

/-- The tree and the directory that the workspace stands on hold the same files and directories, and
the directory holds nothing else. -/
structure Mirrors (w : Rooted) (place : String) (t : Tree) : Prop where
  wellFormed : t.WellFormed
  stands : w.Stands place
  holds : ∀ names, (∀ n ∈ names, IsName n) → w.host.view place names = t.node? (descend "" names)

variable {t : Tree}

namespace Mirrors

theorem linkFree (hm : w.Mirrors place t) : w.host.LinkFree place :=
  fun names _ hnames => hm.holds names hnames ▸ Tree.node?_ne_link

theorem view_components (hm : w.Mirrors place t) (hp : IsNormal p) :
    w.host.view place (Path.components p) = t.node? p := by
  rw [hm.holds _ (Path.of_normalize?_eq_some hp).1, Path.descend_components hp]

/-- The names of a path pass a file if the path lies below one. -/
theorem passesFile_iff (hm : w.Mirrors place t) (hp : IsNormal p) :
    w.host.PassesFile place (Path.components p) ↔ ∃ f ∈ t.files, Below f p := by
  obtain ⟨hnames, hpath⟩ := Path.of_normalize?_eq_some hp
  constructor
  -- a file on the way down stands in the tree, and its path is the front of the way
  · rintro ⟨front, rest, data, happend, hrest, hfile⟩
    have hfront := Host.isName_front hnames ⟨rest, happend⟩
    rw [hm.holds front hfront, Path.descend_root hfront, Tree.node?_eq_file_iff] at hfile
    have hmem : Path.ofSegments front ∈ t.files := by
      rw [Std.ExtTreeMap.mem_iff_isSome_getElem?, hfile]
      rfl
    have hne : front ≠ [] := by
      rintro rfl
      exact hm.wellFormed.ne_root hmem Path.ofSegments_nil
    refine ⟨_, hmem, Path.below_iff.2 ⟨Path.ofSegments rest, ?_⟩⟩
    rw [hpath, ← happend, Path.ofSegments_append hne hrest]
  -- a file above the path is met where the way down has come by its names
  · rintro ⟨f, hf, hbelow⟩
    obtain ⟨front, hfront, rfl⟩ := Path.isNormal_iff.1 (hm.wellFormed.normal_file f hf)
    have hne : front ≠ [] := by
      rintro rfl
      exact hm.wellFormed.ne_root hf Path.ofSegments_nil
    obtain ⟨rest, hrest⟩ := Path.below_iff.1 hbelow
    refine ⟨front, Path.segments rest, t.files.get _ hf, ?_, Path.segments_ne_nil rest, ?_⟩
    · have hp' : p ≠ "" := hbelow.ne_empty
      rw [hpath] at hp' hrest
      have hnonempty : Path.components p ≠ [] := fun hnil => hp' (hnil ▸ Path.ofSegments_nil)
      calc front ++ Path.segments rest
          = Path.segments (Path.ofSegments front) ++ Path.segments rest := by
            rw [Path.segments_ofSegments hne fun n hn => (hfront n hn).no_slash]
        _ = Path.segments (Path.ofSegments (Path.components p)) := by
            rw [hrest, Path.segments_append]
        _ = Path.components p :=
            Path.segments_ofSegments hnonempty fun n hn => (hnames n hn).no_slash
    · rw [hm.holds front hfront, Path.descend_root hfront, Tree.node?_eq_file_iff]
      exact Std.ExtTreeMap.getElem?_eq_some_getElem hf

/-- Both list the same entries, as both go by the names and show the kind of what stands there. -/
theorem entries_eq (hm : w.Mirrors place t) (hp : IsNormal p) :
    (w.host.entries (descend place (Path.components p))).filterMap shown = t.entries p := by
  obtain ⟨hnames, hpath⟩ := Path.of_normalize?_eq_some hp
  -- both listings are sorted by name, so that the same entries are the same listing
  have hsorted : ((w.host.entries (descend place (Path.components p))).filterMap shown).Pairwise
      fun a b => a.name < b.name := by
    refine (Host.pairwise_entries hm.stands.wellFormed _).filterMap _ ?_
    rintro ⟨name, node⟩ ⟨name', node'⟩ hlt entry hentry entry' hentry'
    cases node <;> cases hentry <;> cases node' <;> cases hentry' <;> exact hlt
  have hnode : ∀ name, IsName name → w.host.node? (join (descend place (Path.components p)) name)
      = t.node? (join p name) := by
    intro name hname
    have hview := hm.holds _ (Path.isName_concat hnames hname)
    rwa [Host.view, Path.descend_concat, Path.descend_concat, Path.descend_components hp] at hview
  have hmem : ∀ entry, entry ∈ (w.host.entries (descend place (Path.components p))).filterMap shown
      ↔ entry ∈ t.entries p := by
    rintro ⟨name, kind⟩
    rw [List.mem_filterMap]
    constructor
    · rintro ⟨⟨name', node⟩, hentry, hshown⟩
      obtain ⟨hname, hnode'⟩ := (Host.mem_entries_iff hm.stands.wellFormed).1 hentry
      obtain ⟨rfl, hkind⟩ := shown_eq_some_iff.1 hshown
      refine hm.wellFormed.mem_entries_iff.2 ⟨hname.no_slash, hname.ne_empty, ?_⟩
      rw [Tree.kind?_eq, ← hnode name hname, hnode']
      exact hkind
    · intro hentry
      obtain ⟨hname, hkind⟩ := hm.wellFormed.of_mem_entries hentry
      rw [Tree.kind?_eq, ← hnode name hname, Option.bind_eq_some_iff] at hkind
      obtain ⟨node, hnode', hkind⟩ := hkind
      exact ⟨(name, node), (Host.mem_entries_iff hm.stands.wellFormed).2 ⟨hname, hnode'⟩,
        shown_eq_some_iff.2 ⟨rfl, hkind⟩⟩
  have hperm : ((w.host.entries (descend place (Path.components p))).filterMap shown).Perm
      (t.entries p) := by
    rw [List.perm_ext_iff_of_nodup (hsorted.imp fun hlt => ?_)
      ((Tree.pairwise_entries t p).imp fun hlt => ?_)]
    · exact hmem
    all_goals
      rintro rfl
      exact lt_irrefl _ hlt
  exact hperm.eq_of_pairwise (fun a b _ _ hab hba => absurd (hab.trans hba) (lt_irrefl _))
    hsorted (Tree.pairwise_entries t p)

/-- As long as the host does not find a path too long, both list and read the same at it, and tell
the same unless it lies below a file: nothing stands there, as the tree tells, but the host refuses
it as a path that goes on after a file. -/
theorem answers_alike_iff (hm : w.Mirrors place t) (hp : IsNormal p)
    (hlong : w.host.linkStatus (w.root ++ Path.components p) ≠ .error .nameTooLong) :
    (∃ status, t.stat p = .ok status
        ∧ status = (w.host.view place (Path.components p)).bind Host.Node.stat?
        ∧ (w.stat p = .ok status ↔ ∀ f ∈ t.files, ¬ Below f p))
      ∧ ((∃ f ∈ t.files, Below f p) →
        t.stat p = .ok none ∧ w.stat p = .error (.notADirectory p))
      ∧ (∀ found, (w.list p = .ok found ↔ t.list p = .ok found)
        ∧ (t.list p = .ok found → found.Pairwise fun a b => a.name < b.name))
      ∧ ∀ data, w.read p = .ok data ↔ t.read p = .ok data := by
  have ha := hm.stands.anchored
  have hfree := hm.linkFree
  have hnames := (Path.of_normalize?_eq_some hp).1
  rw [linkStatus_of_linkFree ha hfree hp] at hlong
  have hstatus := ha.status_cases hfree hnames hlong
  rw [hm.view_components hp, hm.passesFile_iff hp] at hstatus
  have hstat := Tree.stat_eq (t := t) hp
  refine ⟨⟨_, hstat, by rw [hm.view_components hp], ?_⟩, ?_, fun found => ⟨?_, fun h => ?_⟩,
    fun data => ?_⟩
  -- a path below a file is the one where the host complains while the tree has nothing
  · rcases hstatus with ⟨node, hshown, hnode, habove⟩ | ⟨hshown, hnode, habove⟩
      | ⟨hshown, hnode, habove⟩
    · rw [stat_eq_of_status ha hfree hp hshown, hnode]
      exact iff_of_true rfl (by simpa using habove)
    · rw [stat_eq_of_status_eq_error ha hfree hp hshown, hnode]
      exact iff_of_false (by simp) (by simpa using habove)
    · rw [stat_eq_of_status_eq_error ha hfree hp hshown, hnode]
      exact iff_of_true rfl (by simpa using habove)
  -- the other two cases have no file above
  · intro hbelow
    rcases hstatus with ⟨-, -, -, habove⟩ | ⟨hshown, hnode, -⟩ | ⟨-, -, habove⟩
    · exact absurd hbelow habove
    · rw [hstat, hnode, stat_eq_of_status_eq_error ha hfree hp hshown]
      exact ⟨rfl, rfl⟩
    · exact absurd hbelow habove
  · rw [list_eq_ok_iff ha hfree hp, Tree.list_eq_ok_iff hp, hm.entries_eq hp]
    refine and_congr_left fun _ => ?_
    rcases hstatus with ⟨node, hshown, hnode, -⟩ | ⟨hshown, hnode, -⟩ | ⟨hshown, hnode, -⟩
    · simp [hshown, hnode]
    · simp [hshown, hnode]
    · simp [hshown, hnode]
  · rw [← ((Tree.list_eq_ok_iff hp).1 h).2]
    exact Tree.pairwise_entries t p
  · rw [read_eq_ok_iff ha hfree hp, Tree.read_eq_ok_iff hp]
    rcases hstatus with ⟨node, hshown, hnode, -⟩ | ⟨hshown, hnode, -⟩ | ⟨hshown, hnode, -⟩
    · simp [hshown, hnode]
    · simp [hshown, hnode]
    · simp [hshown, hnode]

end Mirrors

/-- A tree with one file. -/
def oneFile : Tree := ⟨(∅ : FileSet).insert "f" [], ∅⟩

/-- A host with one file, as a workspace. -/
def withFile : Rooted := ⟨⟨(∅ : Std.ExtTreeMap String Host.Node compare).insert "f" (.file [])⟩, []⟩

theorem stands_withFile : withFile.Stands "" := by
  have hmem : ∀ p ∈ withFile.host.nodes, p = "f" := by
    intro p hp
    simpa [withFile, Std.ExtTreeMap.mem_insert, @eq_comm String] using hp
  have hfind : ∀ follow, withFile.host.find follow [] = .ok ("", .directory) := by
    intro follow
    refine Host.find_eq_ok_iff.2 ⟨?_, Host.node?_root _⟩
    rw [Host.locate_eq, if_neg (by decide), Host.walk]
  refine ⟨⟨fun p hp => ?_, fun p hp => ?_, fun p hp => ?_⟩, ?_, hfind false⟩
  · exact hmem p hp ▸ by decide
  · exact hmem p hp ▸ by decide
  · exact hmem p hp ▸ by decide +kernel
  · show (if withFile.host.isDirectory [] then _ else _) = _
    rw [Host.isDirectory, hfind]
    rfl

/-- A host with one file mirrors the tree with this file. -/
theorem mirrors_oneFile : withFile.Mirrors "" oneFile := by
  refine ⟨Tree.wellFormed_of_files (by decide +kernel), stands_withFile, fun names _ => ?_⟩
  rw [Host.view]
  generalize descend "" names = p
  by_cases hroot : p = ""
  · subst hroot
    decide +kernel
  by_cases hfile : p = "f"
  · subst hfile
    decide +kernel
  have hnone : ¬ compare "f" p = .eq := fun heq => hfile (Std.compare_eq_iff_eq.1 heq).symm
  have hdirectory : oneFile.isDirectory p = false := by
    rw [Bool.eq_false_iff]
    intro hdirectory
    rcases Tree.isDirectory_iff.1 hdirectory with heq | hmem | ⟨key, hkey, hbelow⟩
    · exact hroot heq
    · exact Std.ExtTreeSet.not_mem_empty hmem
    · obtain rfl : key = "f" := by simpa [Tree.IsKey, oneFile, @eq_comm String] using hkey
      exact hroot (String.toList_eq_nil_iff.1 (List.length_eq_zero_iff.1
        (Nat.lt_one_iff.1 hbelow.length_lt)))
  rw [Host.node?_of_ne hroot, Tree.node?, hdirectory]
  simp [withFile, oneFile, hnone]

/-- The host finds neither the path of the file nor one below it too long. -/
theorem linkStatus_withFile {p : String} (hp : p = "f" ∨ p = "f/x") :
    withFile.host.linkStatus (withFile.root ++ Path.components p) ≠ .error .nameTooLong := by
  have hnormal : IsNormal p := by
    rcases hp with rfl | rfl <;> decide
  rw [linkStatus_of_linkFree stands_withFile.anchored mirrors_oneFile.linkFree hnormal]
  rcases hp with rfl | rfl <;> decide +kernel

/-- Both tell the same of the file. -/
theorem answers_alike_iff_oneFile :
    withFile.Mirrors "" oneFile ∧ IsNormal "f"
      ∧ withFile.host.linkStatus (withFile.root ++ Path.components "f") ≠ .error .nameTooLong
      ∧ oneFile.stat "f" = .ok (some ⟨.file, 0⟩) ∧ withFile.stat "f" = .ok (some ⟨.file, 0⟩) := by
  have hlong := linkStatus_withFile (.inl rfl)
  obtain ⟨⟨status, htree, hstatus, hhost⟩, -⟩ :=
    Mirrors.answers_alike_iff mirrors_oneFile (p := "f") (by decide) hlong
  obtain rfl : status = some ⟨.file, 0⟩ := hstatus.trans (by decide +kernel)
  refine ⟨mirrors_oneFile, by decide, hlong, htree, hhost.2 fun f hf hbelow => ?_⟩
  obtain rfl : f = "f" := by simpa [oneFile, @eq_comm String] using hf
  exact hbelow.irrefl

/-- Below the file the tree has nothing, but the host refuses the path. -/
theorem not_forall_stat_alike : ¬ ∀ (w : Rooted) (place : String) (t : Tree) (p : String),
    w.Mirrors place t → IsNormal p →
    w.host.linkStatus (w.root ++ Path.components p) ≠ .error .nameTooLong →
    w.stat p = t.stat p := by
  intro hall
  have hlong := linkStatus_withFile (.inr rfl)
  have halike := hall _ _ _ "f/x" mirrors_oneFile (by decide) hlong
  have hstatus : withFile.host.status withFile.root "" (Path.components "f/x")
      = .error .notDirectory := by
    decide +kernel
  rw [stat_eq_of_status_eq_error stands_withFile.anchored mirrors_oneFile.linkFree (by decide)
    hstatus, Tree.stat_eq (by decide)] at halike
  cases halike

end Rooted

end Sandshell
