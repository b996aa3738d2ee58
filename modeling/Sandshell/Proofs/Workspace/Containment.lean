import Sandshell.Proofs.Workspace.Calls

/-!
# Host directories as workspaces

The calls of a workspace on a host directory follow no link below it. They change nothing outside
of the directory and see nothing there, whatever its links point to.
-/

namespace Sandshell

open Sandshell.Path (IsName IsNormal descend join)
open Sandshell.Host (Twin Onward)

/-- A call on a workspace. -/
inductive Rooted.Call where
  | read (path : String)
  | write (path : String) (data : Bytes)
  | delete (path : String)
  | stat (path : String)
  | list (path : String)
deriving DecidableEq, Repr, Inhabited

/-- What a call returns. -/
inductive Rooted.Answer where
  | contents (result : Except WorkspaceError Bytes)
  | done (result : Except WorkspaceError Unit)
  | status (result : Except WorkspaceError (Option Stat))
  | entries (result : Except WorkspaceError (List DirEntry))

namespace Rooted

/-- The path that a call is made with. -/
def Call.path : Call → String
  | .read path | .write path _ | .delete path | .stat path | .list path => path

variable {h h' : Host} {root : List String} {path p place place' : String} {w w' : Rooted}

/-- The answer of a call that fails. -/
def Call.failure (e : WorkspaceError) : Call → Answer
  | .read _ => .contents (.error e)
  | .write _ _ | .delete _ => .done (.error e)
  | .stat _ => .status (.error e)
  | .list _ => .entries (.error e)

/-- The answer to a call whose path leads through a link. -/
def Call.refusal (p : String) : Call → Answer
  | .stat _ => .status (.ok none)
  | call => call.failure (.invalidPath p)

/-- The answer to a call, and the workspace that the call leaves. -/
def perform (w : Rooted) : Call → Answer × Rooted
  | .read path => (Workspace.read path w).map .contents id
  | .write path data => (Workspace.write path data w).map .done id
  | .delete path => (Workspace.delete path w).map .done id
  | .stat path => (Workspace.stat path w).map .status id
  | .list path => (Workspace.list path w).map .entries id

/-- The answers to calls made one after the other, and the workspace that they leave. -/
def performAll (w : Rooted) : List Call → List Answer × Rooted
  | [] => ([], w)
  | call :: rest =>
    let (answer, after) := w.perform call
    let (answers, final) := after.performAll rest
    (answer :: answers, final)

/-! ## Probing -/

theorem hostPath_eq_error (hp : Path.normalize? path = none) :
    w.hostPath path = .error (.invalidPath path) := by
  rw [hostPath, WorkspaceError.normalize, hp]
  rfl

theorem stat_eq_error (hp : Path.normalize? path = none) :
    w.stat path = .error (.invalidPath path) := by
  rw [stat, hostPath_eq_error hp]
  rfl

/-- A path that meets no link is found below the root by its names. -/
theorem hostPath_of_normalize? (hp : Path.normalize? path = some p) :
    w.hostPath path = .ok (p, if linkFree w.host w.root (Path.components path)
      then some (w.root ++ Path.components path) else none) := by
  rw [hostPath, WorkspaceError.normalize, hp, ← Path.filter_segments_of_normalize? hp]
  rfl

/-- A call is refused where its path meets a link. -/
theorem contained_eq (w : Rooted) (path : String) :
    w.contained path =
      match w.hostPath path with
      | .error e => .error e
      | .ok (p, some location) => .ok (p, location)
      | .ok (p, none) => .error (.invalidPath p) := by
  rw [contained]
  rcases w.hostPath path with e | ⟨p, _ | location⟩ <;> rfl

theorem contained_eq_ok_iff {location : List String} :
    w.contained path = .ok (p, location) ↔ w.hostPath path = .ok (p, some location) := by
  rw [contained_eq]
  rcases w.hostPath path with e | ⟨p, _ | location⟩ <;> simp

/-- A path that is not refused is one by names that meet no link. -/
theorem of_hostPath_eq_ok {location : List String} (ha : h.Anchored root place)
    (hpath : (⟨h, root⟩ : Rooted).hostPath path = .ok (p, some location)) :
    Path.normalize? path = some p ∧ location = root ++ Path.components path
      ∧ (∀ n ∈ Path.components path, IsName n)
      ∧ h.Unlinked root place (Path.components path) := by
  cases hp : Path.normalize? path with
  | none =>
    rw [hostPath_eq_error hp] at hpath
    contradiction
  | some normal =>
    have hnames := (Path.of_normalize?_eq_some hp).1
    rw [hostPath_of_normalize? hp, Except.ok.injEq, Prod.mk.injEq] at hpath
    obtain ⟨rfl, hlocation⟩ := hpath
    split at hlocation
    · next hfree =>
      exact ⟨rfl, (Option.some.inj hlocation).symm, hnames, (ha.linkFree_iff hnames).1 hfree⟩
    · contradiction

/-! ## One call on alike hosts -/

/-- Both steps return the same, and lead on from the first host and one that was alike. -/
def Parallel {α : Type} (root : List String) (place place' : String) (h : Host)
    (x x' : α × Rooted) : Prop :=
  ∃ result after after', x = (result, ⟨after, root⟩) ∧ x' = (result, ⟨after', root⟩)
    ∧ Onward root place place' h after after'

/-- What parallel steps return may be changed alike. -/
theorem Parallel.map {α β : Type} {x x' : α × Rooted} (hx : Parallel root place place' h x x')
    (f : α → β) : Parallel root place place' h (x.map f id) (x'.map f id) := by
  obtain ⟨result, after, after', rfl, rfl, honward⟩ := hx
  exact ⟨f result, after, after', rfl, rfl, honward⟩

theorem parallel_of_onward {α : Type} {after after' : Host} (result : α)
    (honward : Onward root place place' h after after') :
    Parallel root place place' h (result, (⟨after, root⟩ : Rooted)) (result, ⟨after', root⟩) :=
  ⟨result, after, after', rfl, rfl, honward⟩

/-- Questions that twins answer alike are parallel. -/
theorem parallel_ask {α : Type} (question : Rooted → Except WorkspaceError α)
    (ht : Twin root h place h' place') (hsame : question ⟨h, root⟩ = question ⟨h', root⟩) :
    Parallel root place place' h (ask question ⟨h, root⟩) (ask question ⟨h', root⟩) := by
  rw [ask, ask, hsame]
  exact parallel_of_onward _ ht.onward

/-- Twins find the same paths. -/
theorem hostPath_congr (ht : Twin root h place h' place') (path : String) :
    (⟨h, root⟩ : Rooted).hostPath path = (⟨h', root⟩ : Rooted).hostPath path := by
  cases hp : Path.normalize? path with
  | none => rw [hostPath_eq_error hp, hostPath_eq_error hp]
  | some p =>
    have hnames := (Path.of_normalize?_eq_some hp).1
    have hfree : linkFree h root (Path.components path)
        = linkFree h' root (Path.components path) := by
      rw [Bool.eq_iff_iff, ht.left.linkFree_iff hnames, ht.right.linkFree_iff hnames]
      exact ⟨ht.unlinked hnames, ht.symm.unlinked hnames⟩
    rw [hostPath_of_normalize? hp, hostPath_of_normalize? hp, hfree]

theorem contained_congr (ht : Twin root h place h' place') (path : String) :
    (⟨h, root⟩ : Rooted).contained path = (⟨h', root⟩ : Rooted).contained path := by
  rw [contained_eq, contained_eq, hostPath_congr ht]

/-- Reading is answered alike. -/
theorem read_congr (ht : Twin root h place h' place') (path : String) :
    (⟨h, root⟩ : Rooted).read path = (⟨h', root⟩ : Rooted).read path := by
  rw [read, read, ← contained_congr ht]
  cases hcontained : (⟨h, root⟩ : Rooted).contained path with
  | error e => rfl
  | ok found =>
    obtain ⟨-, hlocation, hnames, hu⟩ :=
      of_hostPath_eq_ok ht.left (contained_eq_ok_iff.1 hcontained)
    simp only [bind, Except.bind, hlocation]
    rw [ht.linkStatus hnames hu, ht.read hnames hu]

/-- So is asking what stands at a path. -/
theorem stat_congr (ht : Twin root h place h' place') (path : String) :
    (⟨h, root⟩ : Rooted).stat path = (⟨h', root⟩ : Rooted).stat path := by
  rw [stat, stat, ← hostPath_congr ht]
  rcases hpath : (⟨h, root⟩ : Rooted).hostPath path with e | ⟨p, _ | location⟩
  · rfl
  · rfl
  · obtain ⟨-, rfl, hnames, hu⟩ := of_hostPath_eq_ok ht.left hpath
    simp only [bind, Except.bind]
    rw [ht.linkStatus hnames hu]

/-- And so is listing. -/
theorem list_congr (ht : Twin root h place h' place') (path : String) :
    (⟨h, root⟩ : Rooted).list path = (⟨h', root⟩ : Rooted).list path := by
  rw [list, list, ← contained_congr ht]
  cases hcontained : (⟨h, root⟩ : Rooted).contained path with
  | error e => rfl
  | ok found =>
    obtain ⟨-, hlocation, hnames, hu⟩ :=
      of_hostPath_eq_ok ht.left (contained_eq_ok_iff.1 hcontained)
    simp only [bind, Except.bind, hlocation]
    rw [ht.readDirectory hnames hu]

/-- Writes to twins are parallel. -/
theorem write_parallel (ht : Twin root h place h' place') (path : String) (data : Bytes) :
    Parallel root place place' h (write path data ⟨h, root⟩) (write path data ⟨h', root⟩) := by
  rw [write, write, ← contained_congr ht]
  cases hcontained : (⟨h, root⟩ : Rooted).contained path with
  | error e => exact parallel_of_onward _ ht.onward
  | ok found =>
    rcases found with ⟨p, location⟩
    obtain ⟨hp, rfl, hnames, hu⟩ := of_hostPath_eq_ok ht.left (contained_eq_ok_iff.1 hcontained)
    dsimp only
    split
    · exact parallel_of_onward _ ht.onward
    · next hne =>
      have hnonempty : Path.components path ≠ [] := by
        intro hnil
        rw [(Path.of_normalize?_eq_some hp).2, hnil] at hne
        exact hne Path.ofSegments_nil
      -- the names of the directories above are a part of those of the file
      have hdirectory := List.dropLast_prefix (Path.components path)
      obtain ⟨hsame, honward⟩ := ht.makeDirectories
        (Host.isName_front hnames hdirectory) (hu.of_longer hdirectory)
      rw [List.dropLast_append_of_ne_nil hnonempty]
      rcases hmade : h.makeDirectories (root ++ (Path.components path).dropLast) with ⟨made, mid⟩
      rcases hmade' : h'.makeDirectories (root ++ (Path.components path).dropLast)
        with ⟨made', mid'⟩
      rw [hmade, hmade'] at hsame honward
      obtain rfl : made = made' := hsame
      cases made with
      | error e => exact parallel_of_onward _ honward
      | ok _ =>
        -- the file is written on the hosts that the directories were made on
        have hwrite := honward.twin.write hnames (honward.contained.unlinked ht.left.wellFormed
          honward.twin.left.wellFormed hnames hu) data
        dsimp only
        generalize mid.write (root ++ Path.components path) data = written at hwrite ⊢
        generalize mid'.write (root ++ Path.components path) data = written' at hwrite ⊢
        cases hwrite with
        | error e => exact parallel_of_onward _ honward
        | ok honward' => exact parallel_of_onward _ (honward.trans honward')

theorem delete_apply (w : Rooted) (path : String) : Workspace.delete path w =
    match w.delete path with
    | .ok w' => (.ok (), w')
    | .error e => (.error e, w) :=
  rfl

/-- So are deletions. -/
theorem delete_parallel (ht : Twin root h place h' place') (path : String) :
    Parallel root place place' h (Workspace.delete path (⟨h, root⟩ : Rooted))
      (Workspace.delete path (⟨h', root⟩ : Rooted)) := by
  rw [delete_apply, delete_apply, delete, delete, ← contained_congr ht]
  cases hcontained : (⟨h, root⟩ : Rooted).contained path with
  | error e => exact parallel_of_onward _ ht.onward
  | ok found =>
    rcases found with ⟨p, location⟩
    obtain ⟨hp, rfl, hnames, hu⟩ := of_hostPath_eq_ok ht.left (contained_eq_ok_iff.1 hcontained)
    have hremove := ht.remove hnames hu
    simp only [bind, Except.bind]
    generalize h.remove (root ++ Path.components path) = removed at hremove ⊢
    generalize h'.remove (root ++ Path.components path) = removed' at hremove ⊢
    cases hremove with
    | error e => cases e <;> exact parallel_of_onward _ ht.onward
    | ok honward => exact parallel_of_onward _ honward

/-- And all other calls. -/
theorem perform_parallel (ht : Twin root h place h' place') (call : Call) :
    Parallel root place place' h (perform ⟨h, root⟩ call) (perform ⟨h', root⟩ call) := by
  cases call with
  | read path => exact (parallel_ask (·.read path) ht (read_congr ht path)).map _
  | write path data => exact (write_parallel ht path data).map _
  | delete path => exact (delete_parallel ht path).map _
  | stat path => exact (parallel_ask (·.stat path) ht (stat_congr ht path)).map _
  | list path => exact (parallel_ask (·.list path) ht (list_congr ht path)).map _

/-- Calls on alike hosts have the same answers, one by one. -/
theorem performAll_parallel (ht : Twin root h place h' place') (calls : List Call) :
    Parallel root place place' h (performAll ⟨h, root⟩ calls) (performAll ⟨h', root⟩ calls) := by
  induction calls generalizing h h' with
  | nil => exact parallel_of_onward [] ht.onward
  | cons call rest ih =>
    obtain ⟨answer, mid, mid', hcall, hcall', honward⟩ := perform_parallel ht call
    obtain ⟨answers, after, after', hrest, hrest', honward'⟩ := ih honward.twin
    refine ⟨answer :: answers, after, after', ?_, ?_, honward.trans honward'⟩
    · simp only [performAll, hcall, hrest]
    · simp only [performAll, hcall', hrest']

/-! ## Links -/

/-- All calls but one fail where the path is refused. -/
theorem perform_of_contained_eq_error {e : WorkspaceError} (call : Call)
    (hcall : ∀ path, call ≠ .stat path) (hcontained : w.contained call.path = .error e) :
    w.perform call = (call.failure e, w) := by
  cases call with
  | read path =>
    have hread : w.read path = .error e := by
      rw [read]
      exact congrArg (· >>= _) hcontained
    exact congrArg (fun result => (Answer.contents result, w)) hread
  | write path data =>
    have hwrite : write path data w = (.error e, w) := by
      rw [write]
      simp only [show w.contained path = _ from hcontained]
    exact congrArg (Prod.map Answer.done id) hwrite
  | delete path =>
    have hdelete : w.delete path = .error e := by
      rw [delete]
      exact congrArg (· >>= _) hcontained
    show Prod.map Answer.done id (Workspace.delete path w) = _
    rw [delete_apply, hdelete]
    rfl
  | stat path => exact absurd rfl (hcall path)
  | list path =>
    have hlist : w.list path = .error e := by
      rw [list]
      exact congrArg (· >>= _) hcontained
    exact congrArg (fun result => (Answer.entries result, w)) hlist

/-- What is no path of the workspace fails in every call. -/
theorem perform_of_not_normal (call : Call) (hp : Path.normalize? call.path = none) :
    w.perform call = (call.failure (.invalidPath call.path), w) := by
  have hcontained : w.contained call.path = .error (.invalidPath call.path) := by
    rw [contained_eq, hostPath_eq_error hp]
  cases call with
  | stat path => exact congrArg (fun result => (Answer.status result, w)) (stat_eq_error hp)
  | _ => exact perform_of_contained_eq_error _ (fun _ => by simp) hcontained

/-- A path with a link among its names is refused, if the host can be asked for the link. -/
theorem perform_of_link {q : List String} {target : String} (ha : w.host.Anchored w.root place)
    (call : Call) (hp : Path.normalize? call.path = some p)
    (hq : q <+: Path.components call.path)
    (hsize : Host.pathSize (w.root ++ q) ≤ Host.maxPathLength) (hshort : Host.Short q)
    (hlink : w.host.view place q = some (.link target)) :
    w.perform call = (call.refusal p, w) := by
  have hnames := (Path.of_normalize?_eq_some hp).1
  have hfree : ¬ linkFree w.host w.root (Path.components call.path) = true := by
    rw [ha.linkFree_iff hnames]
    exact fun hu => hu q target hq ((Host.status_eq_ok_iff ha.wellFormed
      (Host.isName_front hnames hq)).2 ⟨hsize, hshort, hlink⟩)
  have hpath : w.hostPath call.path = .ok (p, none) := by
    rw [hostPath_of_normalize? hp, if_neg hfree]
  have hcontained : w.contained call.path = .error (.invalidPath p) := by
    rw [contained_eq, hpath]
  cases call with
  | stat path =>
    have hstat : w.stat path = .ok none := by
      rw [stat]
      exact congrArg (· >>= _) hpath
    exact congrArg (fun result => (Answer.status result, w)) hstat
  | _ => exact perform_of_contained_eq_error _ (fun _ => by simp) hcontained

/-- The kind of an entry that a listing shows. -/
def kind? : Host.Node → Option EntryKind
  | .file _ => some .file
  | .directory => some .directory
  | .link _ => none

/-- A listing shows files and directories, as what they are. -/
theorem kind?_of_mem_list {found : List DirEntry} {entry : DirEntry}
    (ha : w.host.Anchored w.root place) (hlist : w.list path = .ok found) (hentry : entry ∈ found) :
    ∃ node, w.host.view place (Path.components path ++ [entry.name]) = some node
      ∧ kind? node = some entry.kind := by
  rw [list] at hlist
  cases hcontained : w.contained path with
  | error e =>
    rw [hcontained] at hlist
    contradiction
  | ok x =>
    rcases x with ⟨p, location⟩
    obtain ⟨-, rfl, hnames, hu⟩ := of_hostPath_eq_ok ha (contained_eq_ok_iff.1 hcontained)
    cases hread : w.host.readDirectory (w.root ++ Path.components path) with
    | error e =>
      rw [hcontained] at hlist
      simp only [bind, Except.bind, hread] at hlist
      contradiction
    | ok nodes =>
      have hnodes := ha.entries_of_readDirectory hnames hu hread
      rw [hcontained] at hlist
      simp only [bind, Except.bind, hread] at hlist
      rw [← Except.ok.inj hlist, List.mem_filterMap] at hentry
      obtain ⟨⟨name, node⟩, hmem, hshown⟩ := hentry
      rw [hnodes, Host.mem_entries_iff ha.wellFormed] at hmem
      -- links are left out, and the other two kinds keep their names
      have hkept : kind? node = some entry.kind ∧ name = entry.name := by
        cases node with
        | link target => contradiction
        | file data => exact Option.some.inj hshown ▸ ⟨rfl, rfl⟩
        | directory => exact Option.some.inj hshown ▸ ⟨rfl, rfl⟩
      refine ⟨node, ?_, hkept.1⟩
      rw [Host.view, Path.descend_concat, ← hkept.2]
      exact hmem.2

/-! ## All calls -/

/-- The workspace is open on a well-formed host, and its directory is reached at a place and not
through a link at the end of its path. -/
structure Stands (w : Rooted) (place : String) : Prop where
  wellFormed : w.host.WellFormed
  opened : open? w.host w.root = some w
  found : w.host.find false (Host.withoutSlash w.root) = .ok (place, .directory)

/-- A directory that stands is anchored at its place. -/
theorem Stands.anchored (hw : w.Stands place) : w.host.Anchored w.root place := by
  refine ⟨hw.wellFormed, hw.found, ?_⟩
  have hopened := hw.opened
  rw [open?] at hopened
  split at hopened
  · next hdirectory =>
    rw [Host.isDirectory, Host.find_eq, Host.locate_eq] at hdirectory
    by_contra hlong
    rw [if_pos (Nat.not_le.1 hlong)] at hdirectory
    contradiction
  · contradiction

/-- Calls on a workspace whose directory is no link change nothing outside of the directory. Their
answers are the same on every host that has the same in the directory. At each moment what is no
path of the workspace fails, a path that leads through a link in the directory is refused, if it is
short enough up to there, and no listing shows a link. -/
theorem follows_no_link (hw : w.Stands place) (calls : List Call) :
    (∀ p, (Path.isWithin place p → p = place) →
      (w.performAll calls).2.host.node? p = w.host.node? p)
    ∧ (∀ (w' : Rooted) (place' : String), w'.Stands place' → w'.root = w.root →
      (∀ names, (∀ name ∈ names, IsName name) →
        w'.host.view place' names = w.host.view place names) →
      (w'.performAll calls).1 = (w.performAll calls).1)
    ∧ (∀ call : Call, Path.normalize? call.path = none →
      (w.performAll calls).2.perform call
        = (call.failure (.invalidPath call.path), (w.performAll calls).2))
    ∧ (∀ (call : Call) (p : String) (q : List String) (target : String),
      Path.normalize? call.path = some p → q <+: Path.components call.path →
      Host.pathSize (w.root ++ q) ≤ Host.maxPathLength → Host.Short q →
      (w.performAll calls).2.host.view place q = some (.link target) →
      (w.performAll calls).2.perform call = (call.refusal p, (w.performAll calls).2))
    ∧ (∀ (path : String) (found : List DirEntry), (w.performAll calls).2.list path = .ok found →
      ∀ entry ∈ found, ∃ node,
        (w.performAll calls).2.host.view place (Path.components path ++ [entry.name]) = some node
          ∧ kind? node = some entry.kind) := by
  -- the run goes on alike on the host itself and on every host that shows the same
  have ha := hw.anchored
  obtain ⟨answers, after, _, hcalls, _, honward⟩ := performAll_parallel ha.twin calls
  have hafter := honward.twin.left
  rw [show w.performAll calls = (answers, ⟨after, w.root⟩) from hcalls]
  refine ⟨fun p hp => honward.contained.outside p fun names hnames hne heq => ?_, ?_,
    fun call hp => perform_of_not_normal call hp,
    fun call p q target hp hq hsize hshort hlink => ?_,
    fun path found hlist entry hentry => kind?_of_mem_list hafter hlist hentry⟩
  -- what lies below the place is all that may change
  · rw [heq] at hp
    exact Path.descend_ne hnames hne (hp (Path.isWithin_descend place names))
  · rintro ⟨h', root'⟩ place' hw' rfl hagree
    have htwin : Twin w.root w.host place h' place' :=
      ⟨ha, hw'.anchored, fun names hnames => (hagree names hnames).symm⟩
    obtain ⟨answers', _, _, hcalls', hother, -⟩ := performAll_parallel htwin calls
    rw [hother]
    show answers' = answers
    exact congrArg Prod.fst (hcalls'.symm.trans hcalls)
  · exact perform_of_link hafter call hp hq hsize hshort hlink

/-- A host with a directory that holds a link out of it. -/
def linkedOut : Host :=
  ⟨((((∅ : Std.ExtTreeMap String Host.Node compare).insert "out" .directory).insert "out/secret"
    (.file [])).insert "r" .directory).insert "r/l" (.link "../out")⟩

/-- The directory, its path spelled with some dots. -/
def dotted (n : Nat) : Rooted :=
  ⟨linkedOut, "r" :: List.replicate n "."⟩

theorem wellFormed_linkedOut : linkedOut.WellFormed := by
  have hmem : ∀ p ∈ linkedOut.nodes, p = "r/l" ∨ p = "r" ∨ p = "out/secret" ∨ p = "out" := by
    intro p hp
    simpa [linkedOut, Std.ExtTreeMap.mem_insert, @eq_comm String] using hp
  constructor
  · intro p hp
    rcases hmem p hp with rfl | rfl | rfl | rfl <;> decide +kernel
  · intro p hp
    rcases hmem p hp with rfl | rfl | rfl | rfl <;> decide
  · intro p hp
    rcases hmem p hp with rfl | rfl | rfl | rfl <;> decide +kernel

/-- Dots lead nowhere. -/
theorem walk_dots (h : Host) (follow : Bool) (links : Nat) (here : String) (n : Nat) :
    h.walk follow links here (List.replicate n ".") = .ok here := by
  induction n with
  | zero => rw [List.replicate_zero, Host.walk]
  | succ n ih => rw [List.replicate_succ, Host.walk, if_pos (.inr rfl), ih]

theorem pathSize_dotted (n : Nat) : Host.pathSize (dotted n).root = 2 + 2 * n := by
  have hdot : (".").utf8ByteSize + 1 = 2 := by decide
  have hname : ("r").utf8ByteSize + 1 = 2 := by decide
  simp only [Host.pathSize, dotted, List.map_cons, List.map_replicate, List.sum_cons,
    List.sum_replicate_nat, hdot, hname]
  omega

/-- The directory is found as long as its path is short enough. -/
theorem find_dotted {n : Nat} (hn : n ≤ 2046) (follow : Bool) :
    linkedOut.find follow (dotted n).root = .ok ("r", .directory) := by
  have hnode : linkedOut.node? "r" = some .directory := by decide +kernel
  refine Host.find_eq_ok_iff.2 ⟨?_, hnode⟩
  have hjoin : join "" "r" = "r" := Path.join_empty "r"
  rw [Host.locate_eq, pathSize_dotted, if_neg (by rw [Host.maxPathLength]; omega), dotted, Host.walk,
    if_neg (by decide), if_neg (by decide), if_neg (by decide)]
  dsimp only
  rw [hjoin, hnode]
  exact walk_dots _ _ _ _ n

/-- So it stands there. -/
theorem stands_dotted {n : Nat} (hn : n ≤ 2046) : (dotted n).Stands "r" := by
  have hslash : Host.withoutSlash (dotted n).root = (dotted n).root := by
    rw [dotted]
    cases n with
    | zero => exact Host.withoutSlash_concat [] (by decide)
    | succ n =>
      rw [List.replicate_succ', ← List.cons_append]
      exact Host.withoutSlash_concat _ (by decide)
  refine ⟨wellFormed_linkedOut, ?_, ?_⟩
  · show (if linkedOut.isDirectory _ then _ else _) = _
    rw [Host.isDirectory, find_dotted hn]
    rfl
  · rw [hslash]
    exact find_dotted hn false

/-- Calls that go through the link are refused, and what it points to is still there after them. -/
theorem follows_no_link_dotted :
    (dotted 0).Stands "r"
    ∧ (dotted 0).perform (.read "l/secret") = (.contents (.error (.invalidPath "l/secret")), dotted 0)
    ∧ ((dotted 0).performAll [.write "l/secret" [0], .delete "l/secret"]).2.host.node? "out/secret"
      = some (.file []) := by
  have hstands := stands_dotted (n := 0) (by decide)
  refine ⟨hstands, ?_, ?_⟩
  · exact (follows_no_link hstands []).2.2.2.1 (.read "l/secret") "l/secret" ["l"] "../out"
      (by decide) ⟨["secret"], by decide⟩ (by decide) (List.forall_mem_singleton.2 (by decide))
      (by decide +kernel)
  · rw [(follows_no_link hstands _).1 "out/secret" (by decide)]
    decide +kernel

/-- The path of the directory has room for no name behind it. -/
theorem stat_dotted : (dotted 2046).stat "l" = .error (explain "l" .nameTooLong) := by
  have hstatus : linkedOut.linkStatus ((dotted 2046).root ++ ["l"]) = .error .nameTooLong := by
    rw [Host.linkStatus, Host.find_eq, Host.locate_eq, Host.pathSize_append, pathSize_dotted,
      if_pos (by decide)]
    rfl
  -- what cannot be asked for does not count as a link
  have hfree : linkFree linkedOut (dotted 2046).root ["l"] = true := by
    rw [linkFree, hstatus]
  have hpath : (dotted 2046).hostPath "l" = .ok ("l", some ((dotted 2046).root ++ ["l"])) := by
    have hcomponents : Path.components "l" = ["l"] := by decide
    rw [hostPath_of_normalize? (p := "l") (by decide), hcomponents]
    exact congrArg (fun place => Except.ok ("l", place)) (if_pos hfree)
  rw [stat, hpath]
  simp only [bind, Except.bind]
  rw [show (dotted 2046).host.linkStatus _ = _ from hstatus]
  rfl

/-- A path with a link in it that goes up is no path of the workspace, and one that is too long for
the host is no path to the link. -/
theorem not_forall_stat_of_link :
    (¬ ∀ (w : Rooted) (place path : String) (q : List String) (target : String),
      w.Stands place → q <+: Path.components path → w.host.view place q = some (.link target) →
      (w.perform (.stat path)).1 = .status (.ok none))
    ∧ ¬ ∀ (w : Rooted) (place path p : String) (q : List String) (target : String),
      w.Stands place → Path.normalize? path = some p → q <+: Path.components path →
      w.host.view place q = some (.link target) →
      (w.perform (.stat path)).1 = .status (.ok none) := by
  have hlink : ∀ n, (dotted n).host.view "r" ["l"] = some (.link "../out") := by
    intro n
    show linkedOut.node? "r/l" = _
    decide +kernel
  constructor
  · intro hall
    have hstat := hall (dotted 0) "r" "l/.." ["l"] "../out" (stands_dotted (by decide))
      ⟨[".."], by decide⟩ (hlink 0)
    change Answer.status ((dotted 0).stat "l/..") = _ at hstat
    rw [stat_eq_error (by decide)] at hstat
    cases hstat
  · intro hall
    have hstat := hall (dotted 2046) "r" "l" "l" ["l"] "../out" (stands_dotted (by decide))
      (by decide) ⟨[], by decide⟩ (hlink 2046)
    change Answer.status ((dotted 2046).stat "l") = _ at hstat
    rw [stat_dotted] at hstat
    cases hstat

end Rooted

end Sandshell
