import Sandshell.Bundle.Bridge
import Sandshell.Proofs.Guest.Result
import Sandshell.Proofs.Shell.Frame

/-!
# Commands of bundles within terms

A command that runs on a snapshot reads all files, and writes and deletes files afterwards. The paths
that it names are those that it found in listings and those of the files that its guest left, and
these are normal, whatever the guest did.
-/

namespace Sandshell

open Workspace (Terms)
open Invariant (keeps_pure keeps_throw)
open Sandshell.Path (IsNormal)

variable {W : Type} [Workspace W] {terms : Terms W}

/-- Files may be written and deleted as well, and all normal paths are within the terms. Snapshots
terminate unless the terms let walks have no end. -/
structure Workspace.Terms.Open (terms : Terms W) : Prop extends terms.Sound where
  normal : ∀ {p}, IsNormal p → terms.path p
  write : ∀ {p} data, terms.path p →
    (Invariant.steady terms.holds).Keeps (Workspace.write p data : WorkspaceM W Unit) fun _ => True
  delete : ∀ {p}, terms.path p →
    (Invariant.steady terms.holds).Keeps (Workspace.delete p : WorkspaceM W Unit) fun _ => True
  snapshot : ∀ {w}, terms.holds w → ¬ Walk.Terminates Snapshot.visit [""] w → terms.endless

/-! ## Snapshots -/

/-- A visit comes back from every workspace: only the walk can go on for ever. -/
theorem Snapshot.visit_returns (directory : String) :
    Returns (Snapshot.visit directory : WorkspaceM W (List (String × Bytes) × List String)) := by
  have hentry : ∀ entry, Returns (Snapshot.readEntry directory entry :
      WorkspaceM W (List (String × Bytes) × List String)) := by
    intro entry
    unfold Snapshot.readEntry
    dsimp only
    split
    · exact returns_pure _
    · exact (Workspace.read_returns _).bind fun _ => returns_pure _
  exact (Workspace.list_returns directory).bind fun entries =>
    (Returns.mapM hentry entries).bind fun _ => returns_pure _

namespace Workspace.Terms.Sound

variable (h : terms.Sound)
include h

/-- What an entry leads to is on the terms of its directory. -/
theorem keeps_readEntry {directory : String} (hd : terms.path directory) {entry : DirEntry}
    (hentry : terms.name entry.name) :
    (Invariant.steady terms.holds).Keeps
      (Snapshot.readEntry directory entry : WorkspaceM W (List (String × Bytes) × List String))
      fun r => (∀ f ∈ r.1, terms.path f.1) ∧ ∀ d ∈ r.2, terms.path d := by
  have hp := h.enter hd hentry
  unfold Snapshot.readEntry
  dsimp only
  split
  · exact keeps_pure ⟨List.forall_mem_nil _, List.forall_mem_singleton.2 hp⟩
  · exact (h.read hp).before fun data =>
      keeps_pure ⟨List.forall_mem_singleton.2 hp, List.forall_mem_nil _⟩

/-- Everything that a visit finds is on the terms of the directory it visits. -/
theorem keeps_snapshotVisit (directory : String) (hd : terms.path directory) :
    (Invariant.steady terms.holds).Keeps
      (Snapshot.visit directory : WorkspaceM W (List (String × Bytes) × List String))
      fun r => (∀ f ∈ r.1, terms.path f.1) ∧ ∀ d ∈ r.2, terms.path d := by
  apply (h.list hd).bind
  intro entries hentries
  apply (Invariant.Keeps.mapM_of_mem fun entry hentry =>
    h.keeps_readEntry hd (hentries entry hentry)).bind
  intro found hfound
  refine keeps_pure ⟨fun f hf => ?_, fun d hd => ?_⟩
  · obtain ⟨r, hr, hmem⟩ := List.mem_flatMap.1 hf
    exact (hfound r hr).1 f hmem
  · obtain ⟨r, hr, hmem⟩ := List.mem_flatMap.1 (List.mem_reverse.1 hd)
    exact (hfound r hr).2 d hmem

end Workspace.Terms.Sound

namespace Workspace.Terms.Open

/-- A snapshot finds files under paths within the terms. -/
theorem keeps_take (h : terms.Open) :
    terms.steady.Keeps (Snapshot.take : WorkspaceM W FileSet)
      fun files => ∀ p ∈ files, terms.path p := by
  have hwalk : terms.steady.Keeps
      (Walk.below Snapshot.visit "" : WorkspaceM W (List (String × Bytes)))
      fun found => ∀ f ∈ found, terms.path f.1 :=
    fun _ hw => Walk.after_below Snapshot.visit_returns
      (Walk.keeps_below h.keeps_snapshotVisit h.root) (h.snapshot hw) hw
  refine hwalk.bind fun found hfound => keeps_pure ?_
  intro p hp
  obtain ⟨f, hf, rfl⟩ := List.mem_map.1 ((mem_foldl_insert.1 hp).resolve_right not_mem_empty)
  exact hfound f hf

/-- Deleting files asks for their paths only. -/
theorem keeps_deleteAll (h : terms.Open) {paths : List String}
    (hpaths : ∀ p ∈ paths, terms.path p) :
    terms.steady.Keeps (Snapshot.deleteAll paths : WorkspaceM W Unit) fun _ => True := by
  induction paths with
  | nil => exact keeps_pure trivial
  | cons p rest ih =>
    rw [List.forall_mem_cons] at hpaths
    exact ((Workspace.delete_returns p).keeps (h.delete hpaths.1)).before fun _ => ih hpaths.2

theorem keeps_writeAll (h : terms.Open) {files : List (String × Bytes)}
    (hfiles : ∀ f ∈ files, terms.path f.1) :
    terms.steady.Keeps (Snapshot.writeAll files : WorkspaceM W Unit) fun _ => True := by
  induction files with
  | nil => exact keeps_pure trivial
  | cons f rest ih =>
    rw [List.forall_mem_cons] at hfiles
    exact ((Workspace.write_returns f.1 f.2).keeps (h.write f.2 hfiles.1)).before
      fun _ => ih hfiles.2

/-- Writing back asks for the paths of the files before and after the run only. -/
theorem keeps_writeBack (h : terms.Open) {before : List String} {after : FileSet}
    (hbefore : ∀ p ∈ before, terms.path p) (hafter : ∀ p ∈ after, terms.path p) :
    terms.steady.Keeps (Snapshot.writeBack before after : WorkspaceM W (Nat × Nat))
      fun _ => True := by
  have hgone : ∀ p ∈ before.filter fun path => !after.contains path, terms.path p := fun p hp =>
    hbefore p (List.mem_of_mem_filter hp)
  exact (h.keeps_deleteAll hgone).before fun _ =>
    (h.keeps_writeAll fun f hf => hafter f.1 (mem_of_mem_toList hf)).before fun _ =>
      keeps_pure trivial

end Workspace.Terms.Open

/-! ## Commands -/

/-- What is kept by delegated commands. -/
abbrev Workspace.Terms.delegated (terms : Terms W) : Invariant W DelegateError where
  holds := terms.holds
  fails e w := terms.holds w ∧ (e = .workspace .endless → terms.endless)

omit [Workspace W] in
theorem Workspace.Terms.holds_of_delegated {α : Type} {step : ExceptT DelegateError (StateM W) α}
    {post : α → Prop} (h : terms.delegated.Keeps step post) {w : W} (hw : terms.holds w) :
    terms.holds (step w).2 := by
  have hafter := h w hw
  rcases hstep : step w with ⟨e | a, w'⟩
  · rw [hstep] at hafter
    exact hafter.1
  · rw [hstep] at hafter
    exact hafter.1

namespace Bridge

omit [Workspace W] in
/-- What a workspace keeps the bridge keeps. -/
theorem keeps_onWorkspace {α : Type} {step : WorkspaceM W α} {post : α → Prop}
    (h : terms.steady.Keeps step post) : terms.delegated.Keeps (onWorkspace step) post := by
  intro w hw
  unfold onWorkspace
  rcases hstep : step w with ⟨e | a, w'⟩
  · exact (h.error hw hstep).imp_right fun hendless he => hendless (DelegateError.workspace.inj he)
  · exact h.ok hw hstep

omit [Workspace W] in
/-- A command that is not found or whose engine fails leaves the workspace alone. -/
theorem keeps_throw_of_ne {α : Type} {e : DelegateError} (he : e ≠ .workspace .endless)
    {post : α → Prop} :
    terms.delegated.Keeps (throw e : ExceptT DelegateError (StateM W) α) post :=
  keeps_throw fun _ hw => ⟨hw, fun heq => absurd heq he⟩

theorem ne_of_module_eq_error {b : Bridge} {name : String} {e : DelegateError}
    (h : b.module name = .error e) : e ≠ .workspace .endless := by
  unfold module at h
  rintro rfl
  split at h
  · cases h
  · dsimp only at h
    split at h
    · cases h
    · cases h

/-- A run on a snapshot makes calls for the paths of the snapshot and of the files the guest
leaves. -/
theorem keeps_runOnSnapshot (h : terms.Open) (b : Bridge) (module : GuestModule)
    (r : CommandRequest) :
    terms.delegated.Keeps (b.runOnSnapshot module r) fun _ => True := by
  apply (keeps_onWorkspace h.keeps_take).bind
  intro before hbefore
  split
  · exact keeps_throw_of_ne (by simp)
  · next result hrun =>
    split
    · next after hafter =>
      have hnormal := Engine.isNormal_of_run rfl hrun hafter
      refine (keeps_onWorkspace (h.keeps_writeBack (fun p hp => ?_) fun p hp => ?_)).before
        fun _ => keeps_pure trivial
      · exact hbefore p (Std.ExtTreeMap.mem_keys.1 hp)
      · exact h.normal (hnormal p hp)
    · exact keeps_pure trivial

/-- Without a host directory every command that is found runs on a snapshot. -/
theorem keeps_run (h : terms.Open) (hhost : ∀ w : W, Workspace.hostDirectory? w = none) (b : Bridge)
    (r : CommandRequest) : terms.delegated.Keeps (b.run r) fun _ => True := by
  unfold run
  split
  · exact keeps_throw_of_ne (by simp)
  · split
    · next e hmodule => exact keeps_throw_of_ne (ne_of_module_eq_error hmodule)
    · next module _ =>
      intro w hw
      have hrun : (get : ExceptT DelegateError (StateM W) W) w = (.ok w, w) := rfl
      rw [bind_apply_ok hrun, hhost]
      exact keeps_runOnSnapshot h b module r w hw

end Bridge

/-- Such terms permit a shell, without a delegate or with the commands of bundles, where a failure
leaves what a success leaves, and no walk without an end is left where walks have one. -/
theorem Workspace.Terms.Open.permits (h : terms.Open)
    (hfails : ∀ e w, terms.fails e w
      ↔ terms.holds w ∧ (e = .workspace .endless → terms.endless))
    (hhost : ∀ w : W, Workspace.hostDirectory? w = none) {sh : Shell W}
    (hd : sh.delegate? = none ∨ ∃ b : Bridge, sh.delegate? = some b.delegate) :
    terms.Permits sh where
  toSound := h.toSound
  write data _ hp := h.write data hp
  delegates hsome request _ := by
    obtain hnone | ⟨b, hb⟩ := hd
    · rw [hnone] at hsome
      contradiction
    · obtain rfl := Option.some.inj (hb.symm.trans hsome)
      have hkeeps := Bridge.keeps_run h hhost b request
      refine .of_cases (fun _ _ _ hw => hkeeps.ok hw) fun _ e _ hw hrun => (hfails _ _).2 ?_
      exact (hkeeps.error hw hrun).imp_right fun hendless he =>
        hendless (ShellError.eq_of_ofDelegate he)
  survives {e} he _ := by
    rw [hfails, and_iff_left]
    rintro rfl
    cases he
  hangs hendless _ hw := (hfails _ _).2 ⟨hw, fun _ => hendless⟩

end Sandshell
