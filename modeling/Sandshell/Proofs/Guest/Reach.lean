import Sandshell.Proofs.Guest.Result

/-!
# Guests that a request can reach

A guest works on its memory and makes calls. All that it does so is made of changes; what changes
keep holds of every guest that a request can reach, and so at every moment of a run.
-/

namespace Sandshell

open Sandshell.Path (IsNormal)
open Relation (ReflTransGen)

variable {files : FileSet} {r : GuestRequest}

namespace Guest

variable {g g' : Guest}

/-- What a guest may do: work on its own memory in any way, or make a call. -/
inductive Act (g : Guest) : Guest → Prop
  | own (m : GuestMemory) : Act g { g with memory := m }
  | call (exportsMemory : Bool) (c : SystemCall) : Act g ((c.run exportsMemory).run g).2

/-- Any guest is its own twin, so a call is made of changes. -/
theorem changes_of_acts (h : ReflTransGen Act g g') (hg : g.descriptors.Confined) :
    ReflTransGen Change g g' := by
  induction h with
  | refl => exact .refl
  | tail _ hact ih =>
    refine ih.trans ?_
    cases hact with
    | own m => exact .single (.memory m)
    | call exportsMemory c =>
      exact (SystemCall.run_twin ⟨(kept_of_changes ih hg).confined, rfl, .refl _ _⟩
        exportsMemory c).1

/-- What a request can reach on a snapshot that is well formed, in a normal directory with no file
at or above it. -/
structure Reached (files : FileSet) (r : GuestRequest) (g : Guest) : Prop where
  source_eq : r.source = .snapshot files
  wellFormed : WellFormedFiles files
  normal : IsNormal r.cwd
  free : FreeAbove files r.cwd
  acts : ∃ surroundings config p,
    ReflTransGen Act (r.guest surroundings config p ⟨files, ∅⟩ r.cwd) g

namespace Reached

/-- A run on well-formed files starts with a guest that counts as reached. -/
theorem start (hsource : r.source = .snapshot files) (hfiles : WellFormedFiles files)
    (hcwd : IsNormal r.cwd) (hfree : FreeAbove files r.cwd) (surroundings : Surroundings)
    (config : EngineConfig) (p : GuestProgram) :
    Reached files r (r.guest surroundings config p ⟨files, ∅⟩ r.cwd) :=
  ⟨hsource, hfiles, hcwd, hfree, surroundings, config, p, .refl⟩

/-- What is reached from a reached guest is reached. -/
theorem trans (h : Reached files r g) (hacts : ReflTransGen Act g g') : Reached files r g' := by
  obtain ⟨surroundings, config, p, hstart⟩ := h.acts
  exact ⟨h.source_eq, h.wellFormed, h.normal, h.free, surroundings, config, p, hstart.trans hacts⟩

/-- In particular after one more call. -/
theorem call (h : Reached files r g) (exportsMemory : Bool) (c : SystemCall) :
    Reached files r ((c.run exportsMemory).run g).2 :=
  h.trans (.single (.call exportsMemory c))

/-- A reached guest came about by changes alone. -/
theorem exists_changes (h : Reached files r g) : ∃ surroundings config p,
    ReflTransGen Change (r.guest surroundings config p ⟨files, ∅⟩ r.cwd) g := by
  obtain ⟨surroundings, config, p, hacts⟩ := h.acts
  exact ⟨surroundings, config, p, changes_of_acts hacts (r.confined_guest _ _ _ _ h.normal)⟩

/-- What holds at the start and is kept by every change holds of every reachable guest. -/
theorem of_changes {P : Guest → Prop} (h : Reached files r g)
    (hstart : ∀ surroundings config p, P (r.guest surroundings config p ⟨files, ∅⟩ r.cwd))
    (hchange : ∀ g g', P g → Change g g' → P g') : P g := by
  obtain ⟨surroundings, config, p, hchanges⟩ := h.exists_changes
  clear h
  induction hchanges with
  | refl => exact hstart _ _ _
  | tail _ hlast ih => exact hchange _ _ ih hlast

/-- What every change keeps holds of a reached guest. -/
theorem exists_kept (h : Reached files r g) : ∃ surroundings config p,
    Kept (r.guest surroundings config p ⟨files, ∅⟩ r.cwd) g := by
  obtain ⟨surroundings, config, p, hchanges⟩ := h.exists_changes
  exact ⟨surroundings, config, p, kept_of_changes hchanges (r.confined_guest _ _ _ _ h.normal)⟩

theorem confined (h : Reached files r g) : g.descriptors.Confined := by
  obtain ⟨_, _, _, hkept⟩ := h.exists_kept
  exact hkept.confined

theorem root_eq (h : Reached files r g) : g.descriptors.root = r.cwd := by
  obtain ⟨_, _, _, hkept⟩ := h.exists_kept
  exact hkept.root_eq

theorem not_mounted (h : Reached files r g) : g.mounted = false := by
  obtain ⟨_, _, _, hkept⟩ := h.exists_kept
  exact hkept.mounted_eq

theorem wellFormed_files (h : Reached files r g) : g.files.WellFormed := by
  obtain ⟨_, _, _, hkept⟩ := h.exists_kept
  exact hkept.wellFormed (r.wellFormed_guest _ _ _ h.wellFormed h.normal h.free)

/-- Acts of a reachable guest are changes. -/
theorem changes (h : Reached files r g) (hacts : ReflTransGen Act g g') :
    ReflTransGen Change g g' :=
  changes_of_acts hacts h.confined

end Reached

/-- The guest at the start of some run: in a normal directory of any tree. -/
def IsStart (g : Guest) : Prop :=
  ∃ (r : GuestRequest) (surroundings : Surroundings) (config : EngineConfig) (p : GuestProgram)
    (t : Tree) (cwd : String), IsNormal cwd ∧ g = r.guest surroundings config p t cwd

/-- What a run can come to from its start, whatever files it begins with. -/
structure Reachable (start g : Guest) : Prop where
  isStart : start.IsStart
  acts : ReflTransGen Act start g

namespace Reachable

variable {start : Guest}

theorem confined_start (h : Reachable start g) : start.descriptors.Confined := by
  obtain ⟨r, surroundings, config, p, t, cwd, hcwd, rfl⟩ := h.isStart
  exact r.confined_guest surroundings config p t hcwd

theorem changes (h : Reachable start g) : ReflTransGen Change start g :=
  changes_of_acts h.acts h.confined_start

/-- On a run the guest works on a snapshot. -/
theorem not_mounted (h : Reachable start g) : g.mounted = false := by
  obtain ⟨r, surroundings, config, p, t, cwd, hcwd, rfl⟩ := h.isStart
  exact (kept_of_changes h.changes h.confined_start).mounted_eq

/-- An earlier moment of a run is one of the same run. -/
theorem before {g₀ : Guest} (h : Reachable start g) (h₀ : ReflTransGen Act start g₀) :
    Reachable start g₀ :=
  ⟨h.isStart, h₀⟩

end Reachable

/-- A request to work in the root of a snapshot. -/
def inRoot (files : FileSet) : GuestRequest where
  module := .program {}
  source := .snapshot files

/-- Its guest, with a text at the start of its memory. -/
def startWith (files : FileSet) (text : String) : Guest :=
  { (inRoot files).guest {} {} {} ⟨files, ∅⟩ "" with
    memory := (GuestMemory.zeroed pageSize).store 0 (Bytes.ofString text) }

theorem reachable_startWith (files : FileSet) (text : String) :
    ∃ start, Reachable start (startWith files text) :=
  ⟨_, ⟨inRoot files, {}, {}, {}, ⟨files, ∅⟩, "", Path.isNormal_empty, rfl⟩, .single (.own _)⟩

/-- A guest with a text in its memory is reached by a run on its files. -/
theorem reached_startWith (hfiles : WellFormedFiles files) (text : String) :
    Reached files (inRoot files) (startWith files text) := by
  have hfree : FreeAbove files "" :=
    fun p hp => ⟨hfiles.ne_root p hp, fun hbelow => hbelow.ne_empty rfl⟩
  exact (Reached.start (r := inRoot files) rfl hfiles Path.isNormal_empty hfree {} {} {}).trans
    (.single (.own _))

end Guest

/-! ## Programs -/

namespace Running

variable {running : Running}

open Guest (Act)

/-- Leaving the program is at most one more act. -/
theorem acts_exitWith (exportsMemory : Bool) (running : Running) (code : Int) :
    ReflTransGen Act running.guest (step.exitWith exportsMemory running code).2.guest := by
  have hcall : Act running.guest (((SystemCall.procExit code).run exportsMemory).run
    running.guest).2 := .call exportsMemory _
  unfold step.exitWith
  split
  · next hrun => exact .single (by rwa [hrun] at hcall)
  · next hrun => exact .single (by rwa [hrun] at hcall)

/-- A step is a call, or work on memory, or leaves the guest alone. -/
theorem acts_step (exportsMemory : Bool) (bounds : MemoryBounds) (running : Running) (s : Step) :
    ReflTransGen Act running.guest (step exportsMemory bounds running s).2.guest := by
  -- a step that does not call changes the memory at most
  cases s with
  | call c =>
    have hcall : Act running.guest ((c.run exportsMemory).run running.guest).2 :=
      .call exportsMemory c
    simp only [step]
    split
    · next hrun => exact .single (by rwa [hrun] at hcall)
    · next hrun => exact .single (by rwa [hrun] at hcall)
  | poke address data =>
    simp only [step]
    split
    · exact .single (.own _)
    · exact .refl
  | peek address length =>
    simp only [step]
    split
    · exact .refl
    split
    · exact .refl
    · exact .refl
  | copyWord target source =>
    simp only [step]
    split
    · exact .single (.own _)
    · exact .refl
  | grow pages =>
    simp only [step]
    split
    · exact .single (.own _)
    · exact .refl
  | exit code => exact acts_exitWith exportsMemory running code
  | exitLast => exact acts_exitWith exportsMemory running _
  | exitWord address =>
    simp only [step]
    split
    · exact acts_exitWith exportsMemory running _
    · exact .refl
  | trap t => exact .refl

/-- By induction on the steps of a program. -/
theorem acts_steps (exportsMemory : Bool) (bounds : MemoryBounds) (running : Running)
    (program : List Step) :
    ReflTransGen Act running.guest (steps exportsMemory bounds running program).2.guest := by
  induction program generalizing running with
  | nil => exact .refl
  | cons s rest ih =>
    have hstep := acts_step exportsMemory bounds running s
    rw [steps]
    split
    · next hend => rwa [hend] at hstep
    · next hend =>
      rw [hend] at hstep
      exact hstep.trans (ih _)

end Running

end Sandshell
