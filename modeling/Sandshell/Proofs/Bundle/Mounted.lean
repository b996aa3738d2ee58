import Sandshell.Proofs.Bundle.Bridge
import Sandshell.Proofs.Guest.Mount
import Sandshell.Proofs.Workspace.Containment

/-!
# Commands of bundles on host directories

A command that runs on the host directory of a workspace changes the host below the directory that
its working directory leads to. That is within the workspace's own directory unless a link leads out
of it, and no check is made that none does.
-/

namespace Sandshell

open Sandshell.Path (IsName isWithin join)

variable {w : Rooted} {place location name : String}

/-! ## One command -/

open Mount (HostEngine)

variable {engine : HostEngine}

namespace Bridge

variable {b : Bridge} {r : CommandRequest}

/-- A command that is found runs on the host directory, and leaves in the workspace what its program
left there. -/
theorem run_of_mount {module : GuestModule} {rest : List String} (hmount : b.mount = some engine)
    (hargv : r.argv = name :: rest) (hmodule : b.module name = .ok module) :
    (b.run r w).2 = ⟨(Mount.run engine b.config b.surroundings w.root
      (guestRequest module r .mount) w.host).2, w.root⟩ := by
  have hget : (get : ExceptT DelegateError (StateM Rooted) Rooted) w = (.ok w, w) := rfl
  rw [run, hargv]
  dsimp only
  rw [hmodule]
  dsimp only
  rw [bind_apply_ok hget, hmount]
  show (b.runMounted engine module ⟨w.host, w.root, fun host => { w with host }⟩ r w).2 = _
  rw [runMounted]
  rcases Mount.run engine b.config b.surroundings w.root (guestRequest module r .mount) w.host
    with ⟨e | result, host⟩
  · rfl
  · rfl

/-- A command leaves the workspace alone, or runs a module on its host directory. -/
theorem run_mounted_cases (hmount : b.mount = some engine) (r : CommandRequest) (w : Rooted) :
    (b.run r w).2 = w ∨ ∃ module, (b.run r w).2 = ⟨(Mount.run engine b.config b.surroundings
      w.root (guestRequest module r .mount) w.host).2, w.root⟩ := by
  cases hargv : r.argv with
  | nil =>
    rw [run, hargv]
    exact .inl rfl
  | cons name rest =>
    cases hmodule : b.module name with
    | error e =>
      rw [run, hargv]
      dsimp only
      rw [hmodule]
      exact .inl rfl
    | ok module => exact .inr ⟨module, run_of_mount hmount hargv hmodule⟩

/-- Nothing but what lies below the directory that a command is given is changed by it. -/
theorem sameOutside_run (hconfined : HostEngine.Confined engine) (hmount : b.mount = some engine)
    (hpoint : Mount.point? w.host w.root r.cwd = some location) :
    w.host.SameOutside location (b.run r w).2.host := by
  rcases run_mounted_cases hmount r w with hsame | ⟨module, hleft⟩
  · rw [hsame]
    exact .refl location w.host
  · rw [hleft]
    exact hconfined.sameOutside_run rfl hpoint

/-- A bridge that runs on host directories, with one command that makes a file. -/
def planting (engine : HostEngine) (name : String) : Bridge :=
  { installed (Mount.plant name) with mount := some engine }

/-- The command in a working directory. -/
def plantIn (cwd : String) : CommandRequest :=
  { toolRequest with cwd }

/-- The file is made in the directory that the command is given, wherever that is. -/
theorem exists_node?_run_planting (hmakes : HostEngine.MakesFiles engine)
    (hh : w.host.WellFormed) (hname : IsName name)
    (hshort : name.utf8ByteSize ≤ Host.maxNameLength) {cwd : String}
    (hpoint : Mount.point? w.host w.root cwd = some location)
    (hfree : w.host.node? (join location name) = none) :
    ∃ node, ((planting engine name).run (plantIn cwd) w).2.host.node? (join location name)
      = some node := by
  have hceiling : 1 * pageSize ≤ ({} : EngineConfig).maxMemory := by decide
  have hload : (GuestModule.program { steps := Mount.plant name }).load
      (planting engine name).config.maxMemory = .ok { steps := Mount.plant name } :=
    GuestModule.load_eq_ok rfl rfl rfl rfl hceiling
  have hmodule : (planting engine name).module "tool"
      = .ok (.program { steps := Mount.plant name }) :=
    module_installed (Mount.plant name)
  have hlocation : w.host.node? location = some .directory :=
    (Host.find_eq_ok_iff.1 (Mount.point?_eq_some_iff.1 hpoint).2).2
  generalize hrequest : guestRequest (.program { steps := Mount.plant name }) (plantIn cwd) .mount
    = request
  have hmodule' : request.module = .program { steps := Mount.plant name } := by rw [← hrequest]; rfl
  have hcwd : request.cwd = cwd := by rw [← hrequest]; rfl
  have hsource : request.source = .mount := by rw [← hrequest]; rfl
  obtain ⟨result, h', node, hruns, hnode⟩ := hmakes (planting engine name).config
    (planting engine name).surroundings location request name w.host hh hlocation hname hshort hfree
  refine ⟨node, ?_⟩
  rw [run_of_mount rfl rfl hmodule, hrequest,
    Mount.run_of_point? hsource (hcwd ▸ hpoint) (hmodule' ▸ hload), hruns]
  exact hnode

end Bridge

/-! ## All commands -/

namespace Rooted

/-- The directory that a command is given is within the workspace's own if the workspace lets the
working directory pass. -/
theorem isWithin_of_contained {cwd p : String} {path : List String}
    (hroot : w.host.find true w.root = .ok (place, .directory))
    (hpoint : Mount.point? w.host w.root cwd = some location)
    (hcontained : w.contained cwd = .ok (p, path)) : isWithin place location := by
  obtain ⟨⟨normal, hnormal⟩, hfind⟩ := Mount.point?_eq_some_iff.1 hpoint
  have hpath := contained_eq_ok_iff.1 hcontained
  rw [hostPath_of_normalize? hnormal, Except.ok.injEq, Prod.mk.injEq] at hpath
  have hfree : linkFree w.host w.root (Path.components cwd) = true := by
    by_contra hlinked
    rw [if_neg hlinked] at hpath
    exact Option.some_ne_none _ hpath.2.symm
  exact Host.isWithin_of_linkFree hroot (Path.of_normalize?_eq_some hnormal).1 hfree hfind

/-- A command that makes a file in a directory that is not within another one changes something
outside of that. -/
theorem isWithin_of_forall_sameOutside {cwd : String} (hmakes : HostEngine.MakesFiles engine)
    (hh : w.host.WellFormed) (hname : IsName name)
    (hshort : name.utf8ByteSize ≤ Host.maxNameLength)
    (hpoint : Mount.point? w.host w.root cwd = some location)
    (hfree : w.host.node? (join location name) = none)
    (hall : ∀ (b : Bridge) (r : CommandRequest), b.mount = some engine → r.cwd = cwd →
      w.host.SameOutside place (b.run r w).2.host) : isWithin place location := by
  by_contra hout
  have houtside : isWithin place (join location name) → join location name = place := by
    intro hin
    by_contra hne
    have hparent := Path.isWithin_parent hin hne
    rw [Path.parent_join hname.no_slash] at hparent
    exact hout hparent
  obtain ⟨node, hnode⟩ := Bridge.exists_node?_run_planting hmakes hh hname hshort hpoint hfree
  rw [hall (Bridge.planting engine name) (Bridge.plantIn cwd) rfl rfl _ houtside, hfree] at hnode
  contradiction

/-- A command that runs on the host directory changes nothing but what lies below the directory that
its working directory leads to, and nothing at all if there is none. That directory is within the
workspace's own if the workspace lets the working directory pass as a path. Where a short name is
free in it, no command changes anything outside of the workspace exactly if it is within. All this
is so for any engine that confines its guests and lets them make files. -/
theorem mounted_stays_inside_iff (hconfined : HostEngine.Confined engine)
    (hmakes : HostEngine.MakesFiles engine) (hh : w.host.WellFormed)
    (hroot : w.host.find true w.root = .ok (place, .directory)) (cwd : String) :
    (Mount.point? w.host w.root cwd = none → ∀ (b : Bridge) (r : CommandRequest),
        b.mount = some engine → r.cwd = cwd → (b.run r w).2 = w)
      ∧ ∀ location, Mount.point? w.host w.root cwd = some location →
        (∀ (b : Bridge) (r : CommandRequest), b.mount = some engine → r.cwd = cwd →
          w.host.SameOutside location (b.run r w).2.host)
        ∧ (∀ p path, w.contained cwd = .ok (p, path) → isWithin place location)
        ∧ ∀ name, IsName name → name.utf8ByteSize ≤ Host.maxNameLength →
          w.host.node? (join location name) = none →
          ((∀ (b : Bridge) (r : CommandRequest), b.mount = some engine → r.cwd = cwd →
              w.host.SameOutside place (b.run r w).2.host)
            ↔ isWithin place location) := by
  constructor
  · intro hnone b r hmount hcwd
    -- no directory, no run: nothing can have changed
    rcases Bridge.run_mounted_cases hmount r w with hsame | ⟨module, hleft⟩
    · exact hsame
    · subst hcwd
      have hsource : (Bridge.guestRequest module r .mount).source = .mount := rfl
      have hcwd : (Bridge.guestRequest module r .mount).cwd = r.cwd := rfl
      generalize Bridge.guestRequest module r .mount = request at hleft hsource hcwd
      rw [hleft, Mount.run_of_point?_eq_none engine hsource (hcwd ▸ hnone)]
  · intro location hpoint
    have hchanged : ∀ (b : Bridge) (r : CommandRequest), b.mount = some engine → r.cwd = cwd →
        w.host.SameOutside location (b.run r w).2.host :=
      fun b r hmount hcwd => Bridge.sameOutside_run hconfined hmount (hcwd ▸ hpoint)
    refine ⟨hchanged, fun p path => isWithin_of_contained hroot hpoint, ?_⟩
    intro name hname hshort hfree
    constructor
    -- an engine that makes files makes one in the directory that the mount leads to
    · exact isWithin_of_forall_sameOutside hmakes hh hname hshort hpoint hfree
    · exact fun hin b r hmount hcwd => (hchanged b r hmount hcwd).of_isWithin hin

/-- The link in the directory leads out of it. -/
theorem point?_dotted_link : Mount.point? linkedOut (dotted 0).root "l" = some "out" := by
  have hroot : linkedOut.node? "r" = some .directory := by decide +kernel
  have hlink : linkedOut.node? (join "r" "l") = some (.link "../out") := by decide +kernel
  have hparent : Path.parent "r" = "" := by decide +kernel
  have hout : linkedOut.node? "out" = some .directory := by decide +kernel
  have hsegments : Path.segments "../out" = ["..", "out"] := by decide +kernel
  have hrelative : Path.isAbsolute "../out" = false := by decide +kernel
  have hshort : ("r").utf8ByteSize = 1 ∧ ("l").utf8ByteSize = 1 ∧ ("out").utf8ByteSize = 3 := by
    decide
  have hwalk : linkedOut.walk true Host.maxLinks "" ["r", "l"] = .ok "out" := by
    simp [Host.walk, Host.maxLinks, Host.maxNameLength, hroot, hlink, hparent, hout, hsegments,
      hrelative, hshort]
  refine Mount.point?_eq_some_iff.2 ⟨⟨"l", by decide +kernel⟩, Host.find_eq_ok_iff.2 ⟨?_, hout⟩⟩
  exact hwalk

theorem isName_planted : IsName "planted" :=
  ⟨by decide, by decide, by decide, by decide, by decide⟩

theorem node?_planted : linkedOut.node? (join "out" "planted") = none := by
  decide +kernel

/-- Where the working directory is the link, a command leaves the workspace. -/
theorem mounted_stays_inside_iff_dotted :
    HostEngine.Confined Mount.treeEngine ∧ HostEngine.MakesFiles Mount.treeEngine
      ∧ linkedOut.WellFormed ∧ linkedOut.find true (dotted 0).root = .ok ("r", .directory)
      ∧ Mount.point? linkedOut (dotted 0).root "l" = some "out"
      ∧ IsName "planted" ∧ linkedOut.node? (join "out" "planted") = none
      ∧ ¬ ∀ (b : Bridge) (r : CommandRequest), b.mount = some Mount.treeEngine → r.cwd = "l" →
        linkedOut.SameOutside "r" (b.run r (dotted 0)).2.host := by
  have hroot : linkedOut.find true (dotted 0).root = .ok ("r", .directory) :=
    find_dotted (by decide) true
  refine ⟨Mount.confined_treeEngine, Mount.makesFiles_treeEngine, wellFormed_linkedOut, hroot,
    point?_dotted_link, isName_planted, node?_planted, ?_⟩
  intro hall
  have hlinked := (mounted_stays_inside_iff (w := dotted 0) Mount.confined_treeEngine
    Mount.makesFiles_treeEngine wellFormed_linkedOut hroot "l").2 "out" point?_dotted_link
  have hin := (hlinked.2.2 "planted" isName_planted (by decide) node?_planted).1 hall
  exact absurd hin (by decide)

/-- A link that leads out of the workspace is followed, so an engine that confines its guests does not
confine them to the workspace. -/
theorem not_forall_mounted_stays_inside :
    ¬ ∀ (engine : HostEngine) (w : Rooted) (place : String) (b : Bridge) (r : CommandRequest),
      HostEngine.Confined engine → w.host.WellFormed →
      w.host.find true w.root = .ok (place, .directory) → b.mount = some engine →
      w.host.SameOutside place (b.run r w).2.host := by
  intro hall
  have hroot : linkedOut.find true (dotted 0).root = .ok ("r", .directory) :=
    find_dotted (by decide) true
  have hlinked : ∀ (b : Bridge) (r : CommandRequest), b.mount = some Mount.treeEngine →
      r.cwd = "l" → linkedOut.SameOutside "r" (b.run r (dotted 0)).2.host :=
    fun b r hmount _ => hall Mount.treeEngine (dotted 0) "r" b r Mount.confined_treeEngine
      wellFormed_linkedOut hroot hmount
  have hin : isWithin "r" "out" := isWithin_of_forall_sameOutside (w := dotted 0)
    Mount.makesFiles_treeEngine wellFormed_linkedOut isName_planted (by decide) point?_dotted_link
    node?_planted hlinked
  exact absurd hin (by decide)

end Rooted

end Sandshell
