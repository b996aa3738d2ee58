import Sandshell.Proofs.Utility.Collect

/-!
# Targets on a tree

What the operands of a search stand for in a well-formed tree: the files that they reach, all of which
can be read, or a diagnostic. The workspace refuses nothing but a path without normal form, which no
operand leads to from a directory in normal form.
-/

namespace Sandshell

open Sandshell.Path (IsNormal isWithin segmentsBelow)

namespace Search

variable {t : Tree} {mode : Mode} {recursive : Bool} {cwd operand path p file : String}

/-- A file that the search of an operand reads: the one that the operand names, or one below the
directory that it names, but for hidden ones where these are left out. -/
inductive Reaches (t : Tree) (mode : Mode) (recursive : Bool) (cwd operand : String) : String → Prop
  | named {path file : String} (hresolve : Path.resolve? cwd operand = some path)
      (hfile : Path.normalize? path = some file) (hmem : file ∈ t.files) :
      Reaches t mode recursive cwd operand file
  | below {path d file : String} (hresolve : Path.resolve? cwd operand = some path)
      (hd : Path.normalize? path = some d) (hdirectory : t.isDirectory d)
      (hrecursive : recursive) (hmem : file ∈ t.files) (hwithin : isWithin d file)
      (hshown : mode.recursive → ∀ name ∈ segmentsBelow d file, ¬ IsHidden name) :
      Reaches t mode recursive cwd operand file

/-- An operand that cannot be searched: it leads out of the workspace, to nothing, or to a directory
in a search that stays on the surface. -/
inductive Refused (t : Tree) (recursive : Bool) (cwd operand : String) : Prop
  | escapes (hresolve : Path.resolve? cwd operand = none)
  | missing {path p : String} (hresolve : Path.resolve? cwd operand = some path)
      (hp : Path.normalize? path = some p) (hmissing : t.node? p = none)
  | directory {path p : String} (hresolve : Path.resolve? cwd operand = some path)
      (hp : Path.normalize? path = some p) (hdirectory : t.node? p = some .directory)
      (hsurface : recursive = false)

/-- The targets that an operand stands for, in order: the file that it names, shown as it is spelled,
or the files below the directory that it names, shown as the walk from there shows them. -/
inductive Gives (t : Tree) (mode : Mode) (recursive : Bool) (cwd operand : String) :
    List Target → Prop
  | named {path file : String} (hresolve : Path.resolve? cwd operand = some path)
      (hfile : Path.normalize? path = some file) (hmem : file ∈ t.files) :
      Gives t mode recursive cwd operand [⟨operand, path⟩]
  | below {path d : String} {files : List String} (hresolve : Path.resolve? cwd operand = some path)
      (hd : Path.normalize? path = some d) (hdirectory : t.isDirectory d) (hrecursive : recursive)
      (hfiles : AreFilesBelow t mode.recursive d files) :
      Gives t mode recursive cwd operand (files.map ((Target.ofOperand operand path).below d))

/-- The targets stand for the files that the operand reaches. -/
structure AreReached (t : Tree) (mode : Mode) (recursive : Bool) (cwd operand : String)
    (found : List Target) : Prop where
  reached_iff : ∀ file, Reaches t mode recursive cwd operand file
    ↔ ∃ target ∈ found, Path.normalize? target.path = some file
  stored : ∀ target ∈ found, ∃ file ∈ t.files, Path.normalize? target.path = some file

/-- What an operand can come to. -/
inductive Collected (t : Tree) (mode : Mode) (recursive : Bool) (cwd operand : String) :
    Except WorkspaceError (Except String (List Target)) → Prop
  | invalid {path : String} (hresolve : Path.resolve? cwd operand = some path)
      (hinvalid : Path.normalize? path = none) :
      Collected t mode recursive cwd operand (.error (.invalidPath path))
  | refused {diagnostic : String} (h : Refused t recursive cwd operand) :
      Collected t mode recursive cwd operand (.ok (.error diagnostic))
  | found {found : List Target} (hgives : Gives t mode recursive cwd operand found) :
      Collected t mode recursive cwd operand (.ok (.ok found))

/-- Where an operand leads is told by its normal form. -/
theorem eq_of_leads {path' p' : String} (hresolve : Path.resolve? cwd operand = some path)
    (hp : Path.normalize? path = some p) (hresolve' : Path.resolve? cwd operand = some path')
    (hp' : Path.normalize? path' = some p') : p' = p := by
  rw [hresolve] at hresolve'
  obtain rfl := Option.some.inj hresolve'
  rw [hp] at hp'
  exact (Option.some.inj hp').symm

/-- An operand where something stands is refused only if it is a directory and none is searched. -/
theorem not_refused_of_node {node : Host.Node} (hresolve : Path.resolve? cwd operand = some path)
    (hp : Path.normalize? path = some p) (hnode : t.node? p = some node)
    (hdirectory : node = .directory → recursive = true) : ¬ Refused t recursive cwd operand := by
  rintro (hnone | ⟨hresolve', hp', hmissing⟩ | ⟨hresolve', hp', hmissing, hsurface⟩)
  · rw [hresolve] at hnone
    cases hnone
  · rw [eq_of_leads hresolve hp hresolve' hp', hnode] at hmissing
    cases hmissing
  · rw [eq_of_leads hresolve hp hresolve' hp', hnode] at hmissing
    rw [hdirectory (Option.some.inj hmissing)] at hsurface
    cases hsurface

/-- What leads to a file is not refused. -/
theorem Reaches.not_refused (h : t.WellFormed)
    (hreaches : Reaches t mode recursive cwd operand file) : ¬ Refused t recursive cwd operand := by
  cases hreaches with
  | named hresolve hfile hmem =>
    obtain ⟨data, hdata⟩ := Option.isSome_iff_exists.1 (Std.ExtTreeMap.mem_iff_isSome_getElem?.1 hmem)
    exact not_refused_of_node hresolve hfile (Tree.node?_eq_file_iff.2 hdata) nofun
  | below hresolve hd hdirectory hrecursive =>
    exact not_refused_of_node hresolve hd (h.node?_eq_directory_iff.2 hdirectory) fun _ => hrecursive

/-- An operand that is a file leads to this file only. -/
theorem areReached_named (h : t.WellFormed) (hresolve : Path.resolve? cwd operand = some path)
    (hp : Path.normalize? path = some p) (hfile : p ∈ t.files) :
    AreReached t mode recursive cwd operand [⟨operand, path⟩] where
  reached_iff file := by
    simp only [List.mem_singleton, exists_eq_left, hp, Option.some.injEq]
    constructor
    · rintro (⟨hresolve', hp', -⟩ | ⟨hresolve', hp', hdirectory, -⟩)
      · exact (eq_of_leads hresolve hp hresolve' hp').symm
      · rw [eq_of_leads hresolve hp hresolve' hp', h.file_not_directory p hfile] at hdirectory
        contradiction
    · rintro rfl
      exact .named hresolve hp hfile
  stored := List.forall_mem_singleton.2 ⟨p, hfile, hp⟩

/-- One that is a directory leads to all files below. -/
theorem areReached_below (h : t.WellFormed) (hresolve : Path.resolve? cwd operand = some path)
    (hp : Path.normalize? path = some p) (hdirectory : t.isDirectory p) (hrecursive : recursive)
    {files : List String} (hfiles : AreFilesBelow t mode.recursive p files) :
    AreReached t mode recursive cwd operand
      (files.map ((Target.ofOperand operand path).below p)) := by
  have hstands : ∀ file ∈ files,
      Path.normalize? ((Target.ofOperand operand path).below p file).path = some file := by
    intro file hmem
    obtain ⟨hfile, hwithin, -⟩ := (hfiles.mem_iff file).1 hmem
    exact (standsFor_below hresolve hp (h.normal_file file hfile) hwithin
      (ne_of_file h hfile hdirectory)).normalize?
  refine ⟨fun file => ?_, fun target htarget => ?_⟩
  · constructor
    · rintro (⟨hresolve', hp', hmem⟩ | ⟨hresolve', hp', hdirectory', -, hmem, hwithin, hshown⟩)
      · rw [eq_of_leads hresolve hp hresolve' hp'] at hmem
        rw [h.file_not_directory p hmem] at hdirectory
        contradiction
      · obtain rfl := eq_of_leads hresolve hp hresolve' hp'
        have hfile := (hfiles.mem_iff file).2 ⟨hmem, hwithin, hshown⟩
        exact ⟨_, List.mem_map_of_mem hfile, hstands file hfile⟩
    · rintro ⟨target, htarget, hnormal⟩
      obtain ⟨file', hmem, rfl⟩ := List.mem_map.1 htarget
      rw [hstands file' hmem] at hnormal
      obtain rfl := Option.some.inj hnormal
      obtain ⟨hfile, hwithin, hshown⟩ := (hfiles.mem_iff _).1 hmem
      exact .below hresolve hp hdirectory hrecursive hfile hwithin hshown
  · obtain ⟨file, hmem, rfl⟩ := List.mem_map.1 htarget
    exact ⟨file, ((hfiles.mem_iff file).1 hmem).1, hstands file hmem⟩

/-- What an operand gives are the files that it reaches. -/
theorem Gives.areReached {found : List Target} (h : t.WellFormed)
    (hgives : Gives t mode recursive cwd operand found) :
    AreReached t mode recursive cwd operand found := by
  cases hgives with
  | named hresolve hfile hmem => exact areReached_named h hresolve hfile hmem
  | below hresolve hd hdirectory hrecursive hfiles =>
    exact areReached_below h hresolve hd hdirectory hrecursive hfiles

/-- An operand that stands for targets is not refused, not even where there is nothing below the
directory. -/
theorem Gives.not_refused {found : List Target} (h : t.WellFormed)
    (hgives : Gives t mode recursive cwd operand found) : ¬ Refused t recursive cwd operand := by
  cases hgives with
  | @named path file hresolve hfile hmem =>
    have hreaches : Reaches t mode recursive cwd operand file := .named hresolve hfile hmem
    exact hreaches.not_refused h
  | below hresolve hd hdirectory hrecursive =>
    exact not_refused_of_node hresolve hd (h.node?_eq_directory_iff.2 hdirectory) fun _ => hrecursive

/-- The tree leaves no choice of the targets, nor of their order. -/
theorem Gives.unique {found found' : List Target} (h : t.WellFormed)
    (hgives : Gives t mode recursive cwd operand found)
    (hgives' : Gives t mode recursive cwd operand found') : found = found' := by
  cases hgives with
  | named hresolve hfile hmem =>
    cases hgives' with
    | named hresolve' =>
      rw [Option.some.inj (hresolve.symm.trans hresolve')]
    | below hresolve' hd' hdirectory' =>
      rw [eq_of_leads hresolve hfile hresolve' hd', h.file_not_directory _ hmem] at hdirectory'
      contradiction
  | below hresolve hd hdirectory _ hfiles =>
    cases hgives' with
    | named hresolve' hfile' hmem' =>
      rw [← eq_of_leads hresolve hd hresolve' hfile', h.file_not_directory _ hmem'] at hdirectory
      contradiction
    | below hresolve' hd' _ _ hfiles' =>
      obtain rfl := eq_of_leads hresolve hd hresolve' hd'
      rw [Option.some.inj (hresolve.symm.trans hresolve'), hfiles.unique hfiles']

/-- What the operand of a search comes to. Looking leaves the tree alone. -/
theorem exists_targets (h : t.WellFormed) (mode : Mode) (recursive : Bool) (cwd operand : String) :
    ∃ r, (targets mode recursive cwd operand : WorkspaceM Tree _) t = (r, t)
      ∧ Collected t mode recursive cwd operand r := by
  rw [targets]
  -- an operand may be refused by its text, by what stands there, or as a directory
  cases hresolve : Path.resolve? cwd operand with
  | none => exact ⟨_, rfl, .refused (.escapes hresolve)⟩
  | some path =>
    dsimp only
    cases hp : Path.normalize? path with
    | none =>
      have hask : (Workspace.stat path : WorkspaceM Tree (Option Stat)) t
          = (.error (.invalidPath path), t) :=
        congrArg (·, t) (Tree.invalid_of_normalize? hp).2
      exact ⟨_, bind_apply_error hask, .invalid hresolve hp⟩
    | some p =>
      have hask : (Workspace.stat path : WorkspaceM Tree (Option Stat)) t
          = (.ok ((t.node? p).bind Host.Node.stat?), t) :=
        congrArg (·, t) (Tree.stat_of_normalize? hp)
      rw [bind_apply_ok hask]
      cases hnode : t.node? p with
      | none => exact ⟨_, rfl, .refused (.missing hresolve hp hnode)⟩
      | some node =>
        cases node with
        | file data =>
          have hmem : p ∈ t.files := by
            rw [Std.ExtTreeMap.mem_iff_isSome_getElem?, Tree.node?_eq_file_iff.1 hnode]
            rfl
          exact ⟨_, rfl, .found (.named hresolve hp hmem)⟩
        | directory =>
          cases recursive with
          | false => exact ⟨_, rfl, .refused (.directory hresolve hp hnode rfl)⟩
          | true =>
            have hdirectory := h.node?_eq_directory_iff.1 hnode
            obtain ⟨files, hfiles, hrun⟩ :=
              exists_filesBelow h (Target.ofOperand operand path) hp hdirectory mode.recursive
            have hwalk : (Walk.below (visit mode.recursive) (Target.ofOperand operand path) :
                WorkspaceM Tree (List Target)) t = _ := hrun t.extent le_rfl
            exact ⟨_, bind_apply_ok hwalk, .found (.below hresolve hp hdirectory rfl hfiles)⟩
        | link target => exact absurd hnode Tree.node?_ne_link

end Search

end Sandshell
