import Sandshell.Guest.Mount
import Sandshell.Proofs.Guest.Remaking
import Sandshell.Proofs.Tree.Directories
import Sandshell.Proofs.Workspace.Location

/-!
# Runs on host directories

A run on the host is given the directory where the path of the working directory leads, through links
as well. What runs a program there is an engine of the host's system. Two things are assumed of it:
no guest leaves the directory that it is given, and in that directory a program can make any file that
is not there yet. An engine that works on the tree of the directory does both.
-/

namespace Sandshell

open Sandshell.Path (IsName IsNormal Below isWithin join)

/-! ## Changes below a location -/

namespace Host

variable {h h' : Host} {place location : String}

/-- Nothing differs but below the location. -/
def SameOutside (location : String) (h h' : Host) : Prop :=
  ∀ p, (isWithin location p → p = location) → h'.node? p = h.node? p

theorem SameOutside.refl (location : String) (h : Host) : SameOutside location h h :=
  fun _ _ => rfl

/-- What is outside of a directory is outside of every directory in it. -/
theorem SameOutside.of_isWithin (hs : SameOutside location h h') (hin : isWithin place location) :
    SameOutside place h h' := by
  intro p hp
  refine hs p fun hwithin => ?_
  by_cases hlocation : location = ""
  · subst hlocation
    obtain rfl := Path.isWithin_antisymm hin (Path.isWithin_iff.2 (.inl rfl))
    exact hp hwithin
  · obtain rfl := hp (Path.isWithin_trans hin hwithin hlocation)
    exact Path.isWithin_antisymm hin hwithin

end Host

namespace Mount

variable {h h' : Host} {root : List String} {location path name p : String} {before after : Tree}
variable {config : EngineConfig} {surroundings : Surroundings} {r : GuestRequest}
variable {program : GuestProgram} {result : GuestResult}

/-! ## Settling -/

/-- Entries that no step changes are there in the end. -/
theorem getElem?_foldl_of_step {α β : Type} {l : List α}
    {step : Std.ExtTreeMap String β compare → α → Std.ExtTreeMap String β compare}
    (hstep : ∀ nodes a, (step nodes a)[p]? = nodes[p]?) (nodes : Std.ExtTreeMap String β compare) :
    (l.foldl step nodes)[p]? = nodes[p]? := by
  induction l generalizing nodes with
  | nil => rfl
  | cons a rest ih => rw [List.foldl_cons, ih, hstep]

/-- What is settled stands below the location. -/
theorem sameOutside_settle (h : Host) (location : String) (before after : Tree) :
    h.SameOutside location (settle h location before after) := by
  intro p hp
  by_cases hroot : p = ""
  · rw [hroot, Host.node?_root, Host.node?_root]
  -- a path at `p` would make `p` the location itself, but nothing is in itself
  have hne : ∀ path, compare (join location path) p ≠ .eq := by
    intro path heq
    obtain rfl := Std.compare_eq_iff_eq.1 heq
    exact Path.join_ne_self hroot (hp (Path.isWithin_join (Path.isWithin_self location) path))
  rw [Host.node?_of_ne hroot, Host.node?_of_ne hroot, settle]
  simp only [Std.ExtTreeMap.foldl_eq_foldl_toList, Std.ExtTreeSet.foldl_eq_foldl_toList]
  -- none of the three passes touches `p`
  rw [getElem?_foldl_of_step, getElem?_foldl_of_step, getElem?_foldl_of_step]
  · intro nodes file
    split
    · rfl
    · rw [Std.ExtTreeMap.getElem?_erase, if_neg (hne _)]
  · intro nodes path
    rw [Std.ExtTreeMap.getElem?_insertIfNew, if_neg fun heq => hne _ heq.1]
  · intro nodes file
    rw [Std.ExtTreeMap.getElem?_insert, if_neg (hne _)]

/-- What has been there stays, and each file is added. -/
theorem mem_foldl_insert_join {l : List (String × Bytes)}
    {nodes : Std.ExtTreeMap String Host.Node compare}
    (h : join location path ∈ nodes ∨ path ∈ l.map Prod.fst) :
    join location path ∈ l.foldl
      (fun nodes file => nodes.insert (join location file.1) (.file file.2)) nodes := by
  induction l generalizing nodes with
  | nil => simpa using h
  | cons file rest ih =>
    rw [List.map_cons, List.mem_cons, ← or_assoc] at h
    refine ih (h.imp_left fun hfirst => ?_)
    rw [Std.ExtTreeMap.mem_insert, Std.compare_eq_iff_eq]
    exact hfirst.symm.imp_left fun heq => congrArg _ heq.symm

/-- The files of the tree are on the host afterwards. -/
theorem exists_node?_settle (hne : path ≠ "") (hpath : path ∈ after.files) :
    ∃ node, (settle h location before after).node? (join location path) = some node := by
  rw [← Host.mem_nodes_iff (Path.join_ne_empty hne), settle]
  simp only [Std.ExtTreeMap.foldl_eq_foldl_toList]
  apply mem_foldl_insert_join
  right
  rw [Std.ExtTreeMap.map_fst_toList_eq_keys]
  exact Std.ExtTreeMap.mem_keys.2 hpath

/-! ## The tree of a directory -/

/-- All paths of the tree are on the host. -/
theorem mem_nodes_of_isKey (hkey : (treeBelow h location).IsKey path) :
    join location path ∈ h.nodes := by
  rw [treeBelow, Std.ExtTreeMap.foldl_eq_foldl_toList] at hkey
  revert path
  refine List.foldlRecOn
    (motive := fun t : Tree => ∀ {path}, t.IsKey path → join location path ∈ h.nodes) _ _ ?_ ?_
  · rintro path (hfile | hdirectory)
    · exact absurd hfile Std.ExtTreeMap.not_mem_empty
    · exact absurd hdirectory Std.ExtTreeSet.not_mem_empty
  · intro t ht entry hentry path hkey
    have hmem := Host.mem_nodes_of_mem_toList hentry
    split at hkey
    · next below data hbelow hnode =>
      rw [Path.eq_join_of_below? hbelow] at hmem
      rcases hkey with hfile | hdirectory
      · rcases Std.ExtTreeMap.mem_insert.1 hfile with heq | hfile
        · exact Std.compare_eq_iff_eq.1 heq ▸ hmem
        · exact ht (.inl hfile)
      · exact ht (.inr hdirectory)
    · next below hbelow hnode =>
      rw [Path.eq_join_of_below? hbelow] at hmem
      rcases hkey with hfile | hdirectory
      · exact ht (.inl hfile)
      · rcases Std.ExtTreeSet.mem_insert.1 hdirectory with heq | hdirectory
        · exact Std.compare_eq_iff_eq.1 heq ▸ hmem
        · exact ht (.inr hdirectory)
    · exact ht hkey

/-- The directory itself is no file of its tree. -/
theorem root_not_mem_treeBelow (hh : h.WellFormed) : "" ∉ (treeBelow h location).files := by
  intro hmem
  have hkey := mem_nodes_of_isKey (.inl hmem)
  by_cases hlocation : location = ""
  · rw [hlocation, Path.join_empty] at hkey
    exact hh.ne_root _ hkey rfl
  · exact Path.not_isNormal_join_empty hlocation (hh.normal _ hkey)

/-- What is not on the host is not in the tree. -/
theorem kind?_treeBelow (hh : h.WellFormed) (hname : IsName name)
    (hfree : h.node? (join location name) = none) : (treeBelow h location).kind? name = none := by
  have habsent : ¬ (treeBelow h location).IsKey name := by
    intro hkey
    obtain ⟨node, hnode⟩ := (Host.mem_nodes_iff (Path.join_ne_empty hname.ne_empty)).1
      (mem_nodes_of_isKey hkey)
    rw [hfree] at hnode
    contradiction
  refine Tree.kind?_eq_none_iff.2 ⟨fun hfile => habsent (.inl hfile), ?_⟩
  rw [Bool.eq_false_iff]
  intro hdirectory
  rcases Tree.isDirectory_iff.1 hdirectory with hroot | hmem | ⟨q, hq, hbelow⟩
  · exact hname.ne_empty hroot
  · exact habsent (.inr hmem)
  -- what lies below the name would stand in a directory of that name
  · have hbelow' : Below (join location name) (join location q) := by
      obtain ⟨rest, rfl⟩ := Path.below_iff.1 hbelow
      rw [← Path.join_append]
      exact Path.below_append _ rest
    rw [hh.directory_of_below (mem_nodes_of_isKey hq) hbelow'] at hfree
    contradiction

/-! ## The run -/

/-- The directory that a run in a working directory is given; links on the way are followed. -/
def point? (h : Host) (root : List String) (cwd : String) : Option String :=
  match Path.normalize? cwd with
  | none => none
  | some _ =>
    match h.find true (root ++ Path.components cwd) with
    | .ok (location, .directory) => some location
    | _ => none

/-- A mount stands where the host finds a directory at the normal path. -/
theorem point?_eq_some_iff {cwd : String} : point? h root cwd = some location ↔
    (∃ normal, Path.normalize? cwd = some normal)
      ∧ h.find true (root ++ Path.components cwd) = .ok (location, .directory) := by
  rw [point?]
  cases Path.normalize? cwd with
  | none => simp
  | some normal =>
    rcases h.find true (root ++ Path.components cwd) with e | ⟨place, _ | _ | _⟩ <;> simp

/-- A run fails before it begins, and leaves the host alone, or its engine runs a program that loads on
the directory that it is given. -/
theorem run_cases (engine : HostEngine) (config : EngineConfig) (surroundings : Surroundings)
    (h : Host) (root : List String) (hsource : r.source = .mount) :
    (∃ e, run engine config surroundings root r h = (.error e, h))
      ∨ ∃ location p, point? h root r.cwd = some location
        ∧ run engine config surroundings root r h = engine config surroundings location r p h := by
  rw [run, hsource, GuestRequest.directory, point?]
  cases hcwd : Path.normalize? r.cwd with
  | none => exact .inl ⟨_, rfl⟩
  | some normal =>
    dsimp only
    rw [get_bind_apply, Path.filter_segments_of_normalize? hcwd]
    rcases h.find true (root ++ Path.components r.cwd) with e | ⟨location, _ | _ | _⟩
    · exact .inl ⟨_, rfl⟩
    · exact .inl ⟨_, rfl⟩
    · dsimp only
      cases r.module.load config.maxMemory with
      | error e => exact .inl ⟨e, rfl⟩
      | ok p => exact .inr ⟨location, p, rfl, rfl⟩
    · exact .inl ⟨_, rfl⟩

/-- With a directory to run on, a program that loads is run. -/
theorem run_of_point? {engine : HostEngine} (hsource : r.source = .mount)
    (hpoint : point? h root r.cwd = some location)
    (hload : r.module.load config.maxMemory = .ok program) :
    run engine config surroundings root r h
      = engine config surroundings location r program h := by
  obtain ⟨⟨normal, hcwd⟩, hfind⟩ := point?_eq_some_iff.1 hpoint
  rw [run, hsource, GuestRequest.directory, hcwd]
  dsimp only
  rw [get_bind_apply, Path.filter_segments_of_normalize? hcwd, hfind]
  dsimp only
  rw [hload]

/-! ## What is assumed of engines -/

/-- Makes a file in the directory that the guest starts in. -/
def plant (name : String) : List Step :=
  callWith (.pathOpen · · · 1 0 256) name

namespace HostEngine

/-- A guest cannot leave the directory that it is given. -/
def Confined (engine : HostEngine) : Prop :=
  ∀ config surroundings location r p (h : Host),
    h.SameOutside location (engine config surroundings location r p h).2

/-- A program that opens a name that is free in the directory, to create it, makes something under
that name, and comes to its end. -/
def MakesFiles (engine : HostEngine) : Prop :=
  ∀ config surroundings location (r : GuestRequest) name (h : Host), h.WellFormed →
    h.node? location = some .directory → IsName name → name.utf8ByteSize ≤ Host.maxNameLength →
    h.node? (join location name) = none →
      ∃ result h' node, engine config surroundings location r { steps := plant name } h
        = (.ok result, h') ∧ h'.node? (join location name) = some node

end HostEngine

/-- A run changes nothing but what lies below the directory that it is given. -/
theorem HostEngine.Confined.sameOutside_run {engine : HostEngine} (hengine : Confined engine)
    (hsource : r.source = .mount) (hpoint : point? h root r.cwd = some location) :
    h.SameOutside location (run engine config surroundings root r h).2 := by
  rcases run_cases engine config surroundings h root hsource
    with ⟨e, herror⟩ | ⟨location', p, hpoint', hrun⟩
  · rw [herror]
    exact .refl location h
  · obtain rfl : location' = location := Option.some.inj (hpoint'.symm.trans hpoint)
    rw [hrun]
    exact hengine _ _ _ _ _ _

/-- Without a directory to run on nothing is changed. -/
theorem run_of_point?_eq_none (engine : HostEngine) (hsource : r.source = .mount)
    (hnone : point? h root r.cwd = none) :
    (run engine config surroundings root r h).2 = h := by
  rcases run_cases engine config surroundings h root hsource
    with ⟨e, herror⟩ | ⟨location, p, hpoint, -⟩
  · rw [herror]
  · rw [hpoint] at hnone
    contradiction

/-! ## A program that makes a file -/

/-- A guest on a host directory with one page of memory, and nothing open but the directory. -/
structure Bare (g : Guest) : Prop where
  descriptors_eq : g.descriptors = .ofRoot ""
  size_eq : g.memory.size = pageSize
  mounted : g.mounted = true

/-- A file that is not there is made in the directory. -/
theorem createFile_of_name {t : Tree} (hname : IsName name) (hroot : "" ∉ t.files) :
    t.createFile name = .ok { t with files := t.files.insert name [] } := by
  have hfile : t.files.contains "" = false := by
    rwa [← Bool.not_eq_true, Std.ExtTreeMap.contains_iff_mem]
  rw [Tree.createFile, Path.parent_of_no_slash hname.no_slash, hfile, Tree.isDirectory_root]
  rfl

section

variable {g : Guest} (hg : Bare g) (hlength : (Bytes.ofString name).length ≤ Host.maxNameLength)
include hg

/-- A name resolves to itself. -/
theorem Bare.resolve_name (hname : IsName name) : g.descriptors.resolve 3 name = .ok name := by
  have hnames := (DescriptorTable.confined_ofRoot Path.isNormal_empty).resolve_names
    (DescriptorTable.get?_ofRoot "") (List.forall_mem_singleton.2 hname) (List.cons_ne_nil _ _)
  rwa [Path.ofSegments_singleton, Path.join_empty, ← hg.descriptors_eq] at hnames

include hlength

theorem Bare.holds_text : g.memory.holds 0 (Bytes.ofString name).length := by
  have hpage : Host.maxNameLength ≤ pageSize := by decide
  rw [GuestMemory.holds, decide_eq_true_eq, hg.size_eq, Nat.zero_add]
  exact hlength.trans hpage

/-- The call of the program. -/
def opening : Guest.Opening (g.withText name) where
  fd := 3
  path := 0
  length := UInt32.ofNat (Bytes.ofString name).length
  openFlags := 1
  fdFlags := 0
  address := 256
  text := name
  flags := ⟨true, false, false, false⟩
  text_eq := by
    have hword : Host.maxNameLength < 2 ^ 32 := by decide
    rw [UInt32.toNat_ofNat_of_lt' (hlength.trans_lt hword)]
    exact GuestMemory.textAt_store (hg.holds_text hlength)
  flags_eq := by decide
  fdFlags_lt := by decide
  holds := by
    have hsize : (g.withText name).memory.size = pageSize :=
      (GuestMemory.size_store _ _ _).trans hg.size_eq
    rw [GuestMemory.holds, hsize]
    decide
  room := by
    show g.descriptors.next + 1 < 2 ^ 32
    rw [hg.descriptors_eq]
    decide

variable (hname : IsName name) (hfree : g.files.kind? name = none) (hroot : "" ∉ g.files.files)
include hname hfree hroot

/-- The call makes the file. -/
theorem answer_opening : ∃ g', (opening hg hlength).call.answer (g.withText name) = (.ok (), g')
    ∧ name ∈ g'.files.files := by
  have hopen : Guest.openEntry (g.withText name).files name (opening hg hlength).flags
      (opening hg hlength).append
      = .ok (.file name 0 (opening hg hlength).append,
        { g.files with files := g.files.files.insert name [] }) := by
    show Guest.openEntry g.files name ⟨true, false, false, false⟩ _ = _
    rw [Guest.openEntry, hfree]
    dsimp only
    rw [createFile_of_name hname hroot]
    rfl
  have hresolve : (g.withText name).descriptors.resolve (opening hg hlength).fd.toNat
      (opening hg hlength).text = .ok name := hg.resolve_name hname
  have hanswer := (opening hg hlength).answer_eq hresolve
  rw [hopen] at hanswer
  exact ⟨_, hanswer, Std.ExtTreeMap.mem_insert_self⟩

/-- The program makes the file and comes to its end. -/
theorem steps_plant (bounds : MemoryBounds) :
    ∃ after, Running.steps true bounds { guest := g } (plant name) = (.returned, after)
      ∧ name ∈ after.guest.files.files := by
  obtain ⟨g', hanswer, hmade⟩ := answer_opening hg hlength hname hfree hroot
  have hpoke : Running.step true bounds { guest := g } (.poke 0 (Bytes.ofString name))
      = (.ok .done, { guest := g.withText name, log := [.done] }) :=
    if_pos (hg.holds_text hlength)
  have hending : (opening hg hlength).call.ending? (g.withText name).mounted = none := by
    rw [show (g.withText name).mounted = true from hg.mounted]
    rfl
  have hstep : Running.step true bounds { guest := g.withText name, log := [.done] }
      (.call (opening hg hlength).call)
      = (.ok (.errno 0), { guest := g', log := [.done, .errno 0] }) := by
    rw [Running.step]
    dsimp only
    rw [SystemCall.run_of_answer hanswer hending]
    rfl
  refine ⟨{ guest := g', log := [.done, .errno 0] }, ?_, hmade⟩
  have hplant : plant name
      = [.poke 0 (Bytes.ofString name), .call (opening hg hlength).call] := rfl
  rw [hplant, Running.steps, hpoke]
  dsimp only
  rw [Running.steps, hstep]
  rfl

end

/-! ## Trees as directories -/

/-- The guest that the run starts. -/
def guest (config : EngineConfig) (surroundings : Surroundings) (h : Host) (location : String)
    (r : GuestRequest) (p : GuestProgram) : Guest :=
  { r.guest surroundings { config with maxFile := 2 ^ 64 } p (treeBelow h location) "" with
    mounted := true }

/-- The program of a request on a directory of the host, up to its end. -/
def play (config : EngineConfig) (surroundings : Surroundings) (h : Host) (location : String)
    (r : GuestRequest) (p : GuestProgram) : Ending × Running :=
  Running.steps (p.memory = .asExpected) (p.bounds config.maxMemory)
    { guest := guest config surroundings h location r p } p.steps

/-- What a run on the directory leaves of the host. -/
def left (config : EngineConfig) (surroundings : Surroundings) (h : Host) (location : String)
    (r : GuestRequest) (p : GuestProgram) : Host :=
  settle h location (treeBelow h location)
    (play config surroundings h location r p).2.guest.files

/-- The engine leaves what its program left of the tree, and returns a result if the program comes to
its end. -/
theorem treeEngine_apply (config : EngineConfig) (surroundings : Surroundings) (location : String)
    (r : GuestRequest) (p : GuestProgram) (h : Host) :
    (treeEngine config surroundings location r p h).2 = left config surroundings h location r p
      ∧ ((play config surroundings h location r p).1 = .returned →
        ∃ result, (treeEngine config surroundings location r p h).1 = .ok result) := by
  rw [treeEngine, get_bind_apply]
  unfold left play guest
  generalize Running.steps _ _ _ _ = out
  obtain ⟨last, after⟩ := out
  dsimp only
  generalize settle h location (treeBelow h location) after.guest.files = h'
  rw [bind_apply_ok (rfl : (set h' : HostM PUnit) h = (.ok ⟨⟩, h'))]
  cases hsettle : Engine.settle (ending last) { after.guest.stderr with truncated := false } with
  | error e =>
    refine ⟨rfl, ?_⟩
    rintro rfl
    cases hsettle
  | ok settled => exact ⟨rfl, fun _ => ⟨_, rfl⟩⟩

/-- It gives the guest nothing but the tree of the directory. -/
theorem confined_treeEngine : HostEngine.Confined treeEngine := by
  intro config surroundings location r p h
  rw [(treeEngine_apply config surroundings location r p h).1]
  exact sameOutside_settle _ _ _ _

/-- An engine that works on a tree makes the files that it is asked for. -/
theorem makesFiles_treeEngine : HostEngine.MakesFiles treeEngine := by
  intro config surroundings location r name h hh hlocation hname hshort hfree
  have hfiles : (guest config surroundings h location r { steps := plant name }).files
      = treeBelow h location := Tree.ensureDirectory_eq_self (Tree.isDirectory_root _)
  have hbare : Bare (guest config surroundings h location r { steps := plant name }) :=
    ⟨rfl, Nat.one_mul pageSize, rfl⟩
  obtain ⟨after, hsteps, hmade⟩ := steps_plant hbare
    ((Bytes.length_ofString name).trans_le hshort) hname
    (hfiles ▸ kind?_treeBelow hh hname hfree) (hfiles ▸ root_not_mem_treeBelow hh)
    (({ steps := plant name } : GuestProgram).bounds config.maxMemory)
  have hplay : play config surroundings h location r { steps := plant name } = (.returned, after) :=
    hsteps
  obtain ⟨hleft, hreturns⟩ := treeEngine_apply config surroundings location r
    { steps := plant name } h
  obtain ⟨result, hresult⟩ := hreturns (congrArg Prod.fst hplay)
  obtain ⟨node, hnode⟩ : ∃ node, (settle h location (treeBelow h location) after.guest.files).node?
      (join location name) = some node := exists_node?_settle hname.ne_empty hmade
  rw [left, hplay] at hleft
  exact ⟨result, _, node, Prod.ext hresult hleft, hnode⟩

end Mount

end Sandshell
