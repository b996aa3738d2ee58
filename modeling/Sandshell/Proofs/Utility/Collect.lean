import Sandshell.Proofs.Path.Ways
import Sandshell.Proofs.Tree.Answers
import Sandshell.Proofs.Workspace.Walk
import Sandshell.Utility.Search

/-!
# Files that a search collects

The walk below an operand finds the files below its directory, each of them once: the files of a
directory by name, then what is in its subdirectories, one after the other by name. Each is shown as
a path that leads to it from the working directory.
-/

namespace Sandshell

open Sandshell.Path (IsName IsNormal descend isWithin segmentsBelow)

variable {t : Tree} {d name : String} {way names names' rest : List String}
variable {waiting found : List (List String)} {skipHidden : Bool}

/-! ## The order of a walk -/

namespace Walk

/-- The order in which a walk meets files, told by the names that lead to them. -/
inductive Precedes : List String → List String → Prop
  /-- The files of a directory come by name. -/
  | file {a b : String} (h : a < b) : Precedes [a] [b]
  /-- They come before what is further down. -/
  | fileFirst {a b : String} {rest : List String} (hne : rest ≠ []) : Precedes [a] (b :: rest)
  /-- What is in subdirectories comes by their names. -/
  | directory {a b : String} {rest rest' : List String} (hne : rest ≠ []) (hne' : rest' ≠ [])
      (h : a < b) : Precedes (a :: rest) (b :: rest')
  /-- What is in one subdirectory comes in this order. -/
  | inside {name : String} {rest rest' : List String} (h : Precedes rest rest') :
      Precedes (name :: rest) (name :: rest')

theorem Precedes.ne_nil (h : Precedes names names') : names ≠ [] ∧ names' ≠ [] := by
  cases h <;> exact ⟨List.cons_ne_nil _ _, List.cons_ne_nil _ _⟩

/-- Of two files one comes first. -/
theorem Precedes.asymm (h : Precedes names names') : ¬ Precedes names' names := by
  induction h with
  | file h =>
    intro h'
    cases h' with
    | file h' => exact lt_asymm h h'
    | fileFirst hne => exact hne rfl
    | directory hne => exact hne rfl
    | inside h' => exact h'.ne_nil.1 rfl
  | fileFirst hne =>
    intro h'
    cases h' with
    | file h' => exact hne rfl
    | fileFirst hne' => exact hne' rfl
    | directory _ hne' => exact hne' rfl
    | inside h' => exact h'.ne_nil.2 rfl
  | directory hne hne' h =>
    intro h'
    cases h' with
    | file h' => exact hne rfl
    | fileFirst => exact hne' rfl
    | directory _ _ h' => exact lt_asymm h h'
    | inside => exact lt_irrefl _ h
  | inside h ih =>
    intro h'
    cases h' with
    | file h' => exact lt_irrefl _ h'
    | fileFirst => exact h.ne_nil.2 rfl
    | directory _ _ h' => exact lt_irrefl _ h'
    | inside h' => exact ih h'

theorem Precedes.irrefl (names : List String) : ¬ Precedes names names :=
  fun h => h.asymm h

/-- Order does not depend on the way that leads to both. -/
theorem Precedes.append_left (h : Precedes names names') (way : List String) :
    Precedes (way ++ names) (way ++ names') := by
  induction way with
  | nil => exact h
  | cons name rest ih => exact .inside ih

/-- All that one way goes on to comes before all that another one does. -/
def Ahead (way way' : List String) : Prop :=
  ∀ rest rest', rest ≠ [] → rest' ≠ [] → Precedes (way ++ rest) (way' ++ rest')

/-- Of two names in a directory the smaller one is ahead. -/
theorem ahead_concat {a b : String} (h : a < b) (way : List String) :
    Ahead (way ++ [a]) (way ++ [b]) := by
  intro rest rest' hne hne'
  rw [List.append_assoc, List.append_assoc]
  exact (Precedes.directory hne hne' h).append_left way

/-- A way that is ahead stays so further down. -/
theorem Ahead.concat {way' : List String} (h : Ahead way way') (name : String) :
    Ahead (way ++ [name]) way' := by
  intro rest rest' _ hne'
  rw [List.append_assoc]
  exact h _ _ (List.cons_ne_nil name rest) hne'

/-- Of two ways of which one is ahead, neither goes on to the other. -/
theorem Ahead.not_prefix {way' : List String} (h : Ahead way way') :
    ¬ way <+: way' ∧ ¬ way' <+: way := by
  constructor
  · rintro ⟨more, rfl⟩
    have hself := h (more ++ [""]) [""] (by simp) (by simp)
    rw [← List.append_assoc] at hself
    exact Precedes.irrefl _ hself
  · rintro ⟨more, rfl⟩
    have hself := h [""] (more ++ [""]) (by simp) (by simp)
    rw [← List.append_assoc] at hself
    exact Precedes.irrefl _ hself

end Walk

open Walk (Ahead Precedes)

/-! ## Visits -/

namespace Search

/-- Begins with a dot. -/
def IsHidden (name : String) : Prop :=
  name.toList.head? = some '.'

instance (name : String) : Decidable (IsHidden name) :=
  inferInstanceAs (Decidable (_ = _))

/-- The names of the entries of one kind that a visit keeps. -/
def namesIn (t : Tree) (skipHidden : Bool) (kind : EntryKind) (d : String) : List String :=
  (((t.entries d).filter fun e => !(skipHidden && decide (IsHidden e.name))).filter
    (·.kind = kind)).map (·.name)

/-- The ways that go on by a name of one kind. -/
def waysOn (t : Tree) (skipHidden : Bool) (d : String) (way : List String) (kind : EntryKind) :
    List (List String) :=
  (namesIn t skipHidden kind (descend d way)).map (way ++ [·])

/-- The ways to the files that a visit finds at the end of a way, and those that it hands on. -/
def onward (t : Tree) (skipHidden : Bool) (d : String) (way : List String) :
    List (List String) × List (List String) :=
  (waysOn t skipHidden d way .file, waysOn t skipHidden d way .directory)

/-- What names lead to, shown as the start is with the names after it. -/
def Target.descend (start : Target) (names : List String) : Target :=
  ⟨Path.descend start.display names, Path.descend start.path names⟩

theorem Target.descend_concat (start : Target) (way : List String) (name : String) :
    start.descend (way ++ [name]) = ⟨Path.join (start.descend way).display name,
      Path.join (start.descend way).path name⟩ := by
  rw [descend, Path.descend_concat, Path.descend_concat]
  rfl

/-- A directory has the names of what stands in it, without hidden ones if they are skipped. -/
theorem mem_namesIn (h : t.WellFormed) {kind : EntryKind} : name ∈ namesIn t skipHidden kind d
    ↔ (IsName name ∧ (skipHidden → ¬ IsHidden name)) ∧ t.kind? (Path.join d name) = some kind := by
  have hkept : ∀ name, (!(skipHidden && decide (IsHidden name))) = true
      ↔ (skipHidden → ¬ IsHidden name) := by simp [imp_iff_not_or]
  simp only [namesIn, List.mem_map, List.mem_filter, decide_eq_true_eq, hkept]
  constructor
  · rintro ⟨entry, ⟨⟨hentry, hshown⟩, rfl⟩, rfl⟩
    obtain ⟨hname, hkind⟩ := h.of_mem_entries hentry
    exact ⟨⟨hname, hshown⟩, hkind⟩
  · rintro ⟨⟨hname, hshown⟩, hkind⟩
    have hentry := h.mem_entries_iff.2 ⟨hname.no_slash, hname.ne_empty, hkind⟩
    exact ⟨⟨name, kind⟩, ⟨⟨hentry, hshown⟩, rfl⟩, rfl⟩

/-- Names are in order, each once. -/
theorem pairwise_namesIn (t : Tree) (skipHidden : Bool) (kind : EntryKind) (d : String) :
    (namesIn t skipHidden kind d).Pairwise (· < ·) := by
  rw [namesIn, List.pairwise_map]
  exact ((Tree.pairwise_entries t d).filter _).filter _

/-- The ways on from a directory lead by one name each. -/
theorem mem_waysOn (h : t.WellFormed) {kind : EntryKind} :
    names ∈ waysOn t skipHidden d way kind
      ↔ ∃ name, names = way ++ [name] ∧ (IsName name ∧ (skipHidden → ¬ IsHidden name))
        ∧ t.kind? (descend d names) = some kind := by
  simp only [waysOn, List.mem_map, mem_namesIn h, ← Path.descend_concat]
  constructor
  · rintro ⟨name, ⟨hname, hkind⟩, rfl⟩
    exact ⟨name, rfl, hname, hkind⟩
  · rintro ⟨name, rfl, hname, hkind⟩
    exact ⟨name, ⟨hname, hkind⟩, rfl⟩

/-- They are in the order of the names. -/
theorem pairwise_waysOn (t : Tree) (skipHidden : Bool) (d : String) (way : List String)
    (kind : EntryKind) : (waysOn t skipHidden d way kind).Pairwise fun names names' =>
      ∃ a b, a < b ∧ names = way ++ [a] ∧ names' = way ++ [b] := by
  rw [waysOn, List.pairwise_map]
  exact (pairwise_namesIn t _ _ _).imp fun hlt => ⟨_, _, hlt, rfl, rfl⟩

/-- A visit finds the files of a directory and the ways on, both in order. -/
theorem visit_apply (h : t.WellFormed) {start : Target}
    (hstart : Path.normalize? start.path = some d) (hway : ∀ name ∈ way, IsName name)
    (hdirectory : t.isDirectory (descend d way)) : visit skipHidden (start.descend way) t =
      (.ok ((onward t skipHidden d way).1.map start.descend,
        (onward t skipHidden d way).2.map start.descend), t) := by
  have hnormal : IsNormal (descend d way) := h.normal_of_isDirectory hdirectory
  have hlist : t.list (Path.descend start.path way) = .ok (t.entries (descend d way)) := by
    rw [(Tree.alike_of_normalize? (Path.normalize?_descend hstart hway) hnormal t []).2.2.1,
      Tree.list_eq_ok_iff hnormal, h.node?_eq_directory_iff]
    exact ⟨hdirectory, rfl⟩
  have hstep : (Workspace.list (start.descend way).path : WorkspaceM Tree (List DirEntry)) t
      = (.ok (t.entries (descend d way)), t) := by
    show (t.list (Path.descend start.path way), t) = _
    rw [hlist]
  have htarget : (fun e : DirEntry => (⟨Path.join (start.descend way).display e.name,
      Path.join (start.descend way).path e.name⟩ : Target))
      = start.descend ∘ (way ++ [·]) ∘ (·.name) := by
    funext e
    exact (start.descend_concat way e.name).symm
  rw [visit, bind_apply_ok hstep]
  simp only [onward, waysOn, namesIn, List.map_map, ← htarget]
  rfl

/-! ## Walks -/

/-- Ways to directories, each of them ahead of those after it. -/
structure Ready (t : Tree) (d : String) (waiting : List (List String)) : Prop where
  isName : ∀ way ∈ waiting, ∀ name ∈ way, IsName name
  isDirectory : ∀ way ∈ waiting, t.isDirectory (descend d way)
  ahead : waiting.Pairwise Ahead

/-- A search is ready at its start. -/
theorem ready_start (hd : t.isDirectory d) : Ready t d [[]] where
  isName := by simp
  isDirectory := List.forall_mem_singleton.2 hd
  ahead := List.pairwise_singleton _ _

/-- Directories of which one is ahead of the other are not within each other. -/
theorem apart_of_ahead {way' : List String} (hd : IsNormal d) (hway : ∀ name ∈ way, IsName name)
    (hway' : ∀ name ∈ way', IsName name) (h : Ahead way way') :
    Snapshot.Apart (descend d way) (descend d way') :=
  ⟨fun hwithin => h.not_prefix.1 (Path.prefix_of_isWithin_descend hd hway hway' hwithin),
    fun hwithin => h.not_prefix.2 (Path.prefix_of_isWithin_descend hd hway' hway hwithin)⟩

/-- It stays so when the first way is replaced by those on from it. -/
theorem Ready.next (h : t.WellFormed) (hready : Ready t d (way :: waiting)) :
    Ready t d ((onward t skipHidden d way).2 ++ waiting) := by
  obtain ⟨hfirst, hrest⟩ := List.pairwise_cons.1 hready.ahead
  refine ⟨fun names hnames => ?_, fun names hnames => ?_, ?_⟩
  · rcases List.mem_append.1 hnames with hmem | hmem
    · obtain ⟨name, rfl, hname, -⟩ := (mem_waysOn h).1 hmem
      exact Path.isName_concat (hready.isName way List.mem_cons_self) hname.1
    · exact hready.isName names (List.mem_cons_of_mem _ hmem)
  · rcases List.mem_append.1 hnames with hmem | hmem
    · obtain ⟨-, -, -, hkind⟩ := (mem_waysOn h).1 hmem
      exact Tree.isDirectory_of_kind? hkind
    · exact hready.isDirectory names (List.mem_cons_of_mem _ hmem)
  · refine List.pairwise_append.2 ⟨?_, hrest, fun names hnames way' hway' => ?_⟩
    · exact (pairwise_waysOn t skipHidden d way .directory).imp fun ⟨_, _, hlt, hfirst, hsecond⟩ =>
        hfirst ▸ hsecond ▸ Walk.ahead_concat hlt way
    · obtain ⟨name, rfl, -, -⟩ := (mem_waysOn h).1 hnames
      exact (hfirst way' hway').concat name

/-- The walk visits each directory below the start once at most. -/
theorem progresses (h : t.WellFormed) {start : Target}
    (hstart : Path.normalize? start.path = some d) (skipHidden : Bool) :
    Walk.Progresses (visit skipHidden) t (onward t skipHidden d)
      start.descend start.descend (Ready t d)
      fun waiting => (Snapshot.pending t (waiting.map (descend d))).card where
  step_apply way waiting hready := visit_apply h hstart (hready.isName way List.mem_cons_self)
    (hready.isDirectory way List.mem_cons_self)
  ready_next way waiting hready := hready.next h
  size_next way waiting hready := by
    have hd : IsNormal d := Path.isNormal_of_normalize? hstart
    have hapart : ((way :: waiting).map (descend d)).Pairwise Snapshot.Apart := by
      rw [List.pairwise_map]
      refine hready.ahead.imp_of_mem fun hfirst hsecond hahead => ?_
      exact apart_of_ahead hd (hready.isName _ hfirst) (hready.isName _ hsecond) hahead
    -- the snapshot's walk hands on these directories, and the hidden ones
    refine lt_of_le_of_lt (Finset.card_le_card ?_)
      (Snapshot.card_pending_lt h (hready.isDirectory way List.mem_cons_self) hapart)
    intro p hp
    obtain ⟨hdirectory, e, he, hwithin⟩ := Snapshot.mem_pending.1 hp
    refine Snapshot.mem_pending.2 ⟨hdirectory, e, ?_, hwithin⟩
    rw [List.map_append] at he
    refine List.mem_append.2 ((List.mem_append.1 he).imp (fun hmem => ?_) id)
    obtain ⟨names, hnames, rfl⟩ := List.mem_map.1 hmem
    obtain ⟨name, rfl, hname, hkind⟩ := (mem_waysOn h).1 hnames
    rw [Path.descend_concat] at hkind ⊢
    exact (Snapshot.mem_directoriesIn h).2 ⟨name, hname.1.no_slash, hname.1.ne_empty, rfl, hkind⟩

/-- From the end of a way `names` lead on to a file, none of them left out. -/
def LeadsOn (t : Tree) (skipHidden : Bool) (d : String) (way names : List String) : Prop :=
  ∃ rest, rest ≠ [] ∧ names = way ++ rest
    ∧ (∀ name ∈ rest, IsName name ∧ (skipHidden → ¬ IsHidden name)) ∧ descend d names ∈ t.files

/-- What leads on to a file is a file found there, or leads on from a directory handed on. -/
theorem leadsOn_iff (h : t.WellFormed) : LeadsOn t skipHidden d way names
    ↔ names ∈ waysOn t skipHidden d way .file
      ∨ ∃ way' ∈ waysOn t skipHidden d way .directory, LeadsOn t skipHidden d way' names := by
  simp only [mem_waysOn h]
  constructor
  · rintro ⟨rest, hne, rfl, hnames, hfile⟩
    obtain ⟨name, more, rfl⟩ := List.exists_cons_of_ne_nil hne
    obtain ⟨hname, hmore⟩ := List.forall_mem_cons.1 hnames
    by_cases hlast : more = []
    · subst hlast
      exact .inl ⟨name, rfl, hname, Tree.kind?_of_mem hfile⟩
    -- the file lies below the name, which is a directory then
    · have hplace : descend d (way ++ [name]) ≠ "" := by
        rw [Path.descend_concat]
        exact Path.join_ne_empty hname.1.ne_empty
      have hsplit := List.append_cons way name more
      have hbelow := Path.below_descend hplace hlast
      rw [← Path.descend_append, ← hsplit] at hbelow
      have hnotFile : descend d (way ++ [name]) ∉ t.files :=
        fun hmem => h.not_below hmem (.inl hfile) hbelow
      have hplaceDirectory := Tree.isDirectory_of_below_key (.inl hfile) hbelow
      have hkind := Tree.kind?_of_isDirectory hnotFile hplaceDirectory
      exact .inr ⟨_, ⟨name, rfl, hname, hkind⟩, more, hlast, hsplit, hmore, hfile⟩
  · rintro (⟨name, rfl, hname, hkind⟩ | ⟨_, ⟨name, rfl, hname, -⟩, rest, -, rfl, hrest, hfile⟩)
    · exact ⟨[name], by simp, rfl, List.forall_mem_singleton.2 hname, Tree.mem_of_kind? hkind⟩
    · exact ⟨name :: rest, List.cons_ne_nil _ _, (List.append_cons _ _ _).symm,
        List.forall_mem_cons.2 ⟨hname, hrest⟩, hfile⟩

/-- A walk finds what leads on from the ways that are waiting, in order. -/
theorem ways_of_finds (h : t.WellFormed) (hfinds : Walk.Finds (onward t skipHidden d) waiting found)
    (hready : Ready t d waiting) : found.Pairwise Precedes ∧
      ∀ names, names ∈ found ↔ ∃ way ∈ waiting, LeadsOn t skipHidden d way names := by
  induction hfinds with
  | done => exact ⟨List.Pairwise.nil, by simp⟩
  | @next way waiting found _ ih =>
    obtain ⟨hordered, hfound⟩ := ih (hready.next h)
    constructor
    · refine List.pairwise_append.2 ⟨?_, hordered, fun names hnames names' hnames' => ?_⟩
      · refine (pairwise_waysOn t skipHidden d way .file).imp ?_
        rintro _ _ ⟨a, b, hlt, rfl, rfl⟩
        exact (Precedes.file hlt).append_left way
      · -- a file of this directory comes before all that is found from here or from later ways on
        obtain ⟨name, rfl, -⟩ := (mem_waysOn h).1 hnames
        obtain ⟨way', hway', rest, hne, rfl, -⟩ := (hfound names').1 hnames'
        rcases List.mem_append.1 hway' with hmem | hmem
        · obtain ⟨name', rfl, -⟩ := (mem_waysOn h).1 hmem
          rw [List.append_assoc]
          exact (Precedes.fileFirst hne).append_left way
        · exact (List.pairwise_cons.1 hready.ahead).1 way' hmem _ _ (List.cons_ne_nil _ _) hne
    · intro names
      have hvisit : LeadsOn t skipHidden d way names ↔ _ := leadsOn_iff h
      simp only [onward] at hfound ⊢
      simp only [List.mem_append, hfound, List.mem_cons, or_and_right, exists_or, exists_eq_left,
        hvisit, or_assoc]

/-! ## Operands -/

/-- Only the given character is trimmed. -/
theorem exists_eq_trimRight_append (c : Char) (s : String) :
    ∃ tail, s.toList = (Text.trimRight c s).toList ++ tail ∧ ∀ x ∈ tail, x = c := by
  refine ⟨(s.toList.reverse.takeWhile (· = c)).reverse, ?_, fun x hx => ?_⟩
  · rw [Text.trimRight, String.toList_ofList, ← List.reverse_append,
      List.takeWhile_append_dropWhile, List.reverse_reverse]
  · simpa using List.mem_takeWhile_imp (List.mem_reverse.1 hx)

/-- What a directory is shown as is its operand without the slashes at the end. -/
theorem shortens_shownPrefix {operand : String} (hrelative : Path.isAbsolute operand = false) :
    Path.Shortens operand (shownPrefix operand) := by
  rw [shownPrefix]
  split
  · next hdot =>
    apply Path.Shortens.nothing
    rw [Bool.or_eq_true, decide_eq_true_eq, decide_eq_true_eq] at hdot
    rcases hdot with rfl | rfl <;> decide
  obtain ⟨tail, htext, htail⟩ := exists_eq_trimRight_append '/' operand
  by_cases hshown : Text.trimRight '/' operand = ""
  · rw [hshown] at htext ⊢
    have hempty : tail = [] := by
      cases tail with
      | nil => rfl
      | cons c rest =>
        rw [Path.isAbsolute, htext, htail c List.mem_cons_self] at hrelative
        simp at hrelative
    obtain rfl : operand = "" := by
      rw [← String.toList_eq_nil_iff, htext, hempty]
      rfl
    apply Path.Shortens.nothing
    decide
  · have happend : operand = Text.trimRight '/' operand ++ String.ofList tail := by
      rw [← String.toList_inj, String.toList_append, String.toList_ofList]
      exact htext
    cases tail with
    | nil =>
      have hsegments : Path.segments operand
          = Path.segments (Text.trimRight '/' operand) ++ [] := by
        rw [List.append_nil]
        exact congrArg Path.segments (by simpa using happend)
      exact .text hshown happend hsegments (List.forall_mem_nil _)
    | cons c rest =>
      obtain rfl : c = '/' := htail c List.mem_cons_self
      have hsegments : Path.segments operand
          = Path.segments (Text.trimRight '/' operand) ++ Path.segments (String.ofList rest) := by
        rw [← Path.segments_append]
        refine congrArg Path.segments (happend.trans ?_)
        rw [← String.toList_inj]
        simp [String.toList_append]
      refine .text hshown happend hsegments fun name hname => ?_
      -- slashes alone hold no name
      left
      rw [← String.toList_eq_nil_iff, List.eq_nil_iff_forall_not_mem]
      intro x hx
      have hmem := Path.mem_of_mem_segments hname hx
      rw [String.toList_ofList] at hmem
      obtain rfl := htail x (List.mem_cons_of_mem _ hmem)
      exact Path.no_slash_of_mem_segments hname hx

/-- The files below a directory, but for hidden ones where these are left out, each of them once and
in the order of a walk. -/
structure AreFilesBelow (t : Tree) (skipHidden : Bool) (d : String) (files : List String) :
    Prop where
  nodup : files.Nodup
  mem_iff : ∀ file, file ∈ files ↔ file ∈ t.files ∧ isWithin d file
    ∧ (skipHidden → ∀ name ∈ segmentsBelow d file, ¬ IsHidden name)
  ordered : files.Pairwise fun file file' => Precedes (segmentsBelow d file) (segmentsBelow d file')

/-- Membership and order leave no choice. -/
theorem AreFilesBelow.unique {files files' : List String} (h : AreFilesBelow t skipHidden d files)
    (h' : AreFilesBelow t skipHidden d files') : files = files' := by
  have hperm : files.Perm files' :=
    (List.perm_ext_iff_of_nodup h.nodup h'.nodup).2 fun file => by rw [h.mem_iff, h'.mem_iff]
  exact hperm.eq_of_pairwise (fun _ _ _ _ hab hba => absurd hba hab.asymm) h.ordered h'.ordered

/-- What a file below the directory `d` is shown as after the start of a walk at `d`. -/
def Target.below (start : Target) (d file : String) : Target :=
  start.descend (segmentsBelow d file)

/-- A file is no directory. -/
theorem ne_of_file {file : String} (h : t.WellFormed) (hfile : file ∈ t.files)
    (hd : t.isDirectory d) : file ≠ d := by
  rintro rfl
  rw [h.file_not_directory file hfile] at hd
  contradiction

/-- The files of a walk, from the ways that lead to them. -/
theorem areFilesBelow_map (h : t.WellFormed) (hd : t.isDirectory d)
    (hordered : found.Pairwise Precedes)
    (hfound : ∀ names, names ∈ found ↔ LeadsOn t skipHidden d [] names) :
    AreFilesBelow t skipHidden d (found.map (descend d))
      ∧ ∀ names ∈ found, segmentsBelow d (descend d names) = names := by
  have hback : ∀ names ∈ found, segmentsBelow d (descend d names) = names := by
    intro names hmem
    obtain ⟨rest, hne, rfl, hnames, -⟩ := (hfound names).1 hmem
    exact Path.segmentsBelow_descend (fun name hname => (hnames name hname).1) hne d
  have hsorted : (found.map (descend d)).Pairwise fun file file' =>
      Precedes (segmentsBelow d file) (segmentsBelow d file') := by
    rw [List.pairwise_map]
    refine hordered.imp_of_mem fun hfirst hsecond hprecedes => ?_
    rwa [hback _ hfirst, hback _ hsecond]
  refine ⟨⟨hsorted.imp fun hprecedes heq => ?_, fun file => ?_, hsorted⟩, hback⟩
  · rw [heq] at hprecedes
    exact Precedes.irrefl _ hprecedes
  · rw [List.mem_map]
    constructor
    · rintro ⟨names, hmem, rfl⟩
      obtain ⟨rest, -, rfl, hnames, hfile⟩ := (hfound names).1 hmem
      rw [hback _ hmem]
      exact ⟨hfile, Path.isWithin_descend d _, fun hskip name hname => (hnames name hname).2 hskip⟩
    · rintro ⟨hfile, hwithin, hshown⟩
      obtain ⟨hnames, hnonempty, hleads⟩ :=
        (h.normal_file file hfile).segmentsBelow hwithin (ne_of_file h hfile hd)
      refine ⟨segmentsBelow d file, (hfound _).2 ?_, hleads⟩
      refine ⟨segmentsBelow d file, hnonempty, rfl, fun name hname => ?_, by rwa [hleads]⟩
      exact ⟨hnames name hname, fun hskip => hshown hskip name hname⟩

/-- The walk below a directory collects the files below it, in order. -/
theorem exists_filesBelow (h : t.WellFormed) (start : Target)
    (hstart : Path.normalize? start.path = some d) (hd : t.isDirectory d) (skipHidden : Bool) :
    ∃ files, AreFilesBelow t skipHidden d files ∧ ∀ n, t.extent ≤ n →
      Walk.run (visit skipHidden) n [start] t = (.ok (files.map (start.below d)), t) := by
  have hready := ready_start hd
  obtain ⟨found, hfinds, hrun⟩ := (progresses h hstart skipHidden).run_apply hready
  obtain ⟨hordered, hfound⟩ := ways_of_finds h hfinds hready
  simp only [List.mem_singleton, exists_eq_left] at hfound
  obtain ⟨hfiles, hback⟩ := areFilesBelow_map h hd hordered hfound
  refine ⟨found.map (descend d), hfiles, fun n hn => ?_⟩
  have hmap : (found.map (descend d)).map (start.below d) = found.map start.descend := by
    rw [List.map_map]
    refine List.map_congr_left fun names hmem => ?_
    show start.descend (segmentsBelow d (descend d names)) = _
    rw [hback names hmem]
  rw [hmap]
  exact hrun n ((Snapshot.card_pending_le t _).trans hn)

/-- Where the walk below an operand starts. -/
def Target.ofOperand (operand p : String) : Target :=
  ⟨shownPrefix operand, p⟩

/-- The target that an operand gave names the file, and is shown as an operand that leads to it from
the same working directory, unless the operand led from the root. -/
structure Target.StandsFor (target : Target) (cwd operand file : String) : Prop where
  normalize? : Path.normalize? target.path = some file
  path_eq : IsNormal cwd → target.path = file
  resolve? : Path.isAbsolute operand = false →
    Path.resolve? cwd target.display = some target.path

/-- What is below an operand is shown by a path that leads there from the working directory. -/
theorem standsFor_below {cwd operand p file : String}
    (hresolve : Path.resolve? cwd operand = some p) (hp : Path.normalize? p = some d)
    (hnormal : IsNormal file) (hwithin : isWithin d file) (hne : file ≠ d) :
    ((Target.ofOperand operand p).below d file).StandsFor cwd operand file := by
  obtain ⟨hnames, hnonempty, hleads⟩ := hnormal.segmentsBelow hwithin hne
  refine ⟨?_, fun hcwd => ?_, fun hrelative => ?_⟩
  · have hpath := Path.normalize?_descend hp hnames
    rwa [hleads] at hpath
  · have hsame := (Path.isNormal_of_resolve? hcwd hresolve).symm.trans hp
    obtain rfl : p = d := Option.some.inj hsame
    exact hleads
  · exact Path.resolve?_descend hresolve hrelative (shortens_shownPrefix hrelative) hnames hnonempty

end Search

/-- Both walks of a well-formed tree end, and meet every file once. A snapshot reads all files of
the tree, and is what the tree holds. A search collects the files below a directory that an operand
leads to, in the order of the walk and without what is hidden where its mode says so. -/
theorem Tree.walks_meet_each_file_once (h : t.WellFormed) :
    ((Snapshot.take : WorkspaceM Tree FileSet) t = (.ok t.files, t)
        ∧ ∃ found, found.Perm t.files.toList ∧
          ∀ n, t.extent ≤ n → Walk.run Snapshot.visit n [""] t = (.ok found, t))
      ∧ ∀ mode cwd operand p, Path.resolve? cwd operand = some p →
        t.stat p = .ok (some ⟨.directory, 0⟩) →
        ∃ d files, Path.normalize? p = some d ∧ Search.AreFilesBelow t mode.recursive d files
          ∧ (∀ n, t.extent ≤ n →
            Walk.run (Search.visit mode.recursive) n [Search.Target.ofOperand operand p] t =
              (.ok (files.map ((Search.Target.ofOperand operand p).below d)), t))
          ∧ Search.targets mode true cwd operand t =
            (.ok (.ok (files.map ((Search.Target.ofOperand operand p).below d))), t)
          ∧ ∀ file ∈ files,
            ((Search.Target.ofOperand operand p).below d file).StandsFor cwd operand file := by
  refine ⟨⟨Snapshot.take_apply h, Snapshot.run_root h⟩, fun mode cwd operand p hresolve hstat => ?_⟩
  obtain ⟨d, hp, hnode⟩ := stat_eq_directory_iff.1 hstat
  have hd : t.isDirectory d := h.node?_eq_directory_iff.1 hnode
  obtain ⟨files, hfiles, hrun⟩ :=
    Search.exists_filesBelow h (Search.Target.ofOperand operand p) hp hd mode.recursive
  refine ⟨d, files, hp, hfiles, hrun, ?_, fun file hmem => ?_⟩
  -- the operand is a directory, so that the search walks below it
  · have hwalk : (Walk.below (Search.visit mode.recursive) (Search.Target.ofOperand operand p) :
        WorkspaceM Tree (List Search.Target)) t = _ := hrun t.extent le_rfl
    have hask : (Workspace.stat p : WorkspaceM Tree (Option Stat)) t
        = (.ok (some ⟨.directory, 0⟩), t) := by
      show (t.stat p, t) = _
      rw [hstat]
    rw [Search.targets, hresolve]
    dsimp only
    rw [bind_apply_ok hask]
    dsimp only
    rw [if_neg (by decide), if_neg (by decide)]
    exact bind_apply_ok hwalk
  · obtain ⟨hfile, hwithin, -⟩ := (hfiles.mem_iff file).1 hmem
    exact Search.standsFor_below hresolve hp (h.normal_file file hfile) hwithin
      (Search.ne_of_file h hfile hd)

/-- A directory with a file, one file below a subdirectory, and one that is hidden. -/
def Tree.withHidden : Tree :=
  ofFiles [("a/.git/x", [1]), ("a/b", [2]), ("a/c/d", [3]), ("a-c", [4])]

theorem Search.areFilesBelow_withHidden :
    AreFilesBelow Tree.withHidden true "a" ["a/b", "a/c/d"] := by
  refine ⟨by decide, fun file => ?_, ?_⟩
  · have hkeys : Tree.withHidden.files.keys = ["a-c", "a/.git/x", "a/b", "a/c/d"] := by
      decide +kernel
    have hstored : ∀ file ∈ ["a/b", "a/c/d"], file ∈ ["a-c", "a/.git/x", "a/b", "a/c/d"] := by
      decide
    have hsame : ∀ file ∈ ["a-c", "a/.git/x", "a/b", "a/c/d"], file ∈ ["a/b", "a/c/d"]
        ↔ isWithin "a" file ∧ (true → ∀ name ∈ segmentsBelow "a" file, ¬ IsHidden name) := by
      decide +kernel
    rw [← Std.ExtTreeMap.mem_keys, hkeys]
    constructor
    · intro hmem
      exact ⟨hstored file hmem, (hsame file (hstored file hmem)).1 hmem⟩
    · intro hshown
      exact (hsame file hshown.1).2 hshown.2
  · exact List.pairwise_pair.2 (Precedes.fileFirst (List.cons_ne_nil "d" []))

theorem Tree.walks_meet_each_file_once_withHidden : withHidden.WellFormed
    ∧ Path.resolve? "a/c" ".././" = some "a"
    ∧ withHidden.stat "a" = .ok (some ⟨.directory, 0⟩)
    ∧ Search.targets Search.rg true "a/c" ".././" withHidden =
      (.ok (.ok [⟨".././b", "a/b"⟩, ⟨".././c/d", "a/c/d"⟩]), withHidden) := by
  have hwell : withHidden.WellFormed := by decide +kernel
  have hresolve : Path.resolve? "a/c" ".././" = some "a" := by decide
  have hstat : withHidden.stat "a" = .ok (some ⟨.directory, 0⟩) := by decide +kernel
  obtain ⟨-, hsearch⟩ := walks_meet_each_file_once hwell
  obtain ⟨d, files, hd, hfiles, -, htargets, -⟩ := hsearch Search.rg _ _ _ hresolve hstat
  obtain rfl : "a" = d := Option.some.inj hd
  obtain rfl := hfiles.unique Search.areFilesBelow_withHidden
  exact ⟨hwell, hresolve, hstat, htargets⟩

end Sandshell
