import Sandshell.Proofs.Workspace.Host

/-!
# Where paths lead

A walk from a directory by names depends on nothing but what stands below that directory, until it
meets a link that it follows. So a path that begins with one to a directory leads where its names
lead from there, and what it shows is told by the nodes below the directory.
-/

namespace Sandshell.Host

open Sandshell.Path (IsName IsNormal descend join)

variable {h h' : Host} {root names : List String} {place place' : String} {node : Node}
variable {follow : Bool} {links : Nat}

/-! ## Walks by names -/

/-- What stands where names lead from a place. -/
def view (h : Host) (place : String) (names : List String) : Option Node :=
  h.node? (descend place names)

/-- No name is too long. -/
def Short (names : List String) : Prop :=
  ∀ name ∈ names, name.utf8ByteSize ≤ maxNameLength

theorem short_cons_iff {name : String} :
    Short (name :: names) ↔ name.utf8ByteSize ≤ maxNameLength ∧ Short names :=
  List.forall_mem_cons

/-- What stops a walk by names before its last place; a link on the way is one too many. -/
def obstacle? (h : Host) (place : String) : List String → Option Failure
  | [] => none
  | name :: rest =>
    if maxNameLength < name.utf8ByteSize then some .nameTooLong
    else if rest = [] then none
    else
      match h.node? (join place name) with
      | none => some .noEntry
      | some (.file _) => some .notDirectory
      | some .directory => obstacle? h (join place name) rest
      | some (.link _) => some .tooManyLinks

/-- What stops a walk are nodes on the way. -/
theorem obstacle?_congr (hsame : ∀ q, q <+: names → q ≠ [] → h.view place q = h'.view place' q) :
    h.obstacle? place names = h'.obstacle? place' names := by
  induction names generalizing place place' with
  | nil => rfl
  | cons name rest ih =>
    have hfirst : h.node? (join place name) = h'.node? (join place' name) :=
      hsame [name] ⟨rest, rfl⟩ (List.cons_ne_nil _ _)
    have hrest : h.obstacle? (join place name) rest = h'.obstacle? (join place' name) rest :=
      ih fun q hq _ => hsame _ ((List.prefix_cons_inj name).2 hq) (List.cons_ne_nil _ _)
    rw [obstacle?, obstacle?, hfirst, hrest]

/-- Nothing stops a walk if no name is too long and directories stand on the way. -/
theorem obstacle?_eq_none_iff : h.obstacle? place names = none ↔
    Short names ∧ ∀ q r, q ++ r = names → q ≠ [] → r ≠ [] → h.view place q = some .directory := by
  induction names generalizing place with
  | nil =>
    refine iff_of_true rfl ⟨fun _ hmem => absurd hmem List.not_mem_nil, fun q r hqr hne => ?_⟩
    exact absurd (List.append_eq_nil_iff.1 hqr).1 hne
  | cons name rest ih =>
    rw [obstacle?, short_cons_iff]
    by_cases hlong : maxNameLength < name.utf8ByteSize
    · rw [if_pos hlong]
      exact iff_of_false (Option.some_ne_none _) fun h => absurd h.1.1 (Nat.not_le.2 hlong)
    rw [if_neg hlong]
    by_cases hrest : rest = []
    · subst hrest
      rw [if_pos rfl]
      refine iff_of_true rfl ⟨⟨Nat.not_lt.1 hlong, fun _ hmem => absurd hmem List.not_mem_nil⟩, ?_⟩
      intro q r hqr hq hr
      rcases List.append_eq_singleton_iff.1 hqr with ⟨hnil, -⟩ | ⟨-, hnil⟩
      · exact absurd hnil hq
      · exact absurd hnil hr
    rw [if_neg hrest]
    -- more names follow, so only a directory lets the walk go on
    have hfirst : h.node? (join place name) ≠ some .directory →
        ¬ ∀ q r, q ++ r = name :: rest → q ≠ [] → r ≠ [] → h.view place q = some .directory :=
      fun hne hall => hne (hall [name] rest rfl (List.cons_ne_nil _ _) hrest)
    split
    · next hnode => exact iff_of_false (by simp) fun h => hfirst (by simp [hnode]) h.2
    · next hnode => exact iff_of_false (by simp) fun h => hfirst (by simp [hnode]) h.2
    · next hnode =>
      rw [ih]
      constructor
      · rintro ⟨hshort, hall⟩
        refine ⟨⟨Nat.not_lt.1 hlong, hshort⟩, fun q r hqr hq hr => ?_⟩
        cases q with
        | nil => contradiction
        | cons first q =>
          obtain ⟨rfl, htail⟩ := List.cons.inj hqr
          by_cases hq' : q = []
          · exact hq' ▸ hnode
          · exact hall q r htail hq' hr
      · rintro ⟨⟨-, hshort⟩, hall⟩
        exact ⟨hshort, fun q r hqr _ hr =>
          hall (name :: q) r (congrArg _ hqr) (List.cons_ne_nil _ _) hr⟩
    · next hnode => exact iff_of_false (by simp) fun h => hfirst (by simp [hnode]) h.2

/-- A walk by these names follows no link. -/
def Direct (h : Host) (place : String) (follow : Bool) (names : List String) : Prop :=
  ∀ q target, q <+: names → q ≠ [] → Short q → h.view place q = some (.link target) →
    q = names ∧ follow = false

/-- A direct way is direct from its first directory on. -/
theorem Direct.tail {name : String} (hdirect : h.Direct place follow (name :: names))
    (hshort : name.utf8ByteSize ≤ maxNameLength) : h.Direct (join place name) follow names := by
  intro q target hq _ hq' hlink
  obtain ⟨heq, hfollow⟩ := hdirect (name :: q) target ((List.prefix_cons_inj name).2 hq)
    (List.cons_ne_nil _ _) (short_cons_iff.2 ⟨hshort, hq'⟩) hlink
  exact ⟨(List.cons.inj heq).2, hfollow⟩

/-- A walk by names that follows no link gets to where they lead unless something stops it. -/
theorem walk_names (hnames : ∀ name ∈ names, IsName name) (hdirect : h.Direct place follow names) :
    h.walk follow links place names =
      match h.obstacle? place names with
      | some e => .error e
      | none => .ok (descend place names) := by
  induction names generalizing place with
  | nil => rw [walk, obstacle?, Path.descend_nil]
  | cons name rest ih =>
    have hname := hnames name List.mem_cons_self
    rw [walk, if_neg (not_or.2 ⟨hname.ne_empty, hname.ne_dot⟩), if_neg hname.ne_dots, obstacle?]
    by_cases hlong : maxNameLength < name.utf8ByteSize
    · rw [if_pos hlong, if_pos hlong]
    have hshort := Nat.not_lt.1 hlong
    have hrest := ih (fun n hn => hnames n (List.mem_cons_of_mem _ hn)) (hdirect.tail hshort)
    rw [if_neg hlong, if_neg hlong]
    dsimp only
    cases hnode : h.node? (join place name) with
    | none =>
      by_cases hnil : rest = []
      · subst hnil
        rfl
      · simp only [List.isEmpty_iff, hnil, if_false]
    | some node =>
      cases node with
      | file data =>
        by_cases hnil : rest = []
        · subst hnil
          rfl
        · simp only [List.isEmpty_iff, hnil, if_false]
      | directory =>
        by_cases hnil : rest = []
        · subst hnil
          exact hrest
        · simp only [hnil, if_false]
          exact hrest
      | link target =>
        -- a link can stand in the last place only, and is not followed there
        obtain ⟨heq, rfl⟩ := hdirect [name] target ⟨rest, rfl⟩ (List.cons_ne_nil _ _)
          (short_cons_iff.2 ⟨hshort, fun _ hmem => absurd hmem List.not_mem_nil⟩) hnode
        obtain rfl := (List.cons.inj heq).2
        rfl

/-! ## Walks on from a directory -/

/-- Directories and links of one host stand in the other one too. -/
def LeadsOn (h h' : Host) : Prop :=
  ∀ p node, h.node? p = some node → (∀ data, node ≠ .file data) → h'.node? p = some node

theorem LeadsOn.refl (h : Host) : LeadsOn h h :=
  fun _ _ hnode _ => hnode

/-- A walk that gets to a directory goes on from there, in every host that has what led it there. If
it followed a link in its last place, there must be more to walk, or links are followed there still. -/
theorem exists_walk_append {here there : String} {todo : List String} (hh : LeadsOn h h')
    (hwalk : h.walk follow links here todo = .ok there) (hthere : h.node? there = some .directory) :
    ∃ left, ∀ follow' rest, (follow = true → follow' = true ∨ rest ≠ []) →
      h'.walk follow' links here (todo ++ rest) = h'.walk follow' left there rest := by
  fun_induction walk h follow links here todo with
  | case1 links here =>
    cases hwalk
    exact ⟨links, fun _ _ _ => rfl⟩
  | case2 links here name todo hblank ih =>
    obtain ⟨left, hleft⟩ := ih hwalk
    refine ⟨left, fun follow' rest hmore => ?_⟩
    rw [List.cons_append, walk, if_pos hblank, hleft _ _ hmore]
  | case3 links here todo hblank ih =>
    obtain ⟨left, hleft⟩ := ih hwalk
    refine ⟨left, fun follow' rest hmore => ?_⟩
    rw [List.cons_append, walk, if_neg hblank, if_pos rfl, hleft _ _ hmore]
  | case9 links here name todo hblank hup hlong there' hnode ih =>
    obtain ⟨left, hleft⟩ := ih hwalk
    refine ⟨left, fun follow' rest hmore => ?_⟩
    rw [List.cons_append, walk, if_neg hblank, if_neg hup, if_neg hlong]
    dsimp only
    rw [hh _ _ hnode (by simp), hleft _ _ hmore]
  | case12 here name todo hblank hup hlong there' target hnode hlast links ih =>
    obtain ⟨left, hleft⟩ := ih hwalk
    refine ⟨left, fun follow' rest hmore => ?_⟩
    rw [List.cons_append, walk, if_neg hblank, if_neg hup, if_neg hlong]
    dsimp only
    -- a link that was followed is followed again
    have hagain : ((todo ++ rest).isEmpty && !follow') = false := by
      cases todo with
      | nil =>
        have hfollow : follow = true := by simpa using hlast
        rcases hmore hfollow with rfl | hne
        · exact Bool.and_false _
        · simp [hne]
      | cons _ _ => rfl
    rw [hh _ _ hnode (by simp)]
    simp only [hagain]
    rw [← List.append_assoc, ← hleft _ _ hmore]
    rfl
  -- a walk that ends at a node ends at something other than a directory
  | case4 | case6 | case8 | case11 => contradiction
  | case5 links here name todo hblank hup hlong there' hnode =>
    rw [← Except.ok.inj hwalk, hnode] at hthere
    cases hthere
  | case7 links here name todo hblank hup hlong there' data hnode =>
    rw [← Except.ok.inj hwalk, hnode] at hthere
    cases hthere
  | case10 links here name todo hblank hup hlong there' target hnode =>
    rw [← Except.ok.inj hwalk, hnode] at hthere
    cases hthere

/-! ## Below a path -/

open scoped Arithmetic in
/-- The bytes of a path, a slash for each of its segments included. -/
def pathSize (path : List String) : Nat :=
  (path.map fun name => name.utf8ByteSize + 1).sum

/-- Paths add up their sizes, with a slash for each name. -/
theorem pathSize_append (path rest : List String) :
    pathSize (path ++ rest) = pathSize path + pathSize rest := by
  rw [pathSize, List.map_append, List.sum_append]
  rfl

theorem locate_eq (h : Host) (follow : Bool) (path : List String) :
    h.locate follow path =
      if maxPathLength < pathSize path then .error .nameTooLong
      else h.walk follow maxLinks "" path := rfl

/-- Only slashes at the end are left out. -/
theorem exists_withoutSlash_append (path : List String) :
    ∃ blanks, path = withoutSlash path ++ blanks ∧ ∀ b ∈ blanks, b = "" := by
  refine ⟨(path.reverse.takeWhile (· = "")).reverse, ?_, fun b hb => ?_⟩
  · rw [withoutSlash, ← List.reverse_append, List.takeWhile_append_dropWhile, List.reverse_reverse]
  · simpa using List.mem_takeWhile_imp (List.mem_reverse.1 hb)

/-- Finding is locating and looking what is there. -/
theorem find_eq (h : Host) (follow : Bool) (path : List String) :
    h.find follow path =
      match h.locate follow path with
      | .error e => .error e
      | .ok location =>
        match h.node? location with
        | some node => .ok (location, node)
        | none => .error .noEntry := by
  rw [find]
  cases h.locate follow path with
  | error e => rfl
  | ok location => cases hnode : h.node? location <;> simp only [bind, Except.bind, hnode] <;> rfl

/-- What is found stands where it has been located. -/
theorem find_eq_ok_iff {path : List String} : h.find follow path = .ok (place, node) ↔
    h.locate follow path = .ok place ∧ h.node? place = some node := by
  rw [find_eq]
  cases h.locate follow path with
  | error e => simp
  | ok location =>
    dsimp only
    cases hnode : h.node? location with
    | none =>
      refine iff_of_false (by simp) ?_
      rintro ⟨heq, hsome⟩
      rw [← Except.ok.inj heq, hnode] at hsome
      contradiction
    | some found =>
      simp only [Except.ok.injEq, Prod.mk.injEq]
      exact and_congr_right fun heq => by rw [← heq, hnode, Option.some_inj]

/-- The path leads to a directory, and not through a link at its end. -/
structure Anchored (h : Host) (root : List String) (place : String) : Prop where
  wellFormed : h.WellFormed
  found : h.find false (withoutSlash root) = .ok (place, .directory)
  fits : pathSize root ≤ maxPathLength

theorem Anchored.directory (ha : h.Anchored root place) : h.node? place = some .directory :=
  (find_eq_ok_iff.1 ha.found).2

/-- The path leads to the same directory in every host that has what led there. -/
theorem Anchored.exists_walk (ha : h.Anchored root place) (hh : h.LeadsOn h') :
    ∃ left, ∀ follow rest,
      h'.walk follow maxLinks "" (root ++ rest) = h'.walk follow left place rest := by
  obtain ⟨hlocate, hdirectory⟩ := find_eq_ok_iff.1 ha.found
  rw [locate_eq] at hlocate
  split at hlocate
  · contradiction
  obtain ⟨left, hleft⟩ := exists_walk_append hh hlocate hdirectory
  obtain ⟨blanks, hroot, hblanks⟩ := exists_withoutSlash_append root
  refine ⟨left, fun follow rest => ?_⟩
  have hskip : h'.walk follow left place (blanks ++ rest) = h'.walk follow left place rest := by
    clear hroot
    induction blanks with
    | nil => rfl
    | cons blank blanks ih =>
      rw [List.forall_mem_cons] at hblanks
      rw [List.cons_append, walk, if_pos (.inl hblanks.1), ih hblanks.2]
  rw [← hskip, ← hleft _ _ (by simp), ← List.append_assoc, ← hroot]

/-- A path to a directory goes on from there, also where it leads through a link at its end. -/
theorem exists_walk_of_find (hfound : h.find true root = .ok (place, .directory)) :
    ∃ left, ∀ follow rest, follow = true ∨ rest ≠ [] →
      h.walk follow maxLinks "" (root ++ rest) = h.walk follow left place rest := by
  obtain ⟨hlocate, hdirectory⟩ := find_eq_ok_iff.1 hfound
  rw [locate_eq] at hlocate
  split at hlocate
  · contradiction
  obtain ⟨left, hleft⟩ := exists_walk_append (LeadsOn.refl h) hlocate hdirectory
  exact ⟨left, fun follow rest hmore => hleft follow rest fun _ => hmore⟩

/-- What stops a path by names below one to a directory before its last place. -/
def blocked? (h : Host) (root : List String) (place : String) (names : List String) :
    Option Failure :=
  if maxPathLength < pathSize (root ++ names) then some .nameTooLong else h.obstacle? place names

/-- What a path by names below one to a directory shows. -/
def status (h : Host) (root : List String) (place : String) (names : List String) :
    Except Failure Node :=
  match h.blocked? root place names with
  | some e => .error e
  | none =>
    match h.view place names with
    | some node => .ok node
    | none => .error .noEntry

/-- A direct way is located by going down the names, if it is short enough. -/
theorem Anchored.locate (ha : h.Anchored root place) (hnames : ∀ name ∈ names, IsName name)
    (hdirect : pathSize (root ++ names) ≤ maxPathLength → h.Direct place follow names) :
    h.locate follow (root ++ names) =
      match h.blocked? root place names with
      | some e => .error e
      | none => .ok (descend place names) := by
  rw [locate_eq, blocked?]
  by_cases hsize : maxPathLength < pathSize (root ++ names)
  · rw [if_pos hsize, if_pos hsize]
  · obtain ⟨left, hleft⟩ := ha.exists_walk (LeadsOn.refl h)
    rw [if_neg hsize, if_neg hsize, hleft, walk_names hnames (hdirect (Nat.not_lt.1 hsize))]

/-- What is found there is what is shown. -/
theorem Anchored.find (ha : h.Anchored root place) (hnames : ∀ name ∈ names, IsName name)
    (hdirect : pathSize (root ++ names) ≤ maxPathLength → h.Direct place follow names) :
    h.find follow (root ++ names) =
      (h.status root place names).map fun node => (descend place names, node) := by
  rw [find_eq, ha.locate hnames hdirect, status]
  cases h.blocked? root place names with
  | some e => rfl
  | none =>
    show (match h.view place names with | some node => _ | none => _) = _
    cases h.view place names <;> rfl

/-- The path of a name shows what stands there, if path and names are not too long. -/
theorem status_eq_ok_iff (hh : h.WellFormed) (hnames : ∀ name ∈ names, IsName name) :
    h.status root place names = .ok node ↔
      pathSize (root ++ names) ≤ maxPathLength ∧ Short names ∧ h.view place names = some node := by
  have hblocked : h.status root place names = .ok node ↔
      h.blocked? root place names = none ∧ h.view place names = some node := by
    rw [status]
    cases h.blocked? root place names with
    | some e => simp
    | none => cases h.view place names <;> simp
  rw [hblocked, blocked?]
  by_cases hsize : maxPathLength < pathSize (root ++ names)
  · rw [if_pos hsize]
    exact iff_of_false (by simp) fun h => absurd h.1 (Nat.not_le.2 hsize)
  · rw [if_neg hsize, obstacle?_eq_none_iff]
    constructor
    · rintro ⟨⟨hshort, -⟩, hnode⟩
      exact ⟨Nat.not_lt.1 hsize, hshort, hnode⟩
    · rintro ⟨-, hshort, hnode⟩
      refine ⟨⟨hshort, fun q r hqr _ hr => ?_⟩, hnode⟩
      subst hqr
      rw [view, Path.descend_append] at hnode
      exact hh.directory_of_descend (fun n hn => hnames n (List.mem_append_right _ hn)) hr hnode

end Sandshell.Host
