import Sandshell.Proofs.Step
import Sandshell.Proofs.Workspace.Location
import Sandshell.Workspace.Rooted

/-!
# Hosts that are alike below a directory

On two hosts with the same nodes below a directory, calls by names below it that meet no link end
alike, leave hosts that are alike again, and change nothing but what is below the directory.
-/

namespace Sandshell.Host

open Sandshell.Path (IsName IsNormal descend isWithin join)

variable {h h' : Host} {root names front : List String} {place place' location name : String}
variable {node : Node} {follow : Bool}

/-! ## Names that meet no link -/

/-- No path by some of the names, from the first one on, shows a link. -/
def Unlinked (h : Host) (root : List String) (place : String) (names : List String) : Prop :=
  ∀ q target, q <+: names → h.status root place q ≠ .ok (.link target)

/-- A way that meets no link meets none on its first part. -/
theorem Unlinked.of_longer (hu : h.Unlinked root place names) (hfront : front <+: names) :
    h.Unlinked root place front :=
  fun q target hq => hu q target (hq.trans hfront)

theorem isName_front (hnames : ∀ n ∈ names, IsName n) (hfront : front <+: names) :
    ∀ n ∈ front, IsName n :=
  fun n hn => hnames n (hfront.subset hn)

theorem pathSize_front_le (hfront : front <+: names) :
    pathSize (root ++ front) ≤ pathSize (root ++ names) := by
  obtain ⟨rest, rfl⟩ := hfront
  rw [← List.append_assoc, pathSize_append (root ++ front)]
  exact Nat.le_add_right _ _

/-- A path by names that meet no link is not led astray. -/
theorem Unlinked.direct (hu : h.Unlinked root place names) (hh : h.WellFormed)
    (hnames : ∀ n ∈ names, IsName n) (hsize : pathSize (root ++ names) ≤ maxPathLength) :
    h.Direct place follow names := by
  intro q target hq _ hshort hlink
  have hsize' := (pathSize_front_le hq).trans hsize
  have hstatus := (status_eq_ok_iff hh (isName_front hnames hq)).2 ⟨hsize', hshort, hlink⟩
  exact absurd hstatus (hu q target hq)

/-- Nor is it by one name more, unless a link there is followed. -/
theorem Unlinked.direct_concat (hu : h.Unlinked root place front) (hh : h.WellFormed)
    (hnames : ∀ n ∈ front ++ [name], IsName n)
    (hsize : pathSize (root ++ (front ++ [name])) ≤ maxPathLength) :
    h.Direct place false (front ++ [name]) := by
  intro q target hq hne hshort hlink
  rcases List.prefix_concat_iff.1 hq with rfl | hq
  · exact ⟨rfl, rfl⟩
  · have hfront : front <+: front ++ [name] := List.prefix_append _ _
    have hdirect : h.Direct place true front := hu.direct hh (isName_front hnames hfront)
      ((pathSize_front_le hfront).trans hsize)
    have := (hdirect q target hq hne hshort hlink).2
    contradiction

/-- What is found on such a way is what is shown. -/
theorem Anchored.find_of_unlinked (ha : h.Anchored root place) (hnames : ∀ n ∈ names, IsName n)
    (hu : h.Unlinked root place names) (follow : Bool) : h.find follow (root ++ names) =
      (h.status root place names).map fun node => (descend place names, node) :=
  ha.find hnames (hu.direct ha.wellFormed hnames)

/-- The last name may be a link that is not followed. -/
theorem Anchored.linkStatus_concat (ha : h.Anchored root place)
    (hnames : ∀ n ∈ front ++ [name], IsName n) (hu : h.Unlinked root place front) :
    h.linkStatus (root ++ (front ++ [name])) = h.status root place (front ++ [name]) := by
  rw [linkStatus, ha.find hnames (hu.direct_concat ha.wellFormed hnames)]
  cases h.status root place (front ++ [name]) <;> rfl

/-- The directory itself is shown as one. -/
theorem Anchored.status_nil (ha : h.Anchored root place) :
    h.status root place [] = .ok .directory := by
  refine (status_eq_ok_iff ha.wellFormed (by simp)).2 ⟨?_, by simp [Short], ha.directory⟩
  rw [List.append_nil]
  exact ha.fits

theorem Anchored.unlinked_nil (ha : h.Anchored root place) : h.Unlinked root place [] := by
  intro q target hq
  rw [List.prefix_nil.1 hq, ha.status_nil]
  simp

/-- A way without links goes on without one if the last name is none. -/
theorem Unlinked.concat (hu : h.Unlinked root place front)
    (hlast : ∀ target, h.status root place (front ++ [name]) ≠ .ok (.link target)) :
    h.Unlinked root place (front ++ [name]) := by
  intro q target hq
  rcases List.prefix_concat_iff.1 hq with rfl | hq
  · exact hlast target
  · exact hu q target hq

/-- What is shown at all stands in directories that are shown too. -/
theorem exists_status_front (hh : h.WellFormed) (hnames : ∀ n ∈ names, IsName n)
    (hfront : front <+: names) (hstatus : h.status root place names = .ok node) :
    ∃ node, h.status root place front = .ok node := by
  obtain ⟨hsize, hshort, hnode⟩ := (status_eq_ok_iff hh hnames).1 hstatus
  have hsize' := (pathSize_front_le hfront).trans hsize
  obtain ⟨rest, rfl⟩ := hfront
  have hshort' : Short front := fun n hn => hshort n (List.mem_append_left _ hn)
  have hfront := isName_front hnames (List.prefix_append front rest)
  by_cases hrest : rest = []
  · rw [hrest, List.append_nil] at hnode
    exact ⟨node, (status_eq_ok_iff hh hfront).2 ⟨hsize', hshort', hnode⟩⟩
  · rw [view, Path.descend_append] at hnode
    have hdirectory := hh.directory_of_descend
      (fun n hn => hnames n (List.mem_append_right _ hn)) hrest hnode
    exact ⟨.directory, (status_eq_ok_iff hh hfront).2 ⟨hsize', hshort', hdirectory⟩⟩

/-- Probing the names one by one tells whether they meet a link. -/
theorem Anchored.linkFree_iff (ha : h.Anchored root place) (hnames : ∀ n ∈ names, IsName n) :
    Rooted.linkFree h root names = true ↔ h.Unlinked root place names := by
  have hprobe : ∀ front rest, front ++ rest = names → h.Unlinked root place front →
      (Rooted.linkFree h (root ++ front) rest = true ↔ h.Unlinked root place names) := by
    intro front rest hsplit hu
    induction rest generalizing front with
    | nil =>
      rw [List.append_nil] at hsplit
      exact iff_of_true rfl (hsplit ▸ hu)
    | cons name rest ih =>
      have hsplit' : front ++ [name] ++ rest = names := by rw [← hsplit, List.append_assoc]; rfl
      have hprefix : front ++ [name] <+: names := ⟨rest, hsplit'⟩
      have hgo := ih (front ++ [name]) hsplit'
      rw [Rooted.linkFree, List.append_assoc,
        ha.linkStatus_concat (isName_front hnames hprefix) hu]
      cases hstatus : h.status root place (front ++ [name]) with
      | error e =>
        -- probing stops, as nothing below can be shown that is not shown here
        refine iff_of_true rfl fun q target hq hlink => ?_
        rcases List.prefix_or_prefix_of_prefix hq hprefix with hq' | hq'
        · rcases List.prefix_concat_iff.1 hq' with rfl | hq'
          · rw [hstatus] at hlink
            contradiction
          · exact hu q target hq' hlink
        · obtain ⟨node, hnode⟩ := exists_status_front ha.wellFormed
            (isName_front hnames hq) hq' hlink
          rw [hstatus] at hnode
          contradiction
      | ok node =>
        cases node with
        | link target => exact iff_of_false (by simp) fun hu' => hu' _ target hprefix hstatus
        | file data => exact hgo (hu.concat (by simp [hstatus]))
        | directory => exact hgo (hu.concat (by simp [hstatus]))
  simpa using hprobe [] names rfl ha.unlinked_nil

/-- What stands under a short name in a directory is found by it, but for a link that is followed. -/
theorem find_concat (hroot : h.find true root = .ok (place, .directory)) (hname : IsName name)
    (hshort : name.utf8ByteSize ≤ maxNameLength)
    (hsize : pathSize (root ++ [name]) ≤ maxPathLength)
    (hnode : h.node? (join place name) = some node)
    (hfollow : follow = true → ∀ target, node ≠ .link target) :
    h.find follow (root ++ [name]) = .ok (join place name, node) := by
  obtain ⟨left, hleft⟩ := exists_walk_of_find hroot
  refine find_eq_ok_iff.2 ⟨?_, hnode⟩
  rw [locate_eq, if_neg (Nat.not_lt.2 hsize), hleft follow _ (.inr (List.cons_ne_nil _ _)), walk,
    if_neg (not_or.2 ⟨hname.ne_empty, hname.ne_dot⟩), if_neg hname.ne_dots,
    if_neg (Nat.not_lt.2 hshort)]
  dsimp only
  rw [hnode]
  cases node with
  | file data => rfl
  | directory => rw [walk]
  | link target =>
    have hstop : follow = false := by simpa using hfollow
    rw [hstop]
    rfl

/-- A name in the directory is shown as what stands there. -/
theorem linkStatus_name (hroot : h.find true root = .ok (place, .directory)) (hname : IsName name)
    (hshort : name.utf8ByteSize ≤ maxNameLength)
    (hsize : pathSize (root ++ [name]) ≤ maxPathLength)
    (hnode : h.node? (join place name) = some node) :
    h.linkStatus (root ++ [name]) = .ok node := by
  rw [linkStatus, find_concat hroot hname hshort hsize hnode (by simp)]
  rfl

/-- All that can stand under the first name of a path that shows something. -/
theorem of_find_cons (hroot : h.find true root = .ok (place, .directory)) (hname : IsName name)
    (hfind : h.find true (root ++ name :: names) = .ok (location, node)) :
    name.utf8ByteSize ≤ maxNameLength ∧ pathSize (root ++ [name]) ≤ maxPathLength
      ∧ ((∃ data, h.node? (join place name) = some (.file data)) ∧ location = join place name
        ∨ h.node? (join place name) = some .directory
        ∨ ∃ target, h.node? (join place name) = some (.link target)) := by
  obtain ⟨left, hleft⟩ := exists_walk_of_find hroot
  obtain ⟨hlocate, hlocation⟩ := find_eq_ok_iff.1 hfind
  rw [locate_eq, hleft true _ (.inl rfl), walk, if_neg (not_or.2 ⟨hname.ne_empty, hname.ne_dot⟩),
    if_neg hname.ne_dots] at hlocate
  split at hlocate
  · contradiction
  next hsize =>
  split at hlocate
  · contradiction
  next hlong =>
  have hfront : pathSize (root ++ [name]) ≤ maxPathLength :=
    (pathSize_front_le ((List.prefix_cons_inj name).2 List.nil_prefix)).trans (Nat.not_lt.1 hsize)
  refine ⟨Nat.not_lt.1 hlong, hfront, ?_⟩
  dsimp only at hlocate
  cases hthere : h.node? (join place name) with
  | none =>
    -- the walk goes no further, and nothing stands where it ends
    rw [hthere] at hlocate
    dsimp only at hlocate
    split at hlocate
    · rw [← Except.ok.inj hlocate, hthere] at hlocation
      contradiction
    · contradiction
  | some found =>
    cases found with
    | file data =>
      rw [hthere] at hlocate
      dsimp only at hlocate
      split at hlocate
      · exact .inl ⟨⟨data, rfl⟩, (Except.ok.inj hlocate).symm⟩
      · contradiction
    | directory => exact .inr (.inl rfl)
    | link target => exact .inr (.inr ⟨target, rfl⟩)

/-- A path by names that meet no link below a directory leads to a place within the directory. -/
theorem isWithin_of_linkFree (hroot : h.find true root = .ok (place, .directory))
    (hnames : ∀ n ∈ names, IsName n) (hfree : Rooted.linkFree h root names = true)
    (hfind : h.find true (root ++ names) = .ok (location, node)) : isWithin place location := by
  induction names generalizing root place with
  | nil =>
    rw [List.append_nil, hroot] at hfind
    obtain rfl : place = location := congrArg Prod.fst (Except.ok.inj hfind)
    exact Path.isWithin_self place
  | cons name rest ih =>
    obtain ⟨hname, hrest⟩ := List.forall_mem_cons.1 hnames
    obtain ⟨hshort, hsize, hstanding⟩ := of_find_cons hroot hname hfind
    have hin : isWithin place (join place name) := Path.isWithin_join (Path.isWithin_self place) name
    rcases hstanding with ⟨-, rfl⟩ | hdirectory | ⟨target, hlink⟩
    · exact hin
    -- from a directory the walk goes on as from a root of its own
    · rw [Rooted.linkFree, linkStatus_name hroot hname hshort hsize hdirectory] at hfree
      rw [List.append_cons] at hfind
      have hbelow := ih (find_concat hroot hname hshort hsize hdirectory (by simp)) hrest hfree hfind
      exact Path.isWithin_trans hin hbelow (Path.join_ne_empty hname.ne_empty)
    · rw [Rooted.linkFree, linkStatus_name hroot hname hshort hsize hlink] at hfree
      contradiction

/-! ## Alike hosts -/

/-- The same path leads to a directory on both hosts, and the same stands below it. -/
structure Twin (root : List String) (h : Host) (place : String) (h' : Host) (place' : String) :
    Prop where
  left : h.Anchored root place
  right : h'.Anchored root place'
  agree : ∀ names, (∀ n ∈ names, IsName n) → h.view place names = h'.view place' names

/-- A host is its own twin. -/
theorem Anchored.twin (ha : h.Anchored root place) : Twin root h place h place :=
  ⟨ha, ha, fun _ _ => rfl⟩

theorem Twin.symm (ht : Twin root h place h' place') : Twin root h' place' h place :=
  ⟨ht.right, ht.left, fun names hnames => (ht.agree names hnames).symm⟩

/-- The same obstacles are in the way of twins. -/
theorem Twin.blocked? (ht : Twin root h place h' place') (hnames : ∀ n ∈ names, IsName n) :
    h.blocked? root place names = h'.blocked? root place' names := by
  rw [Host.blocked?, Host.blocked?,
    obstacle?_congr fun q hq _ => ht.agree q (isName_front hnames hq)]

/-- Twins show the same. -/
theorem Twin.status (ht : Twin root h place h' place') (hnames : ∀ n ∈ names, IsName n) :
    h.status root place names = h'.status root place' names := by
  rw [Host.status, Host.status, ht.blocked? hnames, ht.agree names hnames]

/-- They have their links at the same names. -/
theorem Twin.unlinked (ht : Twin root h place h' place') (hnames : ∀ n ∈ names, IsName n)
    (hu : h.Unlinked root place names) : h'.Unlinked root place' names :=
  fun q target hq => ht.status (isName_front hnames hq) ▸ hu q target hq

/-- Nothing has changed but below a place, and there are no new links there. -/
structure Contained (place : String) (h h' : Host) : Prop where
  outside : ∀ p, (∀ names, (∀ n ∈ names, IsName n) → names ≠ [] → p ≠ descend place names) →
    h'.node? p = h.node? p
  links : ∀ p target, h'.node? p = some (.link target) → h.node? p = some (.link target)

theorem Contained.refl (place : String) (h : Host) : Contained place h h :=
  ⟨fun _ _ => rfl, fun _ _ => id⟩

theorem Contained.trans {h'' : Host} (hc : Contained place h h') (hc' : Contained place h' h'') :
    Contained place h h'' :=
  ⟨fun p hp => (hc'.outside p hp).trans (hc.outside p hp),
    fun p target hlink => hc.links p target (hc'.links p target hlink)⟩

/-- What changes inside the directory puts no link in the way. -/
theorem Contained.unlinked (hc : Contained place h h') (hh : h.WellFormed) (hh' : h'.WellFormed)
    (hnames : ∀ n ∈ names, IsName n) (hu : h.Unlinked root place names) :
    h'.Unlinked root place names := by
  intro q target hq hlink
  have hq' := isName_front hnames hq
  -- a link that is shown now was there before, and its path has the same length
  obtain ⟨hsize, hshort, hnode⟩ := (status_eq_ok_iff hh' hq').1 hlink
  exact hu q target hq ((status_eq_ok_iff hh hq').2 ⟨hsize, hshort, hc.links _ _ hnode⟩)

/-! ## Edits -/

section

variable {new? : Option Node}

/-- An edit that may be made leads on from a host. -/
theorem LeadsOn.edit (hedit : h.Editable place name new?) :
    LeadsOn h (h.edit (join place name) new?) := by
  intro p node hnode hfile
  rw [node?_edit (Path.join_ne_empty hedit.isName.ne_empty), if_neg, hnode]
  rintro rfl
  rcases hedit.old with hold | ⟨data, hold⟩
  · rw [hold] at hnode
    contradiction
  · rw [hold] at hnode
    exact hfile data (Option.some.inj hnode).symm

/-- The directory stays where it is. -/
theorem Anchored.of_leadsOn (ha : h.Anchored root place) (hh' : h'.WellFormed)
    (hleads : LeadsOn h h') : h'.Anchored root place := by
  obtain ⟨hlocate, hdirectory⟩ := find_eq_ok_iff.1 ha.found
  refine ⟨hh', find_eq_ok_iff.2 ⟨?_, hleads _ _ hdirectory (by simp)⟩, ha.fits⟩
  rw [locate_eq] at hlocate ⊢
  split at hlocate
  · contradiction
  · next hsize =>
    obtain ⟨left, hleft⟩ := exists_walk_append hleads hlocate hdirectory
    have hwalk := hleft false [] (by simp)
    rw [List.append_nil] at hwalk
    rw [if_neg hsize, hwalk, walk]

/-- Edits below the directory are contained in it. -/
theorem Contained.edit (hfront : ∀ n ∈ front, IsName n)
    (hedit : h.Editable (descend place front) name new?) :
    Contained place h (h.edit (join (descend place front) name) new?) := by
  have hne : join (descend place front) name ≠ "" := Path.join_ne_empty hedit.isName.ne_empty
  constructor
  · intro p hp
    rw [node?_edit hne, if_neg]
    rw [← Path.descend_concat]
    exact hp _ (Path.isName_concat hfront hedit.isName) (by simp)
  · intro p target hlink
    rw [node?_edit hne] at hlink
    split at hlink
    · exact absurd hlink (hedit.new target)
    · exact hlink

/-- The same change by the same names leaves alike hosts. -/
theorem Twin.edit (ht : Twin root h place h' place') (hfront : ∀ n ∈ front, IsName n)
    (hedit : h.Editable (descend place front) name new?) :
    Twin root (h.edit (join (descend place front) name) new?) place
      (h'.edit (join (descend place' front) name) new?) place' := by
  have hnames := Path.isName_concat hfront hedit.isName
  have hsame : h.node? (join (descend place front) name)
      = h'.node? (join (descend place' front) name) := by
    have := ht.agree _ hnames
    rwa [view, view, Path.descend_concat, Path.descend_concat] at this
  have hedit' : h'.Editable (descend place' front) name new? :=
    ⟨hedit.isName, (ht.agree front hfront).symm.trans hedit.parent, hsame ▸ hedit.old, hedit.new⟩
  refine ⟨ht.left.of_leadsOn (ht.left.wellFormed.edit hedit) (LeadsOn.edit hedit),
    ht.right.of_leadsOn (ht.right.wellFormed.edit hedit') (LeadsOn.edit hedit'), fun q hq => ?_⟩
  have hne : ∀ place, join (descend place front) name ≠ "" :=
    fun place => Path.join_ne_empty hedit.isName.ne_empty
  have hiff : ∀ place, descend place q = join (descend place front) name ↔ q = front ++ [name] := by
    intro place
    rw [← Path.descend_concat]
    exact ⟨Path.descend_inj hq hnames, congrArg _⟩
  have hagree := ht.agree q hq
  rw [view, view] at hagree ⊢
  simp only [node?_edit (hne _), hiff, hagree]

end

end Sandshell.Host
