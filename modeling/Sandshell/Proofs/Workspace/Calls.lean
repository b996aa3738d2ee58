import Sandshell.Proofs.Workspace.Twin

/-!
# Host calls below a directory

Each call on the host by names that meet no link ends in the same way on hosts that are alike below
the directory. What it leaves is alike again, with nothing changed but below the directory.
-/

namespace Sandshell.Host

open Sandshell.Path (IsName IsNormal descend join)

variable {h h' : Host} {root names front : List String} {place place' name : String}

/-- Hosts that a call has left: alike, and the first one with nothing changed elsewhere. -/
structure Onward (root : List String) (place place' : String) (h after after' : Host) : Prop where
  twin : Twin root after place after' place'
  contained : Contained place h after

theorem Twin.onward (ht : Twin root h place h' place') : Onward root place place' h h h' :=
  ⟨ht, .refl place h⟩

/-- Hosts that are led on alike twice are led on alike. -/
theorem Onward.trans {mid mid' after after' : Host} (ho : Onward root place place' h mid mid')
    (ho' : Onward root place place' mid after after') : Onward root place place' h after after' :=
  ⟨ho'.twin, ho.contained.trans ho'.contained⟩

/-- Where nothing is in the way, the place that names lead to can be changed on both hosts, if it is
free or a file stands there. -/
theorem Twin.onward_edit (ht : Twin root h place h' place') (new? : Option Node)
    (hnames : ∀ n ∈ names, IsName n) (hfree : h.blocked? root place names = none)
    (hold : h.view place names = none ∨ ∃ data, h.view place names = some (.file data))
    (hnew : ∀ target, new? ≠ some (.link target)) :
    Onward root place place' h (h.edit (descend place names) new?)
      (h'.edit (descend place' names) new?) := by
  rcases List.eq_nil_or_concat names with rfl | ⟨front, name, rfl⟩
  · -- the directory itself is neither free nor a file
    rw [view, Path.descend_nil, ht.left.directory] at hold
    rcases hold with hold | ⟨data, hold⟩
    · contradiction
    · cases hold
  · rw [List.concat_eq_append] at *
    rw [view, Path.descend_concat] at hold
    have hfront := isName_front hnames (List.prefix_append front [name])
    have hparent : h.node? (descend place front) = some .directory := by
      rw [Host.blocked?] at hfree
      split at hfree
      · contradiction
      · by_cases hnil : front = []
        · rw [hnil, Path.descend_nil]
          exact ht.left.directory
        · exact (obstacle?_eq_none_iff.1 hfree).2 front [name] rfl hnil (List.cons_ne_nil _ _)
    have hedit : h.Editable (descend place front) name new? :=
      ⟨hnames name (by simp), hparent, hold, hnew⟩
    rw [Path.descend_concat, Path.descend_concat]
    exact ⟨ht.edit hfront hedit, .edit hfront hedit⟩

/-- Paths by the same names lead to the same place below each directory. -/
theorem Twin.locate (ht : Twin root h place h' place') (hnames : ∀ n ∈ names, IsName n)
    (hu : h.Unlinked root place names) (follow : Bool) :
    SameOutcome (fun location location' => h.blocked? root place names = none
        ∧ location = descend place names ∧ location' = descend place' names)
      (h.locate follow (root ++ names)) (h'.locate follow (root ++ names)) := by
  rw [ht.left.locate hnames (hu.direct ht.left.wellFormed hnames),
    ht.right.locate hnames ((ht.unlinked hnames hu).direct ht.right.wellFormed hnames),
    ← ht.blocked? hnames]
  cases h.blocked? root place names with
  | some e => exact .error e
  | none => exact .ok ⟨rfl, rfl, rfl⟩

/-- They show the same there, and it is no link. -/
theorem Twin.find (ht : Twin root h place h' place') (hnames : ∀ n ∈ names, IsName n)
    (hu : h.Unlinked root place names) (follow : Bool) :
    SameOutcome (fun found found' => h.status root place names = .ok found.2
        ∧ (∀ target, found.2 ≠ .link target)
        ∧ found.1 = descend place names ∧ found' = (descend place' names, found.2))
      (h.find follow (root ++ names)) (h'.find follow (root ++ names)) := by
  rw [ht.left.find_of_unlinked hnames hu, ht.right.find_of_unlinked hnames (ht.unlinked hnames hu),
    ← ht.status hnames]
  cases hstatus : h.status root place names with
  | error e => exact .error e
  | ok node =>
    refine .ok ⟨rfl, ?_, rfl, rfl⟩
    rintro target rfl
    exact hu names target List.prefix_rfl hstatus

/-! ## Making directories -/

/-- Twins make a directory alike. -/
theorem Twin.makeDirectory (ht : Twin root h place h' place') (hnames : ∀ n ∈ names, IsName n)
    (hu : h.Unlinked root place names) : SameOutcome (Onward root place place' h)
      (h.makeDirectory (root ++ names)) (h'.makeDirectory (root ++ names)) := by
  have hagree : h.node? (descend place names) = h'.node? (descend place' names) :=
    ht.agree names hnames
  rw [Host.makeDirectory, Host.makeDirectory]
  refine (ht.locate hnames hu false).bind ?_
  rintro _ _ ⟨hfree, rfl, rfl⟩
  rw [← hagree]
  cases hnode : h.node? (descend place names) with
  | some node => exact .error _
  | none => exact .ok (ht.onward_edit (some .directory) hnames hfree (.inl hnode) (by simp))

/-- Makes a directory if it is not there. -/
def settle (h : Host) (path : List String) : Except Failure Unit × Host :=
  match h.makeDirectory path with
  | .ok h' => (.ok (), h')
  | .error e => (if h.isDirectory path then .ok () else .error e, h)

/-- Where a directory above is missing, it is made first. -/
theorem makeDirectories_of_noEntry {path : List String} (hpath : path ≠ [])
    (hmake : h.makeDirectory path = .error .noEntry) :
    h.makeDirectories path =
      match h.makeDirectories path.dropLast with
      | (.ok (), after) => after.settle path
      | failed => failed := by
  rw [makeDirectories]
  simp only [hmake, dif_neg hpath]
  rfl

/-- Otherwise only the last directory is made, if it is not there. -/
theorem makeDirectories_of_ne {path : List String} (hmake : h.makeDirectory path ≠ .error .noEntry) :
    h.makeDirectories path = h.settle path := by
  rw [makeDirectories]
  dsimp only
  split
  · contradiction
  · rfl

/-- Twins have the same directories along the way. -/
theorem Twin.isDirectory (ht : Twin root h place h' place') (hnames : ∀ n ∈ names, IsName n)
    (hu : h.Unlinked root place names) :
    h.isDirectory (root ++ names) = h'.isDirectory (root ++ names) := by
  have hfind := ht.find hnames hu true
  rw [Host.isDirectory, Host.isDirectory]
  generalize h.find true (root ++ names) = found at hfind ⊢
  generalize h'.find true (root ++ names) = found' at hfind ⊢
  cases hfind with
  | error e => rfl
  | @ok found _ hshown =>
    obtain ⟨-, -, -, rfl⟩ := hshown
    rcases found with ⟨location, node⟩
    cases node <;> rfl

/-- They settle alike for a directory that is there. -/
theorem Twin.settle (ht : Twin root h place h' place') (hnames : ∀ n ∈ names, IsName n)
    (hu : h.Unlinked root place names) :
    (h.settle (root ++ names)).1 = (h'.settle (root ++ names)).1
      ∧ Onward root place place' h (h.settle (root ++ names)).2 (h'.settle (root ++ names)).2 := by
  have hsame := ht.makeDirectory hnames hu
  rw [Host.settle, Host.settle, ht.isDirectory hnames hu]
  generalize h.makeDirectory (root ++ names) = made at hsame ⊢
  generalize h'.makeDirectory (root ++ names) = made' at hsame ⊢
  cases hsame with
  | error e => exact ⟨rfl, ht.onward⟩
  | ok honward => exact ⟨rfl, honward⟩

/-- The directory itself is there already. -/
theorem Anchored.makeDirectory_root (ha : h.Anchored root place) :
    h.makeDirectory root = .error .alreadyExists := by
  have hfind := ha.find_of_unlinked (by simp) ha.unlinked_nil false
  rw [List.append_nil, ha.status_nil] at hfind
  obtain ⟨hlocate, hnode⟩ := find_eq_ok_iff.1 hfind
  rw [makeDirectory, hlocate]
  simp only [bind, Except.bind]
  rw [hnode]
  rfl

/-- They make missing directories alike, one after the other. -/
theorem Twin.makeDirectories (ht : Twin root h place h' place') (hnames : ∀ n ∈ names, IsName n)
    (hu : h.Unlinked root place names) :
    (h.makeDirectories (root ++ names)).1 = (h'.makeDirectories (root ++ names)).1
      ∧ Onward root place place' h (h.makeDirectories (root ++ names)).2
        (h'.makeDirectories (root ++ names)).2 := by
  induction names using List.reverseRecOn with
  | nil =>
    have hmake : ∀ {h : Host} {place}, h.Anchored root place
        → h.makeDirectory (root ++ []) ≠ .error .noEntry := by
      intro h place ha
      rw [List.append_nil, ha.makeDirectory_root]
      simp
    rw [makeDirectories_of_ne (hmake ht.left), makeDirectories_of_ne (hmake ht.right)]
    exact ht.settle hnames hu
  | append_singleton front name ih =>
    have hprefix : front <+: front ++ [name] := List.prefix_append _ _
    have hiff := (ht.makeDirectory hnames hu).eq_error_iff (e := .noEntry)
    by_cases hmake : h.makeDirectory (root ++ (front ++ [name])) = .error .noEntry
    · have hne : root ++ (front ++ [name]) ≠ [] := by simp
      have hdrop : (root ++ (front ++ [name])).dropLast = root ++ front := by
        rw [← List.append_assoc, List.dropLast_concat]
      have hfront := ih (isName_front hnames hprefix) (hu.of_longer hprefix)
      rw [makeDirectories_of_noEntry hne hmake, makeDirectories_of_noEntry hne (hiff.1 hmake), hdrop]
      rcases hmade : h.makeDirectories (root ++ front) with ⟨result, after⟩
      rcases hmade' : h'.makeDirectories (root ++ front) with ⟨result', after'⟩
      rw [hmade, hmade'] at hfront
      obtain ⟨rfl, honward⟩ := hfront
      cases result with
      | error e => exact ⟨rfl, honward⟩
      | ok _ =>
        -- the last directory is made on the hosts that the first ones left
        have hu' := honward.contained.unlinked ht.left.wellFormed honward.twin.left.wellFormed
          hnames hu
        obtain ⟨hsame, honward'⟩ := honward.twin.settle hnames hu'
        exact ⟨hsame, honward.trans honward'⟩
    · rw [makeDirectories_of_ne hmake, makeDirectories_of_ne fun h => hmake (hiff.2 h)]
      exact ht.settle hnames hu

/-! ## Writing and removing -/

/-- What can be seen to be no directory is free or a file. -/
theorem Unlinked.none_or_file (hu : h.Unlinked root place names)
    (hfree : h.blocked? root place names = none) (hnode : h.view place names ≠ some .directory) :
    h.view place names = none ∨ ∃ data, h.view place names = some (.file data) := by
  cases hview : h.view place names with
  | none => exact .inl rfl
  | some node =>
    cases node with
    | file data => exact .inr ⟨data, rfl⟩
    | directory => contradiction
    | link target =>
      refine absurd ?_ (hu names target List.prefix_rfl)
      rw [status, hfree, hview]

/-- Twins write a file alike. -/
theorem Twin.write (ht : Twin root h place h' place') (hnames : ∀ n ∈ names, IsName n)
    (hu : h.Unlinked root place names) (data : Bytes) :
    SameOutcome (Onward root place place' h) (h.write (root ++ names) data)
      (h'.write (root ++ names) data) := by
  have hagree : h.node? (descend place names) = h'.node? (descend place' names) :=
    ht.agree names hnames
  rw [Host.write, Host.write]
  refine (ht.locate hnames hu true).bind ?_
  rintro _ _ ⟨hfree, rfl, rfl⟩
  rw [← hagree]
  split
  · exact .error _
  · next hnode =>
    exact .ok (ht.onward_edit (some (.file data)) hnames hfree (hu.none_or_file hfree hnode) (by simp))

theorem withoutSlash_concat (path : List String) (hname : name ≠ "") :
    withoutSlash (path ++ [name]) = path ++ [name] := by
  simp [withoutSlash, hname]

theorem blocked?_of_status {node : Node} (hstatus : h.status root place names = .ok node) :
    h.blocked? root place names = none ∧ h.view place names = some node := by
  rw [status] at hstatus
  split at hstatus
  · contradiction
  · next hfree =>
    split at hstatus
    · next hnode =>
      exact ⟨hfree, hnode.trans (congrArg some (Except.ok.inj hstatus))⟩
    · contradiction

/-- They remove one alike. -/
theorem Twin.remove (ht : Twin root h place h' place') (hnames : ∀ n ∈ names, IsName n)
    (hu : h.Unlinked root place names) :
    SameOutcome (Onward root place place' h) (h.remove (root ++ names))
      (h'.remove (root ++ names)) := by
  rw [Host.remove, Host.remove]
  rcases List.eq_nil_or_concat names with rfl | ⟨front, name, rfl⟩
  · -- slashes at the end of the path do not lead on from the directory
    rw [List.append_nil, ht.left.found, ht.right.found]
    exact .error _
  · rw [List.concat_eq_append] at *
    have hname : name ≠ "" := (hnames name (by simp)).ne_empty
    have hlast : (root ++ (front ++ [name])).getLast? = some name := by
      rw [← List.append_assoc, List.getLast?_concat]
    have hpath : withoutSlash (root ++ (front ++ [name])) = root ++ (front ++ [name]) := by
      rw [← List.append_assoc, withoutSlash_concat _ hname]
    rw [hpath, hlast]
    refine (ht.find hnames hu false).bind ?_
    rintro ⟨location, node⟩ _ ⟨hstatus, hlink, rfl, rfl⟩
    obtain ⟨hfree, hnode⟩ := blocked?_of_status hstatus
    cases node with
    | link target => exact absurd rfl (hlink target)
    | directory => exact .error _
    | file data =>
      have hslash : ¬ some name = some "" := by simpa using hname
      dsimp only
      rw [if_neg hslash, if_neg hslash]
      exact .ok (ht.onward_edit none hnames hfree (.inr ⟨data, hnode⟩) (by simp))

/-! ## Reading -/

/-- The same is found by the same names. -/
theorem Twin.linkStatus (ht : Twin root h place h' place') (hnames : ∀ n ∈ names, IsName n)
    (hu : h.Unlinked root place names) :
    h.linkStatus (root ++ names) = h'.linkStatus (root ++ names) :=
  (ht.find hnames hu false).map_eq fun _ _ hshown => by rw [hshown.2.2.2]

/-- They read one alike. -/
theorem Twin.read (ht : Twin root h place h' place') (hnames : ∀ n ∈ names, IsName n)
    (hu : h.Unlinked root place names) : h.read (root ++ names) = h'.read (root ++ names) := by
  rw [Host.read, Host.read]
  refine ((ht.find hnames hu true).bind ?_).eq
  rintro ⟨location, node⟩ _ ⟨-, -, -, rfl⟩
  cases node <;> exact .refl _

/-- Listing a directory along the way gives its entries. -/
theorem Anchored.entries_of_readDirectory (ha : h.Anchored root place)
    (hnames : ∀ n ∈ names, IsName n) (hu : h.Unlinked root place names)
    {found : List (String × Node)} (hread : h.readDirectory (root ++ names) = .ok found) :
    found = h.entries (descend place names) := by
  rw [readDirectory, ha.find_of_unlinked hnames hu] at hread
  cases hstatus : h.status root place names with
  | error e =>
    rw [hstatus] at hread
    contradiction
  | ok node =>
    rw [hstatus] at hread
    cases node with
    | directory => exact (Except.ok.inj hread).symm
    | file data => contradiction
    | link target => contradiction

/-- Twins list a directory alike. -/
theorem Twin.readDirectory (ht : Twin root h place h' place') (hnames : ∀ n ∈ names, IsName n)
    (hu : h.Unlinked root place names) :
    h.readDirectory (root ++ names) = h'.readDirectory (root ++ names) := by
  have hentries : h.entries (descend place names) = h'.entries (descend place' names) := by
    refine entries_congr ht.left.wellFormed ht.right.wellFormed fun name hname => ?_
    rw [← Path.descend_concat, ← Path.descend_concat]
    exact ht.agree _ (Path.isName_concat hnames hname)
  rw [Host.readDirectory, Host.readDirectory]
  refine ((ht.find hnames hu true).bind ?_).eq
  rintro ⟨location, node⟩ _ ⟨-, -, rfl, rfl⟩
  cases node with
  | directory => exact .ok hentries
  | file data => exact .error _
  | link target => exact .error _

end Sandshell.Host
