import Sandshell.Proofs.Path.Descent
import Sandshell.Workspace.Host

/-!
# Host trees

A host tree is well formed if its locations are normal and everything in it stands in a directory.
It stays so when something is put into a directory, or taken out of it, that is no directory itself.
-/

namespace Sandshell

namespace Host

open Sandshell.Path (IsName IsNormal descend join)

variable {h h' : Host} {place name p : String} {names rest : List String} {node : Node}

/-- Every node has a normal location other than the root, and stands in a directory. -/
structure WellFormed (h : Host) : Prop where
  normal : ∀ p ∈ h.nodes, IsNormal p
  ne_root : ∀ p ∈ h.nodes, p ≠ ""
  parent : ∀ p ∈ h.nodes, h.node? (Path.parent p) = some .directory

@[simp] theorem node?_root (h : Host) : h.node? "" = some .directory :=
  if_pos rfl

theorem node?_of_ne (hp : p ≠ "") : h.node? p = h.nodes[p]? :=
  if_neg hp

theorem mem_nodes_iff (hp : p ≠ "") : p ∈ h.nodes ↔ ∃ node, h.node? p = some node := by
  rw [node?_of_ne hp, Std.ExtTreeMap.mem_iff_isSome_getElem?, Option.isSome_iff_exists]

/-- All places of a well-formed host have normal paths. -/
theorem WellFormed.isNormal (hh : h.WellFormed) (hnode : h.node? p = some node) : IsNormal p := by
  by_cases hp : p = ""
  · exact hp ▸ Path.isNormal_empty
  · exact hh.normal p ((mem_nodes_iff hp).2 ⟨node, hnode⟩)

/-- What stands anywhere stands in a directory. -/
theorem WellFormed.directory_of_join (hh : h.WellFormed) (hname : IsName name)
    (hnode : h.node? (join place name) = some node) : h.node? place = some .directory := by
  have hne : join place name ≠ "" := Path.join_ne_empty hname.ne_empty
  have hparent := hh.parent _ ((mem_nodes_iff hne).2 ⟨node, hnode⟩)
  rwa [Path.parent_join hname.no_slash] at hparent

/-- What stands further down stands in directories. -/
theorem WellFormed.directory_of_descend (hh : h.WellFormed) (hnames : ∀ name ∈ names, IsName name)
    (hne : names ≠ []) (hnode : h.node? (descend place names) = some node) :
    h.node? place = some .directory := by
  induction names using List.reverseRecOn generalizing node with
  | nil => contradiction
  | append_singleton front last ih =>
    rw [Path.descend_concat] at hnode
    have hfront := hh.directory_of_join (hnames last (by simp)) hnode
    by_cases hnil : front = []
    · rwa [hnil, Path.descend_nil] at hfront
    · exact ih (fun n hn => hnames n (List.mem_append_left _ hn)) hnil hfront

/-- What something lies below is a directory. -/
theorem WellFormed.directory_of_below {p : String} (hh : h.WellFormed) (hp : p ∈ h.nodes)
    (hbelow : Path.Below place p) : h.node? place = some .directory := by
  have hparent := hh.parent p hp
  rcases hbelow.parent with heq | hup
  · rwa [heq] at hparent
  · have hin := (mem_nodes_iff hup.ne_empty).2 ⟨_, hparent⟩
    exact hh.directory_of_below hin hup
termination_by p.toList.length
decreasing_by
  rcases Path.no_slash_or_below_parent p with hslash | hshorter
  · exact absurd (Path.parent_of_no_slash hslash) hup.ne_empty
  · exact hshorter.length_lt

/-! ## Edits -/

/-- The host with something else, or nothing, at a location. -/
def edit (h : Host) (p : String) : Option Node → Host
  | some node => ⟨h.nodes.insert p node⟩
  | none => ⟨h.nodes.erase p⟩

/-- An edit changes what stands at its place only. -/
theorem node?_edit (hp : p ≠ "") (new? : Option Node) (q : String) :
    (h.edit p new?).node? q = if q = p then new? else h.node? q := by
  by_cases hq : q = ""
  · subst hq
    rw [node?_root, node?_root, if_neg hp.symm]
  · rw [node?_of_ne hq, node?_of_ne hq]
    have hcompare : compare p q = .eq ↔ q = p := Std.compare_eq_iff_eq.trans eq_comm
    cases new? with
    | none => simp only [edit, Std.ExtTreeMap.getElem?_erase, hcompare]
    | some node => simp only [edit, Std.ExtTreeMap.getElem?_insert, hcompare]

/-- What can be changed by its name in a directory: nothing else depends on it, and it is no link
before or after. -/
structure Editable (h : Host) (place name : String) (new? : Option Node) : Prop where
  isName : IsName name
  parent : h.node? place = some .directory
  old : h.node? (join place name) = none ∨ ∃ data, h.node? (join place name) = some (.file data)
  new : ∀ target, new? ≠ some (.link target)

/-- A host stays well-formed where it may be edited. -/
theorem WellFormed.edit {new? : Option Node} (hh : h.WellFormed)
    (hedit : h.Editable place name new?) : (h.edit (join place name) new?).WellFormed := by
  have hne : join place name ≠ "" := Path.join_ne_empty hedit.isName.ne_empty
  -- no directory is lost, as there was none at the location
  have hkeep : ∀ q, h.node? q = some .directory
      → (h.edit (join place name) new?).node? q = some .directory := by
    intro q hq
    rw [node?_edit hne, if_neg, hq]
    rintro rfl
    rcases hedit.old with hold | ⟨data, hold⟩ <;> simp [hold] at hq
  have hmem : ∀ q ∈ (h.edit (join place name) new?).nodes, q = join place name ∨ q ∈ h.nodes := by
    intro q hq
    cases new? with
    | none => exact .inr (Std.ExtTreeMap.mem_of_mem_erase hq)
    | some node =>
      rcases Std.ExtTreeMap.mem_insert.1 hq with heq | hq
      · exact .inl (Std.compare_eq_iff_eq.1 heq).symm
      · exact .inr hq
  constructor
  · intro q hq
    rcases hmem q hq with rfl | hq
    · exact Path.isNormal_join (hh.isNormal hedit.parent) hedit.isName
    · exact hh.normal q hq
  · intro q hq
    rcases hmem q hq with rfl | hq
    · exact hne
    · exact hh.ne_root q hq
  · intro q hq
    apply hkeep
    rcases hmem q hq with rfl | hq
    · rw [Path.parent_join hedit.isName.no_slash]
      exact hedit.parent
    · exact hh.parent q hq

/-! ## Entries -/

/-- The entries of a directory by name. -/
def entries (h : Host) (place : String) : List (String × Node) :=
  h.nodes.toList.filterMap fun (key, node) =>
    if Path.parent key = place then some ((Path.split key).2, node) else none

/-- What a directory holds is a name in it. -/
theorem WellFormed.eq_join_of_parent {key : String} (hh : h.WellFormed) (hkey : key ∈ h.nodes)
    (hparent : Path.parent key = place) :
    IsName (Path.split key).2 ∧ key = join place (Path.split key).2 := by
  obtain ⟨d, name, hname, rfl⟩ := Path.exists_eq_join (hh.normal key hkey) (hh.ne_root key hkey)
  rw [Path.parent_join hname.no_slash] at hparent
  rw [Path.split_join hname.no_slash, hparent]
  exact ⟨hname, rfl⟩

theorem mem_nodes_of_mem_toList {entry : String × Node} (hentry : entry ∈ h.nodes.toList) :
    entry.1 ∈ h.nodes := by
  rw [Std.ExtTreeMap.mem_iff_isSome_getElem?,
    Std.ExtTreeMap.mem_toList_iff_getElem?_eq_some.1 hentry]
  rfl

/-- A directory has the entries that stand one name below. -/
theorem mem_entries_iff (hh : h.WellFormed) :
    (name, node) ∈ h.entries place ↔ IsName name ∧ h.node? (join place name) = some node := by
  rw [entries, List.mem_filterMap]
  constructor
  · rintro ⟨⟨key, node'⟩, hmem, hkey⟩
    dsimp only at hkey
    split at hkey
    · next hparent =>
      cases hkey
      have hin := mem_nodes_of_mem_toList hmem
      obtain ⟨hname, heq⟩ := hh.eq_join_of_parent hin hparent
      refine ⟨hname, ?_⟩
      rw [← heq, node?_of_ne (hh.ne_root key hin)]
      exact Std.ExtTreeMap.mem_toList_iff_getElem?_eq_some.1 hmem
    · contradiction
  · rintro ⟨hname, hnode⟩
    refine ⟨(join place name, node), ?_, ?_⟩
    · rw [Std.ExtTreeMap.mem_toList_iff_getElem?_eq_some]
      rwa [← node?_of_ne (Path.join_ne_empty hname.ne_empty)]
    · dsimp only
      rw [if_pos (Path.parent_join hname.no_slash place), Path.split_join hname.no_slash]

/-- They are in order, each once. -/
theorem pairwise_entries (hh : h.WellFormed) (place : String) :
    (h.entries place).Pairwise fun a b => a.1 < b.1 := by
  have hkeys := List.Pairwise.and_mem.1 (Std.ExtTreeMap.ordered_keys_toList (t := h.nodes))
  refine hkeys.filterMap _ ?_
  rintro ⟨key, node⟩ ⟨key', node'⟩ ⟨hmem, hmem', hlt⟩ entry hentry entry' hentry'
  dsimp only at hentry hentry'
  split at hentry
  · split at hentry'
    · next hparent hparent' =>
      cases hentry
      cases hentry'
      have heq := (hh.eq_join_of_parent (mem_nodes_of_mem_toList hmem) hparent).2
      have heq' := (hh.eq_join_of_parent (mem_nodes_of_mem_toList hmem') hparent').2
      rw [compare_lt_iff_lt, heq, heq'] at hlt
      exact (Path.strictMono_join place).lt_iff_lt.1 hlt
    · contradiction
  · contradiction

/-- A directory has the same entries as another one where the same things have the same names. -/
theorem entries_congr {place' : String} (hh : h.WellFormed) (hh' : h'.WellFormed)
    (hsame : ∀ name, IsName name → h.node? (join place name) = h'.node? (join place' name)) :
    h.entries place = h'.entries place' := by
  have hsorted := pairwise_entries hh place
  have hsorted' := pairwise_entries hh' place'
  have hperm : (h.entries place).Perm (h'.entries place') := by
    rw [List.perm_ext_iff_of_nodup (hsorted.imp fun hlt => ?_) (hsorted'.imp fun hlt => ?_)]
    · rintro ⟨name, node⟩
      rw [mem_entries_iff hh, mem_entries_iff hh']
      exact and_congr_right fun hname => by rw [hsame name hname]
    all_goals
      rintro rfl
      exact lt_irrefl _ hlt
  refine hperm.eq_of_pairwise (fun a b _ _ hab hba => absurd (hab.trans hba) (lt_irrefl _))
    hsorted hsorted'

end Host

end Sandshell
