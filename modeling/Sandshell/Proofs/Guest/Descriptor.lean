import Sandshell.Guest.Descriptor
import Sandshell.Proofs.Path.Below

/-!
# Where descriptors lead

All that a guest can name lies within the directory that it starts in: folding dots keeps paths
normal, and a path that leads out of the directory is refused.
-/

namespace Sandshell

open Sandshell.Path (IsNormal isWithin)

/-- The path that something open stands for. -/
def Descriptor.path : Descriptor → String
  | .directory path _ => path
  | .file path _ _ => path

namespace DescriptorTable

variable {t t' : DescriptorTable} {path text : String} {fd : Nat}

/-- Everything open stands for a normal path within the root. -/
structure Confined (t : DescriptorTable) : Prop where
  normal_root : IsNormal t.root
  normal : ∀ fd d, t.get? fd = some d → IsNormal d.path
  isWithin : ∀ fd d, t.get? fd = some d → isWithin t.root d.path

/-- A path that can be named through the table: that of an open file, or one to which an open
directory leads. -/
def Names (t : DescriptorTable) (path : String) : Prop :=
  (∃ fd offset append, t.get? fd = some (.file path offset append))
    ∨ ∃ fd text, t.resolve fd text = .ok path

/-- A new table has only its root, which is inside. -/
theorem confined_ofRoot {root : String} (h : IsNormal root) : (ofRoot root).Confined := by
  have hget : ∀ fd d, (ofRoot root).get? fd = some d → d.path = root := by
    intro fd d hd
    rw [get?, ofRoot, Std.ExtTreeMap.getElem?_insert] at hd
    split at hd
    · rw [← Option.some.inj hd]
      rfl
    · simp at hd
  exact ⟨h, fun fd d hd => hget fd d hd ▸ h, fun fd d hd => hget fd d hd ▸ Path.isWithin_self root⟩

/-- What a path resolves to is a normal path inside the root. -/
theorem Confined.resolve (h : t.Confined) (hok : t.resolve fd text = .ok path) :
    IsNormal path ∧ Path.isWithin t.root path := by
  rw [DescriptorTable.resolve] at hok
  split at hok
  · simp at hok
  · simp at hok
  · next base name hbase =>
    split at hok
    · simp at hok
    · next hstart =>
      simp only [Bool.or_eq_true, not_or, Bool.not_eq_true] at hstart
      split at hok
      · simp at hok
      · next names hnames =>
        -- a path that leads out of the root is refused, whatever its dots fold to
        dsimp only at hok
        split at hok
        · next hwithin =>
          obtain ⟨baseNames, hbaseNames, hbase'⟩ := Path.isNormal_iff.1 (h.normal _ _ hbase)
          rw [Descriptor.path] at hbase'
          rw [hbase', Path.filter_segments_ofSegments hbaseNames] at hnames
          obtain rfl := Except.ok.inj hok
          exact ⟨Path.isNormal_ofSegments
            (Path.isName_of_follow? hbaseNames (Path.segment_of_hasNul hstart.2) hnames), hwithin⟩
        · simp at hok

theorem Confined.names (h : t.Confined) (hpath : t.Names path) :
    IsNormal path ∧ Path.isWithin t.root path := by
  rcases hpath with ⟨fd, offset, append, hget⟩ | ⟨fd, text, hok⟩
  · have hnormal := h.normal fd _ hget
    have hwithin := h.isWithin fd _ hget
    exact ⟨hnormal, hwithin⟩
  · exact h.resolve hok

/-! ## Paths from an open directory -/

/-- A dot leads to the directory itself. -/
theorem Confined.resolve_dot (h : t.Confined) {base name : String}
    (hget : t.get? fd = some (.directory base name)) : t.resolve fd "." = .ok base := by
  have hnormal : IsNormal base := h.normal fd (.directory base name) hget
  have hwithin : Path.isWithin t.root base := h.isWithin fd (.directory base name) hget
  obtain ⟨names, hnames, rfl⟩ := Path.isNormal_iff.1 hnormal
  have hstart : (Path.isAbsolute "." || Path.hasNul ".") = false := by decide +kernel
  have hdot : Path.segments "." = ["."] := by decide +kernel
  rw [DescriptorTable.resolve, hget]
  dsimp only
  rw [hstart, Path.filter_segments_ofSegments hnames, hdot]
  exact if_pos hwithin

/-- Names lead to what they stand for below the directory. -/
theorem Confined.resolve_names (h : t.Confined) {base name : String} {names : List String}
    (hget : t.get? fd = some (.directory base name)) (hnames : ∀ n ∈ names, Path.IsName n)
    (hne : names ≠ []) :
    t.resolve fd (Path.ofSegments names) = .ok (Path.join base (Path.ofSegments names)) := by
  have hnormal : IsNormal base := h.normal fd (.directory base name) hget
  have hwithin : Path.isWithin t.root (Path.join base (Path.ofSegments names)) :=
    Path.isWithin_join (h.isWithin fd (.directory base name) hget) _
  have hstart : (Path.isAbsolute (Path.ofSegments names) || Path.hasNul (Path.ofSegments names))
      = false := by
    rw [Path.isAbsolute_ofSegments hnames, Path.hasNul_ofSegments hnames]
    rfl
  obtain ⟨start, hbase, hbase'⟩ := Path.isNormal_iff.1 hnormal
  have hjoin : Path.ofSegments (start ++ names) = Path.join base (Path.ofSegments names) := by
    by_cases hroot : start = []
    · rw [hbase', hroot, Path.ofSegments_nil, Path.join_empty, List.nil_append]
    · have hbase_ne : base ≠ "" := by
        intro hempty
        have hstart := Path.filter_segments_ofSegments hbase
        rw [← hbase', hempty] at hstart
        exact hroot hstart.symm
      rw [Path.ofSegments_append hroot hne, ← hbase', Path.join_of_ne hbase_ne]
  have hsegments : Path.segments (Path.ofSegments names) = names :=
    Path.segments_ofSegments hne fun n hn => (hnames n hn).no_slash
  rw [DescriptorTable.resolve, hget]
  dsimp only
  rw [hstart, hsegments, hbase', Path.filter_segments_ofSegments hbase, Path.follow?_names hnames,
    ← hbase']
  dsimp only
  rw [hjoin]
  exact if_pos hwithin

/-! ## The directory that a guest starts in -/

theorem get?_ofRoot (root : String) :
    (ofRoot root).get? rootDescriptor = some (.directory root ".") :=
  Std.ExtTreeMap.getElem?_insert_self

/-- The rest of a path below the directory leads to it. -/
theorem resolve_below {root rest : String} (hroot : root ≠ "")
    (h : IsNormal (root ++ "/" ++ rest)) :
    (ofRoot root).resolve rootDescriptor rest = .ok (root ++ "/" ++ rest) := by
  have hbelow := Path.below_append root rest
  have hpath := h.isName_segments hbelow.ne_empty
  rw [Path.segments_append] at hpath
  have hrest := (confined_ofRoot (hbelow.isNormal h)).resolve_names (get?_ofRoot root)
    (fun name hname => hpath name (List.mem_append_right _ hname)) (Path.segments_ne_nil rest)
  rwa [Path.ofSegments_segments, Path.join_of_ne hroot] at hrest

/-! ## Changing the table -/

/-- An entry that is put in is found at its number, and the others where they were. -/
theorem get?_insertEntry (t : DescriptorTable) (fd : Nat) (d : Descriptor) (next n : Nat) :
    ({ t with entries := t.entries.insert fd d, next } : DescriptorTable).get? n
      = if n = fd then some d else t.get? n := by
  rw [get?, Std.ExtTreeMap.getElem?_insert]
  refine if_congr ?_ rfl rfl
  rw [Std.compare_eq_iff_eq, eq_comm]

theorem get?_remove (t : DescriptorTable) (fd n : Nat) :
    (t.remove fd).get? n = if n = fd then none else t.get? n := by
  rw [get?, remove, Std.ExtTreeMap.getElem?_erase]
  refine if_congr ?_ rfl rfl
  rw [Std.compare_eq_iff_eq, eq_comm]

/-- The table with something more open, under the next number. -/
def added (t : DescriptorTable) (d : Descriptor) : DescriptorTable :=
  { t with entries := t.entries.insert t.next d, next := t.next + 1 }

theorem get?_added (t : DescriptorTable) (d : Descriptor) (n : Nat) :
    (t.added d).get? n = if n = t.next then some d else t.get? n :=
  get?_insertEntry t t.next d _ n

/-- Only a file is moved in. -/
theorem seek?_eq_some {offset : Nat} (h : t.seek? fd offset = some t') :
    ∃ path old append, t.get? fd = some (.file path old append)
      ∧ t'.next = t.next ∧ t'.root = t.root
      ∧ ∀ n, t'.get? n = if n = fd then some (.file path offset append) else t.get? n := by
  rw [seek?] at h
  split at h
  · next path old append hget =>
    rw [← Option.some.inj h]
    exact ⟨path, old, append, hget, rfl, rfl, fun n => get?_insertEntry t fd _ t.next n⟩
  · cases h

open scoped Arithmetic in
/-- As long as there are numbers left, the next one is taken. -/
theorem insert_of_lt (h : t.next + 1 < 2 ^ (32 : Nat)) (d : Descriptor) :
    t.insert d = .ok (t.next, t.added d) :=
  if_pos h

open scoped Arithmetic in
/-- A descriptor that is put in takes the next number, and only that. -/
theorem insert_eq_ok {d : Descriptor} {number : Nat} (h : t.insert d = .ok (number, t')) :
    t.next + 1 < 2 ^ (32 : Nat) ∧ number = t.next ∧ t' = t.added d := by
  rw [insert] at h
  split at h
  · next hroom =>
    cases h
    exact ⟨hroom, rfl, rfl⟩
  · cases h

/-- A table that gains an entry for a path that could be named already. -/
theorem Confined.insertEntry (h : t.Confined) {d : Descriptor} {next : Nat}
    (hd : t.Names d.path) :
    ({ t with entries := t.entries.insert fd d, next } : DescriptorTable).Confined := by
  have hget : ∀ n e, ({ t with entries := t.entries.insert fd d, next } : DescriptorTable).get? n
      = some e → e = d ∨ t.get? n = some e := by
    intro n e he
    rw [get?_insertEntry] at he
    split at he
    · exact .inl (Option.some.inj he).symm
    · exact .inr he
  obtain ⟨hnormal, hwithin⟩ := h.names hd
  refine ⟨h.normal_root, fun n e he => ?_, fun n e he => ?_⟩
  · rcases hget n e he with rfl | he
    · exact hnormal
    · exact h.normal n e he
  · rcases hget n e he with rfl | he
    · exact hwithin
    · exact h.isWithin n e he

/-- A table stays inside its root with a descriptor that names something inside. -/
theorem Confined.insert (h : t.Confined) {d : Descriptor} {number : Nat} (hd : t.Names d.path)
    (hok : t.insert d = .ok (number, t')) : t'.Confined ∧ t'.root = t.root := by
  obtain ⟨-, -, rfl⟩ := insert_eq_ok hok
  exact ⟨h.insertEntry hd, rfl⟩

/-- Moving the offset of a file leads nowhere else. -/
theorem Confined.seek? (h : t.Confined) {offset : Nat} (hok : t.seek? fd offset = some t') :
    t'.Confined ∧ t'.root = t.root := by
  rw [DescriptorTable.seek?] at hok
  split at hok
  · next path old append hget =>
    rw [← Option.some.inj hok]
    exact ⟨h.insertEntry (.inl ⟨fd, old, append, hget⟩), rfl⟩
  · simp at hok

/-- Nor does taking a descriptor away. -/
theorem Confined.remove (h : t.Confined) : (t.remove fd).Confined := by
  have hget : ∀ n e, (t.remove fd).get? n = some e → t.get? n = some e := by
    intro n e he
    rw [get?_remove] at he
    split at he
    · cases he
    · exact he
  exact ⟨h.normal_root, fun n e he => h.normal n e (hget n e he),
    fun n e he => h.isWithin n e (hget n e he)⟩

end DescriptorTable

end Sandshell
