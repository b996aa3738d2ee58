import Sandshell.Proofs.Guest.Reach

/-!
# Numbers of descriptors

The directory that a guest starts in has number 3. All other numbers are handed out in ascending
order from 4 on, and a number that is closed does not come back.
-/

namespace Sandshell

open Relation (ReflTransGen)

/-- The second is what the first may become while it is open: a file is moved in. -/
inductive Descriptor.Moves : Descriptor → Descriptor → Prop
  | refl (d : Descriptor) : Moves d d
  | seek (path : String) (offset offset' : Nat) (append : Bool) :
    Moves (.file path offset append) (.file path offset' append)

theorem Descriptor.Moves.trans {d d' d'' : Descriptor} (h : d.Moves d') (h' : d'.Moves d'') :
    d.Moves d'' := by
  cases h with
  | refl => exact h'
  | seek path offset offset' append =>
    cases h' with
    | refl => exact .seek path offset offset' append
    | seek _ _ offset'' _ => exact .seek path offset offset'' append

namespace DescriptorTable

variable {t t' t'' : DescriptorTable} {fd : Nat} {d : Descriptor}

/-- Number 3 stands for the root by its name, and all other numbers are among those that have been
handed out. -/
structure Numbered (t : DescriptorTable) : Prop where
  four_le_next : 4 ≤ t.next
  cases : ∀ fd d, t.get? fd = some d →
    fd = rootDescriptor ∧ d = .directory t.root "." ∨ 4 ≤ fd ∧ fd < t.next

/-- A later state of a table: numbers that were handed out are still used for the same or for
nothing. -/
structure Later (t t' : DescriptorTable) : Prop where
  next_le : t.next ≤ t'.next
  moves : ∀ fd d', fd < t.next → t'.get? fd = some d' → ∃ d, t.get? fd = some d ∧ d.Moves d'

theorem numbered_ofRoot (root : String) : (ofRoot root).Numbered where
  four_le_next := Nat.le_refl 4
  cases fd d h := by
    rw [get?, ofRoot, Std.ExtTreeMap.getElem?_insert] at h
    split at h
    · next heq =>
      rw [Std.compare_eq_iff_eq] at heq
      exact .inl ⟨heq.symm, (Option.some.inj h).symm⟩
    · simp at h

/-- A new descriptor has a number of its own. -/
theorem Numbered.added (h : t.Numbered) (d : Descriptor) : (t.added d).Numbered where
  four_le_next := Nat.le_succ_of_le h.four_le_next
  cases fd e he := by
    have hnext : (t.added d).next = t.next + 1 := rfl
    have hroot : (t.added d).root = t.root := rfl
    rw [get?_added] at he
    rw [hnext, hroot]
    split at he
    · next heq =>
      have hfour := h.four_le_next
      exact .inr ⟨by omega, by omega⟩
    · exact (h.cases fd e he).imp id fun hfd => ⟨hfd.1, by omega⟩

/-- No number is given twice, even if its descriptor is gone. -/
theorem Numbered.remove (h : t.Numbered) (fd : Nat) : (t.remove fd).Numbered where
  four_le_next := h.four_le_next
  cases n e he := by
    rw [get?_remove] at he
    split at he
    · cases he
    · exact h.cases n e he

/-- What is moved in is a file, and so not the root. -/
theorem Numbered.seek? {offset : Nat} (h : t.Numbered) (hok : t.seek? fd offset = some t') :
    t'.Numbered := by
  obtain ⟨path, old, append, hget, hnext, hroot, hget'⟩ := seek?_eq_some hok
  refine ⟨hnext ▸ h.four_le_next, fun n e he => ?_⟩
  rw [hget'] at he
  rw [hnext, hroot]
  split at he
  · next heq =>
    rcases h.cases fd _ hget with ⟨-, hfile⟩ | hfd
    · cases hfile
    · exact .inr (heq ▸ hfd)
  · exact h.cases n e he

/-- All numbers in use are below the next one. -/
theorem Numbered.lt_next (h : t.Numbered) (hget : t.get? fd = some d) : fd < t.next := by
  have hfour := h.four_le_next
  rcases h.cases fd d hget with ⟨rfl, -⟩ | ⟨-, hlt⟩
  · exact hfour
  · exact hlt

/-! ## What becomes of a table -/

theorem Later.refl (t : DescriptorTable) : t.Later t :=
  ⟨Nat.le_refl _, fun _ d' _ hget => ⟨d', hget, .refl d'⟩⟩

/-- A table later than a later one is later. -/
theorem Later.trans (h : t.Later t') (h' : t'.Later t'') : t.Later t'' where
  next_le := h.next_le.trans h'.next_le
  moves fd d'' hfd hget := by
    obtain ⟨d', hget', hmoves'⟩ := h'.moves fd d'' (hfd.trans_le h.next_le) hget
    obtain ⟨d, hget, hmoves⟩ := h.moves fd d' hfd hget'
    exact ⟨d, hget, hmoves.trans hmoves'⟩

/-- A table with one more descriptor is later than it was. -/
theorem later_added (t : DescriptorTable) (d : Descriptor) : t.Later (t.added d) where
  next_le := Nat.le_succ _
  moves fd e hfd hget := by
    rw [get?_added, if_neg (Nat.ne_of_lt hfd)] at hget
    exact ⟨e, hget, .refl e⟩

/-- So is one with a descriptor less. -/
theorem later_remove (t : DescriptorTable) (fd : Nat) : t.Later (t.remove fd) where
  next_le := Nat.le_refl _
  moves n e _ hget := by
    rw [get?_remove] at hget
    split at hget
    · cases hget
    · exact ⟨e, hget, .refl e⟩

/-- And one where an offset has moved. -/
theorem later_seek? {offset : Nat} (hok : t.seek? fd offset = some t') : t.Later t' := by
  obtain ⟨path, old, append, hget, hnext, -, hget'⟩ := seek?_eq_some hok
  refine ⟨Nat.le_of_eq hnext.symm, fun n e _ he => ?_⟩
  rw [hget'] at he
  split at he
  · next heq =>
    rw [← Option.some.inj he]
    exact ⟨_, heq ▸ hget, .seek path old offset append⟩
  · exact ⟨e, he, .refl e⟩

/-- A number that was handed out and stands for nothing stays without a meaning. -/
theorem Later.get?_eq_none (h : t.Later t') (hfd : fd < t.next) (hget : t.get? fd = none) :
    t'.get? fd = none := by
  cases hget' : t'.get? fd with
  | none => rfl
  | some d' =>
    obtain ⟨d, hd, -⟩ := h.moves fd d' hfd hget'
    rw [hget] at hd
    cases hd

end DescriptorTable

/-! ## Guests -/

namespace Guest

variable {files : FileSet} {r : GuestRequest} {g g' : Guest} {fd : UInt32}

/-- A change keeps the numbers in order. -/
theorem Change.numbered (h : Change g g') (hg : g.descriptors.Numbered) :
    g'.descriptors.Numbered := by
  cases h with
  | opened _ hok =>
    obtain ⟨-, -, rfl⟩ := DescriptorTable.insert_eq_ok hok
    exact hg.added _
  | moved hok => exact hg.seek? hok
  | closed fd => exact hg.remove fd
  | _ => exact hg

/-- A change makes the table later. -/
theorem Change.later (h : Change g g') : g.descriptors.Later g'.descriptors := by
  cases h with
  | opened _ hok =>
    obtain ⟨-, -, rfl⟩ := DescriptorTable.insert_eq_ok hok
    exact DescriptorTable.later_added _ _
  | moved hok => exact DescriptorTable.later_seek? hok
  | closed fd => exact DescriptorTable.later_remove _ fd
  | _ => exact .refl _

/-- And so do many of them. -/
theorem later_of_changes (h : ReflTransGen Change g g') : g.descriptors.Later g'.descriptors := by
  induction h with
  | refl => exact .refl _
  | tail _ hlast ih => exact ih.trans hlast.later

theorem Reached.numbered (h : Reached files r g) : g.descriptors.Numbered :=
  h.of_changes (fun _ _ _ => DescriptorTable.numbered_ofRoot r.cwd) fun _ _ hg hchange =>
    hchange.numbered hg

theorem Reachable.numbered {start : Guest} (h : Reachable start g) :
    g.descriptors.Numbered := by
  have hchanges := h.changes
  obtain ⟨r, surroundings, config, p, t, cwd, -, rfl⟩ := h.isStart
  clear h
  induction hchanges with
  | refl => exact DescriptorTable.numbered_ofRoot cwd
  | tail _ hlast ih => exact hlast.numbered ih

/-- The three streams are not in the table. -/
theorem not_isStream_of_numbered (h : g.descriptors.Numbered) {d : Descriptor}
    (hget : g.descriptors.get? fd.toNat = some d) : isStream fd = false := by
  have hthree : 3 ≤ fd.toNat := by
    rcases h.cases _ d hget with ⟨heq, -⟩ | ⟨hfour, -⟩
    · exact Nat.le_of_eq heq.symm
    · omega
  rw [isStream, decide_eq_false_iff_not]
  intro hle
  have htwo : fd.toNat ≤ 2 := UInt32.le_iff_toNat_le.1 hle
  omega

/-- What a guest has reached is later than where it started. -/
theorem Reached.later (h : Reached files r g) (hacts : ReflTransGen Act g g') :
    g.descriptors.Later g'.descriptors :=
  later_of_changes (h.changes hacts)

end Guest

end Sandshell
