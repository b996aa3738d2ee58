import Mathlib.Logic.Relation
import Sandshell.Guest.SystemCall
import Sandshell.Proofs.Guest.Files

/-!
# What system calls change

Whatever a guest does, it takes steps of a few kinds: it writes to its memory, takes input and gives
output, draws random bytes, changes its files at a path that it can name, and opens, moves in and
closes descriptors. What all of them keep, every run keeps.
-/

namespace Sandshell.Guest

open Sandshell.Path (IsNormal isWithin)
open Relation (ReflTransGen)

/-- One change that a system call may make. -/
inductive Change (g : Guest) : Guest → Prop
  | memory (m : GuestMemory) : Change g { g with memory := m }
  | input (n : Nat) : Change g { g with stdin := g.stdin.drop n }
  | output (data : Bytes) : Change g { g with stdout := g.stdout.write data }
  | errors (data : Bytes) : Change g { g with stderr := g.stderr.write data }
  | draw (drawn : Nat) : Change g { g with drawn }
  | edit {path : String} {files : Tree} (hpath : g.descriptors.Names path)
    (h : Tree.Edit path g.files files) : Change g { g with files }
  | opened {d : Descriptor} {number : Nat} {descriptors : DescriptorTable}
    (hpath : g.descriptors.Names d.path) (h : g.descriptors.insert d = .ok (number, descriptors)) :
    Change g { g with descriptors }
  | moved {fd offset : Nat} {descriptors : DescriptorTable}
    (h : g.descriptors.seek? fd offset = some descriptors) : Change g { g with descriptors }
  | closed (fd : Nat) : Change g { g with descriptors := g.descriptors.remove fd }

variable {g g' : Guest} {p : String}

/-- The table stays confined to the same root. -/
theorem Change.confined (h : Change g g') (hg : g.descriptors.Confined) :
    g'.descriptors.Confined ∧ g'.descriptors.root = g.descriptors.root := by
  cases h with
  | opened hpath hok => exact hg.insert hpath hok
  | moved hok => exact hg.seek? hok
  | closed fd => exact ⟨hg.remove, rfl⟩
  | _ => exact ⟨hg, rfl⟩

/-- Files stay well formed. -/
theorem Change.wellFormed (h : Change g g') (hg : g.descriptors.Confined)
    (hfiles : g.files.WellFormed) : g'.files.WellFormed := by
  cases h with
  | edit hpath hedit => exact hfiles.edit (hg.names hpath).1 hedit
  | _ => exact hfiles

/-- Paths of files stay normal, also where a file stands above the root. -/
theorem Change.normal (h : Change g g') (hg : g.descriptors.Confined)
    (hfiles : ∀ p ∈ g.files.files, IsNormal p) : ∀ p ∈ g'.files.files, IsNormal p := by
  cases h with
  | @edit path _ hpath hedit =>
    intro p hp
    by_cases heq : p = path
    · exact heq ▸ (hg.names hpath).1
    · exact hfiles p ((hedit.mem_files_of_ne heq).1 hp)
  | _ => exact hfiles

/-- Files that are not within the root stay as they are. -/
theorem Change.getElem?_of_not_isWithin (h : Change g g') (hg : g.descriptors.Confined)
    (hp : ¬ isWithin g.descriptors.root p) : g'.files.files[p]? = g.files.files[p]? := by
  cases h with
  | edit hpath hedit =>
    apply hedit.getElem?_of_ne
    rintro rfl
    exact hp (hg.names hpath).2
  | _ => rfl

/-- A guest stays where it works, on a snapshot or on the host. -/
theorem Change.mounted_eq (h : Change g g') : g'.mounted = g.mounted := by
  cases h <;> rfl

/-! ## Runs of changes -/

/-- What changes keep of a guest with a confined table: this and the root, where the guest works,
normal and well-formed files, and the files that are not within the root. -/
structure Kept (g g' : Guest) : Prop where
  confined : g'.descriptors.Confined
  root_eq : g'.descriptors.root = g.descriptors.root
  mounted_eq : g'.mounted = g.mounted
  normal : (∀ p ∈ g.files.files, IsNormal p) → ∀ p ∈ g'.files.files, IsNormal p
  wellFormed : g.files.WellFormed → g'.files.WellFormed
  getElem?_eq : ∀ p, ¬ isWithin g.descriptors.root p → g'.files.files[p]? = g.files.files[p]?

/-- By induction on the number of changes. -/
theorem kept_of_changes (h : ReflTransGen Change g g') (hg : g.descriptors.Confined) :
    Kept g g' := by
  induction h with
  | refl => exact ⟨hg, rfl, rfl, id, id, fun _ _ => rfl⟩
  -- the root that a change is confined to is still the first one
  | tail _ hchange ih =>
    obtain ⟨hconfined, hroot⟩ := hchange.confined ih.confined
    refine ⟨hconfined, hroot.trans ih.root_eq, hchange.mounted_eq.trans ih.mounted_eq,
      fun hfiles => hchange.normal ih.confined (ih.normal hfiles),
      fun hfiles => hchange.wellFormed ih.confined (ih.wellFormed hfiles), fun p hp => ?_⟩
    rw [hchange.getElem?_of_not_isWithin ih.confined (ih.root_eq.symm ▸ hp), ih.getElem?_eq p hp]

end Sandshell.Guest
