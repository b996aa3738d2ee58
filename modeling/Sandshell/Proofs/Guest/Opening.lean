import Sandshell.Proofs.Guest.Buffers
import Sandshell.Proofs.Guest.Numbering

/-!
# Opening, all or nothing

A call that opens a path checks its arguments, the flags and the place for the number before it makes
or empties a file. So it either changes nothing at all, or it hands out a number that no descriptor
ever had, and changes no file but the one at the path.
-/

namespace Sandshell

open Relation (ReflTransGen)
open Sandshell.Guest (openEntry)
open Sandshell.Path (Below)

namespace Tree

variable {t t' : Tree} {path : String} {truncate : Bool}

/-- The files after a path has been opened in a tree. -/
structure Opened (t : Tree) (path : String) (truncate : Bool) (t' : Tree) : Prop where
  directory : t.kind? path = some .directory → t' = t
  created : t.kind? path = none → t'.files[path]? = some []
  emptied : path ∈ t.files → truncate → t'.files[path]? = some []
  kept : path ∈ t.files → truncate = false → t'.files[path]? = t.files[path]?
  others : ∀ p, p ≠ path → t'.files[p]? = t.files[p]?
  recorded : t'.directories = t.directories
  isDirectory_eq : ∀ p, t'.isDirectory p = t.isDirectory p

/-- A tree in which only the path could have been made or emptied, as asked for. -/
theorem opened_insert (hcreated : t.kind? path = none ∨ path ∈ t.files ∧ truncate)
    (hbelow : ∀ p, Below p path → t.isDirectory p) :
    t.Opened path truncate { t with files := t.files.insert path [] } where
  directory h := by
    rcases hcreated with hnone | ⟨hmem, -⟩
    · rw [hnone] at h
      contradiction
    · rw [kind?_of_mem hmem] at h
      contradiction
  created _ := Std.ExtTreeMap.getElem?_insert_self
  emptied _ _ := Std.ExtTreeMap.getElem?_insert_self
  kept hmem hkept := by
    rcases hcreated with hnone | ⟨-, htruncate⟩
    · rw [kind?_of_mem hmem] at hnone
      contradiction
    · rw [hkept] at htruncate
      contradiction
  others p hp := by
    rw [Std.ExtTreeMap.getElem?_insert, if_neg fun heq => hp (Std.compare_eq_iff_eq.1 heq).symm]
  recorded := rfl
  isDirectory_eq p := by
    rw [Bool.eq_iff_iff, isDirectory_insertFile]
    exact or_iff_left_of_imp (hbelow p)

/-- A tree that is left alone. -/
theorem opened_self (hkind : t.kind? path = some .directory ∨ path ∈ t.files ∧ truncate = false) :
    t.Opened path truncate t where
  directory _ := rfl
  created h := by
    rcases hkind with hdirectory | ⟨hmem, -⟩
    · rw [h] at hdirectory
      contradiction
    · rw [kind?_of_mem hmem] at h
      contradiction
  emptied hmem htruncate := by
    rcases hkind with hdirectory | ⟨-, hkept⟩
    · rw [kind?_of_mem hmem] at hdirectory
      contradiction
    · rw [hkept] at htruncate
      contradiction
  kept _ _ := rfl
  others _ _ := rfl
  recorded := rfl
  isDirectory_eq _ := rfl

end Tree

namespace Guest

variable {start g g' : Guest}

/-- What a path is opened as: a directory, or a file at its start. -/
def opening (t : Tree) (path : String) (append : Bool) : Descriptor :=
  if t.kind? path = some .directory then .directory path path else .file path 0 append

/-- What is opened is a descriptor of the path, and at most this path is new or empty afterwards. -/
theorem opened_of_openEntry {t t' : Tree} {path : String} {flags : OpenFlags} {append : Bool}
    {d : Descriptor} (h : openEntry t path flags append = .ok (d, t')) :
    d = opening t path append ∧ t.Opened path flags.truncate t' := by
  rw [openEntry] at h
  split at h
  · next kind hkind =>
    split at h
    · contradiction
    cases kind with
    | directory =>
      dsimp only at h
      split at h
      · contradiction
      · obtain ⟨rfl, rfl⟩ := Prod.mk.inj (Except.ok.inj h)
        exact ⟨(if_pos hkind).symm, Tree.opened_self (.inl hkind)⟩
    | file =>
      dsimp only at h
      split at h
      · contradiction
      obtain ⟨rfl, rfl⟩ := Prod.mk.inj (Except.ok.inj h)
      have hmem := Tree.mem_of_kind? hkind
      refine ⟨(if_neg (by simp [hkind])).symm, ?_⟩
      cases htruncate : flags.truncate with
      | false => exact Tree.opened_self (.inr ⟨hmem, rfl⟩)
      | true =>
        rw [if_pos rfl, Tree.setFile_of_mem hmem]
        exact Tree.opened_insert (.inr ⟨hmem, rfl⟩) fun p hbelow =>
          Tree.isDirectory_of_below_key (.inl hmem) hbelow
  -- a new file: directories above it are there, since its parent is
  · next hnone =>
    split_ifs at h
    cases hcreate : t.createFile path with
    | error e =>
      rw [hcreate] at h
      contradiction
    | ok u =>
      rw [hcreate] at h
      obtain ⟨rfl, rfl⟩ := Prod.mk.inj (Except.ok.inj h)
      refine ⟨(if_neg (by simp [hnone])).symm, ?_⟩
      have hparent := Tree.isDirectory_parent_of_createFile hcreate
      rw [Tree.of_createFile hcreate]
      refine Tree.opened_insert (.inl hnone) fun p hbelow => ?_
      rcases hbelow.parent with heq | habove
      · rwa [← heq]
      · exact Tree.isDirectory_of_below hparent habove

open GuestMemory (Covers)

/-- A guest after it opened a path: the next number stands for it, and is stored. -/
structure Opened (g : Guest) (path : String) (truncate append : Bool) (address : Nat)
    (g' : Guest) : Prop where
  files : g.files.Opened path truncate g'.files
  stands : g'.descriptors.get? g.descriptors.next = some (opening g.files path append)
  others : ∀ n, n ≠ g.descriptors.next → g'.descriptors.get? n = g.descriptors.get? n
  next_eq : g'.descriptors.next = g.descriptors.next + 1
  stored : (g'.memory.area address 4).toNumber = g.descriptors.next
  byte_eq : ∀ a, ¬ Covers address 4 a → g'.memory.byte a = g.memory.byte a
  rest : g' = { g with files := g'.files, descriptors := g'.descriptors, memory := g'.memory }

/-- As long as there is a number left, opening succeeds as a whole or leaves the guest alone. -/
theorem pathOpen_ok_or_error (hroom : g.descriptors.next + 1 < 2 ^ 32)
    (fd path length openFlags fdFlags address : UInt32) :
    (∃ e, pathOpen fd path length openFlags fdFlags address g = (.error e, g))
      ∨ ∃ resolved flags g', pathOpen fd path length openFlags fdFlags address g = (.ok (), g')
        ∧ g.target fd path length = .ok resolved ∧ OpenFlags.ofBits? openFlags = some flags
        ∧ g.Opened resolved flags.truncate (fdFlags.toNat.testBit 0) address.toNat g' := by
  rcases pathOpen_cases g fd path length openFlags fdFlags address
    with herror | ⟨hholds, resolved, flags, htarget, hflags, hfdFlags⟩
  · exact .inl herror
  have happly := pathOpen_apply hholds htarget hflags hfdFlags
  cases hentry : openEntry g.files resolved flags (fdFlags.toNat.testBit 0) with
  | error e =>
    rw [hentry] at happly
    exact .inl ⟨e, happly⟩
  | ok opened =>
    obtain ⟨d, files⟩ := opened
    rw [hentry] at happly
    dsimp only at happly
    -- the files have changed by now, and nothing fails any more
    rw [DescriptorTable.insert_of_lt hroom] at happly
    obtain ⟨rfl, hopened⟩ := opened_of_openEntry hentry
    have hnumber : g.descriptors.next < 256 ^ 4 := by omega
    refine .inr ⟨resolved, flags, _, happly, htarget, hflags, hopened, ?_, fun n hn => ?_, rfl,
      GuestMemory.toNumber_area_store _ _ hnumber, fun a ha => ?_, rfl⟩
    · exact (DescriptorTable.get?_added _ _ _).trans (if_pos rfl)
    · exact (DescriptorTable.get?_added _ _ _).trans (if_neg hn)
    · exact GuestMemory.byte_store_of_not_covers (by rwa [Bytes.length_littleEndian])

/-- The next number has never stood for anything in a run so far. -/
theorem Reachable.get?_next_eq_none (h : Reachable start g) {g₀ : Guest}
    (h₀ : ReflTransGen Act start g₀) (hacts : ReflTransGen Act g₀ g) :
    g₀.descriptors.get? g.descriptors.next = none := by
  have hearlier := h.before h₀
  cases hget : g₀.descriptors.get? g.descriptors.next with
  | none => rfl
  | some d =>
    have hlt := hearlier.numbered.lt_next hget
    have hconfined := (kept_of_changes hearlier.changes h.confined_start).confined
    have hle := (later_of_changes (changes_of_acts hacts hconfined)).next_le
    omega

/-- A call that opens a path, as long as numbers are left: unless it succeeds, the guest is left
exactly as it was. If it does, the number that it stores was never used in the run, and stands for
the place that the path leads to; a file that was made or opened to be emptied is empty, a file that
was there and not to be emptied is as it was, and so is all that stands elsewhere. -/
theorem Reachable.pathOpen_all_or_nothing (h : Reachable start g)
    (hroom : g.descriptors.next + 1 < 2 ^ 32) (exportsMemory : Bool)
    (fd path length openFlags fdFlags address : UInt32) {result : Except Ending Nat}
    (hrun : ((SystemCall.pathOpen fd path length openFlags fdFlags address).run
      exportsMemory).run g = (result, g')) :
    (result ≠ .ok 0 → g' = g)
      ∧ (result = .ok 0 →
        (∀ g₀, ReflTransGen Act start g₀ → ReflTransGen Act g₀ g →
          g₀.descriptors.get? g.descriptors.next = none)
        ∧ ∃ resolved flags, g.target fd path length = .ok resolved
          ∧ OpenFlags.ofBits? openFlags = some flags
          ∧ g.Opened resolved flags.truncate (fdFlags.toNat.testBit 0) address.toNat g') := by
  have hanswer := pathOpen_ok_or_error hroom fd path length openFlags fdFlags address
  constructor
  · intro hresult
    rcases SystemCall.of_run_ne_zero hrun hresult with rfl | ⟨e, herror⟩
    · rfl
    · rcases hanswer with ⟨e', hsame⟩ | ⟨_, _, after, hok, -⟩
      · exact congrArg Prod.snd (herror.symm.trans (PanicM.liftM_apply_error hsame))
      · cases herror.symm.trans (PanicM.liftM_apply_ok hok)
  · rintro rfl
    refine ⟨fun g₀ h₀ hacts => h.get?_next_eq_none h₀ hacts, ?_⟩
    have hok : pathOpen fd path length openFlags fdFlags address g = (.ok (), g') :=
      PanicM.of_liftM_apply_eq_ok (SystemCall.answer_of_run hrun)
    rcases hanswer with ⟨e, herror⟩ | ⟨resolved, flags, after, hafter, htarget, hflags, hopened⟩
    · cases herror.symm.trans hok
    · obtain rfl : after = g' := congrArg Prod.snd (hafter.symm.trans hok)
      exact ⟨resolved, flags, htarget, hflags, hopened⟩

/-- A file that holds a byte. -/
def oneByte : FileSet :=
  (∅ : FileSet).insert "f" [97]

/-- Opened to be emptied, it is empty under the next number. -/
theorem pathOpen_all_or_nothing_oneByte : (∃ start, Reachable start (startWith oneByte "f"))
    ∧ (startWith oneByte "f").descriptors.next + 1 < 2 ^ 32
    ∧ ∃ g', ((SystemCall.pathOpen 3 0 1 8 0 16).run true).run (startWith oneByte "f") = (.ok 0, g')
      ∧ g'.files.files["f"]? = some [] ∧ g'.descriptors.get? 4 = some (.file "f" 0 false) := by
  obtain ⟨start, hreachable⟩ := reachable_startWith oneByte "f"
  have hroom : (startWith oneByte "f").descriptors.next + 1 < 2 ^ 32 := by decide
  have hzero : (((SystemCall.pathOpen 3 0 1 8 0 16).run true).run (startWith oneByte "f")).1
      = .ok 0 := by decide +kernel
  have hrun : ((SystemCall.pathOpen 3 0 1 8 0 16).run true).run (startWith oneByte "f")
      = (.ok 0, (((SystemCall.pathOpen 3 0 1 8 0 16).run true).run (startWith oneByte "f")).2) :=
    Prod.ext hzero rfl
  refine ⟨⟨start, hreachable⟩, hroom, _, hrun, ?_⟩
  obtain ⟨-, resolved, flags, htarget, hflags, hopened⟩ :=
    (hreachable.pathOpen_all_or_nothing hroom true 3 0 1 8 0 16 hrun).2 rfl
  have hpath : (startWith oneByte "f").target 3 0 1 = .ok "f" := by decide +kernel
  obtain rfl := Except.ok.inj (hpath.symm.trans htarget)
  have hbits : OpenFlags.ofBits? 8 = some ⟨false, false, false, true⟩ := by decide
  obtain rfl := Option.some.inj (hbits.symm.trans hflags)
  have hmem : "f" ∈ (startWith oneByte "f").files.files := by decide +kernel
  have hstands : opening (startWith oneByte "f").files "f" false = .file "f" 0 false := by
    decide +kernel
  exact ⟨hopened.files.emptied hmem rfl, hopened.stands.trans (congrArg some hstands)⟩

end Guest

end Sandshell
