import Sandshell.Proofs.Guest.Buffers
import Sandshell.Proofs.Guest.Numbering

/-!
# Offsets in open files

Reading, writing and moving as functions of a guest. On a snapshot of files that are shorter than
2^64 bytes no guest gets a longer file, or past the last offset of 64 bits.
-/

namespace Sandshell

open Relation (ReflTransGen)

namespace DescriptorTable

variable {t : DescriptorTable} {fd : Nat} {path : String} {old : Nat} {append : Bool}

/-- The table after moving in an open file; any other descriptor stays as it is. -/
def moved (t : DescriptorTable) (fd offset : Nat) : DescriptorTable :=
  (t.seek? fd offset).getD t

/-- Moving the offset of one descriptor moves no other. -/
theorem get?_moved (h : t.get? fd = some (.file path old append)) (offset n : Nat) :
    (t.moved fd offset).get? n = if n = fd then some (.file path offset append) else t.get? n := by
  have hseek : t.seek? fd offset
      = some { t with entries := t.entries.insert fd (.file path offset append) } := by
    rw [seek?, h]
  rw [moved, hseek]
  exact get?_insertEntry t fd _ t.next n

/-- Moving changes no more than the offset of an open file. -/
theorem of_get?_moved {offset n : Nat} {d : Descriptor} (h : (t.moved fd offset).get? n = some d) :
    t.get? n = some d ∨ ∃ path append, d = .file path offset append := by
  rw [moved] at h
  cases hseek : t.seek? fd offset with
  | none =>
    rw [hseek] at h
    exact .inl h
  | some t' =>
    obtain ⟨path, _, append, -, -, -, hget⟩ := seek?_eq_some hseek
    rw [hseek, Option.getD_some, hget] at h
    split at h
    · exact .inr ⟨path, append, (Option.some.inj h).symm⟩
    · exact .inl h

end DescriptorTable

/-- Replacing the contents of a file leaves the others. -/
theorem Tree.getElem?_setFile {t : Tree} {path : String} (h : path ∈ t.files) (data : Bytes)
    (q : String) : (t.setFile path data).files[q]? = if q = path then some data else t.files[q]? := by
  rw [setFile_of_mem h, Std.ExtTreeMap.getElem?_insert]
  refine if_congr ?_ rfl rfl
  rw [Std.compare_eq_iff_eq, eq_comm]

namespace Guest

variable {files : FileSet} {r : GuestRequest} {g g' : Guest} {fd : UInt32}

/-- What a descriptor shows that is open on a file that exists. -/
structure OpenFile (g : Guest) (fd : UInt32) where
  path : String
  offset : Nat
  append : Bool
  contents : Bytes
  get?_eq : g.descriptors.get? fd.toNat = some (.file path offset append)
  contents_eq : g.files.files[path]? = some contents

namespace OpenFile

/-- Where the next write begins. -/
def start (o : OpenFile g fd) : Nat :=
  if o.append then o.contents.length else o.offset

/-- What a read gives that has room for so many bytes. -/
def taken (o : OpenFile g fd) (most : Nat) : Bytes :=
  (o.contents.drop o.offset).take most

/-- The guest after moving in the file. -/
def moved (_ : OpenFile g fd) (offset : Nat) : Guest :=
  { g with descriptors := g.descriptors.moved fd.toNat offset }

/-- The guest after a write to the file. -/
def written (o : OpenFile g fd) (data : Bytes) : Guest :=
  { o.moved (o.start + data.length) with
    files := g.files.setFile o.path (overwrite o.contents o.start data) }

/-- The descriptor of an open file is looked up as it is. -/
theorem descriptor?_apply (o : OpenFile g fd) :
    descriptor? fd g = (.ok (some (.file o.path o.offset o.append)), g) := by
  rw [← o.get?_eq]
  rfl

theorem mem_files (o : OpenFile g fd) : o.path ∈ g.files.files := by
  rw [Std.ExtTreeMap.mem_iff_isSome_getElem?, o.contents_eq]
  rfl

/-- A write is refused if the file would be too long, and otherwise done as a whole. -/
theorem writeFile_apply (o : OpenFile g fd) (data : Bytes) : writeFile fd data g =
    if 2 ^ 64 ≤ o.start + data.length then (.error .overflow, g)
    else if g.maxFile < o.start + data.length then (.error .fbig, g)
    else (.ok (), o.written data) := by
  have hself : (get : CallM Guest) g = (.ok g, g) := rfl
  rw [writeFile, bind_apply_ok o.descriptor?_apply]
  dsimp only
  rw [bind_apply_ok hself, o.contents_eq]
  dsimp only
  rw [← start]
  split
  · rfl
  split
  · rfl
  · rfl

/-- A read takes what is there and moves the offset behind it. -/
theorem readFile_apply (o : OpenFile g fd) (most : Nat) : readFile fd most g
    = (.ok (o.taken most), o.moved (o.offset + (o.taken most).length)) := by
  have hself : (get : CallM Guest) g = (.ok g, g) := rfl
  rw [readFile, bind_apply_ok o.descriptor?_apply]
  dsimp only
  rw [bind_apply_ok hself, o.contents_eq]
  rfl

end OpenFile

/-- A descriptor that is not open on a file that exists is neither read nor written. -/
theorem open_or_refused (g : Guest) (fd : UInt32) : Nonempty (OpenFile g fd)
    ∨ (∀ data, ∃ e, writeFile fd data g = (.error e, g))
      ∧ ∀ most, ∃ e, readFile fd most g = (.error e, g) := by
  have hself : (get : CallM Guest) g = (.ok g, g) := rfl
  have hfound : descriptor? fd g = (.ok (g.descriptors.get? fd.toNat), g) := rfl
  cases hget : g.descriptors.get? fd.toNat with
  | none =>
    rw [hget] at hfound
    refine .inr ⟨fun data => ⟨.badf, ?_⟩, fun most => ⟨.badf, ?_⟩⟩
    · rw [writeFile, bind_apply_ok hfound]
      rfl
    · rw [readFile, bind_apply_ok hfound]
      rfl
  | some d =>
    rw [hget] at hfound
    cases d with
    | directory path name =>
      refine .inr ⟨fun data => ⟨.badf, ?_⟩, fun most => ⟨.isdir, ?_⟩⟩
      · rw [writeFile, bind_apply_ok hfound]
        rfl
      · rw [readFile, bind_apply_ok hfound]
        rfl
    -- a descriptor may outlast its file, and then it is as good as none
    | file path offset append =>
      cases hfile : g.files.files[path]? with
      | some contents => exact .inl ⟨⟨path, offset, append, contents, hget, hfile⟩⟩
      | none =>
        refine .inr ⟨fun data => ⟨.badf, ?_⟩, fun most => ⟨.badf, ?_⟩⟩
        · rw [writeFile, bind_apply_ok hfound]
          dsimp only
          rw [bind_apply_ok hself, hfile]
          rfl
        · rw [readFile, bind_apply_ok hfound]
          dsimp only
          rw [bind_apply_ok hself, hfile]
          rfl

open scoped Arithmetic in
/-- A seek is refused before the start; otherwise the offset moves even if it cannot be stored. -/
theorem seekTo_apply (g : Guest) (fd offset : UInt32) (there : Int) : seekTo fd offset there g =
    if there < 0 then (.error .inval, g)
    else if 2 ^ (64 : Nat) ≤ there then (.error .overflow, g)
    else onMemory (GuestMemory.writeLong offset.toNat there.toNat)
      { g with descriptors := g.descriptors.moved fd.toNat there.toNat } := by
  unfold seekTo
  split
  · rfl
  split
  · rfl
  · rfl

/-! ## Offsets of 64 bits -/

/-- Every file is shorter than 2^64 bytes, and every offset in an open file is below that. -/
structure Bounded (g : Guest) : Prop where
  length_lt : ∀ (path : String) (data : Bytes),
    g.files.files[path]? = some data → data.length < 2 ^ 64
  offset_lt : ∀ fd path offset append,
    g.descriptors.get? fd = some (.file path offset append) → offset < 2 ^ 64

theorem calm_bounded : Calm fun g g' => g.Bounded → g'.Bounded where
  refl _ := id
  trans _ _ _ h h' := h' ∘ h
  memory _ _ h := ⟨h.length_lt, h.offset_lt⟩
  input _ _ h := ⟨h.length_lt, h.offset_lt⟩
  drawn _ _ h := ⟨h.length_lt, h.offset_lt⟩

/-- The step keeps files and offsets below 2^64, also when it fails. -/
def bounding {ε : Type} : Law Guest ε :=
  calm_bounded.law

/-- Writing over the end makes the file longer. -/
theorem length_overwrite (old : Bytes) (start : Nat) (data : Bytes) :
    (overwrite old start data).length = max old.length (start + data.length) := by
  simp only [overwrite, List.length_append, List.length_take, List.length_replicate,
    List.length_drop]
  omega

/-- An offset that fits keeps all of them within bounds. -/
theorem Bounded.moved (hg : g.Bounded) (fd : Nat) {offset : Nat} (hoffset : offset < 2 ^ 64) :
    { g with descriptors := g.descriptors.moved fd offset }.Bounded where
  length_lt := hg.length_lt
  offset_lt n path there append hget := by
    rcases DescriptorTable.of_get?_moved hget with hget | ⟨_, _, hmoved⟩
    · exact hg.offset_lt n path there append hget
    · cases hmoved
      exact hoffset

/-- A write that fits does so too. -/
theorem Bounded.written (hg : g.Bounded) (o : OpenFile g fd) {data : Bytes}
    (hfits : o.start + data.length < 2 ^ 64) : (o.written data).Bounded where
  offset_lt := (hg.moved fd.toNat hfits).offset_lt
  length_lt path contents hcontents := by
    have hset : (g.files.setFile o.path (overwrite o.contents o.start data)).files[path]?
        = some contents := hcontents
    rw [Tree.getElem?_setFile o.mem_files] at hset
    split at hset
    · have hlength := hg.length_lt _ _ o.contents_eq
      rw [← Option.some.inj hset, length_overwrite]
      omega
    · exact hg.length_lt path contents hset

/-- Writes keep lengths and offsets within 64 bits. -/
theorem bounding_writeFile (fd : UInt32) (data : Bytes) : bounding.Obeys (writeFile fd data) := by
  refine Law.obeys_along_iff.2 fun g hg => ?_
  rcases open_or_refused g fd with ⟨⟨o⟩⟩ | ⟨hwrite, -⟩
  · rw [o.writeFile_apply]
    split
    · exact hg
    split
    · exact hg
    · next hfits _ => exact hg.written o (Nat.lt_of_not_le hfits)
  · obtain ⟨e, herror⟩ := hwrite data
    rwa [herror]

theorem bounding_fdWrite (fd buffers count written : UInt32) :
    bounding.Obeys (fdWrite fd buffers count written) :=
  calm_bounded.fdWrite_obeys_of (fun _ _ hg => ⟨hg.length_lt, hg.offset_lt⟩)
    (fun _ _ hg => ⟨hg.length_lt, hg.offset_lt⟩) (bounding_writeFile fd) buffers count written

/-- A read does not pass the end of the file, and moves no further than it reads. -/
theorem bounding_readFile (fd : UInt32) (most : Nat) : bounding.Obeys (readFile fd most) := by
  refine Law.obeys_along_iff.2 fun g hg => ?_
  rcases open_or_refused g fd with ⟨⟨o⟩⟩ | ⟨-, hread⟩
  · rw [o.readFile_apply]
    refine hg.moved fd.toNat ?_
    have hoffset := hg.offset_lt _ _ _ _ o.get?_eq
    have hlength := hg.length_lt _ _ o.contents_eq
    rw [OpenFile.taken, List.length_take, List.length_drop]
    omega
  · obtain ⟨e, herror⟩ := hread most
    rwa [herror]

/-- Seeks do so because they refuse offsets beyond. -/
theorem bounding_seekTo (fd offset : UInt32) (there : Int) :
    bounding.Obeys (seekTo fd offset there) := by
  refine Law.obeys_along_iff.2 fun g hg => ?_
  rw [seekTo_apply]
  split
  · exact hg
  split
  · exact hg
  · next hlow hhigh =>
    exact Law.obeys_along_iff.1 (calm_bounded.onMemory_obeys _) _
      (hg.moved fd.toNat (by omega))

/-- Closing only takes an offset away. -/
theorem bounding_fdClose (fd : UInt32) : bounding.Obeys (fdClose fd) := by
  refine Law.obeys_along_iff.2 fun g hg => ?_
  rw [fdClose_apply]
  split
  · exact hg
  split
  · exact hg
  · refine ⟨hg.length_lt, fun n path offset append hget => ?_⟩
    have hremoved : (g.descriptors.remove fd.toNat).get? n = some (.file path offset append) := hget
    rw [DescriptorTable.get?_remove] at hremoved
    split at hremoved
    · cases hremoved
    · exact hg.offset_lt n path offset append hremoved

/-- What is opened is at its start, and a file that was made or emptied is empty. -/
theorem bounding_pathOpen (fd path length openFlags fdFlags address : UInt32) :
    bounding.Obeys (pathOpen fd path length openFlags fdFlags address) := by
  refine Law.obeys_along_iff.2 fun g hg => ?_
  rcases pathOpen_cases g fd path length openFlags fdFlags address
    with ⟨e, herror⟩ | ⟨hholds, resolved, flags, htarget, hflags, hfdFlags⟩
  · rwa [herror]
  rw [pathOpen_apply hholds htarget hflags hfdFlags]
  cases hopen : openEntry g.files resolved flags (fdFlags.toNat.testBit 0) with
  | error e => exact hg
  | ok opened =>
    obtain ⟨d, files⟩ := opened
    dsimp only
    have hentry := openEntry_cases hopen
    have hfiles : ∀ (p : String) (data : Bytes), files.files[p]? = some data →
        data.length < 2 ^ 64 := by
      -- a file that is made or truncated is empty, and all others are as they were
      intro p data hdata
      rcases hentry with ⟨-, rfl⟩ | ⟨-, rfl | ⟨-, rfl⟩⟩
      · exact hg.length_lt p data hdata
      · exact hg.length_lt p data hdata
      · rw [Std.ExtTreeMap.getElem?_insert] at hdata
        split at hdata
        · rw [← Option.some.inj hdata]
          decide
        · exact hg.length_lt p data hdata
    cases hinsert : g.descriptors.insert d with
    | error e => exact ⟨hfiles, hg.offset_lt⟩
    | ok inserted =>
      refine ⟨hfiles, fun n p offset append hget => ?_⟩
      obtain ⟨-, -, htable⟩ := DescriptorTable.insert_eq_ok hinsert
      have hget' : inserted.2.get? n = some (.file p offset append) := hget
      rw [htable, DescriptorTable.get?_added] at hget'
      split at hget'
      -- a new descriptor is at the start of its file
      · rcases hentry with ⟨rfl, -⟩ | ⟨rfl, -⟩
        · cases hget'
        · cases hget'
          decide
      · exact hg.offset_lt n p offset append hget'

/-- Removing makes no file longer. -/
theorem bounding_pathUnlinkFile (fd path length : UInt32) :
    bounding.Obeys (pathUnlinkFile fd path length) := by
  refine (calm_bounded.resolve_obeys fd path length).bind fun resolved =>
    Law.obeys_along_iff.2 fun g hg => ?_
  rw [updateFiles_apply]
  cases hremove : g.files.removeFile resolved with
  | error e => exact hg
  | ok files =>
    refine ⟨fun p data hdata => ?_, hg.offset_lt⟩
    rw [Tree.removeFile] at hremove
    split_ifs at hremove
    rw [← Except.ok.inj hremove, Std.ExtTreeMap.getElem?_erase] at hdata
    split at hdata
    · cases hdata
    · exact hg.length_lt p data hdata

theorem bounding_pathCreateDirectory (fd path length : UInt32) :
    bounding.Obeys (pathCreateDirectory fd path length) := by
  refine (calm_bounded.resolve_obeys fd path length).bind fun resolved =>
    Law.obeys_along_iff.2 fun g hg => ?_
  rw [updateFiles_apply]
  cases hmake : g.files.makeDirectory resolved with
  | error e => exact hg
  | ok files =>
    rw [Tree.makeDirectory] at hmake
    split_ifs at hmake
    obtain rfl := Except.ok.inj hmake
    exact ⟨hg.length_lt, hg.offset_lt⟩

end Guest

/-- All calls do. -/
theorem SystemCall.bounding_answer (call : SystemCall) : Guest.bounding.Obeys call.answer := by
  cases hedit : call.mayEdit with
  | true =>
    cases call with
    | fdWrite fd buffers count written => exact Guest.calm_bounded.ofStep_obeys (Guest.bounding_fdWrite fd buffers count written)
    | pathOpen fd path length openFlags fdFlags address =>
      exact Guest.calm_bounded.ofStep_obeys
        (Guest.bounding_pathOpen fd path length openFlags fdFlags address)
    | pathUnlinkFile fd path length =>
      exact Guest.calm_bounded.ofStep_obeys (Guest.bounding_pathUnlinkFile fd path length)
    | pathCreateDirectory fd path length =>
      exact Guest.calm_bounded.ofStep_obeys (Guest.bounding_pathCreateDirectory fd path length)
    | _ => contradiction
  | false =>
    cases hmove : call.mayMove with
    | false => exact answer_obeys_of_mayMove Guest.calm_bounded call hedit hmove
    | true =>
      cases call with
      | fdRead fd buffers count read =>
        exact Guest.calm_bounded.ofStep_obeys
          (Guest.calm_bounded.fdRead_obeys_of (Guest.bounding_readFile fd) buffers count read)
      | fdSeek fd delta whence offset =>
        exact Guest.calm_bounded.ofStep_obeys
          (Guest.calm_bounded.fdSeek_obeys_of (Guest.bounding_seekTo fd offset) delta whence)
      | fdClose fd => exact Guest.calm_bounded.ofStep_obeys (Guest.bounding_fdClose fd)
      | _ => contradiction

namespace Guest

variable {files : FileSet} {r : GuestRequest} {g g' : Guest}

/-- Whatever a guest does, lengths and offsets stay within 64 bits. -/
theorem Act.bounded (h : Act g g') (hg : g.Bounded) : g'.Bounded := by
  cases h with
  | own m => exact ⟨hg.length_lt, hg.offset_lt⟩
  | call exportsMemory c =>
    rcases c.run_snd exportsMemory g with hsame | hanswer
    · rwa [hsame]
    · rw [hanswer]
      exact Law.obeys_along_iff.1 c.bounding_answer g hg

/-- By induction on the acts of a run. -/
theorem Reached.bounded (h : Reached files r g)
    (hfiles : ∀ (path : String) (data : Bytes), files[path]? = some data → data.length < 2 ^ 64) :
    g.Bounded := by
  obtain ⟨surroundings, config, p, hacts⟩ := h.acts
  clear h
  induction hacts with
  | refl =>
    refine ⟨fun path data hdata => ?_, fun fd path offset append hget => ?_⟩
    · rw [r.guest_files_files] at hdata
      exact hfiles path data hdata
    · -- only a directory is open at the start
      rcases (DescriptorTable.numbered_ofRoot r.cwd).cases fd _ hget with ⟨-, hroot⟩ | ⟨hfour, hlt⟩
      · cases hroot
      · exact absurd hlt (Nat.not_lt_of_le hfour)
  | tail _ hact ih => exact hact.bounded ih

end Guest

end Sandshell
