import Sandshell.Proofs.Guest.Memory
import Sandshell.Proofs.Guest.Run

/-!
# What calls answer

Calls on paths as functions of the guest: they first find out where the path leads, and leave the
guest alone if it leads nowhere.
-/

namespace Sandshell

namespace Guest

variable {α ε : Type} {g g' : Guest} {fd path length address openFlags fdFlags : UInt32}
variable {resolved : String}

/-- A step on the memory leaves the rest of the guest as it is. -/
theorem onMemory_apply {step : ExceptT ε (StateM GuestMemory) α} {result : Except ε α}
    {m : GuestMemory}
    (h : step g.memory = (result, m)) : onMemory step g = (result, { g with memory := m }) := by
  rw [onMemory, h]

/-- Data is stored as a whole, or a fault is raised and nothing is stored. -/
theorem onMemory_write_apply {data : Bytes} (hdata : data.length < 2 ^ 32) (start : Nat)
    (g : Guest) : onMemory (GuestMemory.write start data) g =
      if g.memory.holds start data.length then
        (.ok (), { g with memory := g.memory.store start data })
      else (.error .fault, g) := by
  have hwrite := GuestMemory.write_apply hdata start g.memory
  split
  · next hholds =>
    rw [if_pos hholds] at hwrite
    exact onMemory_apply hwrite
  · next hholds =>
    rw [if_neg hholds] at hwrite
    exact onMemory_apply hwrite

/-- A number that fits is stored as a word. -/
theorem writeWord_apply {n : Nat} (hn : n < 2 ^ 32) (start : Nat) (g : Guest) :
    (do onMemory (GuestMemory.writeWord start (← word n)) : CallM Unit) g =
      if g.memory.holds start 4 then
        (.ok (), { g with memory := g.memory.store start (Bytes.littleEndian 4 n) })
      else (.error .fault, g) := by
  have hword : word n = pure (UInt32.ofNat n) := if_pos hn
  have hlength : (Bytes.littleEndian 4 n).length < 2 ^ 32 := by simp
  have hwrite := onMemory_write_apply hlength start g
  rw [Bytes.length_littleEndian] at hwrite
  rw [hword, pure_bind, GuestMemory.writeWord, UInt32.toNat_ofNat_of_lt' hn]
  exact hwrite

/-- Where the path in an area of memory leads. -/
def target (g : Guest) (fd path length : UInt32) : Except Errno String := do
  g.descriptors.resolve fd.toNat (← g.memory.textAt path.toNat length.toNat)

/-- Finding out where a path leads changes nothing. -/
theorem resolve_apply (fd path length : UInt32) (g : Guest) :
    resolve fd path length g = (g.target fd path length, g) := by
  have hread := onMemory_apply (GuestMemory.readText_apply path.toNat length.toNat g.memory)
  rw [resolve, target]
  cases htext : g.memory.textAt path.toNat length.toNat with
  | error e =>
    rw [htext] at hread
    exact bind_apply_error hread
  | ok text =>
    rw [htext] at hread
    rw [bind_apply_ok hread, get_bind_apply]
    show _ = (g.descriptors.resolve fd.toNat text, g)
    dsimp only
    cases g.descriptors.resolve fd.toNat text with
    | error e => rfl
    | ok resolved => rfl

/-- A path is resolved first, and nothing happens to the guest by that. -/
theorem resolve_bind_apply (f : String → CallM α) : (resolve fd path length >>= f) g =
    match g.target fd path length with
    | .ok resolved => f resolved g
    | .error e => (.error e, g) := by
  have hresolve := resolve_apply fd path length g
  cases htarget : g.target fd path length with
  | error e => exact bind_apply_error (htarget ▸ hresolve)
  | ok resolved => exact bind_apply_ok (htarget ▸ hresolve)

/-- Files are changed as a whole, or the guest stays as it is. -/
theorem updateFiles_apply (change : Tree → Except Errno Tree) (g : Guest) :
    updateFiles change g = match change g.files with
      | .ok files => (.ok (), { g with files })
      | .error e => (.error e, g) := by
  show (match change g.files with
    | .ok files => (modify (fun g : Guest => { g with files }) : CallM Unit)
    | .error e => throw e) g = _
  cases change g.files with
  | ok files => rfl
  | error e => rfl

/-- Unlinking removes the file that the path resolves to. -/
theorem pathUnlinkFile_apply (h : g.target fd path length = .ok resolved) :
    pathUnlinkFile fd path length g = match g.files.removeFile resolved with
      | .ok files => (.ok (), { g with files })
      | .error e => (.error e, g) := by
  rw [pathUnlinkFile, resolve_bind_apply, h]
  exact updateFiles_apply _ g

/-- A call that opens fails at once, or has a path that leads somewhere and flags with a meaning. -/
theorem pathOpen_cases (g : Guest) (fd path length openFlags fdFlags address : UInt32) :
    (∃ e, pathOpen fd path length openFlags fdFlags address g = (.error e, g))
      ∨ g.memory.holds address.toNat 4
        ∧ ∃ resolved flags, g.target fd path length = .ok resolved
          ∧ OpenFlags.ofBits? openFlags = some flags ∧ fdFlags.toNat < 2 ^ 16 := by
  have hcheck := onMemory_apply (GuestMemory.check_apply address.toNat 4 g.memory)
  unfold pathOpen
  by_cases hholds : g.memory.holds address.toNat 4
  · rw [if_pos hholds] at hcheck
    rw [bind_apply_ok hcheck, resolve_bind_apply]
    cases g.target fd path length with
    | error e => exact .inl ⟨e, rfl⟩
    | ok resolved =>
      cases OpenFlags.ofBits? openFlags with
      | none => exact .inl ⟨.inval, rfl⟩
      | some flags =>
        by_cases hfdFlags : 2 ^ 16 ≤ fdFlags.toNat
        · refine .inl ⟨.inval, ?_⟩
          dsimp only
          rw [if_pos hfdFlags]
          rfl
        · exact .inr ⟨hholds, resolved, flags, rfl, rfl, Nat.lt_of_not_le hfdFlags⟩
  · rw [if_neg hholds] at hcheck
    exact .inl ⟨.fault, bind_apply_error hcheck⟩

/-- Opening changes the files first, then the table, and stores the new number last. -/
theorem pathOpen_apply {flags : OpenFlags} (hholds : g.memory.holds address.toNat 4)
    (htarget : g.target fd path length = .ok resolved)
    (hflags : OpenFlags.ofBits? openFlags = some flags) (hfdFlags : fdFlags.toNat < 2 ^ 16) :
    pathOpen fd path length openFlags fdFlags address g =
      match openEntry g.files resolved flags (fdFlags.toNat.testBit 0) with
      | .error e => (.error e, g)
      | .ok (d, files) =>
        match g.descriptors.insert d with
        | .error e => (.error e, { g with files })
        | .ok (number, descriptors) => (.ok (), { g with
            files, descriptors
            memory := g.memory.store address.toNat (Bytes.littleEndian 4 number) }) := by
  have hcheck := onMemory_apply (GuestMemory.check_apply address.toNat 4 g.memory)
  rw [if_pos hholds] at hcheck
  unfold pathOpen
  rw [bind_apply_ok hcheck, resolve_bind_apply, htarget, hflags]
  dsimp only
  rw [if_neg (Nat.not_le_of_lt hfdFlags)]
  show (liftM (openEntry g.files resolved flags (fdFlags.toNat.testBit 0)) >>= _ : CallM Unit) g = _
  cases openEntry g.files resolved flags (fdFlags.toNat.testBit 0) with
  | error e => rfl
  | ok opened =>
    obtain ⟨d, files⟩ := opened
    dsimp only
    show (liftM (g.descriptors.insert d) >>= _ : CallM Unit) { g with files } = _
    cases hinsert : g.descriptors.insert d with
    | error e => rfl
    | ok inserted =>
      obtain ⟨number, descriptors⟩ := inserted
      -- numbers end below 32 bits, so that the new one can be stored
      have hnumber : number < 2 ^ 32 := by
        obtain ⟨hroom, rfl, -⟩ := DescriptorTable.insert_eq_ok hinsert
        omega
      have hstored := writeWord_apply hnumber address.toNat { g with files, descriptors }
      rw [word, if_pos hnumber, if_pos hholds] at hstored
      exact hstored

/-- Arguments in order for a call that opens: the path can be read, the flags have a meaning, and
there is a number left and a place to store it. -/
structure Opening (g : Guest) where
  fd : UInt32
  path : UInt32
  length : UInt32
  openFlags : UInt32
  fdFlags : UInt32
  address : UInt32
  text : String
  flags : OpenFlags
  text_eq : g.memory.textAt path.toNat length.toNat = .ok text
  flags_eq : OpenFlags.ofBits? openFlags = some flags
  fdFlags_lt : fdFlags.toNat < 2 ^ 16
  holds : g.memory.holds address.toNat 4
  room : g.descriptors.next + 1 < 2 ^ 32

namespace Opening

/-- The call. -/
def call (o : Opening g) : SystemCall :=
  .pathOpen o.fd o.path o.length o.openFlags o.fdFlags o.address

/-- Writes to the file will go to its end. -/
def append (o : Opening g) : Bool :=
  o.fdFlags.toNat.testBit 0

/-- Opening a path ends no run. -/
theorem ending?_call (o : Opening g) : o.call.ending? false = none := by
  rw [call, SystemCall.ending?, o.flags_eq]
  rfl

/-- What opening gives decides on the answer. -/
theorem answer_eq (o : Opening g) (h : g.descriptors.resolve o.fd.toNat o.text = .ok resolved) :
    o.call.answer g = match openEntry g.files resolved o.flags o.append with
      | .error e => (.error (.errno e), g)
      | .ok (d, files) => (.ok (), { g with
          files
          descriptors := g.descriptors.added d
          memory := g.memory.store o.address.toNat
            (Bytes.littleEndian 4 g.descriptors.next) }) := by
  have htarget : g.target o.fd o.path o.length = .ok resolved := by
    rw [target, o.text_eq]
    exact h
  have happly := pathOpen_apply o.holds htarget o.flags_eq o.fdFlags_lt
  rw [append]
  cases hopen : openEntry g.files resolved o.flags (o.fdFlags.toNat.testBit 0) with
  | error e =>
    rw [hopen] at happly
    exact PanicM.liftM_apply_error happly
  | ok opened =>
    rw [hopen] at happly
    dsimp only at happly
    rw [DescriptorTable.insert_of_lt o.room] at happly
    exact PanicM.liftM_apply_ok happly

end Opening

/-- The standard streams can be closed as often as one likes; other descriptors are gone
afterwards. -/
theorem fdClose_apply (fd : UInt32) (g : Guest) : fdClose fd g =
    if isStream fd then (.ok (), g)
    else if (g.descriptors.get? fd.toNat).isNone then (.error .badf, g)
    else (.ok (), { g with descriptors := g.descriptors.remove fd.toNat }) := by
  unfold fdClose
  split
  · rfl
  · show (if (g.descriptors.get? fd.toNat).isNone then _ else _ : CallM Unit) g = _
    split
    · rfl
    · rfl

/-! ## Facts about paths -/

/-- Memory with the record of what stands at a path. -/
def withFilestat (m : GuestMemory) (address : Nat) (kind : UInt8) (number size : Nat) :
    GuestMemory :=
  ((((m.store address (List.replicate 64 0)).store (address + 8) (Bytes.littleEndian 8 number)).store
    (address + 16) [kind]).store (address + 24) (Bytes.littleEndian 8 1)).store
    (address + 32) (Bytes.littleEndian 8 size)

/-- The record lies in memory, and no offset in it passes the end of 32 bits. -/
structure HoldsFilestat (m : GuestMemory) (address : UInt32) : Prop where
  holds : m.holds address.toNat 64
  end_le : address.toNat + 64 ≤ 2 ^ 32

/-- No field of a record that lies in the memory has an address that wraps. -/
theorem HoldsFilestat.toNat_add {m : GuestMemory} (h : HoldsFilestat m address) {offset : UInt32}
    (hoffset : offset.toNat < 64) : (address + offset).toNat = address.toNat + offset.toNat := by
  have hend := h.end_le
  rw [UInt32.toNat_add]
  omega

/-- No sum in the record panics. -/
theorem HoldsFilestat.sum_eq {σ : Type} {m : GuestMemory} (h : HoldsFilestat m address)
    (offset : UInt32) (hoffset : offset.toNat < 64) :
    (PanicM.sum address offset : PanicM σ UInt32) = pure (address + offset) := by
  have hend := h.end_le
  exact PanicM.sum_of_lt (by omega)

/-- A record that lies in the memory is stored as a whole. -/
theorem writeFilestat_apply {m : GuestMemory} (h : HoldsFilestat m address) (kind : UInt8)
    (number size : Nat) : writeFilestat address kind number size m
      = (.ok (), withFilestat m address.toNat kind number size) := by
  -- every part of the record lies in memory, whatever has been stored before it
  have hpart : ∀ (m' : GuestMemory) (offset : UInt32) (data : Bytes), m'.size = m.size →
      offset.toNat + data.length ≤ 64 → offset.toNat < 64 →
      (liftM (GuestMemory.write (address + offset).toNat data) : PanicM GuestMemory Unit) m'
        = (.ok (), m'.store (address.toNat + offset.toNat) data) := by
    intro m' offset data hsize hlength hoffset
    have hholds : m'.holds (address.toNat + offset.toNat) data.length := by
      have hall := h.holds
      rw [GuestMemory.holds, decide_eq_true_eq] at hall ⊢
      omega
    apply PanicM.liftM_apply_ok
    rw [h.toNat_add hoffset, GuestMemory.write_apply (by omega), if_pos hholds]
  simp only [writeFilestat, GuestMemory.writeLong, h.sum_eq 8 (by decide),
    h.sum_eq 16 (by decide), h.sum_eq 24 (by decide), h.sum_eq 32 (by decide), pure_bind]
  rw [bind_apply_ok (PanicM.liftM_apply_ok (GuestMemory.fill_apply 0 h.holds)),
    bind_apply_ok (hpart _ 8 _ (by simp) (by simp) (by decide)),
    bind_apply_ok (hpart _ 16 _ (by simp) (by simp) (by decide)),
    bind_apply_ok (hpart _ 24 _ (by simp) (by simp) (by decide))]
  exact hpart _ 32 _ (by simp) (by simp) (by decide)

/-- The inode number is read back from the record. -/
theorem number_withFilestat (m : GuestMemory) (start : Nat) (kind : UInt8) {number : Nat}
    (size : Nat) (hnumber : number < 2 ^ 64) :
    ((withFilestat m start kind number size).area (start + 8) 8).toNumber = number := by
  rw [withFilestat, GuestMemory.area_store_of_apart (.inl (by omega)),
    GuestMemory.area_store_of_apart (.inl (by omega)),
    GuestMemory.area_store_of_apart (.inl (by omega)),
    GuestMemory.toNumber_area_store _ _ hnumber]

/-- So is the kind. -/
theorem kind_withFilestat (m : GuestMemory) (start : Nat) (kind : UInt8) (number size : Nat) :
    (withFilestat m start kind number size).byte (start + 16) = kind := by
  have hkind := fun m : GuestMemory => GuestMemory.area_store m (start + 16) [kind]
  rw [withFilestat, GuestMemory.byte_store_of_lt (by omega), GuestMemory.byte_store_of_lt (by omega)]
  exact (List.cons.inj (hkind _)).1

theorem pathFilestatGet_apply {kind : EntryKind} (htarget : g.target fd path length = .ok resolved)
    (hkind : g.files.kind? resolved = some kind) (h : HoldsFilestat g.memory address) :
    pathFilestatGet fd path length address g = (.ok (), { g with
      memory := withFilestat g.memory address.toNat kind.number (inode resolved).toNat
        (g.files.fileSize resolved) }) := by
  have hresolve := resolve_apply fd path length g
  rw [htarget] at hresolve
  rw [pathFilestatGet, bind_apply_ok (PanicM.liftM_apply_ok hresolve),
    bind_apply_ok (rfl : (get : PanicM Guest Guest) g = (.ok g, g)), hkind]
  exact onMemory_apply (writeFilestat_apply h kind.number _ _)

end Guest

/-! ## Answers as numbers -/

theorem Errno.number_ne_zero (e : Errno) : e.number ≠ 0 := by
  cases e <;> decide

/-- A call that answers with an error does not answer zero. -/
theorem Errno.ok_number_ne_zero (e : Errno) : (Except.ok e.number : Except Ending Nat) ≠ .ok 0 :=
  fun heq => e.number_ne_zero (Except.ok.inj heq)

namespace SystemCall

variable {g g' : Guest} {exportsMemory : Bool} {call : SystemCall}

/-- Zero is the answer of a call that succeeded. -/
theorem run_of_answer (h : call.answer g = (.ok (), g')) (hending : call.ending? g.mounted = none) :
    (call.run true).run g = (.ok 0, g') := by
  rw [run_apply, Bool.not_true, Bool.and_false, hending, h]
  rfl

/-- A call that answers leaves 0 as its status. -/
theorem run_eq_zero (h : call.answer g = (.ok (), g')) (hg : g.mounted = false)
    (hending : call.ending? false = none) : (call.run true).run g = (.ok 0, g') :=
  run_of_answer h (hg ▸ hending)

/-- A call that fails leaves the number of its error. -/
theorem run_eq_number {e : Errno} (h : call.answer g = (.error (.errno e), g')) (hg : g.mounted = false)
    (hending : call.ending? false = none) : (call.run true).run g = (.ok e.number, g') := by
  rw [run_apply, hg, hending, h]
  rfl

/-- A call that stops does not answer zero. -/
theorem stopped_ne_zero (mounted : Bool) (stop : Stop) : stopped mounted stop ≠ .ok 0 := by
  cases stop with
  | errno e =>
    rw [stopped]
    split
    · simp
    · exact e.ok_number_ne_zero
  | panicked => simp [stopped]

/-- Only a call that succeeded answers zero. -/
theorem answer_of_run (h : (call.run exportsMemory).run g = (.ok 0, g')) :
    call.answer g = (.ok (), g') := by
  rw [run_apply] at h
  split at h
  · cases h
  split at h
  · cases h
  split at h
  · cases h
  split at h
  · next hanswer =>
    cases h
    exact hanswer
  · exact absurd (congrArg Prod.fst h) (stopped_ne_zero _ _)

/-- A call leaves what its answer does, or leaves the guest alone. -/
theorem run_snd (call : SystemCall) (exportsMemory : Bool) (g : Guest) :
    ((call.run exportsMemory).run g).2 = g
      ∨ ((call.run exportsMemory).run g).2 = (call.answer g).2 := by
  rw [run_apply]
  split
  · exact .inl rfl
  split
  · exact .inl rfl
  split
  · exact .inl rfl
  right
  rcases call.answer g with ⟨stop | _, g'⟩ <;> rfl

/-- A call that does not answer zero leaves the guest alone, or its answer has failed. -/
theorem of_run_ne_zero {result : Except Ending Nat}
    (hrun : (call.run exportsMemory).run g = (result, g')) (h : result ≠ .ok 0) :
    g' = g ∨ ∃ stop, call.answer g = (.error stop, g') := by
  rw [run_apply] at hrun
  split at hrun
  · exact .inl (congrArg Prod.snd hrun).symm
  split at hrun
  · exact .inl (congrArg Prod.snd hrun).symm
  split at hrun
  · exact .inl (congrArg Prod.snd hrun).symm
  split at hrun
  · exact absurd (congrArg Prod.fst hrun).symm h
  · next stop after hanswer =>
    obtain rfl : after = g' := congrArg Prod.snd hrun
    exact .inr ⟨stop, hanswer⟩

/-- A call that fails and leaves the guest alone does so as a whole. -/
theorem run_of_error {stop : Stop} (h : call.answer g = (.error stop, g)) :
    ((call.run exportsMemory).run g).1 ≠ .ok 0 ∧ ((call.run exportsMemory).run g).2 = g := by
  rw [run_apply, h]
  split
  · exact ⟨by simp, rfl⟩
  split
  · exact ⟨by simp, rfl⟩
  split
  · exact ⟨Errno.fault.ok_number_ne_zero, rfl⟩
  · exact ⟨stopped_ne_zero _ _, rfl⟩

end SystemCall

end Sandshell
