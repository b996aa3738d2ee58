import Sandshell.Proofs.Guest.Accesses
import Sandshell.Proofs.Guest.Sums

/-!
# Where calls read and write

The arguments of a call name the areas of memory that it reads and those that it writes. In a memory
of any size it keeps to them, but for one case: a sum of addresses that passes the greatest address
is a panic. Memory stays within its bounds throughout a run, so a run panics only where these admit
the greatest size.
-/

namespace Sandshell

open Bytes (terminated terminatedAll length_terminated terminatedAll_cons)
open GuestMemory (Area HoldsAreas CoveredBy Covers)

namespace GuestMemory

variable {m : GuestMemory} {slot place address : Nat} {s : String} {rest : List String}

/-- The areas of some texts lie in the memory if those of the first text and of the others do. -/
theorem holdsAreas_textAreas_cons
    (h : m.HoldsAreas [(slot, 4), (place, (terminated s).length)])
    (hrest : m.HoldsAreas (textAreas (slot + 4) (place + (terminated s).length) rest)) :
    m.HoldsAreas (textAreas slot place (s :: rest)) := by
  rw [textAreas, if_neg (List.cons_ne_nil s rest)]
  rw [textAreas] at hrest
  simp only [holdsAreas_cons, holdsAreas_nil, holds, decide_eq_true_eq, and_true, List.length_cons,
    terminatedAll_cons, List.length_append] at h ⊢
  split at hrest
  · next hnil =>
    rw [hnil, terminatedAll, List.flatMap_nil, List.length_nil, List.length_nil]
    omega
  · simp only [holdsAreas_cons, holdsAreas_nil, holds, decide_eq_true_eq, and_true] at hrest
    omega

/-- They cover what the first text covers and what the others do. -/
theorem coveredBy_textAreas_cons
    (h : CoveredBy ([(slot, 4), (place, (terminated s).length)]
      ++ textAreas (slot + 4) (place + (terminated s).length) rest) address) :
    CoveredBy (textAreas slot place (s :: rest)) address := by
  rw [textAreas, if_neg (List.cons_ne_nil s rest)]
  rw [coveredBy_append, textAreas] at h
  split at h
  · simp only [coveredBy_cons, not_coveredBy_nil, or_false, Covers, List.length_cons,
      terminatedAll_cons, List.length_append] at h ⊢
    omega
  · simp only [coveredBy_cons, not_coveredBy_nil, or_false, Covers, List.length_cons,
      terminatedAll_cons, List.length_append] at h ⊢
    omega

end GuestMemory

namespace Guest

variable {α : Type} {g g' : Guest} {reads writes : List Area}
variable {fd path length address buffer count : UInt32}

theorem accesses_throw (e : Errno) (g : Guest) : Accesses reads writes (throw e : CallM α) g where
  not_panic _ _ := id
  size_eq := rfl
  byte _ hchanged := absurd rfl hchanged
  inside a ha := by cases ha
  larger _ m hm := ⟨m, rfl, hm.alike⟩

/-- A check before a step. -/
theorem Accesses.unless {c : Prop} [Decidable c] {e : Errno} {f : PUnit → CallM α} {x : CallM α}
    (h : ¬ c → Accesses reads writes x g) :
    Accesses reads writes (if c then throw e >>= f else x) g := by
  split
  · exact accesses_throw e g
  · next hc => exact h hc

/-- A step without memory before one that may panic. -/
theorem Memoryless.ofStep_bind {β : Type} {x : CallM α} {f : α → PanicM Guest β}
    (hx : Memoryless x) (hf : ∀ a g', x g = (.ok a, g') → Accesses reads writes (f a) g') :
    Accesses reads writes (liftM x >>= f) g :=
  (hx.accesses g).ofStep.bind fun a g' ha => hf a g' (PanicM.of_liftM_apply_eq_ok ha)

/-- A step on the memory leaves a guest with another memory and nothing else new. -/
theorem exists_of_onMemory {ε : Type} {step : ExceptT ε (StateM GuestMemory) α}
    {result : Except ε α} (h : onMemory step g = (result, g')) :
    ∃ m, step g.memory = (result, m) ∧ g' = { g with memory := m } := by
  obtain ⟨hresult, hafter⟩ := Prod.mk.inj h
  exact ⟨_, Prod.ext hresult rfl, hafter.symm⟩

/-! ## Texts and records -/

/-- A text takes the slot of its pointer, and its bytes with the zero behind them. -/
theorem accesses_writeText (slot : Nat) (cursor : UInt32) (s : String) (g : Guest) :
    Accesses [] [(slot, 4), (cursor.toNat, (terminated s).length)]
      (onMemory (GuestMemory.writeText slot cursor s)) g := by
  have hlength := length_terminated s
  have hparts : Accesses [] ([(slot, 4)] ++ ([(cursor.toNat, (Bytes.ofString s).length)]
      ++ ([(cursor.toNat + (Bytes.ofString s).length, 1)] ++ [])))
      (onMemory (GuestMemory.writeText slot cursor s)) g := by
    rw [GuestMemory.writeText]
    split
    · exact .fault (onMemory_apply (bind_apply_error rfl))
    rw [onMemory_bind]
    refine (accesses_writeWord slot cursor g).bind fun _ g₁ _ => ?_
    rw [onMemory_bind]
    refine (accesses_write _ _ g₁).bind fun _ g₂ _ => ?_
    dsimp only
    split
    · exact .fault (onMemory_apply (bind_apply_error rfl))
    · rw [onMemory_bind]
      exact (accesses_write _ [0] g₂).bind fun _ g₃ _ => accesses_pure _ g₃
  refine hparts.mono (fun h => ?_) fun address h => ?_
  · simp only [List.nil_append, List.append_nil, List.singleton_append,
      GuestMemory.holdsAreas_cons, GuestMemory.holdsAreas_nil, GuestMemory.holds,
      decide_eq_true_eq, and_true] at h ⊢
    omega
  · simp only [List.append_nil, List.singleton_append, GuestMemory.coveredBy_cons,
      GuestMemory.not_coveredBy_nil, or_false, Covers] at h ⊢
    omega

/-- By induction on the texts: the next one comes right behind the last. -/
theorem accesses_writeTexts {slot : Nat} {cursor : UInt32} {texts : List String}
    (hsize : g.memory.size ≤ 2 ^ 32) (h : ¬ g.memory.TextsPass slot cursor.toNat texts) :
    Accesses [] (GuestMemory.textAreas slot cursor.toNat texts)
      (onMemory (GuestMemory.writeTexts slot cursor texts)) g := by
  induction texts generalizing g slot cursor with
  | nil => exact accesses_pure () g
  | cons s rest ih =>
    have hrest : ∀ finish g₁, onMemory (GuestMemory.writeText slot cursor s) g = (.ok finish, g₁) →
        Accesses [] (GuestMemory.textAreas (slot + 4) (cursor.toNat + (terminated s).length) rest)
          (onMemory (PanicM.sum finish 1 >>= fun next =>
            GuestMemory.writeTexts (slot + 4) next rest)) g₁ := by
      intro finish g₁ hfirst
      obtain ⟨m, hm, rfl⟩ := exists_of_onMemory hfirst
      obtain ⟨hlt, hplace, hsize', hpass⟩ := GuestMemory.not_textsPass_next hsize h hm
      rw [PanicM.sum_of_lt (b := 1) hlt, pure_bind, ← hplace]
      exact ih (hsize'.trans_le hsize) hpass
    rw [GuestMemory.writeTexts, onMemory_bind]
    refine ((accesses_writeText slot cursor s g).ofStep.bind fun finish g₁ hfirst =>
      hrest finish g₁ (PanicM.of_liftM_apply_eq_ok hfirst)).mono (fun hholds => ?_)
        fun _ => GuestMemory.coveredBy_textAreas_cons
    rw [List.append_nil, List.nil_append] at hholds
    obtain ⟨hfirst, hmore⟩ := GuestMemory.holdsAreas_append.1 hholds
    exact GuestMemory.holdsAreas_textAreas_cons hfirst hmore

/-- Parts of an area that is stored as a whole as well. -/
theorem Accesses.whole {start length : Nat} {parts : List Area} {x : PanicM Guest α}
    (h : Accesses [] ((start, length) :: parts) x g)
    (hparts : ∀ part ∈ parts, start ≤ part.1 ∧ part.1 + part.2 ≤ start + length) :
    Accesses [] [(start, length)] x g := by
  refine h.mono (fun hholds => ?_) fun address haddress => ?_
  · exact GuestMemory.holdsAreas_singleton.2 (GuestMemory.holdsAreas_cons.1 hholds).1
  · rw [GuestMemory.coveredBy_singleton]
    rcases GuestMemory.coveredBy_cons.1 haddress with hwhole | ⟨part, hpart, hcovers⟩
    · exact hwhole
    · have hin := hparts part hpart
      unfold Covers at hcovers ⊢
      omega

/-- A sum within an area that lies in memory. -/
theorem sum_of_holds {m : GuestMemory} {length : Nat} (hsize : m.size ≤ 2 ^ 32)
    (hholds : m.holds address.toNat length) (offset : UInt32) (hoffset : offset.toNat < length) :
    (PanicM.sum address offset : PanicM GuestMemory UInt32) = pure (address + offset)
      ∧ (address + offset).toNat = address.toNat + offset.toNat := by
  have hend : address.toNat + length ≤ m.size := of_decide_eq_true hholds
  refine ⟨PanicM.sum_of_lt (by omega), ?_⟩
  rw [UInt32.toNat_add, Nat.mod_eq_of_lt (by omega)]

theorem fill_apply_error {m : GuestMemory} {start length : Nat} (b : UInt8)
    (h : ¬ m.holds start length) : GuestMemory.fill start length b m = (.error .fault, m) :=
  bind_apply_error ((GuestMemory.check_apply start length m).trans (by rw [if_neg h]))

/-- The record of a descriptor is stored in its 24 bytes. -/
theorem accesses_writeFdstat (hsize : g.memory.size ≤ 2 ^ 32) (kind : UInt8) (append : Bool) :
    Accesses [] [(address.toNat, 24)] (onMemory (writeFdstat address kind append)) g := by
  by_cases hholds : g.memory.holds address.toNat 24
  · have hsum := sum_of_holds hsize hholds
    have hparts : Accesses [] ([(address.toNat, 24)] ++ ([(address.toNat, 1)]
        ++ ([(address.toNat + 2, 2)] ++ ([(address.toNat + 8, 8)] ++ [(address.toNat + 16, 8)]))))
        (onMemory (writeFdstat address kind append)) g := by
      simp only [writeFdstat, (hsum 2 (by decide)).1, (hsum 8 (by decide)).1,
        (hsum 16 (by decide)).1, pure_bind, onMemory_bind, (hsum 2 (by decide)).2,
        (hsum 8 (by decide)).2, (hsum 16 (by decide)).2]
      refine (accesses_fill _ 24 0 g).ofStep.bind fun _ g₁ _ => ?_
      refine (accesses_write _ [kind] g₁).ofStep.bind fun _ g₂ _ => ?_
      refine (accesses_littleEndian _ 2 _ g₂).ofStep.bind fun _ g₃ _ => ?_
      exact (accesses_writeLong _ _ g₃).ofStep.bind fun _ g₄ _ => (accesses_writeLong _ _ g₄).ofStep
    exact hparts.whole (by simp)
  · exact .fault (onMemory_apply (bind_apply_error
      (PanicM.liftM_apply_error (fill_apply_error 0 hholds))))

/-- The record of a file is stored in its 64 bytes. -/
theorem accesses_writeFilestat (hsize : g.memory.size ≤ 2 ^ 32) (kind : UInt8)
    (number size : Nat) :
    Accesses [] [(address.toNat, 64)] (onMemory (writeFilestat address kind number size)) g := by
  by_cases hholds : g.memory.holds address.toNat 64
  · have hsum := sum_of_holds hsize hholds
    have hparts : Accesses [] ([(address.toNat, 64)] ++ ([(address.toNat + 8, 8)]
        ++ ([(address.toNat + 16, 1)] ++ ([(address.toNat + 24, 8)]
          ++ [(address.toNat + 32, 8)]))))
        (onMemory (writeFilestat address kind number size)) g := by
      simp only [writeFilestat, (hsum 8 (by decide)).1, (hsum 16 (by decide)).1,
        (hsum 24 (by decide)).1, (hsum 32 (by decide)).1, pure_bind, onMemory_bind,
        (hsum 8 (by decide)).2, (hsum 16 (by decide)).2, (hsum 24 (by decide)).2,
        (hsum 32 (by decide)).2]
      refine (accesses_fill _ 64 0 g).ofStep.bind fun _ g₁ _ => ?_
      refine (accesses_writeLong _ _ g₁).ofStep.bind fun _ g₂ _ => ?_
      refine (accesses_write _ [kind] g₂).ofStep.bind fun _ g₃ _ => ?_
      exact (accesses_writeLong _ _ g₃).ofStep.bind fun _ g₄ _ => (accesses_writeLong _ _ g₄).ofStep
    exact hparts.whole (by simp)
  · exact .fault (onMemory_apply (bind_apply_error
      (PanicM.liftM_apply_error (fill_apply_error 0 hholds))))

/-! ## Calls -/

/-- The data that a step comes to; none if it fails. -/
def dataOf (x : CallM Bytes) (g : Guest) : Bytes :=
  match (x g).1 with
  | .ok data => data
  | .error _ => []

theorem dataOf_of_apply {x : CallM Bytes} {data : Bytes} (h : x g = (.ok data, g')) :
    dataOf x g = data := by
  rw [dataOf, h]

/-- The sizes of texts are two words. -/
theorem accesses_textSizes (texts : List String) (count size : UInt32) (g : Guest) :
    Accesses [] [(count.toNat, 4), (size.toNat, 4)] (textSizes texts count size) g :=
  (memoryless_word _).bind_accesses fun _ g₁ _ =>
    (accesses_writeWord _ _ g₁).bind fun _ g₂ _ => accesses_number _ _ g₂

theorem accesses_clockTimeGet (clock address : UInt32) (g : Guest) :
    Accesses [] [(address.toNat, 8)] (clockTimeGet clock address) g :=
  .unless fun _ => .get (accesses_writeLong _ _ g) fun _ => rfl

/-- Random bytes fill the buffer they are asked for. -/
theorem accesses_randomGet (buffer length : UInt32) (g : Guest) :
    Accesses [] [(buffer.toNat, length.toNat)] (randomGet buffer length) g := by
  have hparts : Accesses ([(buffer.toNat, length.toNat)] ++ [])
      ([] ++ ([(buffer.toNat, length.toNat)] ++ [])) (randomGet buffer length) g := by
    refine (accesses_check _ _ g).bind fun _ g₁ _ => .get ?_ fun _ => rfl
    have hwrite := accesses_write buffer.toNat
      ((List.range length.toNat).map fun i => g₁.surroundings.random (g₁.drawn + i)) g₁
    rw [List.length_map, List.length_range] at hwrite
    exact hwrite.bind fun _ g₂ _ => (memoryless_modify fun _ _ => rfl).accesses g₂
  exact hparts.mono (fun h => (GuestMemory.holdsAreas_append.1 h).2) fun _ h => h

/-- Reading an array of buffers changes nothing. -/
theorem readBuffers_eq_ok {start count : UInt32} {buffers : List (UInt32 × UInt32)}
    (h : onMemory (GuestMemory.readBuffers start.toNat count.toNat) g = (.ok buffers, g')) :
    buffers = g.memory.buffersAt start.toNat count.toNat ∧ g' = g := by
  obtain ⟨m, hm, rfl⟩ := exists_of_onMemory h
  rw [GuestMemory.readBuffers_apply] at hm
  obtain ⟨hlisted, rfl⟩ := Prod.mk.inj hm
  split at hlisted
  · exact ⟨(Except.ok.inj hlisted).symm, rfl⟩
  · cases hlisted

/-- A write reads its vector and all its buffers, and stores how much it was. -/
theorem accesses_fdWrite (hg : g.mounted = false) (fd buffers count written : UInt32) :
    Accesses (GuestMemory.arrayArea buffers count
        ++ GuestMemory.bufferAreas (g.memory.buffersAt buffers.toNat count.toNat))
      [(written.toNat, 4)] (fdWrite fd buffers count written) g := by
  have hbuffered : Accesses (GuestMemory.arrayArea buffers count
      ++ GuestMemory.bufferAreas (g.memory.buffersAt buffers.toNat count.toNat)) []
      (buffered buffers count) g := by
    refine (accesses_readBuffers buffers count g).bind fun listed g₁ hread => ?_
    obtain ⟨rfl, rfl⟩ := readBuffers_eq_ok hread
    refine .get ?_ fun _ => rfl
    rw [hg]
    exact accesses_gather _ g₁
  rw [fdWrite_eq]
  exact hbuffered.bind_writes fun data g₁ _ =>
    (memoryless_writeData fd data).bind_accesses fun _ g₂ _ => accesses_number _ _ g₂

/-- A read stores as much as it takes, and how much it was. -/
theorem accesses_fdRead (fd buffers count read : UInt32) (g : Guest) :
    Accesses (GuestMemory.arrayArea buffers count)
      (GuestMemory.filledAreas (g.memory.buffersAt buffers.toNat count.toNat)
          (dataOf (readData fd
            (GuestMemory.room (g.memory.buffersAt buffers.toNat count.toNat))) g).length
        ++ [(read.toNat, 4)])
      (fdRead fd buffers count read) g := by
  rw [fdRead_eq]
  refine (accesses_readBuffers buffers count g).bind_writes fun listed g₁ hread => ?_
  obtain ⟨rfl, rfl⟩ := readBuffers_eq_ok hread
  refine (memoryless_readData fd _).bind_accesses fun data g₂ hdata => ?_
  rw [dataOf_of_apply hdata]
  exact (accesses_scatter _ data g₂).bind fun _ g₃ _ => accesses_number _ _ g₃

theorem accesses_seekTo (fd offset : UInt32) (there : Int) (g : Guest) :
    Accesses [] [(offset.toNat, 8)] (seekTo fd offset there) g :=
  .unless fun _ => .unless fun _ =>
    (memoryless_modify fun _ _ => rfl).bind_accesses fun _ g' _ => accesses_writeLong _ _ g'

/-- A seek stores the new offset. -/
theorem accesses_fdSeek (fd : UInt32) (delta : Int) (whence offset : UInt32) (g : Guest) :
    Accesses [] [(offset.toNat, 8)] (fdSeek fd delta whence offset) g := by
  refine (memoryless_descriptor? fd).bind_accesses fun found g₁ _ => ?_
  split
  · have hfrom : ∀ (base : Nat) g', Accesses [] [(offset.toNat, 8)]
        (seekTo fd offset (base + delta)) g' := fun base => accesses_seekTo fd offset _
    dsimp only
    split
    · exact hfrom 0 g₁
    split
    · exact hfrom _ g₁
    split
    · exact .get (hfrom _ g₁) fun _ => rfl
    · exact accesses_throw _ g₁
  · exact accesses_throw _ g₁

theorem accesses_fdTell (fd offset : UInt32) (g : Guest) :
    Accesses [] [(offset.toNat, 8)] (fdTell fd offset) g := by
  refine (memoryless_descriptor? fd).bind_accesses fun found g₁ _ => ?_
  split
  · exact accesses_writeLong _ _ g₁
  · exact accesses_throw _ g₁

/-- The record of the root takes 8 bytes, where its address is one that can be written. -/
theorem accesses_fdPrestatGet (hsize : g.memory.size ≤ 2 ^ 32)
    (h : ¬ g.PrestatPasses fd address) :
    Accesses [] [(address.toNat, 8)] (fdPrestatGet fd address) g := by
  refine (memoryless_startName fd).ofStep_bind fun name g₁ hname => ?_
  rw [startName_apply] at hname
  obtain ⟨hfirst, rfl⟩ := Prod.mk.inj hname
  rcases prestat_cases hsize h hfirst with hfits | hfault
  · have hplace : (address + 4).toNat = address.toNat + 4 :=
      (UInt32.toNat_add _ _).trans (Nat.mod_eq_of_lt hfits)
    have hparts : Accesses [] ([(address.toNat, 4)] ++ [((address + 4).toNat, 4)]) (do
        onMemory (GuestMemory.writeWord address.toNat 0)
        let place ← PanicM.sum address 4
        onMemory (GuestMemory.writeWord place.toNat (← word name.length)) : PanicM Guest Unit) g := by
      refine (accesses_writeWord _ 0 g).ofStep.bind fun _ g₂ _ => ?_
      rw [PanicM.sum_of_lt (b := 4) hfits, pure_bind]
      exact (memoryless_word _).ofStep_bind fun _ g₃ _ => (accesses_writeWord _ _ g₃).ofStep
    refine hparts.mono (fun hholds => ?_) fun a ha => ?_
    · simp only [List.nil_append, List.singleton_append, GuestMemory.holdsAreas_cons,
        GuestMemory.holdsAreas_nil, GuestMemory.holds, decide_eq_true_eq, hplace,
        and_true] at hholds ⊢
      omega
    · simp only [List.singleton_append, GuestMemory.coveredBy_cons,
        GuestMemory.not_coveredBy_nil, or_false, Covers, hplace] at ha ⊢
      omega
  · exact .fault (bind_apply_error (PanicM.liftM_apply_error hfault))

/-- The name of the root is stored as a whole, however much room was given. -/
theorem accesses_fdPrestatDirName (fd address length : UInt32) (g : Guest) :
    Accesses [] [(address.toNat, (dataOf (startName fd) g).length)]
      (fdPrestatDirName fd address length) g := by
  refine (memoryless_startName fd).bind_accesses fun name g₁ hname => .unless fun _ => ?_
  rw [dataOf_of_apply hname]
  exact accesses_write _ name g₁

/-- The record of a descriptor is all that is stored. -/
theorem accesses_fdFdstatGet (hsize : g.memory.size ≤ 2 ^ 32) (fd address : UInt32) :
    Accesses [] [(address.toNat, 24)] (fdFdstatGet fd address) g := by
  refine (memoryless_descriptor? fd).ofStep_bind fun found g₁ hfound => ?_
  obtain ⟨-, rfl⟩ := Prod.mk.inj (show (_, g) = _ from hfound)
  split
  · exact accesses_writeFdstat hsize _ _
  · exact accesses_writeFdstat hsize _ _
  · split
    · exact accesses_writeFdstat hsize _ _
    · exact (accesses_throw .badf g).ofStep

theorem accesses_writePathFilestat (hsize : g.memory.size ≤ 2 ^ 32) (address : UInt32)
    (kind : EntryKind) (path : String) :
    Accesses [] [(address.toNat, 64)] (writePathFilestat address kind path) g :=
  .get (accesses_writeFilestat hsize _ _ _) fun _ => rfl

/-- So is the record of an open file. -/
theorem accesses_fdFilestatGet (hsize : g.memory.size ≤ 2 ^ 32) (fd address : UInt32) :
    Accesses [] [(address.toNat, 64)] (fdFilestatGet fd address) g := by
  refine (memoryless_descriptor? fd).ofStep_bind fun found g₁ hfound => ?_
  obtain ⟨-, rfl⟩ := Prod.mk.inj (show (_, g) = _ from hfound)
  split
  · exact accesses_writePathFilestat hsize _ _ _
  · exact accesses_writePathFilestat hsize _ _ _
  · split
    · exact accesses_writeFilestat hsize _ _ _
    · exact (accesses_throw .badf g).ofStep

/-- A path is read before its record is stored. -/
theorem accesses_pathFilestatGet (hsize : g.memory.size ≤ 2 ^ 32)
    (fd path length address : UInt32) :
    Accesses [(path.toNat, length.toNat)] [(address.toNat, 64)]
      (pathFilestatGet fd path length address) g := by
  refine (accesses_resolve fd path length g).ofStep.bind_writes fun resolved g₁ hresolve => ?_
  replace hresolve := PanicM.of_liftM_apply_eq_ok hresolve
  rw [resolve_apply] at hresolve
  obtain ⟨-, rfl⟩ := Prod.mk.inj hresolve
  refine .get ?_ fun _ => rfl
  split
  · exact accesses_writePathFilestat hsize _ _ _
  · exact (accesses_throw .noent g).ofStep

/-- What a directory lists from some place on. -/
def listed (fd : UInt32) (cookie room : Nat) : CallM Bytes := do
  match ← descriptor? fd with
  | none => throw .badf
  | some (.file ..) => throw .notdir
  | some (.directory directory _) => listing (← get).files directory cookie room

/-- A listing is made first, then stored, then its length. -/
theorem fdReaddir_eq (fd buffer length : UInt32) (cookie : Nat) (used : UInt32) :
    fdReaddir fd buffer length cookie used = (do
      let data ← listed fd cookie length.toNat
      onMemory (GuestMemory.write buffer.toNat data)
      onMemory (GuestMemory.writeWord used.toNat (← word data.length))) := by
  rw [fdReaddir, listed, bind_assoc]
  refine bind_congr fun found => ?_
  split
  · rfl
  · rfl
  · rw [bind_assoc]

theorem memoryless_listed (fd : UInt32) (cookie room : Nat) :
    Memoryless (listed fd cookie room) := by
  refine (memoryless_descriptor? fd).bind fun found => ?_
  split
  · exact memoryless_throw _
  · exact memoryless_throw _
  · exact memoryless_get (fun _ _ => rfl) fun g => memoryless_liftM _

/-- A listing stores as much of itself as there is room for, and its length. -/
theorem accesses_fdReaddir (fd buffer length : UInt32) (cookie : Nat) (used : UInt32)
    (g : Guest) :
    Accesses [] [(buffer.toNat, (dataOf (listed fd cookie length.toNat) g).length),
      (used.toNat, 4)] (fdReaddir fd buffer length cookie used) g := by
  rw [fdReaddir_eq]
  refine (memoryless_listed fd cookie _).bind_accesses fun data g₁ hdata => ?_
  rw [dataOf_of_apply hdata]
  exact (accesses_write _ data g₁).bind fun _ g₂ _ => accesses_number _ _ g₂

/-- Opening reads the path and stores the new descriptor. -/
theorem accesses_pathOpen (fd path length openFlags fdFlags address : UInt32) (g : Guest) :
    Accesses [(path.toNat, length.toNat)] [(address.toNat, 4)]
      (pathOpen fd path length openFlags fdFlags address) g := by
  have hparts : Accesses ([(address.toNat, 4)] ++ [(path.toNat, length.toNat)])
      ([] ++ [(address.toNat, 4)])
      (pathOpen fd path length openFlags fdFlags address) g := by
    refine (accesses_check _ 4 g).bind fun _ g₁ _ => ?_
    refine (accesses_resolve fd path length g₁).bind_writes fun resolved g₂ _ => ?_
    split
    · exact accesses_throw _ g₂
    refine .unless fun _ => .get ?_ fun _ => rfl
    refine (memoryless_liftM _).bind_accesses fun opened g₃ _ => ?_
    refine (memoryless_modify fun _ _ => rfl).bind_accesses fun _ g₄ _ => .get ?_ fun _ => rfl
    refine (memoryless_liftM _).bind_accesses fun inserted g₅ _ => ?_
    exact (memoryless_modify fun _ _ => rfl).bind_accesses fun _ g₆ _ =>
      accesses_writeWord _ _ g₆
  refine hparts.mono (fun h => ?_) fun _ h => h
  obtain ⟨hread, hwritten⟩ := GuestMemory.holdsAreas_append.1 h
  exact GuestMemory.holdsAreas_append.2 ⟨(GuestMemory.holdsAreas_append.1 hread).2, hwritten⟩

/-- Finding out where a path leads, and changing the files there. -/
theorem accesses_change (fd path length : UInt32) (change : String → Tree → Except Errno Tree)
    (g : Guest) : Accesses [(path.toNat, length.toNat)] [] (do
      let resolved ← resolve fd path length
      updateFiles (change resolved)) g :=
  (accesses_resolve fd path length g).bind_writes fun _ g₁ _ =>
    (memoryless_updateFiles _).accesses g₁

end Guest

namespace SystemCall

open Guest (Accesses dataOf)

variable {g start : Guest}

/-- The areas that the arguments of a call name for reading: paths, the array of buffers, and the
buffers of a call that writes to a descriptor. -/
def reads (g : Guest) : SystemCall → List Area
  | .fdWrite _ buffers count _ =>
    GuestMemory.arrayArea buffers count
      ++ GuestMemory.bufferAreas (g.memory.buffersAt buffers.toNat count.toNat)
  | .fdRead _ buffers count _ => GuestMemory.arrayArea buffers count
  | .pathOpen _ path length _ _ _ => [(path.toNat, length.toNat)]
  | .pathFilestatGet _ path length _ => [(path.toNat, length.toNat)]
  | .pathUnlinkFile _ path length => [(path.toNat, length.toNat)]
  | .pathCreateDirectory _ path length => [(path.toNat, length.toNat)]
  | _ => []

/-- The areas that the arguments of a call name for its results. A buffer counts as far as there is
data for it. -/
def writes (g : Guest) : SystemCall → List Area
  | .argsSizesGet count size => [(count.toNat, 4), (size.toNat, 4)]
  | .argsGet addresses buffer => GuestMemory.textAreas addresses.toNat buffer.toNat g.args
  | .environSizesGet count size => [(count.toNat, 4), (size.toNat, 4)]
  | .environGet addresses buffer => GuestMemory.textAreas addresses.toNat buffer.toNat g.env
  | .clockTimeGet _ address => [(address.toNat, 8)]
  | .randomGet buffer length => [(buffer.toNat, length.toNat)]
  | .fdWrite _ _ _ written => [(written.toNat, 4)]
  | .fdRead fd buffers count read =>
    let listed := g.memory.buffersAt buffers.toNat count.toNat
    GuestMemory.filledAreas listed
      (dataOf (Guest.readData fd (GuestMemory.room listed)) g).length ++ [(read.toNat, 4)]
  | .fdSeek _ _ _ offset => [(offset.toNat, 8)]
  | .fdTell _ offset => [(offset.toNat, 8)]
  | .fdPrestatGet _ address => [(address.toNat, 8)]
  | .fdPrestatDirName fd address _ =>
    [(address.toNat, (dataOf (Guest.startName fd) g).length)]
  | .fdFdstatGet _ address => [(address.toNat, 24)]
  | .fdFilestatGet _ address => [(address.toNat, 64)]
  | .fdReaddir fd buffer length cookie used =>
    [(buffer.toNat, (dataOf (Guest.listed fd cookie length.toNat) g).length), (used.toNat, 4)]
  | .pathOpen _ _ _ _ _ address => [(address.toNat, 4)]
  | .pathFilestatGet _ _ _ address => [(address.toNat, 64)]
  | _ => []

/-- A call whose sums do not pass keeps to the areas that its arguments name. -/
theorem accesses_answer (hg : g.mounted = false) (hsize : g.memory.size ≤ 2 ^ 32)
    {call : SystemCall} (h : ¬ call.Passes g) :
    Accesses (call.reads g) (call.writes g) call.answer g := by
  cases call with
  -- the texts of a program are the only lists that are stored in one go; they are within reach
  | argsSizesGet count size =>
    exact (Accesses.get (Guest.accesses_textSizes g.args count size g) fun _ => rfl).ofStep
  | argsGet addresses buffer => exact .get (Guest.accesses_writeTexts hsize h) fun _ => rfl
  | environSizesGet count size =>
    exact (Accesses.get (Guest.accesses_textSizes g.env count size g) fun _ => rfl).ofStep
  | environGet addresses buffer => exact .get (Guest.accesses_writeTexts hsize h) fun _ => rfl
  | procExit code => exact Guest.accesses_pure () g
  | schedYield => exact Guest.accesses_pure () g
  | clockTimeGet clock address => exact (Guest.accesses_clockTimeGet clock address g).ofStep
  | randomGet buffer length => exact (Guest.accesses_randomGet buffer length g).ofStep
  | fdWrite fd buffers count written =>
    exact (Guest.accesses_fdWrite hg fd buffers count written).ofStep
  | fdRead fd buffers count read => exact (Guest.accesses_fdRead fd buffers count read g).ofStep
  | fdSeek fd delta whence offset => exact (Guest.accesses_fdSeek fd delta whence offset g).ofStep
  | fdTell fd offset => exact (Guest.accesses_fdTell fd offset g).ofStep
  | fdClose fd => exact ((Guest.memoryless_fdClose fd).accesses g).ofStep
  | fdPrestatGet fd address => exact Guest.accesses_fdPrestatGet hsize h
  | fdPrestatDirName fd address length =>
    exact (Guest.accesses_fdPrestatDirName fd address length g).ofStep
  | fdFdstatGet fd address => exact Guest.accesses_fdFdstatGet hsize fd address
  | fdFilestatGet fd address => exact Guest.accesses_fdFilestatGet hsize fd address
  | fdReaddir fd buffer length cookie used =>
    exact (Guest.accesses_fdReaddir fd buffer length cookie used g).ofStep
  | pathOpen fd path length openFlags fdFlags address =>
    exact (Guest.accesses_pathOpen fd path length openFlags fdFlags address g).ofStep
  | pathFilestatGet fd path length address =>
    exact Guest.accesses_pathFilestatGet hsize fd path length address
  | pathUnlinkFile fd path length => exact (Guest.accesses_change fd path length _ g).ofStep
  | pathCreateDirectory fd path length => exact (Guest.accesses_change fd path length _ g).ofStep
  | unimplemented name => exact Guest.accesses_pure () g

/-! ## Runs of calls -/

/-- What becomes of a call on a snapshot. -/
def outcome : Except Stop Unit → Except Ending Nat
  | .ok () => .ok 0
  | .error stop => stopped false stop

/-- A run ends with the number of a fault exactly if an access was outside. -/
theorem outcome_eq_fault_iff {result : Except Stop Unit} :
    outcome result = .ok Errno.fault.number ↔ result = .error Failure.outside := by
  cases result with
  | ok _ => exact iff_of_false (fun heq => by cases heq) (fun heq => by cases heq)
  | error stop =>
    cases stop with
    | panicked => exact iff_of_false (fun heq => by cases heq) (fun heq => by cases heq)
    | errno e => cases e <;> decide

/-- It ends in a panic exactly if a sum was too large. -/
theorem outcome_eq_panicked_iff {result : Except Stop Unit} :
    outcome result = .error .panicked ↔ result = .error .panicked := by
  cases result with
  | ok _ => exact iff_of_false (fun heq => by cases heq) (fun heq => by cases heq)
  | error stop =>
    cases stop with
    | panicked => exact iff_of_true rfl rfl
    | errno e => exact iff_of_false (fun heq => by cases heq) (fun heq => by cases heq)

/-- No call asks for a panic. -/
theorem ending?_ne_panicked (call : SystemCall) (mounted : Bool) :
    call.ending? mounted ≠ some .panicked := by
  cases call with
  | procExit code =>
    rw [ending?]
    split
    · simp
    · simp
  | pathOpen fd path length openFlags fdFlags address =>
    rw [ending?]
    split
    · simp
    · simp
  | _ => simp [ending?]

/-- On a snapshot a call that gets to work does what its answer does. -/
theorem run_eq_outcome {call : SystemCall} {exportsMemory : Bool} (hg : g.mounted = false)
    (hending : call.ending? false = none) (hneeds : ¬ (!exportsMemory && !call.isMemoryless)) :
    (call.run exportsMemory).run g = (outcome (call.answer g).1, (call.answer g).2) := by
  rw [run_apply, hg, hending]
  refine (if_neg hneeds).trans ?_
  rcases call.answer g with ⟨stop | _, g'⟩
  · rfl
  · rfl

/-- A call does not get to work, does not panic and leaves the guest alone, or it does
what it does. -/
theorem run_cases (call : SystemCall) (exportsMemory : Bool) :
    (∃ result, result ≠ .ok 0 ∧ result ≠ .error .panicked ∧ ∀ g : Guest, g.mounted = false →
        (call.run exportsMemory).run g = (result, g))
      ∨ ∀ g : Guest, g.mounted = false → (call.run exportsMemory).run g
        = (outcome (call.answer g).1, (call.answer g).2) := by
  cases hending : call.ending? false with
  | some ending =>
    have hne : ending ≠ .panicked := fun heq => call.ending?_ne_panicked false (heq ▸ hending)
    refine .inl ⟨.error ending, (fun heq => by cases heq), fun heq => hne (Except.error.inj heq),
      fun g hg => ?_⟩
    rw [run_apply, hg, hending]
    rfl
  | none =>
    by_cases hneeds : !exportsMemory && !call.isMemoryless
    · refine .inl ⟨_, Errno.fault.ok_number_ne_zero, (fun heq => by cases heq), fun g hg => ?_⟩
      rw [run_apply, hg, hending]
      exact if_pos hneeds
    · exact .inr fun g hg => run_eq_outcome hg hending hneeds

/-- A call with memory to work on panics where it adds to the last address. -/
theorem run_panics (hg : g.mounted = false) {call : SystemCall} (h : call.Passes g) :
    ((call.run true).run g).1 = .error .panicked := by
  have hending : call.ending? false = none := by
    cases call <;> first | rfl | exact h.elim
  rw [run_eq_outcome hg hending (by simp)]
  exact outcome_eq_panicked_iff.2 (answer_panics h)

/-- A call reads and writes where its arguments say. -/
structure KeepsTo (g : Guest) (call : SystemCall) : Prop where
  /-- No sum of addresses passes 32 bits: one that did would be a panic. -/
  not_panic : ∀ exportsMemory, ((call.run exportsMemory).run g).1 ≠ .error .panicked
  /-- A call that answers zero has worked on areas that lie in memory. -/
  inside : ∀ exportsMemory, ((call.run exportsMemory).run g).1 = .ok 0 →
    g.memory.HoldsAreas (call.reads g ++ call.writes g)
  /-- Unless it answers that an area does not lie in memory, a call answers and does the same in a
  larger memory, whatever stands there behind the end of this one. -/
  larger : ∀ exportsMemory, ((call.run exportsMemory).run g).1 ≠ .ok Errno.fault.number →
    ∀ m, g.memory.Begins m → ∃ m',
      (call.run exportsMemory).run { g with memory := m }
        = (((call.run exportsMemory).run g).1,
          { ((call.run exportsMemory).run g).2 with memory := m' })
      ∧ GuestMemory.Alike g.memory m ((call.run exportsMemory).run g).2.memory m'
  /-- So it answers this if an area does not lie in memory, and it would answer zero in a larger
  one. -/
  fault : ∀ exportsMemory m, g.memory.Begins m →
    ((call.run exportsMemory).run { g with memory := m }).1 = .ok 0 →
    ¬ g.memory.HoldsAreas (call.reads g ++ call.writes g) →
    ((call.run exportsMemory).run g).1 = .ok Errno.fault.number
  /-- Whatever it answers, only bytes of the memory may change that are in areas for results. -/
  byte : ∀ exportsMemory address,
    ((call.run exportsMemory).run g).2.memory.byte address ≠ g.memory.byte address →
      address < g.memory.size ∧ CoveredBy (call.writes g) address
  size_eq : ∀ exportsMemory, ((call.run exportsMemory).run g).2.memory.size = g.memory.size

/-- Where no sum passes, a run of a call does what its answer does. -/
theorem keepsTo_of_not_passes (hg : g.mounted = false) (hsize : g.memory.size ≤ 2 ^ 32)
    {call : SystemCall} (h : ¬ call.Passes g) : call.KeepsTo g := by
  have haccesses := accesses_answer hg hsize h
  have hinside : ∀ exportsMemory, ((call.run exportsMemory).run g).1 = .ok 0 →
      g.memory.HoldsAreas (call.reads g ++ call.writes g) := by
    intro exportsMemory hrun
    exact haccesses.inside_of_apply (answer_of_run (Prod.ext hrun rfl))
  have hlarger : ∀ exportsMemory,
      ((call.run exportsMemory).run g).1 ≠ .ok Errno.fault.number →
      ∀ m, g.memory.Begins m → ∃ m',
        (call.run exportsMemory).run { g with memory := m }
          = (((call.run exportsMemory).run g).1,
            { ((call.run exportsMemory).run g).2 with memory := m' })
        ∧ GuestMemory.Alike g.memory m ((call.run exportsMemory).run g).2.memory m' := by
    -- a call that is not let through does nothing, in the larger memory as well
    intro exportsMemory hne m hm
    rcases call.run_cases exportsMemory with ⟨result, -, -, hstays⟩ | hworks
    · rw [hstays g hg, hstays { g with memory := m } hg]
      exact ⟨m, rfl, hm.alike⟩
    · rw [hworks g hg] at hne ⊢
      rw [hworks { g with memory := m } hg]
      obtain ⟨m', hanswer, halike⟩ := haccesses.larger
        (fun heq => hne (outcome_eq_fault_iff.2 heq)) m hm
      exact ⟨m', by rw [hanswer], halike⟩
  refine ⟨fun exportsMemory => ?_, hinside, hlarger, ?_, ?_, ?_⟩
  · rcases call.run_cases exportsMemory with ⟨result, -, hne, hstays⟩ | hworks
    · rwa [hstays g hg]
    · rw [hworks g hg]
      exact fun heq => haccesses.not_panic _ (outcome_eq_panicked_iff.1 heq) rfl
  -- a success in the larger memory would be the same in this one, whose accesses lie inside
  · intro exportsMemory m hm hzero hout
    by_contra hne
    obtain ⟨m', hrun, -⟩ := hlarger exportsMemory hne m hm
    rw [hrun] at hzero
    exact hout (hinside exportsMemory hzero)
  · intro exportsMemory address hchanged
    rcases call.run_snd exportsMemory g with hstays | hworks
    · rw [hstays] at hchanged
      exact absurd rfl hchanged
    · rw [hworks] at hchanged
      exact haccesses.byte address hchanged
  · intro exportsMemory
    rcases call.run_snd exportsMemory g with hstays | hworks
    · rw [hstays]
    · rw [hworks]
      exact haccesses.size_eq

/-- A call panics in a memory of the greatest size only, and leaves the size if it does not. -/
theorem panics_or_size_eq (hg : g.mounted = false) (hsize : g.memory.size ≤ 2 ^ 32)
    (call : SystemCall) (exportsMemory : Bool) :
    ((call.run exportsMemory).run g).1 = .error .panicked ∧ g.memory.size = 2 ^ 32
      ∨ ((call.run exportsMemory).run g).1 ≠ .error .panicked
        ∧ ((call.run exportsMemory).run g).2.memory.size = g.memory.size := by
  by_cases hpasses : call.Passes g
  · rcases call.run_cases exportsMemory with ⟨result, -, hne, hstays⟩ | hworks
    · rw [hstays g hg]
      exact .inr ⟨hne, rfl⟩
    · rw [hworks g hg]
      exact .inl ⟨outcome_eq_panicked_iff.2 (answer_panics hpasses), hpasses.size_eq⟩
  · have hkeeps := keepsTo_of_not_passes hg hsize hpasses
    exact .inr ⟨hkeeps.not_panic exportsMemory, hkeeps.size_eq exportsMemory⟩

/-- At every moment of a run, in a memory of any size that 32 bits admit, a call keeps to its areas
unless one of its sums passes them. -/
theorem keepsTo_iff (h : Guest.Reachable start g) (hsize : g.memory.size ≤ 2 ^ 32)
    (call : SystemCall) : call.KeepsTo g ↔ ¬ call.Passes g :=
  ⟨fun hkeeps hpasses => hkeeps.not_panic true (run_panics h.not_mounted hpasses),
    keepsTo_of_not_passes h.not_mounted hsize⟩

open scoped Arithmetic in
/-- A guest in the root of an empty workspace, with a memory of the greatest size. -/
def spacious : Guest :=
  { (Guest.inRoot ∅).guest {} {} {} ⟨∅, ∅⟩ "" with memory := .zeroed (2 ^ (32 : Nat)) }

theorem reachable_spacious : ∃ start, Guest.Reachable start spacious :=
  ⟨_, ⟨Guest.inRoot ∅, {}, {}, {}, ⟨∅, ∅⟩, "", Path.isNormal_empty, rfl⟩, .single (.own _)⟩

/-- The record of the directory fits at the end of memory; one that begins four bytes later does
not. -/
theorem keepsTo_spacious : (∃ start, Guest.Reachable start spacious)
    ∧ spacious.memory.size ≤ 2 ^ 32
    ∧ (fdPrestatGet 3 4294967288).KeepsTo spacious
    ∧ ¬ (fdPrestatGet 3 4294967292).KeepsTo spacious := by
  obtain ⟨start, hreachable⟩ := reachable_spacious
  have hsize : spacious.memory.size ≤ 2 ^ 32 := Nat.le_refl _
  refine ⟨⟨start, hreachable⟩, hsize, ?_, ?_⟩
  · rw [keepsTo_iff hreachable hsize]
    exact fun hpasses => absurd hpasses.last (by decide)
  · rw [keepsTo_iff hreachable hsize, not_not]
    exact ⟨⟨_, rfl⟩, rfl, by decide⟩

/-- With the record four bytes before the end the call panics instead of answering that the record
does not lie in memory. -/
theorem not_forall_keepsTo : ¬ ∀ (start g : Guest) (call : SystemCall),
    Guest.Reachable start g → g.memory.size ≤ 2 ^ 32 → call.KeepsTo g := by
  intro h
  obtain ⟨start, hreachable⟩ := reachable_spacious
  have hkeeps := h start spacious (.fdPrestatGet 3 4294967292) hreachable (Nat.le_refl _)
  exact hkeeps.not_panic true (by decide +kernel)

end SystemCall

/-! ## Memory of runs -/

namespace Running

variable {r r' : Running} {bounds : MemoryBounds}

/-- A running program on a snapshot whose memory is within its bounds. -/
structure InBounds (bounds : MemoryBounds) (r : Running) : Prop where
  not_mounted : r.guest.mounted = false
  size_le : r.guest.memory.size ≤ bounds.bytes
  size_le_max : r.guest.memory.size ≤ maxPages * pageSize

/-- Only the size of the memory matters for staying in bounds, and whether there is a mount. -/
theorem InBounds.congr (h : InBounds bounds r) (hmounted : r'.guest.mounted = r.guest.mounted)
    (hsize : r'.guest.memory.size = r.guest.memory.size) : InBounds bounds r' :=
  ⟨hmounted.trans h.not_mounted, hsize.trans_le h.size_le, hsize.trans_le h.size_le_max⟩

/-- Growing stays within the bounds. -/
theorem size_of_grow {m m' : GuestMemory} {pages : Nat} (h : grow bounds m pages = some m')
    (hsize : m.size ≤ bounds.bytes) :
    m'.size ≤ bounds.bytes ∧ m'.size ≤ maxPages * pageSize := by
  rw [grow] at h
  split at h
  · next hgranted =>
    obtain rfl := Option.some.inj h
    simp only [Bool.and_eq_true, Bool.or_eq_true, decide_eq_true_eq] at hgranted
    obtain ⟨⟨-, hmax⟩, hbytes | rfl⟩ := hgranted
    · exact ⟨hbytes, Nat.mul_le_mul_right pageSize hmax⟩
    · exact ⟨(Nat.div_mul_le_self m.size pageSize).trans hsize,
        Nat.mul_le_mul_right pageSize hmax⟩
  · cases h

/-- An end that is a panic only where the bounds admit the greatest size, and is within the bounds
otherwise. -/
structure EndsWithin (bounds : MemoryBounds) (panicked : Prop) (r : Running) : Prop where
  of_panic : panicked → 2 ^ 32 ≤ bounds.bytes
  bounded : ¬ panicked → InBounds bounds r

theorem InBounds.endsWithin (h : InBounds bounds r) {panicked : Prop} (hp : ¬ panicked) :
    EndsWithin bounds panicked r :=
  ⟨fun hpanic => absurd hpanic hp, fun _ => h⟩

/-- What a call leaves is within the bounds that it started in. -/
theorem InBounds.endsWithin_run (h : InBounds bounds r) {exportsMemory : Bool} {call : SystemCall}
    {result : Except Ending Nat} {g' : Guest}
    (hrun : (call.run exportsMemory).run r.guest = (result, g')) (last : Nat)
    (log : List LogEntry) : EndsWithin bounds (result = .error .panicked) ⟨g', last, log⟩ := by
  have hcall := call.panics_or_size_eq h.not_mounted h.size_le_max exportsMemory
  have hmounted := (SystemCall.capture_run h.not_mounted exportsMemory call .out).1
  rw [hrun] at hcall hmounted
  rcases hcall with ⟨hpanic, hsize⟩ | ⟨hne, hsize⟩
  · exact ⟨fun _ => hsize ▸ h.size_le, fun hne => absurd hpanic hne⟩
  · exact InBounds.endsWithin (h.congr (hmounted.trans h.not_mounted.symm) hsize) hne

/-- So is what leaving the program leaves. -/
theorem InBounds.endsWithin_exitWith (h : InBounds bounds r) (exportsMemory : Bool) (code : Int) :
    EndsWithin bounds ((step.exitWith exportsMemory r code).1 = .error .panicked)
      (step.exitWith exportsMemory r code).2 := by
  rw [step.exitWith]
  split
  · next ending g' hrun => simpa using h.endsWithin_run hrun r.last r.log
  · next number g' hrun => simpa using h.endsWithin_run hrun r.last r.log

/-- A memory of the same size keeps a program in bounds. -/
theorem InBounds.withMemory (h : InBounds bounds r) {m : GuestMemory}
    (hsize : m.size = r.guest.memory.size) (last : Nat) (log : List LogEntry) :
    InBounds bounds ⟨{ r.guest with memory := m }, last, log⟩ :=
  h.congr rfl hsize

/-- A step panics only where the bounds admit the greatest size; otherwise it stays within them. -/
theorem InBounds.endsWithin_step (h : InBounds bounds r) (exportsMemory : Bool) (s : Step) :
    EndsWithin bounds ((step exportsMemory bounds r s).1 = .error .panicked)
      (step exportsMemory bounds r s).2 := by
  -- a step that leaves memory and descriptors leaves the program where it was
  have hstay : ∀ {result : Except Ending LogEntry} (last : Nat) (log : List LogEntry),
      result ≠ .error .panicked →
        EndsWithin bounds (result = .error .panicked) ⟨r.guest, last, log⟩ :=
    fun last log hne => InBounds.endsWithin (r := ⟨r.guest, last, log⟩) (h.congr rfl rfl) hne
  cases s with
  | call c =>
    rw [step]
    split
    · next ending g' hrun => simpa using h.endsWithin_run hrun r.last r.log
    · next number g' hrun => simpa [finish] using h.endsWithin_run hrun number _
  | poke address data =>
    rw [step]
    dsimp only
    split
    · exact (h.withMemory (GuestMemory.size_store _ _ _) _ _).endsWithin (by simp [finish])
    · exact hstay _ _ (by simp [fault])
  | peek address length =>
    rw [step]
    split
    · exact hstay _ _ (by simp [finish])
    split
    · exact hstay _ _ (by simp [finish])
    · exact hstay _ _ (by simp [fault])
  | copyWord target source =>
    rw [step]
    dsimp only
    split
    · exact (h.withMemory (GuestMemory.size_store _ _ _) _ _).endsWithin (by simp [finish])
    · exact hstay _ _ (by simp [fault])
  | grow pages =>
    rw [step]
    dsimp only
    split
    -- growing is the one step that changes the size, and it keeps to the most there may be
    · next memory hgrow =>
      obtain ⟨hbytes, hmax⟩ := size_of_grow hgrow h.size_le
      have hgrown : InBounds bounds
          ⟨{ r.guest with memory }, r.last,
            r.log ++ [.pages (some (r.guest.memory.size / pageSize))]⟩ :=
        ⟨h.not_mounted, hbytes, hmax⟩
      exact hgrown.endsWithin (by simp [finish])
    · exact hstay _ _ (by simp [finish])
  | exit code => exact h.endsWithin_exitWith exportsMemory code
  | exitLast => exact h.endsWithin_exitWith exportsMemory _
  | exitWord address =>
    rw [step]
    split
    · exact h.endsWithin_exitWith exportsMemory _
    · exact hstay _ _ (by simp [fault])
  | trap t => exact hstay _ _ (by simp [step, fault])

/-- So does a run, by induction on its steps. -/
theorem InBounds.endsWithin_steps (h : InBounds bounds r) (exportsMemory : Bool)
    (program : List Step) :
    EndsWithin bounds ((steps exportsMemory bounds r program).1 = .panicked)
      (steps exportsMemory bounds r program).2 := by
  induction program generalizing r with
  | nil => exact h.endsWithin (by simp [steps])
  | cons s rest ih =>
    have hstep := h.endsWithin_step exportsMemory s
    rw [steps]
    split
    · next ending r' hend =>
      rw [hend] at hstep
      simpa using hstep
    · next entry r' hend =>
      rw [hend] at hstep
      exact ih (hstep.bounded (by simp))

end Running

namespace Engine

variable {config : EngineConfig} {surroundings : Surroundings} {r : GuestRequest}
variable {after : Running}

/-- The memory of a program that loads is within the ceiling, and has at most so many pages. -/
theorem size_of_load {module : GuestModule} {ceiling : Nat} {p : GuestProgram}
    (h : module.load ceiling = .ok p) :
    p.pages * pageSize ≤ ceiling ∧ p.pages * pageSize ≤ maxPages * pageSize := by
  cases module with
  | malformed => cases h
  | program p' =>
    dsimp only [GuestModule.load] at h
    -- only the first and the fifth check are about the size of memory
    split at h
    · cases h
    next hdeclares =>
    split at h
    · cases h
    split at h
    · cases h
    split at h
    · cases h
    split at h
    · cases h
    next hgranted =>
    split at h
    · cases h
    obtain rfl : p' = p := Except.ok.inj h
    rw [Bool.not_eq_true, Bool.not_eq_false', GuestProgram.declaresMemory, Bool.and_eq_true,
      decide_eq_true_eq] at hdeclares
    refine ⟨?_, Nat.mul_le_mul_right pageSize hdeclares.1⟩
    rw [Bool.and_eq_true, decide_eq_true_eq, decide_eq_true_eq, not_and, Nat.not_lt] at hgranted
    rcases Nat.eq_zero_or_pos p'.pages with hzero | hpos
    · rw [hzero, Nat.zero_mul]
      exact Nat.zero_le ceiling
    · exact hgranted hpos.ne'

/-- A run on a snapshot panics only where the engine grants a memory of the greatest size. -/
theorem maxMemory_of_panicked (h : play config surroundings r = .ok (.panicked, after)) :
    2 ^ 32 ≤ config.maxMemory := by
  rw [play_eq_start] at h
  obtain ⟨⟨p, first⟩, hstart, hplayed⟩ := exists_of_map_eq_ok h
  have hsteps : (Running.steps (p.memory = .asExpected) (p.bounds config.maxMemory) first
      p.steps).1 = .panicked := congrArg Prod.fst hplayed
  obtain ⟨_, _, _, -, -, hload, rfl⟩ := exists_of_start hstart
  obtain ⟨hceiling, hmax⟩ := size_of_load hload
  exact (Running.InBounds.endsWithin_steps ⟨rfl, hceiling, hmax⟩ _ _).of_panic hsteps

end Engine

end Sandshell
