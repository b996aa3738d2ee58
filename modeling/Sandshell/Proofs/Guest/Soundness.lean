import Sandshell.Proofs.Guest.Answer
import Sandshell.Proofs.Guest.Numbering
import Sandshell.Proofs.Guest.Streams

/-!
# What holds of a guest at every moment

The numbers of descriptors, the paths that they stand for, the files and the input are in order
whatever calls a guest has made. Numbers of opened descriptors go up, and a number that was closed
is of no use any more.
-/

namespace Sandshell

open Sandshell.Path (Below IsNormal isWithin)
open Relation (ReflTransGen)

/-! ## Calls on nothing -/

namespace GuestMemory

open Law (unchanged)

theorem unchanged_slice (start length : Nat) : unchanged.Obeys (slice start length) :=
  Law.obeys_unchanged fun m => ⟨_, slice_apply start length m⟩

theorem unchanged_readWord (start : Nat) : unchanged.Obeys (readWord start) :=
  (unchanged_slice start 4).bind fun _ => Law.obeys_pure _

/-- Reading an array of buffers leaves the memory as it is. -/
theorem unchanged_readBuffers (start count : Nat) : unchanged.Obeys (readBuffers start count) := by
  induction count generalizing start with
  | zero => exact Law.obeys_pure _
  | succ count ih =>
    exact (unchanged_readWord _).bind fun _ => (unchanged_readWord _).bind fun _ =>
      (ih _).bind fun _ => Law.obeys_pure _

end GuestMemory

namespace Guest

open Law (unchanged)

variable {α : Type} {g : Guest} {fd : UInt32}

/-- A step that leaves the memory as it is leaves the guest as it is. -/
theorem unchanged_onMemory {step : MemoryM α} (h : unchanged.Obeys step) :
    unchanged.Obeys (onMemory step) :=
  Law.obeys_unchanged fun g => by
    obtain ⟨result, hresult⟩ := h.exists_apply_eq g.memory
    exact ⟨result, onMemory_apply hresult⟩

/-- Gathering the bytes leaves the guest as it is. -/
theorem unchanged_gather (buffers : List (UInt32 × UInt32)) : unchanged.Obeys (gather buffers) := by
  induction buffers with
  | nil => exact Law.obeys_pure _
  | cons buffer rest ih =>
    exact (unchanged_onMemory (GuestMemory.unchanged_slice _ _)).bind fun _ =>
      ih.bind fun _ => Law.obeys_pure _

/-- Finding the data of a write changes nothing. -/
theorem unchanged_buffered (buffers count : UInt32) : unchanged.Obeys (buffered buffers count) :=
  (unchanged_onMemory (GuestMemory.unchanged_readBuffers _ _)).bind fun _ =>
    Law.Obeys.bind (fun _ => rfl) fun _ => unchanged_gather _

theorem ne_of_not_isStream (h : isStream fd = false) : fd ≠ 0 ∧ fd ≠ 1 ∧ fd ≠ 2 := by
  refine ⟨?_, ?_, ?_⟩ <;> (rintro rfl; revert h; decide)

/-- A path leads nowhere from a number that stands for nothing. -/
theorem target_of_absent (habsent : g.descriptors.get? fd.toNat = none) (path length : UInt32) :
    ∃ e, g.target fd path length = .error e := by
  rw [target]
  cases g.memory.textAt path.toNat length.toNat with
  | error e => exact ⟨e, rfl⟩
  | ok text =>
    refine ⟨.badf, ?_⟩
    show g.descriptors.resolve fd.toNat text = _
    rw [DescriptorTable.resolve, habsent]

/-- Nothing resolves from a descriptor that is not there. -/
theorem resolve_of_absent (habsent : g.descriptors.get? fd.toNat = none) (path length : UInt32) :
    ∃ e, resolve fd path length g = (.error e, g) := by
  obtain ⟨e, htarget⟩ := target_of_absent habsent path length
  exact ⟨e, by rw [resolve_apply, htarget]⟩

theorem descriptor?_bind_of_absent (habsent : g.descriptors.get? fd.toNat = none)
    (f : Option Descriptor → CallM α) : (descriptor? fd >>= f) g = f none g := by
  show f (g.descriptors.get? fd.toNat) g = _
  rw [habsent]

/-- So it does among steps that may panic. -/
theorem descriptor?_ofStep_bind_of_absent (habsent : g.descriptors.get? fd.toNat = none)
    (f : Option Descriptor → PanicM Guest α) : (liftM (descriptor? fd) >>= f) g = f none g := by
  show f (g.descriptors.get? fd.toNat) g = _
  rw [habsent]

/-- Without a descriptor there is no name to ask for. -/
theorem startName_of_absent (habsent : g.descriptors.get? fd.toNat = none) :
    startName fd g = (.error .badf, g) :=
  descriptor?_bind_of_absent habsent _

/-- Writing to a descriptor that is not there fails and changes nothing. -/
theorem fdWrite_of_absent (hg : g.mounted = false) (hstream : isStream fd = false)
    (habsent : g.descriptors.get? fd.toNat = none) (buffers count written : UInt32) :
    ∃ e, fdWrite fd buffers count written g = (.error e, g) := by
  obtain ⟨hin, hout, herr⟩ := ne_of_not_isStream hstream
  obtain ⟨result, hread⟩ := (unchanged_buffered buffers count).exists_apply_eq g
  rw [fdWrite_eq]
  cases result with
  | error e => exact ⟨e, bind_apply_error hread⟩
  | ok data =>
    have hwrite : writeData fd data g = (.error .badf, g) := by
      rw [writeData_eq hg, if_neg hin, if_neg hout, if_neg herr]
      exact descriptor?_bind_of_absent habsent _
    exact ⟨.badf, (bind_apply_ok hread).trans (bind_apply_error hwrite)⟩

/-- So does reading from one. -/
theorem fdRead_of_absent (hstream : isStream fd = false)
    (habsent : g.descriptors.get? fd.toNat = none) (buffers count read : UInt32) :
    ∃ e, fdRead fd buffers count read g = (.error e, g) := by
  obtain ⟨result, hread⟩ := (unchanged_onMemory
    (GuestMemory.unchanged_readBuffers buffers.toNat count.toNat)).exists_apply_eq g
  rw [fdRead]
  cases result with
  | error e => exact ⟨e, bind_apply_error hread⟩
  | ok found =>
    refine ⟨.badf, (bind_apply_ok hread).trans ?_⟩
    dsimp only
    rw [if_neg (ne_of_not_isStream hstream).1, if_neg (by simp [hstream])]
    exact bind_apply_error (descriptor?_bind_of_absent habsent _)

end Guest

namespace SystemCall

variable {g : Guest} {fd : UInt32}

/-- The descriptor that a call is made on. -/
def descriptor? : SystemCall → Option UInt32
  | .fdWrite fd _ _ _ | .fdRead fd _ _ _ | .fdSeek fd _ _ _ | .fdTell fd _ | .fdClose fd
  | .fdPrestatGet fd _ | .fdPrestatDirName fd _ _ | .fdFdstatGet fd _ | .fdFilestatGet fd _
  | .fdReaddir fd _ _ _ _ | .pathOpen fd _ _ _ _ _ | .pathFilestatGet fd _ _ _
  | .pathUnlinkFile fd _ _ | .pathCreateDirectory fd _ _ => some fd
  | _ => none

/-- A call on a number that stands for nothing fails and leaves the guest as it is. -/
theorem answer_of_absent (call : SystemCall) (hg : g.mounted = false)
    (hcall : call.descriptor? = some fd) (hstream : Guest.isStream fd = false)
    (habsent : g.descriptors.get? fd.toNat = none) : ∃ stop, call.answer g = (.error stop, g) := by
  -- what fails as it stands fails in the same way among steps that may panic
  have hstep : ∀ {x : CallM Unit} {e : Errno}, x g = (.error e, g) →
      ∃ stop, (liftM x : PanicM Guest Unit) g = (.error stop, g) :=
    fun hx => ⟨_, PanicM.liftM_apply_error hx⟩
  cases call <;> cases hcall
  case fdWrite buffers count written =>
    exact (Guest.fdWrite_of_absent hg hstream habsent buffers count written).elim fun _ => hstep
  case fdRead buffers count read =>
    exact (Guest.fdRead_of_absent hstream habsent buffers count read).elim fun _ => hstep
  case fdSeek delta whence offset => exact hstep (Guest.descriptor?_bind_of_absent habsent _)
  case fdTell offset => exact hstep (Guest.descriptor?_bind_of_absent habsent _)
  case fdClose =>
    refine hstep (e := .badf) ((Guest.fdClose_apply fd g).trans ?_)
    rw [hstream, habsent]
    rfl
  case fdPrestatGet address =>
    exact ⟨_, bind_apply_error (PanicM.liftM_apply_error (Guest.startName_of_absent habsent))⟩
  case fdPrestatDirName address length =>
    exact hstep (bind_apply_error (Guest.startName_of_absent habsent))
  case fdFdstatGet address =>
    refine ⟨.errno .badf, (Guest.descriptor?_ofStep_bind_of_absent habsent _).trans ?_⟩
    dsimp only
    rw [hstream]
    rfl
  case fdFilestatGet address =>
    refine ⟨.errno .badf, (Guest.descriptor?_ofStep_bind_of_absent habsent _).trans ?_⟩
    dsimp only
    rw [hstream]
    rfl
  case fdReaddir buffer length cookie used =>
    exact hstep (Guest.descriptor?_bind_of_absent habsent _)
  case pathOpen path length openFlags fdFlags address =>
    rcases Guest.pathOpen_cases g fd path length openFlags fdFlags address
      with ⟨e, herror⟩ | ⟨-, resolved, flags, htarget, -⟩
    · exact hstep herror
    · obtain ⟨e, htarget'⟩ := Guest.target_of_absent habsent path length
      rw [htarget'] at htarget
      cases htarget
  case pathFilestatGet path length address =>
    obtain ⟨e, hresolve⟩ := Guest.resolve_of_absent habsent path length
    exact ⟨_, bind_apply_error (PanicM.liftM_apply_error hresolve)⟩
  case pathUnlinkFile path length =>
    exact (Guest.resolve_of_absent habsent path length).elim fun _ h => hstep (bind_apply_error h)
  case pathCreateDirectory path length =>
    exact (Guest.resolve_of_absent habsent path length).elim fun _ h => hstep (bind_apply_error h)

end SystemCall

/-! ## Opening and closing -/

namespace Guest

variable {files : FileSet} {r : GuestRequest} {g g' : Guest} {fd : UInt32} {number : Nat}

/-- The guest opens something, and finds its number where the call has stored it. -/
inductive Opens (g : Guest) : Nat → Guest → Prop
  | intro {exportsMemory : Bool} {fd path length openFlags fdFlags address : UInt32} {g' : Guest}
    (h : ((SystemCall.pathOpen fd path length openFlags fdFlags address).run exportsMemory).run g
      = (.ok 0, g')) : Opens g (g'.memory.area address.toNat 4).toNumber g'

/-- The guest closes something. -/
inductive Closes (g : Guest) (fd : UInt32) : Guest → Prop
  | intro {exportsMemory : Bool} {g' : Guest} {d : Descriptor}
    (hget : g.descriptors.get? fd.toNat = some d)
    (h : ((SystemCall.fdClose fd).run exportsMemory).run g = (.ok 0, g')) : Closes g fd g'

/-- Opening is an act. -/
theorem Opens.act (h : Opens g number g') : Act g g' := by
  obtain @⟨exportsMemory, fd, path, length, openFlags, fdFlags, address, _, h⟩ := h
  have hact : Act g (((SystemCall.pathOpen fd path length openFlags fdFlags address).run
    exportsMemory).run g).2 := .call exportsMemory _
  rwa [h] at hact

/-- Closing is one too. -/
theorem Closes.act (h : Closes g fd g') : Act g g' := by
  obtain @⟨exportsMemory, _, _, _, h⟩ := h
  have hact : Act g (((SystemCall.fdClose fd).run exportsMemory).run g).2 := .call exportsMemory _
  rwa [h] at hact

/-- The number is the next one. -/
theorem Opens.next_eq (h : Opens g number g') :
    number = g.descriptors.next ∧ g'.descriptors.next = number + 1 := by
  obtain @⟨_, fd, path, length, openFlags, fdFlags, address, _, h⟩ := h
  have hanswer := PanicM.of_liftM_apply_eq_ok (SystemCall.answer_of_run h)
  rcases pathOpen_cases g fd path length openFlags fdFlags address
    with ⟨e, herror⟩ | ⟨hholds, resolved, flags, htarget, hflags, hfdFlags⟩
  · cases herror.symm.trans hanswer
  · have hopened := (pathOpen_apply hholds htarget hflags hfdFlags).symm.trans hanswer
    cases hopen : openEntry g.files resolved flags (fdFlags.toNat.testBit 0) with
    | error e =>
      rw [hopen] at hopened
      cases hopened
    | ok opened =>
      rw [hopen] at hopened
      dsimp only at hopened
      cases hinsert : g.descriptors.insert opened.1 with
      | error e =>
        rw [hinsert] at hopened
        cases hopened
      | ok inserted =>
        rw [hinsert] at hopened
        cases hopened
        obtain ⟨hroom, hnumber, htable⟩ := DescriptorTable.insert_eq_ok hinsert
        have hlt : inserted.1 < 256 ^ 4 := by
          rw [hnumber]
          exact lt_trans (Nat.lt_succ_self _) hroom
        refine ⟨(GuestMemory.toNumber_area_store _ _ hlt).trans hnumber, ?_⟩
        show inserted.2.next = _
        rw [GuestMemory.toNumber_area_store _ _ hlt, htable, hnumber]
        rfl

/-- What is closed stands for nothing afterwards, and was handed out before. -/
theorem Closes.spent (hg : g.descriptors.Numbered) (h : Closes g fd g') :
    isStream fd = false ∧ fd.toNat < g'.descriptors.next
      ∧ g'.descriptors.get? fd.toNat = none := by
  obtain ⟨hget, h⟩ := h
  have hstream := not_isStream_of_numbered hg hget
  have hclosed := (fdClose_apply fd g).symm.trans
    (PanicM.of_liftM_apply_eq_ok (SystemCall.answer_of_run h))
  rw [hstream, hget] at hclosed
  cases hclosed
  refine ⟨hstream, hg.lt_next hget, ?_⟩
  show (g.descriptors.remove fd.toNat).get? fd.toNat = none
  rw [DescriptorTable.get?_remove, if_pos rfl]

/-! ## Input -/

/-- No change puts anything back into the input. -/
theorem Change.stdin_suffix (h : Change g g') : g'.stdin <:+ g.stdin := by
  cases h with
  | input n => exact List.drop_suffix n g.stdin
  | _ => exact List.suffix_refl _

/-- What is left of the input is the end of what the request gave. -/
theorem Reached.stdin_suffix (h : Reached files r g) : g.stdin <:+ r.stdin :=
  h.of_changes (P := fun g => g.stdin <:+ r.stdin) (fun _ _ _ => List.suffix_refl _)
    fun _ _ hg hchange => hchange.stdin_suffix.trans hg

/-- The place in the input of the request from which the guest reads on. -/
structure ReadsFrom (input : Bytes) (position : Nat) (g : Guest) : Prop where
  position_le : position ≤ input.length
  stdin_eq : g.stdin = input.drop position

/-- A rest of the input has a place in it. -/
theorem exists_readsFrom {input : Bytes} (h : g.stdin <:+ input) :
    ∃ position, ReadsFrom input position g := by
  obtain ⟨before, rfl⟩ := h
  exact ⟨before.length, by simp, by simp⟩

/-- A read takes what is there from the place on, and moves the place behind it. -/
theorem ReadsFrom.readInput {input : Bytes} {position : Nat} (h : ReadsFrom input position g)
    (most : Nat) : ∃ taken, (readInput most g).1 = .ok taken
      ∧ taken = (input.drop position).take most
      ∧ ReadsFrom input (position + taken.length) (readInput most g).2 := by
  refine ⟨g.stdin.take most, rfl, h.stdin_eq ▸ rfl, ?_, ?_⟩
  · have hposition := h.position_le
    rw [h.stdin_eq, List.length_take, List.length_drop]
    omega
  · show g.stdin.drop most = _
    rw [h.stdin_eq, List.drop_drop, List.length_take, List.length_drop]
    by_cases hmost : most ≤ input.length - position
    · rw [min_eq_left hmost]
    · rw [List.drop_eq_nil_of_le (by omega), List.drop_eq_nil_of_le (by omega)]

/-! ## Every moment -/

/-- The state of a guest is in order. -/
structure Sound (r : GuestRequest) (g : Guest) : Prop where
  not_stream : ∀ fd d, g.descriptors.get? fd = some d → fd ≠ 0 ∧ fd ≠ 1 ∧ fd ≠ 2
  start : ∀ d, g.descriptors.get? 3 = some d → d = .directory r.cwd "."
  handed_out : ∀ fd d, g.descriptors.get? fd = some d → fd ≠ 3 → 4 ≤ fd ∧ fd < g.descriptors.next
  path : ∀ fd d, g.descriptors.get? fd = some d → IsNormal d.path ∧ isWithin r.cwd d.path
  file : ∀ p ∈ g.files.files, IsNormal p ∧ p ≠ "" ∧ g.files.isDirectory p = false
    ∧ ∀ q, g.files.IsKey q → ¬ Below p q
  input : ∃ position, ReadsFrom r.stdin position g

/-- Every guest that is reached is sound. -/
theorem Reached.isSound (h : Reached files r g) : g.Sound r where
  not_stream fd d hget := by
    rcases h.numbered.cases fd d hget with ⟨rfl, -⟩ | ⟨hfour, -⟩
    · decide
    · omega
  start d hget := by
    rcases h.numbered.cases 3 d hget with ⟨-, hd⟩ | ⟨hfour, -⟩
    · rw [hd, h.root_eq]
    · omega
  handed_out fd d hget hne := (h.numbered.cases fd d hget).resolve_left fun hstart => hne hstart.1
  path fd d hget := ⟨h.confined.normal fd d hget, h.root_eq ▸ h.confined.isWithin fd d hget⟩
  file p hp := ⟨h.wellFormed_files.normal_file p hp, h.wellFormed_files.ne_root hp,
    h.wellFormed_files.file_not_directory p hp, fun _ hq => h.wellFormed_files.not_below hp hq⟩
  input := exists_readsFrom h.stdin_suffix

/-- Whatever calls a guest has made, its state is in order, whatever it opens later has a higher
number than what it opens now, a number that it closes is refused by every later call, and a read
takes no more of the input than there is. -/
theorem sound_of_reached (h : Reached files r g) :
    g.Sound r
      ∧ (∀ number number' g₁ g₂ g₃, Opens g number g₁ → ReflTransGen Act g₁ g₂ →
        Opens g₂ number' g₃ → number < number')
      ∧ (∀ fd g₁ g₂ exportsMemory call, Closes g fd g₁ → ReflTransGen Act g₁ g₂ →
        SystemCall.descriptor? call = some fd →
          ((call.run exportsMemory).run g₂).1 ≠ .ok 0 ∧ ((call.run exportsMemory).run g₂).2 = g₂)
      ∧ ∀ position most, ReadsFrom r.stdin position g →
        ∃ taken, (readInput most g).1 = .ok taken ∧ taken = (r.stdin.drop position).take most
          ∧ ReadsFrom r.stdin (position + taken.length) (readInput most g).2 := by
  refine ⟨h.isSound, ?_, ?_, fun position most hposition => hposition.readInput most⟩
  · intro number number' g₁ g₂ g₃ hopens hacts hopens'
    have hlater := ((h.trans (.single hopens.act)).later hacts).next_le
    have hnext := hopens.next_eq.2
    have hnumber' := hopens'.next_eq.1
    omega
  · intro fd g₁ g₂ exportsMemory call hcloses hacts hcall
    have hreached := h.trans (.single hcloses.act)
    obtain ⟨hstream, hlt, hnone⟩ := hcloses.spent h.numbered
    have habsent := (hreached.later hacts).get?_eq_none hlt hnone
    obtain ⟨e, herror⟩ := SystemCall.answer_of_absent call (hreached.trans hacts).not_mounted hcall
      hstream habsent
    exact SystemCall.run_of_error herror

/-- A guest that has opened the file `f` in the root. -/
def opened : Guest :=
  (((SystemCall.pathOpen 3 0 1 0 0 8).run true).run
    (startWith ((∅ : FileSet).insert "f" []) "f")).2

/-- It closes the file again. -/
def closed : Guest :=
  (((SystemCall.fdClose 4).run true).run opened).2

theorem reached_opened :
    Reached ((∅ : FileSet).insert "f" []) (inRoot ((∅ : FileSet).insert "f" [])) opened :=
  (reached_startWith (by decide +kernel) "f").call _ _

theorem closes_opened : Closes opened 4 closed := by
  have hget : opened.descriptors.get? 4 = some (.file "f" 0 false) := by decide +kernel
  have hanswer : (((SystemCall.fdClose 4).run true).run opened).1 = .ok 0 := by decide +kernel
  exact .intro hget (Prod.ext hanswer rfl)

/-- The number 4 is of no use to this guest any more. -/
theorem refused_closed :
    Reached ((∅ : FileSet).insert "f" []) (inRoot ((∅ : FileSet).insert "f" [])) opened
      ∧ opened.Sound (inRoot ((∅ : FileSet).insert "f" [])) ∧ Closes opened 4 closed
      ∧ ∀ g exportsMemory call, ReflTransGen Act closed g → SystemCall.descriptor? call = some 4 →
        ((call.run exportsMemory).run g).1 ≠ .ok 0 ∧ ((call.run exportsMemory).run g).2 = g := by
  obtain ⟨hsound, -, hclosed, -⟩ := sound_of_reached reached_opened
  exact ⟨reached_opened, hsound, closes_opened, fun g exportsMemory call hacts hcall =>
    hclosed 4 closed g exportsMemory call closes_opened hacts hcall⟩

end Guest

end Sandshell
