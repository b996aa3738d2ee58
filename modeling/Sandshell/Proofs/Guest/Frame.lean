import Sandshell.Guest.SystemCall
import Sandshell.Proofs.Law

/-!
# What calls leave alone

Most calls work on the memory of a guest, its input, its random bytes and its descriptors. A relation
that all these can be changed in holds between a guest and what such a call makes of it. Opening,
removing and making change the files as well, and one call writes to the streams.
-/

namespace Sandshell

namespace Guest

variable {α ε : Type} {R : Guest → Guest → Prop}

/-- A relation that leaves memory, input and random bytes free. -/
structure Calm (R : Guest → Guest → Prop) : Prop where
  refl : ∀ g, R g g
  trans : ∀ g g' g'', R g g' → R g' g'' → R g g''
  memory : ∀ g m, R g { g with memory := m }
  input : ∀ g rest, R g { g with stdin := rest }
  drawn : ∀ g drawn, R g { g with drawn }

/-- A relation that leaves descriptors free as well. -/
structure Frame (R : Guest → Guest → Prop) : Prop extends Calm R where
  descriptors : ∀ g t, R g { g with descriptors := t }

namespace Calm

open Law (obeys_pure)

/-- The step stays in the relation, also when it fails. -/
def law (h : Calm R) : Law Guest ε :=
  .along R h.refl h.trans

section

variable (h : Calm R)
include h

/-! ## Parts of calls -/

/-- What only fails leaves the guest as it is. -/
theorem throw_obeys (e : ε) : h.law.Obeys (throw e : ExceptT ε (StateM Guest) α) :=
  Law.obeys_throw h.refl

theorem get_obeys : h.law.Obeys (get : ExceptT ε (StateM Guest) Guest) :=
  h.refl

/-- An update has to be one that the frame allows. -/
theorem modify_obeys {f : Guest → Guest} (hf : ∀ g, R g (f g)) :
    h.law.Obeys (modify f : CallM Unit) :=
  hf

/-- A step that does not panic obeys among those that may. -/
theorem ofStep_obeys {x : CallM α} (hx : h.law.Obeys x) :
    h.law.Obeys (liftM x : PanicM Guest α) :=
  Law.obeys_along_iff.2 fun g => Law.obeys_along_iff.1 hx g

/-- A result that is there already is no step of its own. -/
theorem liftM_obeys (r : Except Errno α) : h.law.Obeys (liftM r : CallM α) := by
  cases r with
  | error e => exact h.throw_obeys e
  | ok a => exact obeys_pure a

/-- Steps on the memory are in every frame. -/
theorem onMemory_obeys (step : ExceptT ε (StateM GuestMemory) α) : h.law.Obeys (onMemory step) :=
  Law.obeys_along_iff.2 fun g => h.memory g _

/-- A check before a step that obeys. -/
theorem check_obeys {c : Prop} [Decidable c] {e : Errno} {f : PUnit → CallM α} {x : CallM α}
    (hx : h.law.Obeys x) : h.law.Obeys (if c then throw e >>= f else x) := by
  split
  · exact h.throw_obeys e
  · exact hx

theorem descriptor?_obeys (fd : UInt32) : h.law.Obeys (descriptor? fd) :=
  h.refl

theorem word_obeys (n : Nat) : h.law.Obeys (word n) := by
  unfold word
  split
  · exact obeys_pure _
  · exact h.throw_obeys _

theorem writeWord_obeys (start n : Nat) :
    h.law.Obeys (do onMemory (GuestMemory.writeWord start (← word n))) :=
  (h.word_obeys n).bind fun _ => h.onMemory_obeys _

/-- Resolving a path reads only. -/
theorem resolve_obeys (fd path length : UInt32) : h.law.Obeys (resolve fd path length) := by
  refine (h.onMemory_obeys _).bind fun text => h.get_obeys.bind fun g => ?_
  split
  · exact obeys_pure _
  · exact h.throw_obeys _

/-! ## Arguments, environment, time and chance -/

/-- Of all that a call about texts does, only the memory shows. -/
theorem textSizes_obeys (texts : List String) (count size : UInt32) :
    h.law.Obeys (textSizes texts count size) :=
  (h.word_obeys _).bind fun _ => (h.onMemory_obeys _).bind fun _ => h.writeWord_obeys _ _

theorem clockTimeGet_obeys (clock address : UInt32) : h.law.Obeys (clockTimeGet clock address) :=
  h.check_obeys (h.get_obeys.bind fun _ => h.onMemory_obeys _)

theorem randomGet_obeys (buffer length : UInt32) : h.law.Obeys (randomGet buffer length) :=
  (h.onMemory_obeys _).bind fun _ => h.get_obeys.bind fun _ => (h.onMemory_obeys _).bind fun _ =>
    h.modify_obeys fun g => h.drawn g _

/-! ## Reading and moving -/

/-- Gathering bytes reads them from the memory only. -/
theorem gather_obeys (buffers : List (UInt32 × UInt32)) : h.law.Obeys (gather buffers) := by
  induction buffers with
  | nil => exact obeys_pure _
  | cons buffer rest ih => exact (h.onMemory_obeys _).bind fun _ => ih.bind fun _ => obeys_pure _

/-- Scattering bytes changes the memory only. -/
theorem scatter_obeys (buffers : List (UInt32 × UInt32)) (data : Bytes) :
    h.law.Obeys (scatter buffers data) := by
  induction buffers generalizing data with
  | nil => exact obeys_pure _
  | cons buffer rest ih =>
    rw [scatter]
    split
    · exact obeys_pure _
    · exact (h.onMemory_obeys _).bind fun _ => ih _

theorem readInput_obeys (most : Nat) : h.law.Obeys (readInput most) :=
  h.get_obeys.bind fun g => Law.Obeys.bind (h.modify_obeys fun g => h.input g _)
    fun _ => obeys_pure (g.stdin.take most)

/-- Reading does what reading from a file does. -/
theorem fdRead_obeys_of {fd : UInt32} (hfile : ∀ most, h.law.Obeys (readFile fd most))
    (buffers count read : UInt32) : h.law.Obeys (fdRead fd buffers count read) := by
  refine (h.onMemory_obeys _).bind fun buffers => ?_
  have hrest : ∀ data, h.law.Obeys (do
      scatter buffers data
      onMemory (GuestMemory.writeWord read.toNat (← word data.length))) :=
    fun data => (h.scatter_obeys buffers data).bind fun _ => h.writeWord_obeys _ _
  dsimp only
  split
  · exact (h.readInput_obeys _).bind hrest
  split
  · exact h.throw_obeys _
  · exact (hfile _).bind hrest

/-- Moving from any place does what moving to a place does. -/
theorem fdSeek_obeys_of {fd offset : UInt32} (hseek : ∀ there, h.law.Obeys (seekTo fd offset there))
    (delta : Int) (whence : UInt32) : h.law.Obeys (fdSeek fd delta whence offset) := by
  refine (h.descriptor?_obeys fd).bind fun found => ?_
  split
  · have hfrom : ∀ base : Nat, h.law.Obeys (seekTo fd offset (base + delta)) := fun base => hseek _
    dsimp only
    split
    · exact hfrom 0
    split
    · exact hfrom _
    split
    · exact h.get_obeys.bind fun _ => hfrom _
    · exact h.throw_obeys _
  · exact h.throw_obeys _

theorem fdTell_obeys (fd offset : UInt32) : h.law.Obeys (fdTell fd offset) := by
  refine (h.descriptor?_obeys fd).bind fun found => ?_
  split
  · exact h.onMemory_obeys _
  · exact h.throw_obeys _

/-! ## Facts about descriptors and paths -/

/-- Asking for the name of the root changes nothing. -/
theorem startName_obeys (fd : UInt32) : h.law.Obeys (startName fd) := by
  refine (h.descriptor?_obeys fd).bind fun found => ?_
  split
  · split
    · exact obeys_pure _
    · exact h.throw_obeys _
  · exact h.throw_obeys _

/-- A sum that is too large stops the guest as it is. -/
theorem sum_obeys (a b : UInt32) : h.law.Obeys (PanicM.sum a b : PanicM Guest UInt32) := by
  unfold PanicM.sum
  split
  · exact obeys_pure _
  · exact h.throw_obeys _

theorem fdPrestatGet_obeys (fd address : UInt32) : h.law.Obeys (fdPrestatGet fd address) :=
  (h.ofStep_obeys (h.startName_obeys fd)).bind fun _ => (h.onMemory_obeys _).bind fun _ =>
    (h.sum_obeys _ _).bind fun _ => (h.ofStep_obeys (h.word_obeys _)).bind fun _ =>
      h.onMemory_obeys _

theorem fdPrestatDirName_obeys (fd address length : UInt32) :
    h.law.Obeys (fdPrestatDirName fd address length) :=
  (h.startName_obeys fd).bind fun _ => h.check_obeys (h.onMemory_obeys _)

theorem fdFdstatGet_obeys (fd address : UInt32) : h.law.Obeys (fdFdstatGet fd address) := by
  refine (h.ofStep_obeys (h.descriptor?_obeys fd)).bind fun found => ?_
  split
  · exact h.onMemory_obeys _
  · exact h.onMemory_obeys _
  · split
    · exact h.onMemory_obeys _
    · exact h.throw_obeys _

theorem writePathFilestat_obeys (address : UInt32) (kind : EntryKind) (path : String) :
    h.law.Obeys (writePathFilestat address kind path) :=
  h.get_obeys.bind fun _ => h.onMemory_obeys _

theorem fdFilestatGet_obeys (fd address : UInt32) : h.law.Obeys (fdFilestatGet fd address) := by
  refine (h.ofStep_obeys (h.descriptor?_obeys fd)).bind fun found => ?_
  split
  · exact h.writePathFilestat_obeys _ _ _
  · exact h.writePathFilestat_obeys _ _ _
  · split
    · exact h.onMemory_obeys _
    · exact h.throw_obeys _

theorem pathFilestatGet_obeys (fd path length address : UInt32) :
    h.law.Obeys (pathFilestatGet fd path length address) := by
  refine (h.ofStep_obeys (h.resolve_obeys fd path length)).bind fun resolved =>
    h.get_obeys.bind fun g => ?_
  split
  · exact h.writePathFilestat_obeys _ _ _
  · exact h.throw_obeys _

/-- Listing a directory changes the memory only. -/
theorem fdReaddir_obeys (fd buffer length : UInt32) (cookie : Nat) (used : UInt32) :
    h.law.Obeys (fdReaddir fd buffer length cookie used) := by
  refine (h.descriptor?_obeys fd).bind fun found => ?_
  split
  · exact h.throw_obeys _
  · exact h.throw_obeys _
  · exact h.get_obeys.bind fun _ => (h.liftM_obeys _).bind fun _ => (h.onMemory_obeys _).bind fun _ =>
      h.writeWord_obeys _ _

/-- A frame that does not look at the files lets them change. -/
theorem updateFiles_obeys (hfiles : ∀ g files, R g { g with files })
    (change : Tree → Except Errno Tree) : h.law.Obeys (updateFiles change) := by
  refine h.get_obeys.bind fun g => ?_
  split
  · exact h.modify_obeys fun g => hfiles g _
  · exact h.throw_obeys _

end

end Calm

namespace Frame

open Law (obeys_pure)

section

variable (h : Frame R)
include h

/-! ## Calls that change descriptors -/

/-- A frame that does not look at the descriptors lets them change. -/
theorem setDescriptors_obeys (change : Guest → DescriptorTable) :
    h.law.Obeys (modify fun g => { g with descriptors := change g } : CallM Unit) :=
  h.modify_obeys fun g => h.descriptors g _

/-- Reading from a file moves its offset. -/
theorem readFile_obeys (fd : UInt32) (most : Nat) : h.law.Obeys (readFile fd most) := by
  refine (h.descriptor?_obeys fd).bind fun found => ?_
  split
  · exact h.throw_obeys _
  · exact h.throw_obeys _
  · refine h.get_obeys.bind fun g => ?_
    split
    · exact h.throw_obeys _
    · exact (h.setDescriptors_obeys _).bind fun _ => obeys_pure _

theorem fdRead_obeys (fd buffers count read : UInt32) :
    h.law.Obeys (fdRead fd buffers count read) :=
  h.fdRead_obeys_of (h.readFile_obeys fd) buffers count read

/-- Seeking moves the offset too. -/
theorem seekTo_obeys (fd offset : UInt32) (there : Int) : h.law.Obeys (seekTo fd offset there) :=
  h.check_obeys (h.check_obeys
    ((h.setDescriptors_obeys _).bind fun _ => h.onMemory_obeys _))

theorem fdSeek_obeys (fd : UInt32) (delta : Int) (whence offset : UInt32) :
    h.law.Obeys (fdSeek fd delta whence offset) :=
  h.fdSeek_obeys_of (h.seekTo_obeys fd offset) delta whence

/-- Closing takes a descriptor away. -/
theorem fdClose_obeys (fd : UInt32) : h.law.Obeys (fdClose fd) := by
  unfold fdClose
  split
  · exact obeys_pure _
  · exact (h.descriptor?_obeys fd).bind fun _ => h.check_obeys (h.setDescriptors_obeys _)

/-! ## Calls that change files -/

section

variable (hfiles : ∀ g files, R g { g with files })
include hfiles

/-- Writing to a file changes its contents and moves its offset. -/
theorem writeFile_obeys (fd : UInt32) (data : Bytes) : h.law.Obeys (writeFile fd data) := by
  have hboth : ∀ (g : Guest) (files : Tree) (t : DescriptorTable),
      R g { g with files, descriptors := t } :=
    fun g files t => h.trans g { g with files } _ (hfiles g files) (h.descriptors _ t)
  refine (h.descriptor?_obeys fd).bind fun found => ?_
  split
  · refine h.get_obeys.bind fun g => ?_
    split
    · exact h.throw_obeys _
    · exact h.check_obeys (h.check_obeys (h.modify_obeys fun g => hboth g _ _))
  · exact h.throw_obeys _

/-- Opening changes files and descriptors. -/
theorem pathOpen_obeys (fd path length openFlags fdFlags address : UInt32) :
    h.law.Obeys (pathOpen fd path length openFlags fdFlags address) := by
  refine (h.onMemory_obeys _).bind fun _ => (h.resolve_obeys fd path length).bind
    fun resolved => ?_
  split
  · exact h.throw_obeys _
  · refine h.check_obeys (h.get_obeys.bind fun g => (h.liftM_obeys _).bind fun opened => ?_)
    exact Law.Obeys.bind (h.modify_obeys fun g => hfiles g _) fun _ => h.get_obeys.bind fun _ =>
      (h.liftM_obeys _).bind fun _ => (h.setDescriptors_obeys _).bind fun _ => h.onMemory_obeys _

end

end

end Frame

end Guest

namespace SystemCall

open Law (obeys_pure)

variable {R : Guest → Guest → Prop}

/-- Writes data, or works on what stands at a path. -/
def mayEdit : SystemCall → Bool
  | .fdWrite .. | .pathOpen .. | .pathUnlinkFile .. | .pathCreateDirectory .. => true
  | _ => false

/-- Moves in an open file, or closes a descriptor. -/
def mayMove : SystemCall → Bool
  | .fdRead .. | .fdSeek .. | .fdClose .. => true
  | _ => false

/-- The calls that leave files and descriptors alone. -/
theorem answer_obeys_of_mayMove (h : Guest.Calm R) (call : SystemCall)
    (hedit : call.mayEdit = false) (hmove : call.mayMove = false) : h.law.Obeys call.answer := by
  cases call with
  | argsSizesGet count size =>
    exact h.ofStep_obeys (h.get_obeys.bind fun g => h.textSizes_obeys _ _ _)
  | argsGet addresses buffer => exact h.get_obeys.bind fun g => h.onMemory_obeys _
  | environSizesGet count size =>
    exact h.ofStep_obeys (h.get_obeys.bind fun g => h.textSizes_obeys _ _ _)
  | environGet addresses buffer => exact h.get_obeys.bind fun g => h.onMemory_obeys _
  | procExit code => exact obeys_pure ()
  | schedYield => exact obeys_pure ()
  | clockTimeGet clock address => exact h.ofStep_obeys (h.clockTimeGet_obeys clock address)
  | randomGet buffer length => exact h.ofStep_obeys (h.randomGet_obeys buffer length)
  | fdWrite fd buffers count written => contradiction
  | fdRead fd buffers count read => contradiction
  | fdSeek fd delta whence offset => contradiction
  | fdTell fd offset => exact h.ofStep_obeys (h.fdTell_obeys fd offset)
  | fdClose fd => contradiction
  | fdPrestatGet fd address => exact h.fdPrestatGet_obeys fd address
  | fdPrestatDirName fd address length =>
    exact h.ofStep_obeys (h.fdPrestatDirName_obeys fd address length)
  | fdFdstatGet fd address => exact h.fdFdstatGet_obeys fd address
  | fdFilestatGet fd address => exact h.fdFilestatGet_obeys fd address
  | fdReaddir fd buffer length cookie used =>
    exact h.ofStep_obeys (h.fdReaddir_obeys fd buffer length cookie used)
  | pathOpen fd path length openFlags fdFlags address => contradiction
  | pathFilestatGet fd path length address => exact h.pathFilestatGet_obeys fd path length address
  | pathUnlinkFile fd path length => contradiction
  | pathCreateDirectory fd path length => contradiction
  | unimplemented name => exact obeys_pure ()

/-- The calls that leave files alone. -/
theorem answer_obeys_of_mayEdit (h : Guest.Frame R) (call : SystemCall)
    (hcall : call.mayEdit = false) : h.law.Obeys call.answer := by
  cases hmove : call.mayMove with
  | false => exact answer_obeys_of_mayMove h.toCalm call hcall hmove
  | true =>
    cases call with
    | fdRead fd buffers count read => exact h.ofStep_obeys (h.fdRead_obeys fd buffers count read)
    | fdSeek fd delta whence offset => exact h.ofStep_obeys (h.fdSeek_obeys fd delta whence offset)
    | fdClose fd => exact h.ofStep_obeys (h.fdClose_obeys fd)
    | _ => contradiction

/-- All calls but the one that writes. -/
theorem answer_obeys (h : Guest.Frame R) (hfiles : ∀ g files, R g { g with files })
    (call : SystemCall)
    (hcall : ∀ fd buffers count written, call ≠ .fdWrite fd buffers count written) :
    h.law.Obeys call.answer := by
  cases call with
  | fdWrite fd buffers count written => exact absurd rfl (hcall fd buffers count written)
  | pathOpen fd path length openFlags fdFlags address =>
    exact h.ofStep_obeys (h.pathOpen_obeys hfiles fd path length openFlags fdFlags address)
  | pathUnlinkFile fd path length =>
    exact h.ofStep_obeys
      ((h.resolve_obeys fd path length).bind fun _ => h.updateFiles_obeys hfiles _)
  | pathCreateDirectory fd path length =>
    exact h.ofStep_obeys
      ((h.resolve_obeys fd path length).bind fun _ => h.updateFiles_obeys hfiles _)
  | _ => exact answer_obeys_of_mayEdit h _ rfl

end SystemCall

end Sandshell
