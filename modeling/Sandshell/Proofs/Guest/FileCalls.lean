import Sandshell.Proofs.Guest.Cursors
import Sandshell.Proofs.Guest.Soundness

/-!
# Open files as cursors

What a guest sees of its open files are contents and cursors. Reads, writes and moves in any number
and order answer what the actions on the cursors answer, and leave what they leave.
-/

namespace Sandshell

open Sandshell.GuestMemory (Covers)

/-! ## The calls of a guest -/

/-- The cursor of an open file. -/
def Descriptor.cursor? : Descriptor → Option Cursor
  | .file path offset append => some ⟨path, offset, append⟩
  | .directory .. => none

/-- What a guest sees of its open files. -/
def Guest.openFiles (g : Guest) : OpenFiles where
  contents path := g.files.files[path]?
  cursors fd := (g.descriptors.get? fd).bind Descriptor.cursor?
  limit := g.maxFile

/-- A call on an open file: where its buffers are listed, and where it stores a number. -/
inductive FileCall where
  | write (buffers count written : UInt32)
  | read (buffers count taken : UInt32)
  | seek (delta : Int) (whence offset : UInt32)
  | tell (offset : UInt32)
deriving DecidableEq

namespace FileCall

open OpenFiles (Action Answer)

/-- The call. -/
def call (fd : UInt32) : FileCall → SystemCall
  | .write buffers count written => .fdWrite fd buffers count written
  | .read buffers count taken => .fdRead fd buffers count taken
  | .seek delta whence offset => .fdSeek fd delta whence offset
  | .tell offset => .fdTell fd offset

/-- What the call does; it cannot panic. -/
def steps (fd : UInt32) : FileCall → CallM Unit
  | .write buffers count written => Guest.fdWrite fd buffers count written
  | .read buffers count taken => Guest.fdRead fd buffers count taken
  | .seek delta whence offset => Guest.fdSeek fd delta whence offset
  | .tell offset => Guest.fdTell fd offset

theorem answer_call (c : FileCall) (fd : UInt32) : (c.call fd).answer = liftM (c.steps fd) := by
  cases c <;> rfl

/-- The action that the call asks for, as memory stands at the call. -/
def action (m : GuestMemory) : FileCall → Action
  | .write buffers count _ => .write (m.gathered (m.buffersAt buffers.toNat count.toNat))
  | .read buffers count _ => .read (GuestMemory.room (m.buffersAt buffers.toNat count.toNat))
  | .seek delta whence _ => .seek delta whence.toNat
  | .tell _ => .tell

/-- What the guest finds in memory after the call, which had the memory `m` before. -/
def found (m m' : GuestMemory) : FileCall → Answer
  | .write _ _ written => .wrote (m'.area written.toNat 4).toNumber
  | .read buffers count taken => .read ((m'.gathered (m.buffersAt buffers.toNat count.toNat)).take
      (m'.area taken.toNat 4).toNumber)
  | .seek _ _ offset => .at (m'.area offset.toNat 8).toNumber
  | .tell offset => .at (m'.area offset.toNat 8).toNumber

/-- All that the call is given lies in memory, and what it stores has no byte in common. -/
def Placed (m : GuestMemory) : FileCall → Prop
  | .write buffers count written =>
    m.holds buffers.toNat (8 * count.toNat) ∧ m.HoldsAll (m.buffersAt buffers.toNat count.toNat)
      ∧ m.holds written.toNat 4
  | .read buffers count taken =>
    m.holds buffers.toNat (8 * count.toNat) ∧ m.HoldsAll (m.buffersAt buffers.toNat count.toNat)
      ∧ m.holds taken.toNat 4
      ∧ GuestMemory.SeparateAll ((taken, 4) :: m.buffersAt buffers.toNat count.toNat)
  | .seek _ _ offset => m.holds offset.toNat 8
  | .tell offset => m.holds offset.toNat 8

instance (m : GuestMemory) : (c : FileCall) → Decidable (c.Placed m)
  | .write .. => inferInstanceAs (Decidable (_ ∧ _ ∧ _))
  | .read .. => inferInstanceAs (Decidable (_ ∧ _ ∧ _ ∧ _))
  | .seek .. => inferInstanceAs (Decidable (_ = _))
  | .tell .. => inferInstanceAs (Decidable (_ = _))

/-- The byte is one that the call may store. -/
def MayStore (m : GuestMemory) (address : Nat) : FileCall → Prop
  | .write _ _ written => Covers written.toNat 4 address
  | .read buffers count taken => Covers taken.toNat 4 address
      ∨ ∃ buffer ∈ m.buffersAt buffers.toNat count.toNat,
        Covers buffer.1.toNat buffer.2.toNat address
  | .seek _ _ offset => Covers offset.toNat 8 address
  | .tell offset => Covers offset.toNat 8 address

/-- Memory is as it was but for what the call stores; a read that does not fill its buffers leaves
the rest of them. -/
structure Spares (c : FileCall) (m m' : GuestMemory) : Prop where
  byte_eq : ∀ address, ¬ c.MayStore m address → m'.byte address = m.byte address
  rest_eq : ∀ buffers count taken, c = .read buffers count taken →
    (m'.gathered (m.buffersAt buffers.toNat count.toNat)).drop (m'.area taken.toNat 4).toNumber
      = (m.gathered (m.buffersAt buffers.toNat count.toNat)).drop (m'.area taken.toNat 4).toNumber

/-- The end of the call and what it leaves. -/
def run (c : FileCall) (fd : UInt32) (g : Guest) : Except Ending Nat × Guest :=
  ((c.call fd).run true).run g

/-- What the guest gets to know: what it finds in memory, or the number of an error. -/
def outcome (c : FileCall) (fd : UInt32) (g : Guest) : Option (Except Nat Answer) :=
  match c.run fd g with
  | (.ok 0, g') => some (.ok (c.found g.memory g'.memory))
  | (.ok number, _) => some (.error number)
  | (.error _, _) => none

/-- The call leaves the rest of memory alone, and all of the guest if it fails. -/
structure Contained (c : FileCall) (fd : UInt32) (g : Guest) : Prop where
  spares : c.Spares g.memory (c.run fd g).2.memory
  of_error : ∀ number, c.outcome fd g = some (.error number) → (c.run fd g).2 = g

/-- The guest gets to know what an action answers, its open files are what the action leaves, and
nothing else has changed. -/
structure Agrees (c : FileCall) (fd : UInt32) (g : Guest)
    (result : Except Errno Answer × OpenFiles) : Prop where
  outcome_eq : c.outcome fd g = some (result.1.mapError Errno.number)
  openFiles_eq : (c.run fd g).2.openFiles = result.2
  contained : c.Contained fd g

variable {c : FileCall} {fd : UInt32} {g g' : Guest} {s : OpenFiles}

/-- A call that fails agrees with the cursors where it changes nothing. -/
theorem agrees_of_error {e : Errno} (hsteps : c.steps fd g = (.error e, g))
    (hg : g.mounted = false) : c.Agrees fd g (.error e, g.openFiles) := by
  have hending : (c.call fd).ending? false = none := by cases c <;> rfl
  have hanswer : (c.call fd).answer g = (.error (.errno e), g) := by
    rw [answer_call, PanicM.liftM_apply_error hsteps]
  have hrun : c.run fd g = (.ok e.number, g) := SystemCall.run_eq_number hanswer hg hending
  refine ⟨?_, ?_, ?_⟩
  · rw [outcome, hrun]
    split
    · next heq => exact absurd (Except.ok.inj (congrArg Prod.fst heq)) e.number_ne_zero
    · next heq =>
      rw [← Except.ok.inj (congrArg Prod.fst heq)]
      rfl
    · next heq => cases heq
  · rw [hrun]
  · refine ⟨?_, fun _ _ => congrArg Prod.snd hrun⟩
    rw [hrun]
    exact ⟨fun _ _ => rfl, fun _ _ _ _ => rfl⟩

/-- A call that succeeds agrees with them where answer, files and memory do. -/
theorem agrees_of_ok {a : Answer} (hsteps : c.steps fd g = (.ok (), g'))
    (hg : g.mounted = false) (hfound : c.found g.memory g'.memory = a) (hfiles : g'.openFiles = s)
    (hspares : c.Spares g.memory g'.memory) : c.Agrees fd g (.ok a, s) := by
  have hending : (c.call fd).ending? false = none := by cases c <;> rfl
  have hanswer : (c.call fd).answer g = (.ok (), g') := by
    rw [answer_call, PanicM.liftM_apply_ok hsteps]
  have hrun : c.run fd g = (.ok 0, g') := SystemCall.run_eq_zero hanswer hg hending
  have houtcome : c.outcome fd g = some (.ok a) := by
    rw [outcome, hrun, ← hfound]
    rfl
  refine ⟨houtcome, ?_, ?_, fun number herror => ?_⟩
  · rw [hrun, ← hfiles]
  · rwa [hrun]
  · rw [houtcome] at herror
    cases herror

end FileCall

namespace Guest

variable {g : Guest} {fd : UInt32}

namespace OpenFile

/-- The cursor that the descriptor stands for. -/
def cursor (o : OpenFile g fd) : Cursor :=
  ⟨o.path, o.offset, o.append⟩

/-- The cursor of an open file is the offset that its descriptor has. -/
theorem cursors_eq (o : OpenFile g fd) : g.openFiles.cursors fd.toNat = some o.cursor := by
  show (g.descriptors.get? fd.toNat).bind Descriptor.cursor? = _
  rw [o.get?_eq]
  rfl

/-- Moving in the file moves the cursor. -/
theorem openFiles_moved (o : OpenFile g fd) (offset : Nat) :
    (o.moved offset).openFiles = g.openFiles.moveTo fd.toNat o.cursor offset := by
  have hcursors : (o.moved offset).openFiles.cursors
      = Function.update g.openFiles.cursors fd.toNat (some { o.cursor with offset }) := by
    funext n
    show ((g.descriptors.moved fd.toNat offset).get? n).bind Descriptor.cursor? = _
    rw [DescriptorTable.get?_moved o.get?_eq, Function.update_apply]
    split
    · rfl
    · rfl
  rw [OpenFiles.moveTo, ← hcursors]
  rfl

/-- Writing to the file puts the data there. -/
theorem openFiles_written (o : OpenFile g fd) (data : Bytes) :
    (o.written data).openFiles = g.openFiles.putAt fd.toNat o.cursor o.contents data := by
  have hcontents : (o.written data).openFiles.contents
      = Function.update g.openFiles.contents o.path
        (some (OpenFiles.put o.contents o.start data)) := by
    funext path
    show (g.files.setFile o.path (overwrite o.contents o.start data)).files[path]? = _
    rw [Tree.getElem?_setFile o.mem_files, OpenFiles.overwrite_eq_put, Function.update_apply]
    rfl
  have hmoved := o.openFiles_moved (o.start + data.length)
  rw [OpenFiles.putAt, ← show o.start = o.cursor.start o.contents from rfl, ← hmoved]
  show (⟨_, _, _⟩ : OpenFiles) = ⟨_, _, _⟩
  rw [show o.cursor.path = o.path from rfl, ← hcontents]
  rfl

/-- An action on an open file acts on its cursor and its contents. -/
theorem step_eq (o : OpenFile g fd) (action : OpenFiles.Action) :
    g.openFiles.step fd.toNat action = match action with
      | .write data => g.openFiles.write fd.toNat o.cursor o.contents data
      | .read room => g.openFiles.read fd.toNat o.cursor o.contents room
      | .seek delta whence => g.openFiles.seek fd.toNat o.cursor o.contents delta whence
      | .tell => (.ok (.at o.offset), g.openFiles) := by
  have hcontents : g.openFiles.contents o.cursor.path = some o.contents := o.contents_eq
  rw [OpenFiles.step, o.cursors_eq]
  dsimp only
  rw [hcontents]
  rfl

end OpenFile

/-- What is open for the cursors is open for the guest. -/
theorem nonempty_openFile (h : g.openFiles.IsOpen fd.toNat) : Nonempty (OpenFile g fd) := by
  obtain ⟨c, contents, hc, hcontents⟩ := h
  obtain ⟨d, hget, hd⟩ := Option.bind_eq_some_iff.1 hc
  cases d with
  | directory path name => cases hd
  | file path offset append =>
    cases hd
    exact ⟨⟨path, offset, append, contents, hget, hcontents⟩⟩

/-! ### Each call -/

section

variable (hg : g.mounted = false) (hfd : isStream fd = false)

include hg hfd

/-- A write gives the data of its buffers to the file. -/
theorem fdWrite_apply {buffers count : UInt32}
    (harray : g.memory.holds buffers.toNat (8 * count.toNat))
    (hbuffers : g.memory.HoldsAll (g.memory.buffersAt buffers.toNat count.toNat))
    (written : UInt32) {data : Bytes}
    (hdata : data = g.memory.gathered (g.memory.buffersAt buffers.toNat count.toNat)) :
    fdWrite fd buffers count written g = (do
      writeFile fd data
      onMemory (GuestMemory.writeWord written.toNat (← word data.length)) : CallM Unit) g := by
  have htaken := buffered_apply hg buffers count
  rw [if_pos ⟨.inr harray, hbuffers⟩, ← hdata] at htaken
  rw [fdWrite_eq, bind_apply_ok htaken]
  exact bind_apply_congr (writeData_file hg hfd data)

/-- Writing puts the gathered bytes where the cursor is and moves it behind them. -/
theorem agrees_write (o : OpenFile g fd) {buffers count written : UInt32}
    (hplaced : (FileCall.write buffers count written).Placed g.memory)
    (hsize : ∀ a, (g.openFiles.step fd.toNat
      ((FileCall.write buffers count written).action g.memory)).1 = .ok a → a.size < 2 ^ 32) :
    (FileCall.write buffers count written).Agrees fd g
      (g.openFiles.step fd.toNat ((FileCall.write buffers count written).action g.memory)) := by
  obtain ⟨harray, hbuffers, hwritten⟩ := hplaced
  obtain ⟨data, hdata⟩ :
      ∃ data, data = g.memory.gathered (g.memory.buffersAt buffers.toNat count.toNat) := ⟨_, rfl⟩
  have hcall := fdWrite_apply hg hfd harray hbuffers written hdata
  have hfile := o.writeFile_apply data
  have hstep : g.openFiles.step fd.toNat ((FileCall.write buffers count written).action g.memory)
      = g.openFiles.write fd.toNat o.cursor o.contents data := by
    rw [FileCall.action, ← hdata, o.step_eq]
  rw [hstep] at hsize ⊢
  have hstart : o.cursor.start o.contents = o.start := rfl
  dsimp only [OpenFiles.write] at hsize ⊢
  rw [hstart] at hsize ⊢
  -- a write behind the last offset, one that makes the file too long, and one that is done
  by_cases hoverflow : 2 ^ 64 ≤ o.start + data.length
  · rw [if_pos hoverflow] at hfile ⊢
    exact FileCall.agrees_of_error (hcall.trans (bind_apply_error hfile)) hg
  by_cases hlong : g.maxFile < o.start + data.length
  · rw [if_neg hoverflow, if_pos hlong] at hfile
    rw [if_neg hoverflow, if_pos (show g.openFiles.limit < _ from hlong)]
    exact FileCall.agrees_of_error (hcall.trans (bind_apply_error hfile)) hg
  · rw [if_neg hoverflow, if_neg hlong] at hfile
    rw [if_neg hoverflow, if_neg (show ¬ g.openFiles.limit < _ from hlong)] at hsize ⊢
    have hlength : data.length < 2 ^ 32 := hsize _ rfl
    have hword := writeWord_apply hlength written.toNat (o.written data)
    rw [if_pos (show (o.written data).memory.holds written.toNat 4 from hwritten)] at hword
    refine FileCall.agrees_of_ok (hcall.trans ((bind_apply_ok hfile).trans hword)) hg ?_
      (o.openFiles_written data) ⟨fun address haddress => ?_, fun _ _ _ heq => ?_⟩
    · exact congrArg OpenFiles.Answer.wrote (GuestMemory.toNumber_area_store _ _ hlength)
    · exact GuestMemory.byte_store_of_not_covers (by rwa [Bytes.length_littleEndian])
    · cases heq

omit hg in
/-- A read stores what it takes from the file in its buffers, and how much that is. -/
theorem fdRead_apply (o : OpenFile g fd) {buffers count taken : UInt32}
    (hplaced : (FileCall.read buffers count taken).Placed g.memory) {data : Bytes}
    (hdata : data = o.taken (GuestMemory.room (g.memory.buffersAt buffers.toNat count.toNat)))
    (hlength : data.length < 2 ^ 32) :
    fdRead fd buffers count taken g = (.ok (), { o.moved (o.offset + data.length) with
      memory := (g.memory.scattered (g.memory.buffersAt buffers.toNat count.toNat) data).store
        taken.toNat (Bytes.littleEndian 4 data.length) }) := by
  obtain ⟨harray, hbuffers, htaken, -⟩ := hplaced
  have hfile := o.readFile_apply (GuestMemory.room (g.memory.buffersAt buffers.toNat count.toNat))
  rw [← hdata] at hfile
  have hread := onMemory_apply
    (GuestMemory.readBuffers_apply buffers.toNat count.toNat g.memory)
  rw [if_pos (.inr harray)] at hread
  have hscatter := scatter_apply (g := o.moved (o.offset + data.length)) (hbuffers.holdsData data)
  have hword := writeWord_apply hlength taken.toNat { o.moved (o.offset + data.length) with
    memory := g.memory.scattered (g.memory.buffersAt buffers.toNat count.toNat) data }
  rw [if_pos (by rwa [GuestMemory.holds_scattered])] at hword
  rw [fdRead_eq, bind_apply_ok hread, readData_file hfd, bind_apply_ok hfile,
    bind_apply_ok hscatter]
  exact hword

/-- Reading takes as many bytes from the cursor on as there is room for. -/
theorem agrees_read (o : OpenFile g fd) {buffers count taken : UInt32}
    (hplaced : (FileCall.read buffers count taken).Placed g.memory)
    (hsize : ∀ a, (g.openFiles.step fd.toNat
      ((FileCall.read buffers count taken).action g.memory)).1 = .ok a → a.size < 2 ^ 32) :
    (FileCall.read buffers count taken).Agrees fd g
      (g.openFiles.step fd.toNat ((FileCall.read buffers count taken).action g.memory)) := by
  obtain ⟨data, hdata⟩ : ∃ data,
      data = o.taken (GuestMemory.room (g.memory.buffersAt buffers.toNat count.toNat)) := ⟨_, rfl⟩
  have hstep : g.openFiles.step fd.toNat ((FileCall.read buffers count taken).action g.memory)
      = (.ok (.read data), g.openFiles.moveTo fd.toNat o.cursor (o.offset + data.length)) := by
    have hdrop : o.contents.drop (min o.offset o.contents.length) = o.contents.drop o.offset := by
      by_cases hinside : o.offset ≤ o.contents.length
      · rw [min_eq_left hinside]
      · rw [min_eq_right (Nat.le_of_not_le hinside), List.drop_length,
          List.drop_of_length_le (Nat.le_of_not_le hinside)]
    rw [FileCall.action, o.step_eq]
    show OpenFiles.read _ _ o.cursor _ _ = _
    rw [OpenFiles.read, show o.cursor.offset = o.offset from rfl, hdrop, hdata]
    rfl
  rw [hstep] at hsize ⊢
  have hlength : data.length < 2 ^ 32 := hsize _ rfl
  have hcall := fdRead_apply hfd o hplaced hdata hlength
  obtain ⟨-, -, -, hseparate⟩ := hplaced
  obtain ⟨hword, hseparate⟩ := List.pairwise_cons.1 hseparate
  have hroom : data.length ≤ GuestMemory.room (g.memory.buffersAt buffers.toNat count.toNat) :=
    hdata ▸ List.length_take_le _ _
  -- the word is stored last, and clear of the buffers
  have hgathered : ((g.memory.scattered (g.memory.buffersAt buffers.toNat count.toNat) data).store
        taken.toNat (Bytes.littleEndian 4 data.length)).gathered
        (g.memory.buffersAt buffers.toNat count.toNat)
      = data ++ (g.memory.gathered (g.memory.buffersAt buffers.toNat count.toNat)).drop
        data.length := by
    rw [← GuestMemory.gathered_scattered hseparate hroom]
    refine GuestMemory.gathered_congr fun buffer hbuffer address haddress => ?_
    refine GuestMemory.byte_store_of_not_covers ?_
    rw [Bytes.length_littleEndian]
    exact (hword buffer hbuffer).symm.not_covers haddress
  have hcount : (((g.memory.scattered (g.memory.buffersAt buffers.toNat count.toNat) data).store
      taken.toNat (Bytes.littleEndian 4 data.length)).area taken.toNat 4).toNumber = data.length :=
    GuestMemory.toNumber_area_store _ _ hlength
  refine FileCall.agrees_of_ok hcall hg ?_ (o.openFiles_moved _) ⟨fun address haddress => ?_, ?_⟩
  · show OpenFiles.Answer.read (List.take _ _) = _
    rw [hcount, hgathered, List.take_left' rfl]
  · rw [FileCall.MayStore, not_or] at haddress
    obtain ⟨hclear, hnone⟩ := haddress
    show (GuestMemory.store _ _ _).byte address = _
    rw [GuestMemory.byte_store_of_not_covers (by rwa [Bytes.length_littleEndian])]
    exact GuestMemory.byte_scattered_of_not_covers fun buffer hbuffer hcovers =>
      hnone ⟨buffer, hbuffer, hcovers⟩
  · rintro _ _ _ heq
    cases heq
    show (GuestMemory.gathered _ _).drop (GuestMemory.area _ _ _).toNumber = _
    rw [hcount, hgathered, List.drop_left' rfl]

end

/-- Storing a number of 64 bits. -/
theorem writeLong_apply {start : Nat} (hholds : g.memory.holds start 8) (n : Nat) :
    onMemory (GuestMemory.writeLong start n) g
      = (.ok (), { g with memory := g.memory.store start (Bytes.littleEndian 8 n) }) := by
  have hlength : (Bytes.littleEndian 8 n).length < 2 ^ 32 := by simp
  have hwrite := onMemory_write_apply hlength start g
  rw [Bytes.length_littleEndian, if_pos hholds] at hwrite
  exact hwrite

/-- Telling stores the place of the cursor. -/
theorem agrees_tell (hg : g.mounted = false) (hbounded : g.Bounded) (o : OpenFile g fd)
    {offset : UInt32} (hplaced : (FileCall.tell offset).Placed g.memory) :
    (FileCall.tell offset).Agrees fd g
      (g.openFiles.step fd.toNat ((FileCall.tell offset).action g.memory)) := by
  have hcall : fdTell fd offset g = onMemory (GuestMemory.writeLong offset.toNat o.offset) g := by
    rw [fdTell, bind_apply_ok o.descriptor?_apply]
  rw [writeLong_apply hplaced] at hcall
  rw [FileCall.action, o.step_eq]
  refine FileCall.agrees_of_ok hcall hg ?_ rfl ⟨fun address haddress => ?_, fun _ _ _ heq => ?_⟩
  · have hoffset := hbounded.offset_lt _ _ _ _ o.get?_eq
    exact congrArg OpenFiles.Answer.at (GuestMemory.toNumber_area_store _ _ hoffset)
  · exact GuestMemory.byte_store_of_not_covers (by rwa [Bytes.length_littleEndian])
  · cases heq

/-- A move starts from one of three places; a file that is gone counts as empty. -/
theorem fdSeek_apply {path : String} {here : Nat} {append : Bool}
    (hget : g.descriptors.get? fd.toNat = some (.file path here append)) (delta : Int)
    (whence offset : UInt32) : fdSeek fd delta whence offset g =
      match OpenFiles.base? ⟨path, here, append⟩ (g.files.files.getD path []) whence.toNat with
      | none => (.error .inval, g)
      | some base => seekTo fd offset (base + delta) g := by
  have hself : (get : CallM Guest) g = (.ok g, g) := rfl
  have hfound : descriptor? fd g = (.ok (some (.file path here append)), g) := by
    rw [← hget]
    rfl
  rw [fdSeek, bind_apply_ok hfound]
  dsimp only
  by_cases hstart : whence = 0
  · subst hstart
    rfl
  by_cases hhere : whence = 1
  · subst hhere
    rfl
  by_cases hend : whence = 2
  · subst hend
    rw [if_neg hstart, if_neg hhere, if_pos rfl, bind_apply_ok hself]
    rfl
  -- no other number says where to start from
  · rw [if_neg hstart, if_neg hhere, if_neg hend]
    have hnone : OpenFiles.base? ⟨path, here, append⟩ (g.files.files.getD path []) whence.toNat
        = none := by
      unfold OpenFiles.base?
      split
      · next heq => exact absurd (UInt32.toNat_inj.1 heq) hstart
      · next heq => exact absurd (UInt32.toNat_inj.1 heq) hhere
      · next heq => exact absurd (UInt32.toNat_inj.1 heq) hend
      · rfl
    rw [hnone]
    rfl

/-- Seeking moves the cursor to a place that is not before the start. -/
theorem agrees_seek (hg : g.mounted = false) (o : OpenFile g fd) {delta : Int}
    {whence offset : UInt32} (hplaced : (FileCall.seek delta whence offset).Placed g.memory) :
    (FileCall.seek delta whence offset).Agrees fd g
      (g.openFiles.step fd.toNat ((FileCall.seek delta whence offset).action g.memory)) := by
  have hcontents : g.files.files.getD o.path [] = o.contents := by
    rw [Std.ExtTreeMap.getD_eq_getD_getElem?, o.contents_eq]
    rfl
  have hcall := fdSeek_apply o.get?_eq delta whence offset
  rw [hcontents, show (⟨o.path, o.offset, o.append⟩ : Cursor) = o.cursor from rfl] at hcall
  rw [FileCall.action, o.step_eq]
  dsimp only [OpenFiles.seek]
  cases hbase : OpenFiles.base? o.cursor o.contents whence.toNat with
  | none =>
    rw [hbase] at hcall
    exact FileCall.agrees_of_error hcall hg
  | some base =>
    rw [hbase] at hcall
    dsimp only at hcall ⊢
    rw [seekTo_apply] at hcall
    -- a place before the start, one beyond 64 bits, and one that can be moved to
    by_cases hlow : (base : Int) + delta < 0
    · rw [if_pos hlow] at hcall ⊢
      exact FileCall.agrees_of_error hcall hg
    by_cases hhigh : 2 ^ 64 ≤ (base : Int) + delta
    · rw [if_neg hlow, if_pos hhigh] at hcall ⊢
      exact FileCall.agrees_of_error hcall hg
    · rw [if_neg hlow, if_neg hhigh] at hcall ⊢
      have hstored := writeLong_apply (g := o.moved ((base : Int) + delta).toNat) hplaced
        ((base : Int) + delta).toNat
      refine FileCall.agrees_of_ok (hcall.trans hstored) hg ?_ (o.openFiles_moved _)
        ⟨fun address haddress => ?_, fun _ _ _ heq => ?_⟩
      · exact congrArg OpenFiles.Answer.at (GuestMemory.toNumber_area_store _ _ (by omega))
      · exact GuestMemory.byte_store_of_not_covers (by rwa [Bytes.length_littleEndian])
      · cases heq

/-- What a call does on an open file is what the action does that it asks for. -/
theorem agrees_call (hg : g.mounted = false) (hnumbered : g.descriptors.Numbered)
    (hbounded : g.Bounded) {c : FileCall} (hplaced : c.Placed g.memory)
    (hopen : g.openFiles.IsOpen fd.toNat)
    (hsize : ∀ a, (g.openFiles.step fd.toNat (c.action g.memory)).1 = .ok a → a.size < 2 ^ 32) :
    c.Agrees fd g (g.openFiles.step fd.toNat (c.action g.memory)) := by
  obtain ⟨o⟩ := nonempty_openFile hopen
  have hfd := not_isStream_of_numbered hnumbered o.get?_eq
  cases c with
  | write buffers count written => exact agrees_write hg hfd o hplaced hsize
  | read buffers count taken => exact agrees_read hg hfd o hplaced hsize
  | seek delta whence offset => exact agrees_seek hg o hplaced
  | tell offset => exact agrees_tell hg hbounded o hplaced

end Guest

/-! ## Turns -/

/-- A turn of a guest: it sets its memory up and makes a call on an open file. -/
structure FileTurn where
  memory : GuestMemory
  fd : UInt32
  call : FileCall

namespace FileTurn

open OpenFiles (Action Answer)

variable {files : FileSet} {r : GuestRequest} {g : Guest} {turns : List FileTurn}

/-- The action that the turn asks for. -/
def action (t : FileTurn) : Nat × Action :=
  (t.fd.toNat, t.call.action t.memory)

/-- The guest that makes the call. -/
def ready (t : FileTurn) (g : Guest) : Guest :=
  { g with memory := t.memory }

/-- The guest after the turn. -/
def after (t : FileTurn) (g : Guest) : Guest :=
  (t.call.run t.fd (t.ready g)).2

/-- What the guest gets to know in turns that follow each other. -/
def outcomes (g : Guest) : List FileTurn → List (Option (Except Nat Answer))
  | [] => []
  | t :: rest => t.call.outcome t.fd (t.ready g) :: outcomes (t.after g) rest

/-- The guest after turns that follow each other. -/
def afterAll (g : Guest) (turns : List FileTurn) : Guest :=
  turns.foldl (fun g t => t.after g) g

/-- In every turn nothing but what the call is asked for changes. -/
def AllContained (g : Guest) : List FileTurn → Prop
  | [] => True
  | t :: rest => t.call.Contained t.fd (t.ready g) ∧ AllContained (t.after g) rest

/-- Turns of a guest on open files go as actions on cursors do: the guest gets to know what they
answer, sees its files as they leave them, and nothing else has changed. -/
structure Agree (g : Guest) (turns : List FileTurn) : Prop where
  outcomes_eq : outcomes g turns = (g.openFiles.answers (turns.map action)).map
    fun answer => some (answer.mapError Errno.number)
  openFiles_eq : (afterAll g turns).openFiles = g.openFiles.after (turns.map action)
  contained : AllContained g turns

/-- By induction on the turns. -/
theorem agree (h : Guest.Reached files r g)
    (hfiles : ∀ (path : String) (data : Bytes), files[path]? = some data → data.length < 2 ^ 64)
    (hplaced : ∀ t ∈ turns, t.call.Placed t.memory)
    (hopen : ∀ t ∈ turns, g.openFiles.IsOpen t.fd.toNat)
    (hsize : ∀ a, .ok a ∈ g.openFiles.answers (turns.map action) → a.size < 2 ^ 32) :
    Agree g turns ∧ Guest.Reached files r (afterAll g turns) := by
  induction turns generalizing g with
  | nil => exact ⟨⟨rfl, rfl, trivial⟩, h⟩
  | cons t rest ih =>
    obtain ⟨hplaced, hplacedRest⟩ := List.forall_mem_cons.1 hplaced
    obtain ⟨hopen, hopenRest⟩ := List.forall_mem_cons.1 hopen
    have hready : Guest.Reached files r (t.ready g) := h.trans (.single (.own t.memory))
    have hreached : Guest.Reached files r (t.after g) := hready.call true _
    have hfirst : t.call.Agrees t.fd (t.ready g)
        (g.openFiles.step t.fd.toNat (t.call.action t.memory)) := by
      refine Guest.agrees_call hready.not_mounted hready.numbered (hready.bounded hfiles) hplaced
        hopen fun a ha => hsize a ?_
      exact List.mem_cons.2 (.inl ha.symm)
    have hafter : (t.after g).openFiles
        = (g.openFiles.step t.fd.toNat (t.call.action t.memory)).2 := hfirst.openFiles_eq
    obtain ⟨hrest, hlast⟩ := ih hreached hplacedRest
      (fun u hu => hafter ▸ (hopenRest u hu).step _ _)
      (fun a ha => hsize a (List.mem_cons.2 (.inr (hafter ▸ ha))))
    refine ⟨⟨?_, ?_, hfirst.contained, hrest.contained⟩, hlast⟩
    · rw [outcomes, hfirst.outcome_eq, hrest.outcomes_eq, hafter]
      rfl
    · have hfinal : (afterAll (t.after g) rest).openFiles = _ := hrest.openFiles_eq
      rw [hafter] at hfinal
      exact hfinal

end FileTurn

namespace FileTurn

/-- Memory with an array of buffers at its start and data at 32. -/
def laidOut (buffers : List (Nat × Nat)) (data : Bytes) : GuestMemory :=
  ((GuestMemory.zeroed pageSize).store 0 (buffers.flatMap fun (address, length) =>
    Bytes.littleEndian 4 address ++ Bytes.littleEndian 4 length)).store 32 data

end FileTurn

end Sandshell
