import Sandshell.Proofs.Guest.FileCalls

/-!
# Transfers

A call that writes, reads or moves looks at what it is given, does its work, and then stores what the
guest gets of it: the data that was read, and a number. The work is done by then. Where something
does not fit into memory at the end, the call fails and its work stays.
-/

namespace Sandshell

open Sandshell.GuestMemory (room)

/-- A call that writes, reads or moves: where its buffers are listed, and where it stores a number. -/
inductive Transfer where
  | write (buffers count written : UInt32)
  | read (buffers count taken : UInt32)
  | seek (delta : Int) (whence offset : UInt32)
deriving DecidableEq

/-- The call. -/
def Transfer.call (fd : UInt32) : Transfer → SystemCall
  | .write buffers count written => .fdWrite fd buffers count written
  | .read buffers count taken => .fdRead fd buffers count taken
  | .seek delta whence offset => .fdSeek fd delta whence offset

/-- What the call does; it cannot panic. -/
def Transfer.steps (fd : UInt32) : Transfer → CallM Unit
  | .write buffers count written => Guest.fdWrite fd buffers count written
  | .read buffers count taken => Guest.fdRead fd buffers count taken
  | .seek delta whence offset => Guest.fdSeek fd delta whence offset

theorem Transfer.answer_call (t : Transfer) (fd : UInt32) :
    (t.call fd).answer = liftM (t.steps fd) := by
  cases t <;> rfl

/-! ## What is stored at the end -/

/-- What a guest gets of a transfer: data in buffers, and a number of so many bytes at an address. -/
structure Receipt where
  buffers : List (UInt32 × UInt32)
  data : Bytes
  address : UInt32
  width : Nat
  number : Nat
  width_le : width ≤ 8

namespace Receipt

/-- So many bytes were written. -/
def wrote (count : Nat) (address : UInt32) : Receipt :=
  ⟨[], [], address, 4, count, by decide⟩

/-- This data was read. -/
def took (buffers : List (UInt32 × UInt32)) (data : Bytes) (address : UInt32) : Receipt :=
  ⟨buffers, data, address, 4, data.length, by decide⟩

/-- This place was moved to. -/
def arrived (place : Nat) (address : UInt32) : Receipt :=
  ⟨[], [], address, 8, place, by decide⟩

/-- Stores the number, if it fits into so many bytes. -/
def storeNumber (r : Receipt) : CallM Unit := do
  if 256 ^ r.width ≤ r.number then throw .overflow
  Guest.onMemory (GuestMemory.write r.address.toNat (Bytes.littleEndian r.width r.number))

/-- Stores it all: the data first. -/
def store (r : Receipt) : CallM Unit := do
  Guest.scatter r.buffers r.data
  r.storeNumber

/-- All of it finds its place in memory. -/
structure Fits (r : Receipt) (m : GuestMemory) : Prop where
  data : m.HoldsData r.buffers r.data
  number : r.number < 256 ^ r.width
  place : m.holds r.address.toNat r.width

/-- Memory with all of it stored. -/
def stored (r : Receipt) (m : GuestMemory) : GuestMemory :=
  (m.scattered r.buffers r.data).store r.address.toNat (Bytes.littleEndian r.width r.number)

variable {r : Receipt} {g : Guest}

/-- A number that is too wide, or has no room, is not stored. -/
theorem storeNumber_apply (r : Receipt) (g : Guest) : r.storeNumber g =
    if r.number < 256 ^ r.width then
      if g.memory.holds r.address.toNat r.width then
        (.ok (), { g with
          memory := g.memory.store r.address.toNat (Bytes.littleEndian r.width r.number) })
      else (.error .fault, g)
    else (.error .overflow, g) := by
  have hlength : (Bytes.littleEndian r.width r.number).length < 2 ^ 32 := by
    have hwidth := r.width_le
    rw [Bytes.length_littleEndian]
    omega
  have hwrite := Guest.onMemory_write_apply hlength r.address.toNat g
  rw [Bytes.length_littleEndian] at hwrite
  rw [storeNumber]
  by_cases hnumber : r.number < 256 ^ r.width
  · rw [if_neg (Nat.not_le_of_lt hnumber), if_pos hnumber]
    exact hwrite
  · rw [if_pos (Nat.le_of_not_lt hnumber), if_neg hnumber]
    rfl

/-- Where no data is read there is only the number. -/
theorem store_eq_storeNumber (h : r.buffers = []) : r.store = r.storeNumber := by
  rw [store, h]
  exact pure_bind _ _

/-- A receipt that fits is stored. -/
theorem store_of_fits (h : r.Fits g.memory) :
    r.store g = (.ok (), { g with memory := r.stored g.memory }) := by
  have hnumber := r.storeNumber_apply { g with memory := g.memory.scattered r.buffers r.data }
  have hplace : (g.memory.scattered r.buffers r.data).holds r.address.toNat r.width := by
    rw [GuestMemory.holds_scattered]
    exact h.place
  rw [if_pos h.number, if_pos hplace] at hnumber
  rw [store, bind_apply_ok (Guest.scatter_apply h.data)]
  exact hnumber

/-- What does not fit is stored in part, and nothing but memory changes. -/
theorem exists_store_error (h : ¬ r.Fits g.memory) :
    ∃ e m, r.store g = (.error e, { g with memory := m }) := by
  rw [store]
  -- the data comes first, and stays in memory where the number has no place
  by_cases hdata : g.memory.HoldsData r.buffers r.data
  · have hnumber := r.storeNumber_apply { g with memory := g.memory.scattered r.buffers r.data }
    rw [bind_apply_ok (Guest.scatter_apply hdata)]
    by_cases hfits : r.number < 256 ^ r.width
    · have hplace : ¬ (g.memory.scattered r.buffers r.data).holds r.address.toNat r.width := by
        rw [GuestMemory.holds_scattered]
        exact fun hplace => h ⟨hdata, hfits, hplace⟩
      rw [if_pos hfits, if_neg hplace] at hnumber
      exact ⟨_, _, hnumber⟩
    · rw [if_neg hfits] at hnumber
      exact ⟨_, _, hnumber⟩
  · obtain ⟨m, hm⟩ := Guest.exists_scatter_apply_error hdata
    exact ⟨_, m, bind_apply_error hm⟩

end Receipt

/-! ## Work -/

namespace Guest

variable {start g g' g₁ : Guest} {fd : UInt32} {t : Transfer} {receipt : Receipt}

/-- The work of a transfer, up to where it would store a receipt. A transfer that has none is
refused. -/
inductive Work (g : Guest) : (fd : UInt32) → Transfer → Receipt → Guest → Prop
  | output {buffers count written : UInt32} {data : Bytes}
      (hdata : g.memory.Gives buffers count data) :
    Work g 1 (.write buffers count written) (.wrote data.length written)
      { g with stdout := g.stdout.write data }
  | errors {buffers count written : UInt32} {data : Bytes}
      (hdata : g.memory.Gives buffers count data) :
    Work g 2 (.write buffers count written) (.wrote data.length written)
      { g with stderr := g.stderr.write data }
  | put {fd buffers count written : UInt32} {data : Bytes}
      (hdata : g.memory.Gives buffers count data) (hfd : isStream fd = false) (o : OpenFile g fd)
      (hend : o.start + data.length < 2 ^ 64) (hfits : o.start + data.length ≤ g.maxFile) :
    Work g fd (.write buffers count written) (.wrote data.length written) (o.written data)
  | input {start count taken : UInt32} {buffers : List (UInt32 × UInt32)}
      (hbuffers : g.memory.Lists start count buffers) :
    Work g 0 (.read start count taken) (.took buffers (g.stdin.take (room buffers)) taken)
      { g with stdin := g.stdin.drop (room buffers) }
  | take {fd start count taken : UInt32} {buffers : List (UInt32 × UInt32)}
      (hbuffers : g.memory.Lists start count buffers) (hfd : isStream fd = false)
      (o : OpenFile g fd) :
    Work g fd (.read start count taken) (.took buffers (o.taken (room buffers)) taken)
      (o.moved (o.offset + (o.taken (room buffers)).length))
  | move {fd whence offset : UInt32} {delta : Int} {path : String} {here base place : Nat}
      {append : Bool} (hget : g.descriptors.get? fd.toNat = some (.file path here append))
      (hbase : OpenFiles.base? ⟨path, here, append⟩ (g.files.files.getD path []) whence.toNat
        = some base)
      (hplace : (place : Int) = base + delta) (hend : place < 2 ^ 64) :
    Work g fd (.seek delta whence offset) (.arrived place offset)
      { g with descriptors := g.descriptors.moved fd.toNat place }

/-- The work does not touch memory. -/
theorem Work.memory_eq (h : Work g fd t receipt g₁) : g₁.memory = g.memory := by
  cases h <;> rfl

/-- A number of bytes is stored as a word. -/
theorem writeWord_eq_storeNumber {r : Receipt} (hwidth : r.width = 4) : (do
      onMemory (GuestMemory.writeWord r.address.toNat (← word r.number)) : CallM Unit)
    = r.storeNumber := by
  rw [word, Receipt.storeNumber, hwidth]
  by_cases hnumber : r.number < 2 ^ 32
  · rw [if_pos hnumber, if_neg (by omega), pure_bind, GuestMemory.writeWord,
      UInt32.toNat_ofNat_of_lt' hnumber]
  · rw [if_neg hnumber, if_pos (by omega)]
    rfl

/-- Once the data has been written, the number of bytes is stored. -/
theorem fdWrite_of_gives (hg : g.mounted = false) {buffers count : UInt32} {data : Bytes}
    (hdata : g.memory.Gives buffers count data) (hwrite : writeData fd data g = (.ok (), g₁))
    (written : UInt32) :
    fdWrite fd buffers count written g = (Receipt.wrote data.length written).store g₁ := by
  have hnumber := writeWord_eq_storeNumber (r := .wrote data.length written) rfl
  rw [fdWrite_eq, bind_apply_ok (buffered_of_gives hg hdata), bind_apply_ok hwrite]
  rw [Receipt.store_eq_storeNumber rfl, ← hnumber]
  rfl

/-- Once the data has been taken, it is scattered and its number stored. -/
theorem fdRead_of_lists {start count : UInt32} {buffers : List (UInt32 × UInt32)} {data : Bytes}
    (hbuffers : g.memory.Lists start count buffers)
    (hread : readData fd (room buffers) g = (.ok data, g₁)) (taken : UInt32) :
    fdRead fd start count taken g = (Receipt.took buffers data taken).store g₁ := by
  have hnumber := writeWord_eq_storeNumber (r := .took buffers data taken) rfl
  rw [fdRead_eq, bind_apply_ok (readBuffers_of_lists hbuffers), bind_apply_ok hread]
  rw [Receipt.store, ← hnumber]
  rfl

/-- What a transfer with work does: the work, and then it stores its receipt. -/
theorem Work.steps_eq (h : Work g fd t receipt g₁) (hg : g.mounted = false) :
    t.steps fd g = receipt.store g₁ := by
  cases h with
  | output hdata => exact fdWrite_of_gives hg hdata (writeData_eq hg 1 _) _
  | errors hdata => exact fdWrite_of_gives hg hdata (writeData_eq hg 2 _) _
  | put hdata hfd o hend hfits =>
    refine fdWrite_of_gives hg hdata ?_ _
    rw [writeData_file hg hfd, o.writeFile_apply, if_neg (Nat.not_le_of_lt hend),
      if_neg (Nat.not_lt_of_le hfits)]
  | input hbuffers => exact fdRead_of_lists hbuffers rfl _
  | take hbuffers hfd o =>
    refine fdRead_of_lists hbuffers ?_ _
    rw [readData_file hfd]
    exact o.readFile_apply _
  | @move _ _ offset _ _ _ _ place _ hget hbase hplace hend =>
    have hnumber : ¬ 256 ^ 8 ≤ place := by omega
    show fdSeek _ _ _ _ _ = _
    rw [fdSeek_apply hget, hbase]
    dsimp only
    rw [← hplace, seekTo_apply, if_neg (by omega), if_neg (by omega), Int.toNat_natCast,
      Receipt.store_eq_storeNumber rfl, Receipt.storeNumber]
    exact congrFun (if_neg hnumber).symm _

/-! ## Refusals -/

/-- A write does its work as a whole, or fails before it has done anything. -/
theorem write_works_or_refused (hg : g.mounted = false) (hnumbered : g.descriptors.Numbered)
    (fd buffers count written : UInt32) :
    (∃ receipt g₁, Work g fd (.write buffers count written) receipt g₁)
      ∨ ∃ e, fdWrite fd buffers count written g = (.error e, g) := by
  rw [fdWrite_eq]
  rcases gives_or_fault hg buffers count with ⟨data, hdata⟩ | hfault
  · have hwrite := writeData_eq hg fd data
    rw [bind_apply_ok (buffered_of_gives hg hdata)]
    -- the input takes no data, the outputs take all of it, and a file may refuse them
    by_cases hzero : fd = 0
    · rw [if_pos hzero] at hwrite
      exact .inr ⟨_, bind_apply_error hwrite⟩
    by_cases hone : fd = 1
    · subst hone
      exact .inl ⟨_, _, .output hdata⟩
    by_cases htwo : fd = 2
    · subst htwo
      exact .inl ⟨_, _, .errors hdata⟩
    rw [if_neg hzero, if_neg hone, if_neg htwo] at hwrite
    rcases open_or_refused g fd with ⟨⟨o⟩⟩ | ⟨hrefused, -⟩
    · rw [o.writeFile_apply] at hwrite
      split at hwrite
      · exact .inr ⟨_, bind_apply_error hwrite⟩
      split at hwrite
      · exact .inr ⟨_, bind_apply_error hwrite⟩
      · next hend hfits =>
        have hfd := not_isStream_of_numbered hnumbered o.get?_eq
        exact .inl ⟨_, _, .put hdata hfd o (Nat.lt_of_not_le hend) (Nat.le_of_not_lt hfits)⟩
    · obtain ⟨e, herror⟩ := hrefused data
      exact .inr ⟨e, bind_apply_error (hwrite.trans herror)⟩
  · exact .inr ⟨_, bind_apply_error hfault⟩

/-- So does a read. -/
theorem read_works_or_refused (g : Guest) (fd start count taken : UInt32) :
    (∃ receipt g₁, Work g fd (.read start count taken) receipt g₁)
      ∨ ∃ e, fdRead fd start count taken g = (.error e, g) := by
  rw [fdRead_eq]
  rcases lists_or_fault g start count with ⟨buffers, hbuffers⟩ | hfault
  · rw [bind_apply_ok (readBuffers_of_lists hbuffers)]
    by_cases hzero : fd = 0
    · subst hzero
      exact .inl ⟨_, _, .input hbuffers⟩
    cases hfd : isStream fd with
    | true =>
      rw [readData, if_neg hzero, hfd]
      exact .inr ⟨.badf, rfl⟩
    | false =>
      rw [readData_file hfd]
      rcases open_or_refused g fd with ⟨⟨o⟩⟩ | ⟨-, hrefused⟩
      · exact .inl ⟨_, _, .take hbuffers hfd o⟩
      · obtain ⟨e, herror⟩ := hrefused (room buffers)
        exact .inr ⟨e, bind_apply_error herror⟩
  · exact .inr ⟨_, bind_apply_error hfault⟩

/-- And so does a seek. -/
theorem seek_works_or_refused (g : Guest) (fd : UInt32) (delta : Int) (whence offset : UInt32) :
    (∃ receipt g₁, Work g fd (.seek delta whence offset) receipt g₁)
      ∨ ∃ e, fdSeek fd delta whence offset g = (.error e, g) := by
  have hfound : descriptor? fd g = (.ok (g.descriptors.get? fd.toNat), g) := rfl
  rcases hget : g.descriptors.get? fd.toNat with _ | ⟨path, name⟩ | ⟨path, here, append⟩
  · rw [hget] at hfound
    rw [fdSeek, bind_apply_ok hfound]
    exact .inr ⟨_, rfl⟩
  · rw [hget] at hfound
    rw [fdSeek, bind_apply_ok hfound]
    exact .inr ⟨_, rfl⟩
  rw [fdSeek_apply hget]
  cases hbase : OpenFiles.base? ⟨path, here, append⟩ (g.files.files.getD path [])
      whence.toNat with
  | none => exact .inr ⟨_, rfl⟩
  | some base =>
    dsimp only
    rw [seekTo_apply]
    by_cases hlow : (base : Int) + delta < 0
    · rw [if_pos hlow]
      exact .inr ⟨_, rfl⟩
    by_cases hhigh : 2 ^ 64 ≤ (base : Int) + delta
    · rw [if_neg hlow, if_pos hhigh]
      exact .inr ⟨_, rfl⟩
    · have hplace : (((base : Int) + delta).toNat : Int) = base + delta := by omega
      exact .inl ⟨_, _, .move hget hbase hplace (by omega)⟩

/-- A transfer works, or is refused and leaves the guest alone. -/
theorem works_or_refused (hg : g.mounted = false) (hnumbered : g.descriptors.Numbered)
    (fd : UInt32) (t : Transfer) : (∃ receipt g₁, Work g fd t receipt g₁)
      ∨ ∃ e, t.steps fd g = (.error e, g) := by
  cases t with
  | write buffers count written =>
    exact write_works_or_refused hg hnumbered fd buffers count written
  | read buffers count taken => exact read_works_or_refused g fd buffers count taken
  | seek delta whence offset => exact seek_works_or_refused g fd delta whence offset

/-! ## Whole calls -/

/-- The call does its work whatever it answers, and answers zero exactly if its receipt fits. -/
theorem Work.of_run (h : Work g fd t receipt g₁) (hg : g.mounted = false)
    {result : Except Ending Nat} (hrun : ((t.call fd).run true).run g = (result, g')) :
    (result = .ok 0 ↔ receipt.Fits g.memory) ∧ ∃ m, g' = { g₁ with memory := m } := by
  have hending : (t.call fd).ending? false = none := by cases t <;> rfl
  have hsteps := h.steps_eq hg
  have hanswer := congrFun (t.answer_call fd) g
  rw [← h.memory_eq]
  by_cases hfits : receipt.Fits g₁.memory
  · rw [Receipt.store_of_fits hfits] at hsteps
    rw [PanicM.liftM_apply_ok hsteps] at hanswer
    obtain ⟨rfl, rfl⟩ := Prod.mk.inj ((SystemCall.run_eq_zero hanswer hg hending).symm.trans hrun)
    exact ⟨iff_of_true rfl hfits, _, rfl⟩
  · obtain ⟨e, m, hstore⟩ := Receipt.exists_store_error hfits
    rw [hstore] at hsteps
    rw [PanicM.liftM_apply_error hsteps] at hanswer
    obtain ⟨rfl, rfl⟩ :=
      Prod.mk.inj ((SystemCall.run_eq_number hanswer hg hending).symm.trans hrun)
    exact ⟨iff_of_false e.ok_number_ne_zero hfits, m, rfl⟩

/-- Without memory no transfer works. -/
theorem run_transfer_of_noMemory (hg : g.mounted = false) (fd : UInt32) (t : Transfer) :
    ((t.call fd).run false).run g = (.ok Errno.fault.number, g) := by
  have hending : (t.call fd).ending? false = none := by cases t <;> rfl
  have hmemory : (t.call fd).isMemoryless = false := by cases t <;> rfl
  rw [SystemCall.run_apply, hg, hending, hmemory]
  rfl

/-- What a guest has outside its memory, and what a transfer may change of it: contents of files,
captured bytes, descriptors with their offsets, and what is left of the input. -/
structure Untouched (g g' : Guest) : Prop where
  getElem?_eq : ∀ path : String, g'.files.files[path]? = g.files.files[path]?
  captured_eq : ∀ stream, (g'.capture stream).bytes = (g.capture stream).bytes
  get?_eq : ∀ n, g'.descriptors.get? n = g.descriptors.get? n
  stdin_eq : g'.stdin = g.stdin

theorem Untouched.refl (g : Guest) : Untouched g g :=
  ⟨fun _ => rfl, fun _ => rfl, fun _ => rfl, rfl⟩

/-- The memory is not among what a transfer is to leave alone. -/
theorem untouched_memory_iff (m : GuestMemory) :
    Untouched g { g₁ with memory := m } ↔ Untouched g g₁ := by
  have hcapture : ∀ stream, { g₁ with memory := m }.capture stream = g₁.capture stream := by
    intro stream
    cases stream <;> rfl
  constructor
  · intro h
    exact ⟨h.getElem?_eq, fun stream => hcapture stream ▸ h.captured_eq stream, h.get?_eq,
      h.stdin_eq⟩
  · intro h
    exact ⟨h.getElem?_eq, fun stream => (hcapture stream).symm ▸ h.captured_eq stream, h.get?_eq,
      h.stdin_eq⟩

/-- A transfer that is refused, or that has no memory to work with, leaves the guest alone. -/
theorem run_transfer_of_refused (hg : g.mounted = false) (hnumbered : g.descriptors.Numbered)
    {exportsMemory : Bool} (h : ¬ (exportsMemory ∧ ∃ receipt g₁, Work g fd t receipt g₁)) :
    ∃ e : Errno, ((t.call fd).run exportsMemory).run g = (.ok e.number, g) := by
  cases exportsMemory with
  | false => exact ⟨.fault, run_transfer_of_noMemory hg fd t⟩
  | true =>
    have hending : (t.call fd).ending? false = none := by cases t <;> rfl
    obtain ⟨e, herror⟩ := (works_or_refused hg hnumbered fd t).resolve_left
      fun hwork => h ⟨rfl, hwork⟩
    have hanswer : (t.call fd).answer g = (.error (.errno e), g) := by
      rw [t.answer_call, PanicM.liftM_apply_error herror]
    exact ⟨e, SystemCall.run_eq_number hanswer hg hending⟩

/-- A call that writes, reads or moves answers zero exactly if it works and its receipt fits into
memory. If it does not answer zero, then it leaves the guest alone, or has done its work all the same
and only the receipt is missing. So a failure leaves files, captures, descriptors and input alone if
and only if the work that it belongs to has a receipt that fits, or changes none of them. -/
theorem Reachable.failed_transfer_untouched_iff (h : Reachable start g) (exportsMemory : Bool)
    (t : Transfer) (fd : UInt32) {result : Except Ending Nat}
    (hrun : ((t.call fd).run exportsMemory).run g = (result, g')) :
    ((result ≠ .ok 0 → Untouched g g') ↔
        (exportsMemory → ∀ receipt g₁, Work g fd t receipt g₁ →
          receipt.Fits g.memory ∨ Untouched g g₁))
      ∧ (result = .ok 0 ↔
        exportsMemory ∧ ∃ receipt g₁, Work g fd t receipt g₁ ∧ receipt.Fits g.memory)
      ∧ (result ≠ .ok 0 → g' = g ∨ exportsMemory ∧ ∃ receipt g₁ m,
        Work g fd t receipt g₁ ∧ ¬ receipt.Fits g.memory ∧ g' = { g₁ with memory := m }) := by
  have hg := h.not_mounted
  by_cases hwork : exportsMemory ∧ ∃ receipt g₁, Work g fd t receipt g₁
  · obtain ⟨rfl, receipt, g₁, hw⟩ := hwork
    obtain ⟨hzero, m, hdone⟩ := hw.of_run hg hrun
    refine ⟨⟨fun huntouched _ receipt' g₁' hw' => ?_, fun hcondition hresult => ?_⟩,
      ⟨fun hresult => ?_, fun ⟨_, receipt', g₁', hw', hfits⟩ => ?_⟩, fun hresult => ?_⟩
    · -- it is the same run for any description of the work
      obtain ⟨hzero', m', hdone'⟩ := hw'.of_run hg hrun
      by_cases hresult : result = .ok 0
      · exact .inl (hzero'.1 hresult)
      · have hafter := huntouched hresult
        rw [hdone'] at hafter
        exact .inr ((untouched_memory_iff m').1 hafter)
    · have hsame := (hcondition rfl receipt g₁ hw).resolve_left (mt hzero.2 hresult)
      rw [hdone]
      exact (untouched_memory_iff m).2 hsame
    · exact ⟨rfl, receipt, g₁, hw, hzero.1 hresult⟩
    · exact (hw'.of_run hg hrun).1.2 hfits
    · exact .inr ⟨rfl, receipt, g₁, m, hw, mt hzero.2 hresult, hdone⟩
  -- without work the call is refused, and nothing has happened
  · obtain ⟨e, hrefused⟩ := run_transfer_of_refused hg h.numbered hwork
    obtain ⟨rfl, rfl⟩ := Prod.mk.inj (hrefused.symm.trans hrun)
    refine ⟨iff_of_true (fun _ => .refl g) fun hmemory receipt g₁ hw => ?_,
      iff_of_false e.ok_number_ne_zero fun ⟨hmemory, receipt, g₁, hw, _⟩ => ?_, fun _ => .inl rfl⟩
    · exact absurd ⟨hmemory, receipt, g₁, hw⟩ hwork
    · exact hwork ⟨hmemory, receipt, g₁, hw⟩

/-- A guest whose memory lists one buffer of one byte. -/
def oneBuffer : Guest :=
  { startWith ∅ "" with memory := FileTurn.laidOut [(32, 1)] [120] }

theorem reachable_oneBuffer : ∃ start, Reachable start oneBuffer := by
  obtain ⟨start, h⟩ := reachable_startWith ∅ ""
  exact ⟨start, h.isStart, h.acts.tail (.own _)⟩

/-- A write to a number that stands for nothing is refused, and nothing has changed. -/
theorem failed_transfer_untouched_oneBuffer : (∃ start, Reachable start oneBuffer)
    ∧ ∃ g', (((Transfer.write 0 1 24).call 9).run true).run oneBuffer = (.ok 8, g')
      ∧ Untouched oneBuffer g' := by
  obtain ⟨start, h⟩ := reachable_oneBuffer
  have hbadf : ((((Transfer.write 0 1 24).call 9).run true).run oneBuffer).1 = .ok 8 := by
    decide +kernel
  have hrun : (((Transfer.write 0 1 24).call 9).run true).run oneBuffer
      = (.ok 8, ((((Transfer.write 0 1 24).call 9).run true).run oneBuffer).2) :=
    Prod.ext hbadf rfl
  have hclosed : oneBuffer.descriptors.get? 9 = none := by decide +kernel
  obtain ⟨hiff, -⟩ := h.failed_transfer_untouched_iff true (.write 0 1 24) 9 hrun
  refine ⟨⟨start, h⟩, _, hrun, hiff.2 (fun _ receipt g₁ hw => ?_) (by decide)⟩
  cases hw with
  | put hdata hfd o hend hfits => exact absurd (hclosed.symm.trans o.get?_eq) (by simp)

/-- A guest that writes a byte to its output, and has no room for the number at the end of its memory,
is told of a fault while the byte is in the output. -/
theorem not_forall_failed_transfer_untouched : ¬ ∀ (start g g' : Guest) (exportsMemory : Bool)
    (t : Transfer) (fd : UInt32) (result : Except Ending Nat), Reachable start g →
      ((t.call fd).run exportsMemory).run g = (result, g') → result ≠ .ok 0 → Untouched g g' := by
  intro hall
  obtain ⟨start, h⟩ := reachable_oneBuffer
  have hfault : ((((Transfer.write 0 1 65535).call 1).run true).run oneBuffer).1 ≠ .ok 0 := by
    decide +kernel
  have huntouched := hall start oneBuffer _ true (.write 0 1 65535) 1 _ h rfl hfault
  have hwritten : ((((Transfer.write 0 1 65535).call 1).run true).run oneBuffer).2.stdout.bytes
      = [120] := by decide +kernel
  have hbefore : oneBuffer.stdout.bytes = [] := by decide +kernel
  have hsame := huntouched.captured_eq .out
  exact absurd (hwritten.symm.trans (hsame.trans hbefore)) (by simp)

end Guest

end Sandshell
