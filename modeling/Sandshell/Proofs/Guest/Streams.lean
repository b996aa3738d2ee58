import Sandshell.Proofs.Guest.Frame
import Sandshell.Proofs.Guest.Result
import Sandshell.Script.Tree

/-!
# What guests write to their streams

The capture of a stream holds what all writes to it gave, one after the other, up to its ceiling. No
other call touches it.
-/

namespace Sandshell

namespace Capture

@[simp] theorem write_nil (c : Capture) : c.write [] = c := by
  simp [write]

/-- It does not matter how data is cut up. -/
theorem write_write (c : Capture) (first second : Bytes) :
    (c.write first).write second = c.write (first ++ second) := by
  have hbytes : (c.bytes ++ first.take (c.limit - c.bytes.length)).length
      = c.bytes.length + min (c.limit - c.bytes.length) first.length := by
    rw [List.length_append, List.length_take]
  have hroom : c.limit - (c.bytes.length + min (c.limit - c.bytes.length) first.length)
      = c.limit - c.bytes.length - first.length := by
    omega
  simp only [write, hbytes, hroom, List.take_append, List.append_assoc, List.length_append,
    Bool.or_assoc, ← Bool.decide_or]
  congr 2
  rw [decide_eq_decide]
  omega

@[simp] theorem ofBytes_bytes (limit : Nat) (data : Bytes) :
    (ofBytes limit data).bytes = data.take limit :=
  rfl

@[simp] theorem ofBytes_truncated (limit : Nat) (data : Bytes) :
    (ofBytes limit data).truncated = decide (limit < data.length) :=
  rfl

end Capture

/-- The ceiling of a stream. -/
def OutputLimits.ceiling (limits : OutputLimits) : OutputStream → Nat
  | .out => limits.maxStdout
  | .err => limits.maxStderr

/-- The descriptor that a guest writes a stream through. -/
def OutputStream.descriptor : OutputStream → UInt32
  | .out => 1
  | .err => 2

variable {stream : OutputStream}

namespace Guest

variable {α ε : Type} {g g' : Guest} {fd : UInt32}

/-- What is captured of a stream. -/
def capture (g : Guest) : OutputStream → Capture
  | .out => g.stdout
  | .err => g.stderr

/-! ## Calls that do not write -/

/-- Both captures stay, and the guest works where it worked before. -/
structure Quiet (g g' : Guest) : Prop where
  capture_eq : ∀ stream, g'.capture stream = g.capture stream
  mounted_eq : g'.mounted = g.mounted

/-- Leaving both captures as they are goes on from step to step. -/
theorem frame_quiet : Frame Quiet where
  refl _ := ⟨fun _ => rfl, rfl⟩
  trans _ _ _ h h' := ⟨fun stream => (h'.capture_eq stream).trans (h.capture_eq stream),
    h'.mounted_eq.trans h.mounted_eq⟩
  memory _ _ := ⟨fun stream => by cases stream <;> rfl, rfl⟩
  input _ _ := ⟨fun stream => by cases stream <;> rfl, rfl⟩
  drawn _ _ := ⟨fun stream => by cases stream <;> rfl, rfl⟩
  descriptors _ _ := ⟨fun stream => by cases stream <;> rfl, rfl⟩

theorem quiet_files (g : Guest) (files : Tree) : Quiet g { g with files } :=
  ⟨fun stream => by cases stream <;> rfl, rfl⟩

/-- Leaves the streams alone, also when it fails. -/
def quiet : Law Guest ε :=
  frame_quiet.law

/-! ## Writes -/

/-- The data that a write takes from its buffers. -/
def buffered (buffers count : UInt32) : CallM Bytes := do
  let buffers ← onMemory (GuestMemory.readBuffers buffers.toNat count.toNat)
  gather (buffersToWrite (← get).mounted buffers)

/-- Writing is gathering the data, putting it where it goes and saying how much it was. -/
theorem fdWrite_eq (fd buffers count written : UInt32) : fdWrite fd buffers count written = (do
    let data ← buffered buffers count
    writeData fd data
    onMemory (GuestMemory.writeWord written.toNat (← word data.length))) := by
  simp only [fdWrite, buffered, bind_assoc]

/-- Gathering data disturbs nothing. -/
theorem Calm.buffered_obeys {R : Guest → Guest → Prop} (h : Calm R) (buffers count : UInt32) :
    h.law.Obeys (buffered buffers count) :=
  (h.onMemory_obeys _).bind fun _ => h.get_obeys.bind fun _ => h.gather_obeys _

/-- Writing does what capturing and writing to a file do. -/
theorem Calm.fdWrite_obeys_of {R : Guest → Guest → Prop} (h : Calm R)
    (hout : ∀ g c, R g { g with stdout := c }) (herr : ∀ g c, R g { g with stderr := c })
    {fd : UInt32} (hfile : ∀ data, h.law.Obeys (writeFile fd data))
    (buffers count written : UInt32) : h.law.Obeys (fdWrite fd buffers count written) := by
  have hstream : ∀ (c : Prop) [Decidable c] (f : Guest → Guest), (∀ g, R g (f g)) →
      h.law.Obeys (modify f >>= fun _ => if c then throw .io else pure () : CallM Unit) := by
    intro c _ f hf
    refine Law.Obeys.bind (h.modify_obeys hf) fun _ => ?_
    split
    · exact h.throw_obeys _
    · exact Law.obeys_pure _
  rw [fdWrite_eq]
  refine (h.buffered_obeys buffers count).bind fun data =>
    Law.Obeys.bind ?_ fun _ => h.writeWord_obeys _ _
  refine h.get_obeys.bind fun g => ?_
  dsimp only
  split
  · exact h.throw_obeys _
  split
  · exact hstream _ _ fun g => hout g _
  split
  · exact hstream _ _ fun g => herr g _
  · exact hfile data

/-- Data goes to the captures, or to the file that the descriptor stands for. -/
theorem writeData_eq (hg : g.mounted = false) (fd : UInt32) (data : Bytes) :
    writeData fd data g =
      if fd = 0 then (.error .badf, g)
      else if fd = 1 then (.ok (), { g with stdout := g.stdout.write data })
      else if fd = 2 then (.ok (), { g with stderr := g.stderr.write data })
      else writeFile fd data g := by
  have hfits : ∀ full : Bool, ¬ (g.mounted && full) = true := fun full => by simp [hg]
  rw [writeData, bind_apply_ok (rfl : (get : CallM Guest) g = (.ok g, g))]
  simp only [hfits]
  split
  · rfl
  split
  · rfl
  split
  · rfl
  · rfl

theorem ne_of_isStream {n : UInt32} (hfd : isStream fd = false) (hn : n ≤ 2) : fd ≠ n := by
  rintro rfl
  rw [isStream, decide_eq_false_iff_not] at hfd
  exact hfd hn

/-- What is no stream is written to as a file. -/
theorem writeData_file (hg : g.mounted = false) (hfd : isStream fd = false) (data : Bytes) :
    writeData fd data g = writeFile fd data g := by
  rw [writeData_eq hg, if_neg (ne_of_isStream hfd (by decide)),
    if_neg (ne_of_isStream hfd (by decide)), if_neg (ne_of_isStream hfd (by decide))]

/-- A guest on a snapshot captures all data that it writes to a stream. -/
theorem capture_writeData (hg : g.mounted = false) (fd : UInt32) (data : Bytes)
    (stream : OutputStream) :
    (writeData fd data g).2.mounted = false
      ∧ (writeData fd data g).2.capture stream
        = (g.capture stream).write (if fd = stream.descriptor then data else []) := by
  rw [writeData_eq hg]
  split
  · next hfd =>
    subst hfd
    cases stream <;> simp [OutputStream.descriptor, hg]
  split
  · next hfd =>
    subst hfd
    cases stream <;> simp [OutputStream.descriptor, capture, hg]
  split
  · next hfd =>
    subst hfd
    cases stream <;> simp [OutputStream.descriptor, capture, hg]
  · next hout herr =>
    have hother : fd ≠ stream.descriptor := by cases stream <;> assumption
    have hquiet : Quiet g (writeFile fd data g).2 := Law.obeys_along_iff.1
      (frame_quiet.writeFile_obeys quiet_files fd data) g
    rw [if_neg hother, Capture.write_nil]
    exact ⟨hquiet.mounted_eq.trans hg, hquiet.capture_eq stream⟩

/-- So it does by a whole call, also one that cannot store how much was written. -/
theorem capture_fdWrite (hg : g.mounted = false) (fd buffers count written : UInt32)
    (stream : OutputStream) :
    (fdWrite fd buffers count written g).2.mounted = false
      ∧ (fdWrite fd buffers count written g).2.capture stream
        = (g.capture stream).write (match (buffered buffers count g).1 with
          | .ok data => if fd = stream.descriptor then data else []
          | .error _ => []) := by
  rw [fdWrite_eq]
  rcases hread : buffered buffers count g with ⟨e | data, g₁⟩
  · have hquiet : Quiet g g₁ := (frame_quiet.buffered_obeys buffers count).error hread
    rw [bind_apply_error hread, Capture.write_nil]
    exact ⟨hquiet.mounted_eq.trans hg, hquiet.capture_eq stream⟩
  · have hquiet : Quiet g g₁ := (frame_quiet.buffered_obeys buffers count).ok hread
    obtain ⟨hmounted, hcapture⟩ :=
      capture_writeData (hquiet.mounted_eq.trans hg) fd data stream
    rw [hquiet.capture_eq] at hcapture
    rw [bind_apply_ok hread, ← hcapture]
    rcases hwrite : writeData fd data g₁ with ⟨e | done, g₂⟩
    · rw [hwrite] at hmounted
      rw [bind_apply_error hwrite]
      exact ⟨hmounted, rfl⟩
    · rw [hwrite] at hmounted
      rw [bind_apply_ok hwrite]
      have hafter : Quiet g₂ _ :=
        Law.obeys_along_iff.1 (frame_quiet.writeWord_obeys written.toNat data.length) g₂
      exact ⟨hafter.mounted_eq.trans hmounted, hafter.capture_eq stream⟩

end Guest

namespace SystemCall

open Law (obeys_pure)
open Guest (quiet)

variable {g : Guest}

/-- The data that a call writes to a stream. A call can write if it finds its buffers, and it has
written them even where it fails afterwards. -/
def data (stream : OutputStream) (exportsMemory : Bool) (g : Guest) : SystemCall → Bytes
  | .fdWrite fd buffers count _ =>
    if exportsMemory && fd = stream.descriptor then
      match (Guest.buffered buffers count g).1 with
      | .ok data => data
      | .error _ => []
    else []
  | _ => []

/-- All calls but one leave the streams alone. -/
theorem quiet_answer (call : SystemCall)
    (h : ∀ fd buffers count written, call ≠ .fdWrite fd buffers count written) :
    quiet.Obeys call.answer :=
  answer_obeys Guest.frame_quiet Guest.quiet_files call h

/-- A call that ends the run does not get to its answer. -/
theorem data_of_ending? {ending : Ending} {call : SystemCall} {mounted : Bool}
    (h : call.ending? mounted = some ending) (exportsMemory : Bool) :
    call.data stream exportsMemory g = [] := by
  cases call <;> first | rfl | cases h

/-- Without memory to point to nothing is written. -/
theorem data_of_noMemory (call : SystemCall) : call.data stream false g = [] := by
  cases call <;> rfl

/-- A call adds its data to the capture of the stream, and no other call adds any. -/
theorem capture_answer (hg : g.mounted = false) (call : SystemCall) (stream : OutputStream) :
    (call.answer g).2.mounted = false
      ∧ (call.answer g).2.capture stream
        = (g.capture stream).write (call.data stream true g) := by
  by_cases hwrite : ∃ fd buffers count written, call = .fdWrite fd buffers count written
  · obtain ⟨fd, buffers, count, written, rfl⟩ := hwrite
    obtain ⟨hmounted, hcapture⟩ :=
      Guest.capture_fdWrite hg fd buffers count written stream
    refine ⟨hmounted, hcapture.trans (congrArg _ ?_)⟩
    simp only [data, Bool.true_and, decide_eq_true_eq]
    split <;> split <;> rfl
  · push Not at hwrite
    have hquiet : Guest.Quiet g (call.answer g).2 :=
      Law.obeys_along_iff.1 (quiet_answer call hwrite) g
    have hdata : call.data stream true g = [] := by
      cases call with
      | fdWrite fd buffers count written => exact absurd rfl (hwrite fd buffers count written)
      | _ => rfl
    rw [hdata, Capture.write_nil]
    exact ⟨hquiet.mounted_eq.trans hg, hquiet.capture_eq stream⟩

/-- On a snapshot a call adds what it writes to the capture of the stream, and nothing else. -/
theorem capture_run (hg : g.mounted = false) (exportsMemory : Bool) (call : SystemCall)
    (stream : OutputStream) :
    ((call.run exportsMemory).run g).2.mounted = false
      ∧ ((call.run exportsMemory).run g).2.capture stream
        = (g.capture stream).write (call.data stream exportsMemory g) := by
  have hstay : call.data stream exportsMemory g = [] → g.mounted = false
      ∧ g.capture stream = (g.capture stream).write (call.data stream exportsMemory g) := by
    intro hdata
    rw [hdata, Capture.write_nil]
    exact ⟨hg, rfl⟩
  rw [run_apply, hg]
  cases hending : call.ending? false with
  | some ending => exact hstay (data_of_ending? hending _)
  | none =>
    cases exportsMemory with
    | true =>
      have hanswer := capture_answer hg call stream
      rcases hcall : call.answer g with ⟨e | _, g'⟩
      · rw [hcall] at hanswer
        exact hanswer
      · rw [hcall] at hanswer
        exact hanswer
    | false =>
      simp only [Bool.not_false, Bool.true_and, Bool.false_and]
      split
      · contradiction
      split
      · exact hstay (data_of_noMemory call)
      -- the few calls that need no memory do not write
      · next hmemoryless =>
        have hquiet : Guest.Quiet g (call.answer g).2 :=
          Law.obeys_along_iff.1 (quiet_answer call fun _ _ _ _ hcall => by
            rw [hcall] at hmemoryless
            exact hmemoryless rfl) g
        rw [data_of_noMemory, Capture.write_nil]
        rcases hcall : call.answer g with ⟨e | _, g'⟩
        · rw [hcall] at hquiet
          exact ⟨hquiet.mounted_eq.trans hg, hquiet.capture_eq stream⟩
        · rw [hcall] at hquiet
          exact ⟨hquiet.mounted_eq.trans hg, hquiet.capture_eq stream⟩

end SystemCall

/-! ## Runs -/

/-- The data that a step writes to a stream; only calls write. -/
def Step.data (stream : OutputStream) (exportsMemory : Bool) (g : Guest) : Step → Bytes
  | .call c => c.data stream exportsMemory g
  | _ => []

namespace Running

variable {r r' : Running}

/-- The data that a run of steps writes to a stream, one write after the other. -/
def written (stream : OutputStream) (exportsMemory : Bool) (bounds : MemoryBounds) (r : Running) :
    List Step → Bytes
  | [] => []
  | s :: rest =>
    s.data stream exportsMemory r.guest ++
      match step exportsMemory bounds r s with
      | (.error _, _) => []
      | (.ok _, r) => written stream exportsMemory bounds r rest

/-- A step adds the data that it writes to the capture, and nothing else. -/
theorem capture_step (hr : r.guest.mounted = false) (exportsMemory : Bool)
    (bounds : MemoryBounds) (s : Step) (stream : OutputStream) :
    (step exportsMemory bounds r s).2.guest.mounted = false
      ∧ (step exportsMemory bounds r s).2.guest.capture stream
        = (r.guest.capture stream).write (s.data stream exportsMemory r.guest) := by
  -- a step of the program itself writes nothing
  have hmemory : ∀ m : GuestMemory, { r.guest with memory := m }.capture stream
      = (r.guest.capture stream).write [] := fun m => by
    rw [Capture.write_nil]
    cases stream <;> rfl
  have hstay : r.guest.capture stream = (r.guest.capture stream).write [] :=
    (Capture.write_nil _).symm
  have hexit : ∀ code, (step.exitWith exportsMemory r code).2.guest.mounted = false
      ∧ (step.exitWith exportsMemory r code).2.guest.capture stream
        = (r.guest.capture stream).write [] := fun code => by
    have hrun := SystemCall.capture_run hr exportsMemory (.procExit code) stream
    unfold step.exitWith
    split
    · next hend => rwa [hend] at hrun
    · next hend => rwa [hend] at hrun
  -- only calls write, and leaving is one
  cases s with
  | call c =>
    have hrun := SystemCall.capture_run hr exportsMemory c stream
    simp only [step]
    split
    · next hend => rwa [hend] at hrun
    · next hend => rwa [hend] at hrun
  | poke address data =>
    simp only [step]
    split
    · exact ⟨hr, hmemory _⟩
    · exact ⟨hr, hstay⟩
  | peek address length =>
    simp only [step]
    split
    · exact ⟨hr, hstay⟩
    split
    · exact ⟨hr, hstay⟩
    · exact ⟨hr, hstay⟩
  | copyWord target source =>
    simp only [step]
    split
    · exact ⟨hr, hmemory _⟩
    · exact ⟨hr, hstay⟩
  | grow pages =>
    simp only [step]
    split
    · exact ⟨hr, hmemory _⟩
    · exact ⟨hr, hstay⟩
  | exit code => exact hexit code
  | exitLast => exact hexit _
  | exitWord address =>
    simp only [step]
    split
    · exact hexit _
    · exact ⟨hr, hstay⟩
  | trap t => exact ⟨hr, hstay⟩

/-- By induction on the steps: a run adds all data that it writes to the capture. -/
theorem capture_steps (hr : r.guest.mounted = false) (exportsMemory : Bool)
    (bounds : MemoryBounds) (program : List Step) (stream : OutputStream) :
    (steps exportsMemory bounds r program).2.guest.capture stream
      = (r.guest.capture stream).write (written stream exportsMemory bounds r program) := by
  induction program generalizing r with
  | nil => exact (Capture.write_nil _).symm
  | cons s rest ih =>
    obtain ⟨hmounted, hcapture⟩ := capture_step hr exportsMemory bounds s stream
    rw [steps, written]
    rcases hstep : step exportsMemory bounds r s with ⟨ending | entry, r'⟩
    · rw [hstep] at hcapture
      rw [List.append_nil]
      exact hcapture
    · rw [hstep] at hmounted hcapture
      dsimp only
      rw [ih hmounted, hcapture, Capture.write_write]

end Running

/-- The report that the end of a run adds to a stream. -/
def Ending.report (stream : OutputStream) : Ending → Bytes
  | .trapped message =>
    match stream with
    | .out => []
    | .err => Bytes.ofString (message ++ "\n")
  | _ => []

/-- What a result has of a stream: the bytes, and whether there were more. -/
def GuestResult.captured (r : GuestResult) : OutputStream → Bytes × Bool
  | .out => (r.stdout, r.stdoutTruncated)
  | .err => (r.stderr, r.stderrTruncated)

namespace Engine

variable {config : EngineConfig} {surroundings : Surroundings} {r : GuestRequest}
variable {res : GuestResult}

/-- The program of a request on a snapshot, and the guest that it starts with. -/
def start (config : EngineConfig) (surroundings : Surroundings) (r : GuestRequest) :
    Except EngineError (GuestProgram × Running) := do
  match r.source with
  | .mount => throw (.unsupported "host directory mounts need a host runner")
  | .snapshot files =>
    let cwd ← r.directory
    let files ← GuestRequest.normalFiles files
    let p ← r.module.load config.maxMemory
    return (p, { guest := r.guest surroundings config p ⟨files, ∅⟩ cwd })

/-- All that a run writes to a stream, with the report on a trap. -/
def written (stream : OutputStream) (config : EngineConfig) (surroundings : Surroundings)
    (r : GuestRequest) : Except EngineError Bytes := do
  let (p, first) ← start config surroundings r
  let exportsMemory := p.memory = .asExpected
  let bounds := p.bounds config.maxMemory
  let (ending, _) := Running.steps exportsMemory bounds first p.steps
  return Running.written stream exportsMemory bounds first p.steps ++ ending.report stream

/-- Playing a program is loading it and taking its steps from where it starts. -/
theorem play_eq_start (config : EngineConfig) (surroundings : Surroundings) (r : GuestRequest) :
    play config surroundings r = (start config surroundings r).map fun (p, first) =>
      Running.steps (p.memory = .asExpected) (p.bounds config.maxMemory) first p.steps := by
  unfold play start
  cases r.source with
  | mount => rfl
  | snapshot files =>
    dsimp only
    cases r.directory with
    | error e => rfl
    | ok cwd =>
      cases hfiles : GuestRequest.normalFiles files with
      | error e => rfl
      | ok files =>
        cases r.module.load config.maxMemory with
        | error e => rfl
        | ok p => rfl

/-- A run starts with a program that loads, and with the files of a snapshot under normal paths. -/
theorem exists_of_start {p : GuestProgram} {first : Running}
    (h : start config surroundings r = .ok (p, first)) :
    ∃ files normal cwd, r.source = .snapshot files ∧ GuestRequest.normalFiles files = .ok normal
      ∧ r.module.load config.maxMemory = .ok p
      ∧ first = { guest := r.guest surroundings config p ⟨normal, ∅⟩ cwd } := by
  unfold start at h
  cases hsource : r.source with
  | mount =>
    rw [hsource] at h
    cases h
  | snapshot files =>
    rw [hsource] at h
    dsimp only at h
    cases hcwd : r.directory with
    | error e =>
      rw [hcwd] at h
      cases h
    | ok cwd =>
      cases hfiles : GuestRequest.normalFiles files with
      | error e =>
        rw [hcwd, hfiles] at h
        cases h
      | ok normal =>
        cases hload : r.module.load config.maxMemory with
        | error e =>
          rw [hcwd, hfiles, hload] at h
          cases h
        | ok p' =>
          rw [hcwd, hfiles, hload] at h
          cases h
          exact ⟨files, normal, cwd, rfl, hfiles, rfl, rfl⟩

/-- Nothing is captured when a guest starts. -/
theorem guest_of_start {p : GuestProgram} {first : Running}
    (h : start config surroundings r = .ok (p, first)) : first.guest.mounted = false
      ∧ ∀ stream, first.guest.capture stream = .empty (r.limits.ceiling stream) := by
  obtain ⟨files, normal, cwd, -, -, -, rfl⟩ := exists_of_start h
  exact ⟨rfl, fun stream => by cases stream <;> rfl⟩

/-- A result has of each stream what was captured of it, and then the report on a trap. -/
theorem captured_of_result {ending : Ending} {after : Running}
    (h : result ending after = .ok res) (stream : OutputStream) :
    res.captured stream = (((after.guest.capture stream).write (ending.report stream)).bytes,
      ((after.guest.capture stream).write (ending.report stream)).truncated) := by
  cases ending with
  | malformedFlags flags => cases h
  | panicked => cases h
  | trapped message =>
    cases h
    cases stream with
    | out => exact congrArg (fun c : Capture => (c.bytes, c.truncated)) (Capture.write_nil _).symm
    | err => rfl
  | returned =>
    cases h
    cases stream <;> exact congrArg (fun c : Capture => (c.bytes, c.truncated))
      (Capture.write_nil _).symm
  | exited code =>
    cases h
    cases stream <;> exact congrArg (fun c : Capture => (c.bytes, c.truncated))
      (Capture.write_nil _).symm

/-- Of all that a run writes to a stream its result has what fits under the ceiling, and tells
whether there was more. -/
theorem captured_of_run (h : run config surroundings r = .ok res) (stream : OutputStream) :
    ∃ data, written stream config surroundings r = .ok data
      ∧ res.captured stream = (data.take (r.limits.ceiling stream),
        decide (r.limits.ceiling stream < data.length)) := by
  obtain ⟨ending, after, hplay, hresult⟩ := exists_play_of_run h
  rw [play_eq_start] at hplay
  obtain ⟨⟨p, first⟩, hstart, hplayed⟩ := exists_of_map_eq_ok hplay
  have hsteps : Running.steps (p.memory = .asExpected) (p.bounds config.maxMemory) first p.steps
      = (ending, after) := hplayed
  obtain ⟨hmounted, hempty⟩ := guest_of_start hstart
  refine ⟨_, by rw [written, hstart]; rfl, ?_⟩
  have hcapture := Running.capture_steps hmounted (p.memory = .asExpected)
    (p.bounds config.maxMemory) p.steps stream
  rw [hempty, hsteps] at hcapture
  rw [captured_of_result hresult, hcapture, Capture.write_write, hsteps]
  rfl

end Engine

end Sandshell
