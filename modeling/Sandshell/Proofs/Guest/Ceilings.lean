import Sandshell.Proofs.Guest.Offsets

/-!
# Ceilings of a whole run

A run is followed through all its calls. What a guest writes to a stream is captured up to the
ceiling of the stream, while the guest is told that all of it was written; and no file outgrows both
the ceiling for files and its own length at the start.
-/

namespace Sandshell

open Relation (ReflTransGen)

/-! ## Lengths of files -/

namespace Tree

variable {t t' : Tree} {path : String}

theorem fileSize_of_getElem? {data : Bytes} (h : t.files[path]? = some data) :
    t.fileSize path = data.length := by
  rw [fileSize, Std.ExtTreeMap.getD_eq_getD_getElem?, h, Option.getD_some]

/-- Putting a file somewhere changes the size of what is there only. -/
theorem fileSize_insert (t : Tree) (path : String) (data : Bytes) (p : String) :
    { t with files := t.files.insert path data }.fileSize p
      = if p = path then data.length else t.fileSize p := by
  rw [fileSize, Std.ExtTreeMap.getD_insert]
  by_cases hp : p = path
  · rw [if_pos hp, if_pos (Std.compare_eq_iff_eq.2 hp.symm)]
  · rw [if_neg hp, if_neg fun heq => hp (Std.compare_eq_iff_eq.1 heq).symm]
    rfl

/-- What opening makes or empties has no bytes. -/
theorem fileSize_of_openEntry {flags : Guest.OpenFlags} {append : Bool} {d : Descriptor}
    (h : Guest.openEntry t path flags append = .ok (d, t')) (p : String) :
    t'.fileSize p ≤ t.fileSize p := by
  rcases Guest.openEntry_cases h with ⟨-, rfl⟩ | ⟨-, rfl | ⟨-, rfl⟩⟩
  · exact Nat.le_refl _
  · exact Nat.le_refl _
  · rw [fileSize_insert]
    split
    · exact Nat.zero_le _
    · exact Nat.le_refl _

/-- Removing a file makes no file longer. -/
theorem fileSize_of_removeFile (h : t.removeFile path = .ok t') (p : String) :
    t'.fileSize p ≤ t.fileSize p := by
  rw [removeFile] at h
  split_ifs at h
  rw [← Except.ok.inj h, fileSize, Std.ExtTreeMap.getD_erase]
  split
  · exact Nat.zero_le _
  · exact Nat.le_refl _

/-- Neither does making a directory. -/
theorem fileSize_of_makeDirectory (h : t.makeDirectory path = .ok t') (p : String) :
    t'.fileSize p ≤ t.fileSize p := by
  rw [makeDirectory] at h
  split_ifs at h
  rw [← Except.ok.inj h]
  exact Nat.le_refl _

end Tree

namespace Guest

variable {g g' g'' : Guest} {fd : UInt32}

/-- No file is longer than the ceiling, unless it was as long before. -/
structure Within (g g' : Guest) : Prop where
  maxFile_eq : g'.maxFile = g.maxFile
  fileSize_le : ∀ p, g'.files.fileSize p ≤ max g.maxFile (g.files.fileSize p)

/-- No file has grown. -/
theorem within_of_le (hmax : g'.maxFile = g.maxFile)
    (hsize : ∀ p, g'.files.fileSize p ≤ g.files.fileSize p) : Within g g' :=
  ⟨hmax, fun p => (hsize p).trans (Nat.le_max_right _ _)⟩

theorem Within.trans (h : Within g g') (h' : Within g' g'') : Within g g'' where
  maxFile_eq := h'.maxFile_eq.trans h.maxFile_eq
  fileSize_le p := by
    have hfirst := h.fileSize_le p
    have hsecond := h'.fileSize_le p
    rw [h.maxFile_eq] at hsecond
    omega

/-- Staying within the limits goes on from step to step. -/
theorem frame_within : Frame Within where
  refl _ := within_of_le rfl fun _ => Nat.le_refl _
  trans _ _ _ h h' := h.trans h'
  memory _ _ := within_of_le rfl fun _ => Nat.le_refl _
  input _ _ := within_of_le rfl fun _ => Nat.le_refl _
  drawn _ _ := within_of_le rfl fun _ => Nat.le_refl _
  descriptors _ _ := within_of_le rfl fun _ => Nat.le_refl _

/-- Lets no file outgrow the ceiling, also when it fails. -/
def confining {ε : Type} : Law Guest ε :=
  frame_within.law

/-- A write ends before the ceiling, so what it makes longer stays below. -/
theorem OpenFile.within_written (o : OpenFile g fd) {data : Bytes}
    (hfits : o.start + data.length ≤ g.maxFile) : Within g (o.written data) where
  maxFile_eq := rfl
  fileSize_le p := by
    have hfiles : (o.written data).files = { g.files with
        files := g.files.files.insert o.path (overwrite o.contents o.start data) } :=
      Tree.setFile_of_mem o.mem_files _
    rw [hfiles, Tree.fileSize_insert]
    split
    · next hp =>
      rw [hp, Tree.fileSize_of_getElem? o.contents_eq, length_overwrite]
      omega
    · exact Nat.le_max_right _ _

/-- A write that would make a file too long is refused, so that files stay within the limit. -/
theorem confining_writeFile (fd : UInt32) (data : Bytes) :
    confining.Obeys (writeFile fd data) := by
  refine Law.obeys_along_iff.2 fun g => ?_
  rcases open_or_refused g fd with ⟨⟨o⟩⟩ | ⟨hwrite, -⟩
  · rw [o.writeFile_apply]
    split
    · exact frame_within.refl g
    split
    · exact frame_within.refl g
    · next hfits => exact o.within_written (Nat.le_of_not_lt hfits)
  · obtain ⟨e, herror⟩ := hwrite data
    rw [herror]
    exact frame_within.refl g

/-- Files that are made or truncated are empty. -/
theorem confining_pathOpen (fd path length openFlags fdFlags address : UInt32) :
    confining.Obeys (pathOpen fd path length openFlags fdFlags address) := by
  refine Law.obeys_along_iff.2 fun g => ?_
  rcases pathOpen_cases g fd path length openFlags fdFlags address
    with ⟨e, herror⟩ | ⟨hholds, resolved, flags, htarget, hflags, hfdFlags⟩
  · rw [herror]
    exact frame_within.refl g
  rw [pathOpen_apply hholds htarget hflags hfdFlags]
  cases hopen : openEntry g.files resolved flags (fdFlags.toNat.testBit 0) with
  | error e => exact frame_within.refl g
  | ok opened =>
    have hsize := Tree.fileSize_of_openEntry hopen
    dsimp only
    -- the files have changed whether or not there is a number left
    cases g.descriptors.insert opened.1 with
    | error e => exact within_of_le rfl hsize
    | ok inserted => exact within_of_le rfl hsize

/-- A change that makes no file longer keeps all within the limits. -/
theorem confining_updateFiles {change : Tree → Except Errno Tree}
    (h : ∀ t t', change t = .ok t' → ∀ p, t'.fileSize p ≤ t.fileSize p) :
    confining.Obeys (updateFiles change) := by
  refine Law.obeys_along_iff.2 fun g => ?_
  rw [updateFiles_apply]
  cases hchange : change g.files with
  | error e => exact frame_within.refl g
  | ok files => exact within_of_le rfl (h _ _ hchange)

end Guest

namespace SystemCall

variable {g g' : Guest} {exportsMemory : Bool}

/-- So does every call. -/
theorem confining_answer (call : SystemCall) : Guest.confining.Obeys call.answer := by
  cases hcall : call.mayEdit with
  | false => exact answer_obeys_of_mayEdit Guest.frame_within call hcall
  | true =>
    cases call with
    | fdWrite fd buffers count written =>
      exact Guest.frame_within.ofStep_obeys (Guest.frame_within.fdWrite_obeys_of
        (fun _ _ => Guest.within_of_le rfl fun _ => Nat.le_refl _)
        (fun _ _ => Guest.within_of_le rfl fun _ => Nat.le_refl _)
        (Guest.confining_writeFile fd) buffers count written)
    | pathOpen fd path length openFlags fdFlags address =>
      exact Guest.frame_within.ofStep_obeys
        (Guest.confining_pathOpen fd path length openFlags fdFlags address)
    | pathUnlinkFile fd path length =>
      exact Guest.frame_within.ofStep_obeys
        ((Guest.frame_within.resolve_obeys fd path length).bind fun _ =>
          Guest.confining_updateFiles fun _ _ h => Tree.fileSize_of_removeFile h)
    | pathCreateDirectory fd path length =>
      exact Guest.frame_within.ofStep_obeys
        ((Guest.frame_within.resolve_obeys fd path length).bind fun _ =>
          Guest.confining_updateFiles fun _ _ h => Tree.fileSize_of_makeDirectory h)
    | _ => contradiction

/-- A write that succeeds tells how much data its buffers held, whatever became of it. -/
theorem written_of_run {fd buffers count written : UInt32}
    (h : ((SystemCall.fdWrite fd buffers count written).run exportsMemory).run g = (.ok 0, g')) :
    exportsMemory = true ∧ ∃ data, (Guest.buffered buffers count g).1 = .ok data
      ∧ (g'.memory.area written.toNat 4).toNumber = data.length := by
  have hanswer : Guest.fdWrite fd buffers count written g = (.ok (), g') :=
    PanicM.of_liftM_apply_eq_ok (answer_of_run h)
  refine ⟨?_, ?_⟩
  · cases exportsMemory with
    | true => rfl
    | false =>
      rw [run_apply] at h
      split at h
      · cases h
      · cases h
  rw [Guest.fdWrite_eq] at hanswer
  obtain ⟨data, g₁, hread, hwrite⟩ := exists_of_bind_apply_ok hanswer
  obtain ⟨_, g₂, -, hstore⟩ := exists_of_bind_apply_ok hwrite
  refine ⟨data, by rw [hread], ?_⟩
  by_cases hfits : data.length < 2 ^ 32
  · rw [Guest.writeWord_apply hfits] at hstore
    split at hstore
    · cases hstore
      exact GuestMemory.toNumber_area_store _ _ hfits
    · cases hstore
  · rw [Guest.word, if_neg hfits] at hstore
    cases hstore

end SystemCall

/-! ## Runs -/

/-- The call that a step makes, with the guest that makes it. -/
def Step.calls (g : Guest) : Step → List (Guest × SystemCall)
  | .call c => [(g, c)]
  | _ => []

namespace Running

/-- The calls that a run of steps makes in turn, each with the guest that makes it. -/
def calls (exportsMemory : Bool) (bounds : MemoryBounds) (r : Running) :
    List Step → List (Guest × SystemCall)
  | [] => []
  | s :: rest =>
    s.calls r.guest ++
      match step exportsMemory bounds r s with
      | (.error _, _) => []
      | (.ok _, r) => calls exportsMemory bounds r rest

/-- All that a run writes to a stream is the data of its calls, in their order. -/
theorem written_eq_flatMap (stream : OutputStream) (exportsMemory : Bool) (bounds : MemoryBounds)
    (r : Running) (program : List Step) : written stream exportsMemory bounds r program
      = (calls exportsMemory bounds r program).flatMap fun (g, c) =>
        c.data stream exportsMemory g := by
  induction program generalizing r with
  | nil => rfl
  | cons s rest ih =>
    have hfirst : s.data stream exportsMemory r.guest
        = (s.calls r.guest).flatMap fun (g, c) => c.data stream exportsMemory g := by
      cases s with
      | call c => exact (List.append_nil _).symm
      | _ => rfl
    rw [written, calls, List.flatMap_append, hfirst]
    cases step exportsMemory bounds r s with
    | mk result r' =>
      cases result with
      | error ending => rfl
      | ok entry => exact congrArg _ (ih r')

/-- By induction on the acts of a run. -/
theorem within_steps (exportsMemory : Bool) (bounds : MemoryBounds) (r : Running)
    (program : List Step) :
    Guest.Within r.guest (steps exportsMemory bounds r program).2.guest := by
  have hacts := acts_steps exportsMemory bounds r program
  generalize (steps exportsMemory bounds r program).2.guest = last at hacts ⊢
  induction hacts with
  | refl => exact Guest.frame_within.refl _
  | tail _ hact ih =>
    refine ih.trans ?_
    cases hact with
    | own m => exact Guest.frame_within.memory _ m
    | call exportsMemory c =>
      rcases c.run_snd exportsMemory _ with hsame | hanswer
      · rw [hsame]
        exact Guest.frame_within.refl _
      · rw [hanswer]
        exact Law.obeys_along_iff.1 c.confining_answer _

end Running

namespace Engine

variable {config : EngineConfig} {surroundings : Surroundings} {r : GuestRequest}
variable {files : FileSet} {res : GuestResult}

/-- The program of a request, run to its end. -/
structure Play (config : EngineConfig) (surroundings : Surroundings) (r : GuestRequest) where
  program : GuestProgram
  first : Running
  ending : Ending
  last : Running
  start_eq : start config surroundings r = .ok (program, first)
  steps_eq : Running.steps (program.memory = .asExpected) (program.bounds config.maxMemory) first
    program.steps = (ending, last)

namespace Play

/-- The guest shows its memory. -/
def exportsMemory (play : Play config surroundings r) : Bool :=
  play.program.memory = .asExpected

/-- All calls of the run in turn, each with the guest that makes it. -/
def calls (play : Play config surroundings r) : List (Guest × SystemCall) :=
  Running.calls play.exportsMemory (play.program.bounds config.maxMemory) play.first
    play.program.steps

/-- The data of all writes to a stream, one after the other, and then the report on a trap. -/
def sent (play : Play config surroundings r) (stream : OutputStream) : Bytes :=
  (play.calls.flatMap fun (g, c) => c.data stream play.exportsMemory g)
    ++ play.ending.report stream

end Play

/-- A result is that of a play which ended so. -/
theorem exists_play (h : run config surroundings r = .ok res) :
    ∃ played : Play config surroundings r, result played.ending played.last = .ok res := by
  obtain ⟨ending, last, hplay, hresult⟩ := exists_play_of_run h
  rw [play_eq_start] at hplay
  obtain ⟨⟨program, first⟩, hstart, hsteps⟩ := exists_of_map_eq_ok hplay
  exact ⟨⟨program, first, ending, last, hstart, hsteps⟩, hresult⟩

/-- The ceilings hold over a whole run. The result has of each stream the first bytes of all data
that was sent to it, and tells whether there were more; a write that succeeds tells the guest the
full length of its data; and no file is longer than the ceiling for files, unless it was as long in
the snapshot. -/
theorem ceilings_hold (hsource : r.source = .snapshot files)
    (h : run config surroundings r = .ok res) :
    ∃ (play : Play config surroundings r) (before after : FileSet),
      GuestRequest.normalFiles files = .ok before ∧ res.files = some after
      ∧ (∀ stream, res.captured stream
        = ((play.sent stream).take (r.limits.ceiling stream),
          decide (r.limits.ceiling stream < (play.sent stream).length)))
      ∧ (∀ stream g g' buffers count written,
        (g, .fdWrite stream.descriptor buffers count written) ∈ play.calls →
        ((SystemCall.fdWrite stream.descriptor buffers count written).run play.exportsMemory).run g
          = (.ok 0, g') →
        (g'.memory.area written.toNat 4).toNumber
          = ((SystemCall.fdWrite stream.descriptor buffers count written).data stream
            play.exportsMemory g).length)
      ∧ (∀ (p : String) (data : Bytes), after[p]? = some data →
        data.length ≤ max config.maxFile (before.getD p []).length)
      ∧ ∀ (p : String) (data : Bytes), before[p]? = some data →
        ∃ raw, files[raw]? = some data ∧ Path.normalize? raw = some p := by
  obtain ⟨play, hresult⟩ := exists_play h
  obtain ⟨files', before, cwd, hsource', hbefore, -, hfirst⟩ := exists_of_start play.start_eq
  obtain rfl : files = files' := FileSource.snapshot.inj (hsource.symm.trans hsource')
  refine ⟨play, before, _, hbefore, result_eq_ok hresult, fun stream => ?_, ?_, fun p data hp => ?_,
    fun p data hp => GuestRequest.exists_of_normalFiles hbefore hp⟩
  -- what the streams hold
  · obtain ⟨sent, hsent, hcaptured⟩ := captured_of_run h stream
    obtain rfl : play.sent stream = sent := by
      rw [written, play.start_eq] at hsent
      have hdata := Except.ok.inj hsent
      rw [play.steps_eq, Running.written_eq_flatMap] at hdata
      exact hdata
    exact hcaptured
  -- what the program is told that it has written
  · intro stream g g' buffers count written _ hrun
    obtain ⟨hexports, data, hdata, hlength⟩ := SystemCall.written_of_run hrun
    rw [hlength, SystemCall.data, hexports, hdata]
    simp
  -- how large its files are
  · have hwithin := Running.within_steps (play.program.memory = .asExpected)
      (play.program.bounds config.maxMemory) play.first play.program.steps
    rw [play.steps_eq, hfirst] at hwithin
    have hsize := hwithin.fileSize_le p
    rw [Tree.fileSize_of_getElem? hp, Tree.fileSize, GuestRequest.guest_files_files] at hsize
    exact hsize

/-- Writes to both streams and to a file that it makes, and traps. -/
def busy : List Step :=
  [.poke 0 (Bytes.ofString "abcdef"),
    .poke 16 (Bytes.littleEndian 4 0 ++ Bytes.littleEndian 4 4),
    .poke 24 (Bytes.littleEndian 4 4 ++ Bytes.littleEndian 4 2),
    .poke 32 (Bytes.ofString "new"),
    .call (.fdWrite 1 16 1 64), .call (.fdWrite 2 24 1 64), .call (.fdWrite 1 24 1 64),
    .call (.pathOpen 3 32 3 1 0 64), .call (.fdWrite 4 16 2 64), .trap .unreachable]

/-- A request to run it with a file that is longer than the ceiling of five bytes. -/
def busyRequest : GuestRequest where
  module := .program { steps := busy }
  source := .snapshot ((∅ : FileSet).insert "old" (Bytes.ofString "1234567"))
  limits := ⟨5, 4⟩

/-- The second write to a stream is cut, and the file that was made stays empty. -/
theorem ceilings_hold_busy : ∃ res, run { maxFile := 5 } {} busyRequest = .ok res
    ∧ res.captured .out = (Bytes.ofString "abcde", true)
    ∧ res.captured .err = (Bytes.ofString "efwa", true)
    ∧ ∃ before after : FileSet, res.files = some after
      ∧ GuestRequest.normalFiles ((∅ : FileSet).insert "old" (Bytes.ofString "1234567")) = .ok before
      ∧ ∀ (p : String) (data : Bytes), after[p]? = some data →
        data.length ≤ max 5 (before.getD p []).length := by
  have hrun : (run { maxFile := 5 } {} busyRequest).map
      (fun res => (res.captured .out, res.captured .err))
      = .ok ((Bytes.ofString "abcde", true), (Bytes.ofString "efwa", true)) := by
    decide +kernel
  obtain ⟨res, hres, hcaptured⟩ := exists_of_map_eq_ok hrun
  obtain ⟨hout, herr⟩ := Prod.mk.inj hcaptured
  obtain ⟨play, before, after, hbefore, hafter, -, -, hlength, -⟩ := ceilings_hold rfl hres
  exact ⟨res, hres, hout, herr, before, after, hafter, hbefore, hlength⟩

end Engine

end Sandshell
