import Sandshell.Proofs.Workspace.Files
import Sandshell.Shell.Routing

/-!
# Delivered output

What delivery does with the output of a command: each stream goes to its sink as a whole, and sinks
that are the same file are told apart by nothing but their first mode. What is delivered to a file is
written once.
-/

namespace Sandshell

/-! ## Sinks -/

/-- Where output ends up. -/
inductive Place where
  | out
  | err
  | file (path : String)
deriving DecidableEq, Repr

namespace Sink

def place : Sink → Place
  | .out => .out
  | .err => .err
  | .file path _ => .file path

/-- How the file at a path is opened, where the sink is that file. -/
def modeAt (path : String) : Sink → Option OpenMode
  | .file path' mode => if path' = path then some mode else none
  | _ => none

/-- Only a file has a mode. -/
theorem modeAt_eq_some_iff {sink : Sink} {path : String} {mode : OpenMode} :
    sink.modeAt path = some mode ↔ sink = .file path mode := by
  cases sink with
  | out => simp [modeAt]
  | err => simp [modeAt]
  | file path' mode' =>
    rw [modeAt, Sink.file.injEq]
    split
    · next hpath => simp [hpath]
    · next hpath => simp [hpath]

/-- The path of the file, where it is one. -/
def paths : Sink → List String
  | .file path _ => [path]
  | _ => []

theorem mem_paths_iff {sink : Sink} {path : String} :
    path ∈ sink.paths ↔ ∃ mode, sink = .file path mode := by
  cases sink <;> simp [paths, eq_comm]

end Sink

/-- The paths of all files that are written. -/
def Routing.paths (r : Routing) : List String :=
  r.out.paths ++ r.err.paths ++ r.opened.map Prod.fst

namespace Routing

variable {r : Routing} {path : String}

/-- Joining the errors to the output opens no file. -/
theorem mem_paths_of_joinErrors (h : path ∈ r.joinErrors.paths) : path ∈ r.paths := by
  simp only [paths, joinErrors, List.mem_append] at h ⊢
  tauto

/-- Sending a stream to a file opens this file only. -/
theorem mem_paths_of_toFile {stream : OutputStream} {mode : OpenMode} {target : String}
    (h : path ∈ (r.toFile stream mode target).paths) : path = target ∨ path ∈ r.paths := by
  cases stream <;>
  · simp only [paths, toFile, Sink.paths, List.map_append, List.map_cons, List.map_nil,
      List.mem_append, List.mem_singleton] at h ⊢
    tauto

end Routing

/-! ## Files to be written -/

namespace FileOutput

/-- The data for a path. -/
def dataAt (path : String) : List FileOutput → Bytes
  | [] => []
  | f :: rest => if f.path = path then f.data else dataAt path rest

/-- The mode for a path. -/
def modeAt (path : String) : List FileOutput → Option OpenMode
  | [] => none
  | f :: rest => if f.path = path then some f.mode else modeAt path rest

variable (path path' : String) (mode : OpenMode) (data : Bytes) (files : List FileOutput)

/-- Data is added behind what a file has already. -/
theorem dataAt_add : dataAt path' (add path mode data files)
    = dataAt path' files ++ if path' = path then data else [] := by
  induction files with
  | nil =>
    by_cases hpath : path' = path
    · simp [add, dataAt, hpath]
    · simp [add, dataAt, hpath, Ne.symm hpath]
  | cons f rest ih =>
    rw [add]
    by_cases hf : f.path = path
    · rw [if_pos hf]
      by_cases hpath : f.path = path'
      · simp [dataAt, hpath, ← hf]
      · simp [dataAt, hpath, ← hf, Ne.symm hpath]
    · rw [if_neg hf, dataAt, ih, dataAt]
      split
      · next hpath => simp [← hpath, hf]
      · rfl

/-- The first mode given for a path stays. -/
theorem modeAt_add : modeAt path' (add path mode data files)
    = (modeAt path' files).or (if path = path' then some mode else none) := by
  induction files with
  | nil => simp [add, modeAt]
  | cons f rest ih =>
    rw [add]
    by_cases hf : f.path = path
    · rw [if_pos hf, modeAt, modeAt]
      by_cases hpath : f.path = path'
      · simp [hpath]
      · simp [hpath, ← hf]
    · rw [if_neg hf, modeAt, ih, modeAt]
      split
      · rfl
      · rfl

variable {path path' mode data files}

/-- Adding data to a file adds at most this one. -/
theorem mem_paths_of_add {path target : String} {mode : OpenMode} {data : Bytes}
    (h : path ∈ (add target mode data files).map FileOutput.path) :
    path = target ∨ path ∈ files.map FileOutput.path := by
  induction files with
  | nil => exact .inl (List.mem_singleton.1 h)
  | cons f rest ih =>
    rw [add] at h
    split at h
    · exact .inr h
    · rw [List.map_cons, List.mem_cons] at h ⊢
      exact h.elim (.inr ∘ .inl) fun hrest => (ih hrest).imp_right .inr

theorem modeAt_eq_none_iff : modeAt path files = none ↔ path ∉ files.map FileOutput.path := by
  induction files with
  | nil => simp [modeAt]
  | cons f rest ih =>
    rw [modeAt, List.map_cons, List.mem_cons, not_or, ← ih]
    split
    · next hf => simp [hf]
    · next hf => simp [Ne.symm hf]

/-- Each file is listed once. -/
theorem nodup_add (h : (files.map FileOutput.path).Nodup) :
    ((add path mode data files).map FileOutput.path).Nodup := by
  induction files with
  | nil => exact List.nodup_cons.2 ⟨List.not_mem_nil, List.nodup_nil⟩
  | cons f rest ih =>
    rw [List.map_cons, List.nodup_cons] at h
    rw [add]
    split
    · exact List.nodup_cons.2 h
    · next hf =>
      refine List.nodup_cons.2 ⟨fun hmem => ?_, ih h.2⟩
      exact (mem_paths_of_add hmem).elim hf h.1

end FileOutput

/-! ## Delivering -/

namespace Delivery

/-- The paths of the files that are written, in order. -/
def paths (d : Delivery) : List String :=
  d.files.map FileOutput.path

/-- Data goes to the file of its sink. -/
theorem mem_paths_of_send {d : Delivery} {sink : Sink} {data : Bytes} {path : String}
    (h : path ∈ (d.send sink data).paths) : path ∈ sink.paths ∨ path ∈ d.paths := by
  cases sink with
  | out => exact .inr h
  | err => exact .inr h
  | file target mode => exact (FileOutput.mem_paths_of_add h).imp_left List.mem_singleton.2

/-- What is delivered to files goes where it was routed. -/
theorem mem_paths_of_ofOutcome {r : Routing} {outcome : CommandOutcome} {path : String}
    (h : path ∈ (ofOutcome r outcome).paths) : path ∈ r.paths := by
  have hopened : ∀ (opened : List (String × OpenMode)) (d : Delivery),
      path ∈ (opened.foldl (fun d file => d.send (.file file.1 file.2) []) d).paths →
      path ∈ opened.map Prod.fst ∨ path ∈ d.paths := by
    intro opened
    induction opened with
    | nil => exact fun d hmem => .inr hmem
    | cons file rest ih =>
      intro d hmem
      rw [List.map_cons, List.mem_cons]
      obtain hrest | hsent := ih _ hmem
      · exact .inl (.inr hrest)
      · exact (mem_paths_of_send hsent).imp_left fun hfile => .inl (List.mem_singleton.1 hfile)
  rw [Routing.paths, List.mem_append, List.mem_append]
  obtain hfile | hsent := hopened r.opened _ h
  · exact .inr hfile
  · obtain herr | hsent := mem_paths_of_send hsent
    · exact .inl (.inr herr)
    · obtain hout | hnone := mem_paths_of_send hsent
      · exact .inl (.inl hout)
      · exact absurd hnone List.not_mem_nil

/-- What is delivered to a sink. -/
def receivedAt (d : Delivery) : Sink → Bytes
  | .out => d.stdout
  | .err => d.stderr
  | .file path _ => FileOutput.dataAt path d.files

/-- Data is delivered to the sinks in its place, after what was delivered there before. -/
theorem receivedAt_send (d : Delivery) (sink sink' : Sink) (data : Bytes) :
    (d.send sink data).receivedAt sink'
      = d.receivedAt sink' ++ if sink'.place = sink.place then data else [] := by
  cases sink with
  | out => cases sink' <;> simp [send, receivedAt, Sink.place]
  | err => cases sink' <;> simp [send, receivedAt, Sink.place]
  | file path mode =>
    cases sink' with
    | out => simp [send, receivedAt, Sink.place]
    | err => simp [send, receivedAt, Sink.place]
    | file path' mode' =>
      rw [send, receivedAt, receivedAt, FileOutput.dataAt_add]
      simp [Sink.place]

/-- The files that were opened are written, but get nothing more. -/
theorem receivedAt_opened (d : Delivery) (opened : List (String × OpenMode)) (sink : Sink) :
    (opened.foldl (fun d (path, mode) => d.send (.file path mode) []) d).receivedAt sink
      = d.receivedAt sink := by
  induction opened generalizing d with
  | nil => rfl
  | cons f rest ih => rw [List.foldl_cons, ih, receivedAt_send, ite_self, List.append_nil]

/-- Errors are delivered in one piece, after the output if that goes to the same place. -/
theorem receivedAt_ofOutcome (r : Routing) (outcome : CommandOutcome) :
    (ofOutcome r outcome).receivedAt r.err
      = (({} : Delivery).send r.out outcome.stdout).receivedAt r.err ++ outcome.stderr := by
  rw [ofOutcome, receivedAt_opened, receivedAt_send, if_pos rfl]

/-- What a sink gets: the output and then the errors, each if its own sink is in the same place. -/
theorem receivedAt_ofOutcome_eq (r : Routing) (outcome : CommandOutcome) (sink : Sink) :
    (ofOutcome r outcome).receivedAt sink
      = (if sink.place = r.out.place then outcome.stdout else [])
        ++ if sink.place = r.err.place then outcome.stderr else [] := by
  have hempty : ({} : Delivery).receivedAt sink = [] := by
    cases sink <;> rfl
  rw [ofOutcome, receivedAt_opened, receivedAt_send, receivedAt_send, hempty, List.nil_append]

/-- How the file at a path is written: as the sink of the output opens it, or else that of the errors,
or else as it was opened first. -/
theorem modeAt_ofOutcome (r : Routing) (outcome : CommandOutcome) (path : String) :
    FileOutput.modeAt path (ofOutcome r outcome).files
      = ((r.out.modeAt path).or (r.err.modeAt path)).or (r.opened.lookup path) := by
  have hsend : ∀ (d : Delivery) (sink : Sink) (data : Bytes),
      FileOutput.modeAt path (d.send sink data).files
        = (FileOutput.modeAt path d.files).or (sink.modeAt path) := by
    intro d sink data
    cases sink with
    | out => simp [send, Sink.modeAt]
    | err => simp [send, Sink.modeAt]
    | file path' mode => exact FileOutput.modeAt_add path' path mode data d.files
  have hopened : ∀ (opened : List (String × OpenMode)) (d : Delivery), FileOutput.modeAt path
      (opened.foldl (fun d (path, mode) => d.send (.file path mode) []) d).files
        = (FileOutput.modeAt path d.files).or (opened.lookup path) := by
    intro opened
    induction opened with
    | nil => simp
    | cons f rest ih =>
      intro d
      rw [List.foldl_cons, ih, hsend, Option.or_assoc, Sink.modeAt, List.lookup_cons]
      by_cases hf : f.1 = path
      · simp [hf]
      · simp [hf, beq_false_of_ne (Ne.symm hf)]
  rw [ofOutcome, hopened, hsend, hsend]
  rfl

/-- No outcome is delivered to a file twice. -/
theorem nodup_paths_ofOutcome (r : Routing) (outcome : CommandOutcome) :
    (ofOutcome r outcome).paths.Nodup := by
  have hsend : ∀ {d : Delivery}, d.paths.Nodup → ∀ sink data, (d.send sink data).paths.Nodup := by
    intro d hd sink data
    cases sink with
    | out => exact hd
    | err => exact hd
    | file path mode => exact FileOutput.nodup_add hd
  have hopened : ∀ (opened : List (String × OpenMode)) {d : Delivery}, d.paths.Nodup →
      (opened.foldl (fun d (path, mode) => d.send (.file path mode) []) d).paths.Nodup := by
    intro opened
    induction opened with
    | nil => exact id
    | cons f rest ih => exact fun hd => ih (hsend hd _ _)
  have hempty : ({} : Delivery).paths.Nodup := List.nodup_nil
  exact hopened _ (hsend (hsend hempty _ _) _ _)

end Delivery

/-! ## Writing -/

/-- What stays of a file that is opened. -/
def OpenMode.kept (mode : OpenMode) (old : Option Bytes) : Bytes :=
  match mode with
  | .truncate => []
  | .append => old.getD []

namespace Delivery

open Workspace (KeepsFiles contents?)
open Sandshell.Path (IsNormal)

variable {W : Type} [Workspace W] {sound : W → Prop} {w w' : W} {q : String}

/-- Writing one file changes that file alone. -/
theorem of_writeFile_ok (hlaw : KeepsFiles sound) (hw : sound w) {f : FileOutput}
    (hpath : IsNormal f.path) (h : writeFile f w = (.ok (), w')) :
    sound w' ∧ ∀ q, IsNormal q → contents? w' q =
      if q = f.path then some (f.mode.kept (contents? w q) ++ f.data) else contents? w q := by
  obtain ⟨path, mode, data⟩ := f
  rw [writeFile] at h
  cases mode with
  | truncate => exact ⟨hlaw.sound_write hw hpath h, fun q hq => hlaw.contents_write hw hpath hq h⟩
  | append =>
    obtain ⟨result, mid, hread, hwrite⟩ := exists_of_bind_apply_ok h
    obtain ⟨hresult, rfl⟩ : result = (Workspace.read path w).1 ∧ mid = (Workspace.read path w).2 := by
      cases hread
      exact ⟨rfl, rfl⟩
    have hmid := hlaw.sound_read path hw
    have hcontents := fun q => hlaw.contents_read path q hw
    have hold : contents? w path = result.toOption := by rw [hresult, contents?]
    -- what is written is what stood there, if anything did, and then the data
    have hwrite : Workspace.write path ((contents? w path).getD [] ++ data)
        (Workspace.read path w).2 = (.ok (), w') := by
      rw [hold]
      cases result with
      | ok old => exact hwrite
      | error e =>
        cases e with
        | notFound => exact hwrite
        | _ => cases hwrite
    refine ⟨hlaw.sound_write hmid hpath hwrite, fun q hq => ?_⟩
    rw [hlaw.contents_write hmid hpath hq hwrite, hcontents]
    split
    · next hsame => rw [hsame, OpenMode.kept]
    · rfl

/-- Files are written one after the other; no two of them are the same. -/
theorem of_writeFiles_ok (hlaw : KeepsFiles sound) (hw : sound w) {d : Delivery}
    (hpaths : ∀ p ∈ d.paths, IsNormal p) (hnodup : d.paths.Nodup)
    (h : d.writeFiles w = (.ok (), w')) (hq : IsNormal q) :
    contents? w' q = match FileOutput.modeAt q d.files with
      | none => contents? w q
      | some mode => some (mode.kept (contents? w q) ++ FileOutput.dataAt q d.files) := by
  obtain ⟨stdout, stderr, files⟩ := d
  rw [paths] at hpaths hnodup
  rw [writeFiles] at h
  dsimp only at hpaths hnodup h ⊢
  induction files generalizing w with
  | nil =>
    cases h
    rfl
  | cons f rest ih =>
    rw [List.map_cons, List.forall_mem_cons] at hpaths
    rw [List.map_cons, List.nodup_cons] at hnodup
    obtain ⟨⟨⟩, mid, hfirst, hrest⟩ := exists_of_bind_apply_ok h
    obtain ⟨hmid, hcontents⟩ := of_writeFile_ok hlaw hw hpaths.1 hfirst
    rw [ih hmid hpaths.2 hnodup.2 hrest, hcontents q hq, FileOutput.modeAt, FileOutput.dataAt]
    by_cases hf : q = f.path
    · -- the files behind the first one are others
      have hother : FileOutput.modeAt q rest = none := by
        rw [FileOutput.modeAt_eq_none_iff, hf]
        exact hnodup.1
      simp [hf, hf ▸ hother]
    · simp [hf, Ne.symm hf]

end Delivery

end Sandshell
