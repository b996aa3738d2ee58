import Sandshell.Proofs.Text.Utf8
import Sandshell.Proofs.Wire.Record
import Sandshell.Wire.Codec

/-!
# What is written is read back

Every exchanged record is read back as it was written, in all its wordings: with other spellings of
its keys, without what has a default, in any order. An output of a command loses the bytes that are
no text, once.
-/

namespace Sandshell

open Wire
open scoped Arithmetic

namespace Wire

/-! ## Plain values -/

/-- A number is read back where it fits. -/
theorem natural_ofNat {bits n : Nat} (h : n < 2 ^ bits) (wanted : String) :
    Decode.natural bits wanted (ofNat n) = .ok n := by
  have hbound : (0 : Int) ≤ n ∧ (n : Int) < 2 ^ bits := ⟨Int.natCast_nonneg n, by exact_mod_cast h⟩
  rw [Decode.natural, ofNat, Decode.integer, if_pos hbound]
  rfl

/-- So is a size. -/
theorem readsAs_size {n : Nat} (h : n < 2 ^ (64 : Nat)) : ReadsAs Eq Decode.size (ofNat n) n :=
  readsAs_eq (natural_ofNat h _)

theorem readsAs_word64 {n : Nat} (h : n < 2 ^ (64 : Nat)) : ReadsAs Eq Decode.word64 (ofNat n) n :=
  readsAs_eq (natural_ofNat h _)

/-- An exit code is a number of 32 bits with a sign. -/
def IsExitCode (n : Int) : Prop :=
  -2147483648 ≤ n ∧ n ≤ 2147483647

instance (n : Int) : Decidable (IsExitCode n) :=
  inferInstanceAs (Decidable (_ ∧ _))

/-- An exit code is read back if it is one of 32 bits. -/
theorem readsAs_exitCode {n : Int} (h : IsExitCode n) :
    ReadsAs Eq Decode.exitCode (.integer n) n := by
  obtain ⟨hlow, hhigh⟩ := h
  exact readsAs_eq (if_pos ⟨by omega, by omega⟩)

theorem readsAs_text (s : String) : ReadsAs Eq Decode.text (.text s) s :=
  readsAs_eq rfl

theorem readsAs_bool (b : Bool) : ReadsAs Eq Decode.bool (.bool b) b :=
  readsAs_eq rfl

/-- A list is read item by item, each in any of its wordings. -/
theorem readsAs_list {α : Type} {reworded : Value → Value → Prop} {decode : Decoder α}
    {write : α → Value} {l : List α} (h : ∀ a ∈ l, ReadsAs reworded decode (write a) a) :
    ReadsAs (RewordedList reworded) (Decode.list decode) (.list (l.map write)) l := by
  rintro _ ⟨items, items', hitems, rfl, hwords⟩
  cases hitems
  change items'.mapM decode = .ok l
  induction l generalizing items' with
  | nil => cases hwords; rfl
  | cons a rest ih =>
    obtain ⟨v, more, hv, hmore, rfl⟩ := List.forall₂_cons_left_iff.1 hwords
    rw [List.mapM_cons]
    exact bind_eq (h a List.mem_cons_self v hv)
      (bind_eq (ih (fun a' ha' => h a' (List.mem_cons_of_mem a ha')) more hmore) rfl)

/-- A list is read back if its members are. -/
theorem readsAs_list_eq {α : Type} {decode : Decoder α} {write : α → Value} {l : List α}
    (h : ∀ a ∈ l, ReadsAs Eq decode (write a) a) :
    ReadsAs Eq (Decode.list decode) (.list (l.map write)) l :=
  readsAs_eq (readsAs_list h _ (.refl fun _ _ => rfl))

theorem readsAs_texts (l : List String) :
    ReadsAs Eq (Decode.list Decode.text) (.list (l.map .text)) l :=
  readsAs_list_eq fun s _ => readsAs_text s

/-- Bytes are written as a list of numbers. -/
theorem readsAs_bytes (bytes : Bytes) :
    ReadsAs Eq (Decode.list Decode.byte) (ofBytes bytes) bytes := by
  refine readsAs_list_eq fun b _ => readsAs_eq ?_
  rw [Decode.byte, show Value.integer b.toNat = ofNat b.toNat from rfl,
    natural_ofNat (by exact b.toNat_lt)]
  exact congrArg Except.ok UInt8.ofNat_toNat

/-- The entries of a map give the map. -/
theorem foldl_insert_toList (env : Environment) :
    env.toList.foldl (fun (m : Environment) (name, value) => m.insert name value) ∅ = env := by
  rw [show env.toList.foldl _ ∅ = Std.ExtTreeMap.ofList env.toList compare from
    Std.ExtTreeMap.ofList_eq_foldl.symm]
  apply Std.ExtTreeMap.ext_getElem?
  intro name
  cases hvalue : env[name]? with
  | some value =>
    exact Std.ExtTreeMap.getElem?_ofList_of_mem Std.ReflCmp.compare_self
      Std.ExtTreeMap.distinct_keys_toList (Std.ExtTreeMap.mem_toList_iff_getElem?_eq_some.2 hvalue)
  | none =>
    apply Std.ExtTreeMap.getElem?_ofList_of_contains_eq_false
    rw [Std.ExtTreeMap.map_fst_toList_eq_keys, ← Bool.not_eq_true, List.contains_iff_mem,
      Std.ExtTreeMap.mem_keys, Std.ExtTreeMap.mem_iff_isSome_getElem?, hvalue]
    exact Bool.false_ne_true

/-- An environment is read back, whatever the order of its entries. -/
theorem readsAs_environment (env : Environment) :
    ReadsAs Eq Decode.environment (ofEnvironment env) env := by
  have hentries : ∀ l : List (String × String),
      ((l.map fun e => (e.1, Value.text e.2)).mapM fun e =>
          do return (e.1, ← Decode.text e.2) : Except WireError (List (String × String)))
        = .ok l := by
    intro l
    induction l with
    | nil => rfl
    | cons e rest ih =>
      rw [List.map_cons, List.mapM_cons]
      exact bind_eq rfl (bind_eq ih rfl)
  exact readsAs_eq (bind_eq (hentries env.toList) (congrArg Except.ok (foldl_insert_toList env)))

end Wire

/-! ## Records -/

/-- A value is read back as it was written, in all wordings. -/
structure RoundTrips {α : Type} (toWire : α → Value) (ofWire : Decoder α)
    (reworded : Value → Value → Prop) (a : α) : Prop where
  same : ofWire (toWire a) = .ok a
  inOtherWords : ReadsAs reworded ofWire (toWire a) a

/-- A type goes there and back if all rewordings of what is written are read as it. -/
theorem RoundTrips.of_readsAs {α : Type} {toWire : α → Value} {ofWire : Decoder α}
    {reworded : Value → Value → Prop} {a : α} (hreads : ReadsAs reworded ofWire (toWire a) a)
    (hsame : reworded (toWire a) (toWire a)) : RoundTrips toWire ofWire reworded a :=
  ⟨hreads _ hsame, hreads⟩

namespace OutputLimits

/-- The keys of written ceilings. -/
def keys : List Key :=
  [{ toField := .withDefault "max_stdout_bytes" Decode.size ["maxStdoutBytes"]
     default? := some (ofNat ({} : OutputLimits).maxStdout) },
    { toField := .withDefault "max_stderr_bytes" Decode.size ["maxStderrBytes"]
      default? := some (ofNat ({} : OutputLimits).maxStderr) }]

/-- The ceilings are numbers of 64 bits. -/
def Fits (l : OutputLimits) : Prop :=
  l.maxStdout < 2 ^ (64 : Nat) ∧ l.maxStderr < 2 ^ (64 : Nat)

instance (l : OutputLimits) : Decidable l.Fits :=
  inferInstanceAs (Decidable (_ ∧ _))

/-- Limits are read back from any rewording. -/
theorem readsAs {l : OutputLimits} (h : l.Fits) :
    ReadsAs (RewordedRecord keys) ofWire l.toWire l :=
  readsAs_record "OutputLimits" (by decide)
    (.next (.withDefault rfl rfl rfl (readsAs_size h.1))
      (.next (.withDefault rfl rfl rfl (readsAs_size h.2)) (.done l)))

theorem reworded_self (l : OutputLimits) : RewordedRecord keys l.toWire l.toWire :=
  .refl (by simp [keys, Field.withDefault, Field.of])

end OutputLimits

namespace EngineConfig

/-- The keys of written ceilings for guests. -/
def keys : List Key :=
  [{ toField := .withDefault "max_memory_bytes" Decode.word64 ["maxMemoryBytes"]
     default? := some (ofNat ({} : EngineConfig).maxMemory) },
    { toField := .withDefault "max_file_bytes" Decode.word64 ["maxFileBytes"]
      default? := some (ofNat ({} : EngineConfig).maxFile) }]

/-- The ceilings are numbers of 64 bits. -/
def Fits (c : EngineConfig) : Prop :=
  c.maxMemory < 2 ^ (64 : Nat) ∧ c.maxFile < 2 ^ (64 : Nat)

instance (c : EngineConfig) : Decidable c.Fits :=
  inferInstanceAs (Decidable (_ ∧ _))

/-- Those of guests are, too. -/
theorem readsAs {c : EngineConfig} (h : c.Fits) :
    ReadsAs (RewordedRecord keys) ofWire c.toWire c :=
  readsAs_record "EngineConfig" (by decide)
    (.next (.withDefault rfl rfl rfl (readsAs_word64 h.1))
      (.next (.withDefault rfl rfl rfl (readsAs_word64 h.2)) (.done c)))

theorem reworded_self (c : EngineConfig) : RewordedRecord keys c.toWire c.toWire :=
  .refl (by simp [keys, Field.withDefault, Field.of])

end EngineConfig

namespace ShellConfig

/-- The keys of written settings. -/
def keys : List Key :=
  [{ toField := .withDefault "limits" OutputLimits.ofWire []
     default? := some (OutputLimits.toWire {})
     reworded := RewordedRecord OutputLimits.keys },
    { toField := .withDefault "max_substitution_depth" Decode.size ["maxSubstitutionDepth"]
      default? := some (ofNat ({} : ShellConfig).maxSubstitutionDepth) },
    { toField := .withDefault "user" Decode.text []
      default? := some (.text ({} : ShellConfig).user) },
    { toField := .withDefault "hostname" Decode.text []
      default? := some (.text ({} : ShellConfig).hostname) }]

/-- The numbers are of 64 bits. -/
def Fits (c : ShellConfig) : Prop :=
  c.limits.Fits ∧ c.maxSubstitutionDepth < 2 ^ (64 : Nat)

instance (c : ShellConfig) : Decidable c.Fits :=
  inferInstanceAs (Decidable (_ ∧ _))

/-- The configuration of a shell may leave out what is as by default. -/
theorem readsAs {c : ShellConfig} (h : c.Fits) :
    ReadsAs (RewordedRecord keys) ofWire c.toWire c :=
  readsAs_record "ShellConfig" (by decide)
    (.next (.withDefault rfl (OutputLimits.reworded_self _) rfl (OutputLimits.readsAs h.1))
      (.next (.withDefault rfl rfl rfl (readsAs_size h.2))
        (.next (.withDefault rfl rfl rfl (readsAs_text c.user))
          (.next (.withDefault rfl rfl rfl (readsAs_text c.hostname)) (.done c)))))

theorem reworded_self (c : ShellConfig) : RewordedRecord keys c.toWire c.toWire :=
  .refl (by simp [keys, Field.withDefault, Field.of, OutputLimits.reworded_self])

end ShellConfig

namespace CommandRequest

/-- The keys of a written request. -/
def keys : List Key :=
  [{ toField := .of "argv" (Decode.list Decode.text) [] }, { toField := .of "cwd" Decode.text [] },
    { toField := .of "env" Decode.environment [] },
    { toField := .withDefault "stdin" (Decode.list Decode.byte) []
      default? := some (ofBytes []) },
    { toField := .withDefault "limits" OutputLimits.ofWire []
      default? := some (OutputLimits.toWire {})
      reworded := RewordedRecord OutputLimits.keys }]

/-- A request may leave out its limits and its input. -/
theorem readsAs {r : CommandRequest} (h : r.limits.Fits) :
    ReadsAs (RewordedRecord keys) ofWire r.toWire r :=
  readsAs_record "CommandRequest" (by decide)
    (.next (.required rfl (readsAs_texts r.argv))
      (.next (.required rfl (readsAs_text r.cwd))
        (.next (.required rfl (readsAs_environment r.env))
          (.next (.withDefault rfl rfl rfl (readsAs_bytes r.stdin))
            (.next (.withDefault rfl (OutputLimits.reworded_self _) rfl (OutputLimits.readsAs h))
              (.done r))))))

theorem reworded_self (r : CommandRequest) : RewordedRecord keys r.toWire r.toWire :=
  .refl (by simp [keys, Field.withDefault, Field.of, OutputLimits.reworded_self])

end CommandRequest

namespace BundleCommand

/-- The keys of a written declaration. -/
def keys : List Key :=
  [{ toField := .of "name" Decode.text [] },
    { toField := .of "module_path" Decode.text ["modulePath"] }]

/-- A declaration is its name and its module. -/
theorem readsAs (c : BundleCommand) : ReadsAs (RewordedRecord keys) ofWire c.toWire c :=
  readsAs_record "BundleCommand" (by decide)
    (.next (.required rfl (readsAs_text c.name))
      (.next (.required rfl (readsAs_text c.modulePath)) (.done c)))

theorem reworded_self (c : BundleCommand) : RewordedRecord keys c.toWire c.toWire :=
  .refl (by simp [keys, Field.of])

end BundleCommand

namespace Bundle

/-- The keys of a written bundle. -/
def keys : List Key :=
  [{ toField := .of "name" Decode.text [] }, { toField := .of "version" Decode.text [] },
    { toField := .of "root" Decode.text [] },
    { toField := .withDefault "commands" (Decode.list BundleCommand.ofWire) []
      default? := some (.list [])
      reworded := RewordedList (RewordedRecord BundleCommand.keys) }]

theorem reworded_commands (b : Bundle) : RewordedList (RewordedRecord BundleCommand.keys)
    (.list (b.commands.map BundleCommand.toWire)) (.list (b.commands.map BundleCommand.toWire)) :=
  .refl (by simp [BundleCommand.reworded_self])

/-- A bundle is read back with its commands in order. -/
theorem readsAs (b : Bundle) : ReadsAs (RewordedRecord keys) ofWire b.toWire b :=
  have hcommands := readsAs_list fun c (_ : c ∈ b.commands) => BundleCommand.readsAs c
  readsAs_record "InstalledBundle" (by decide)
    (.next (.required rfl (readsAs_text b.name))
      (.next (.required rfl (readsAs_text b.version))
        (.next (.required rfl (readsAs_text b.root))
          (.next (.withDefault rfl (reworded_commands b) rfl hcommands) (.done b)))))

theorem reworded_self (b : Bundle) : RewordedRecord keys b.toWire b.toWire :=
  .refl (by simp [keys, Field.withDefault, Field.of, reworded_commands])

end Bundle

namespace ToolInput

/-- The keys of written arguments. -/
def keys : List Key :=
  [{ toField := .of "command" Decode.text ["script"] },
    { toField := .withDefault "cwd" (Decode.optional Decode.text) [] },
    { toField := .withDefault "env" (Decode.optional Decode.environment) [] }]

/-- The command of a tool is read under its other name, too, and what is not given may be left out. -/
theorem readsAs (i : ToolInput) : ReadsAs (RewordedRecord keys) ofWire i.toWire i := by
  obtain ⟨command, cwd, env⟩ := i
  have hcwd : ∀ v, cwd.map Value.text = some v →
      ReadsAs Eq (Decode.optional Decode.text) v cwd := by
    intro v hv
    obtain ⟨s, rfl, rfl⟩ := Option.map_eq_some_iff.1 hv
    exact readsAs_eq rfl
  have henv : ∀ v, env.map ofEnvironment = some v →
      ReadsAs Eq (Decode.optional Decode.environment) v env := by
    intro v hv
    obtain ⟨e, rfl, rfl⟩ := Option.map_eq_some_iff.1 hv
    exact readsAs_eq (congrArg (Except.map some) (readsAs_environment e _ rfl))
  exact readsAs_record "ShellToolInput" (by decide)
    (.next (.required (by cases cwd <;> cases env <;> rfl) (readsAs_text command))
      (.next (.optional (by cases cwd <;> cases env <;> rfl)
          (fun h => (Option.map_eq_none_iff.1 h).symm) hcwd)
        (.next (.optional (by cases cwd <;> cases env <;> rfl)
          (fun h => (Option.map_eq_none_iff.1 h).symm) henv) (.done _))))

theorem reworded_self (i : ToolInput) : RewordedRecord keys i.toWire i.toWire := by
  obtain ⟨command, cwd, env⟩ := i
  cases cwd <;> cases env <;> exact .refl (by simp [keys, Field.withDefault, Field.of])

end ToolInput

namespace ToolOutput

/-- The keys of a written answer. -/
def keys : List Key :=
  [{ toField := .of "exit_code" Decode.exitCode [] },
    { toField := .of "stdout" Decode.text [] },
    { toField := .of "stderr" Decode.text [] },
    { toField := .of "stdout_truncated" Decode.bool [] },
    { toField := .of "stderr_truncated" Decode.bool [] },
    { toField := .of "output" Decode.text [] }]

/-- Of the output of a tool everything is written. -/
theorem readsAs {o : ToolOutput} (h : IsExitCode o.exitCode) :
    ReadsAs (RewordedRecord keys) ofWire o.toWire o :=
  readsAs_record "ShellToolOutput" (by decide)
    (.next (.required rfl (readsAs_exitCode h))
      (.next (.required rfl (readsAs_text o.stdout))
        (.next (.required rfl (readsAs_text o.stderr))
          (.next (.required rfl (readsAs_bool o.stdoutTruncated))
            (.next (.required rfl (readsAs_bool o.stderrTruncated))
              (.next (.required rfl (readsAs_text o.output)) (.done o)))))))

theorem reworded_self (o : ToolOutput) : RewordedRecord keys o.toWire o.toWire :=
  .refl (by simp [keys, Field.of])

end ToolOutput

namespace ExecutionResult

/-- The keys of a written result. -/
def keys : List Key :=
  [{ toField := .of "exit_code" Decode.exitCode [] },
    { toField := .of "stdout" (Decode.list Decode.byte) [] },
    { toField := .of "stderr" (Decode.list Decode.byte) [] },
    { toField := .of "stdout_truncated" Decode.bool [] },
    { toField := .of "stderr_truncated" Decode.bool [] }]

/-- A result has its streams as bytes, so that nothing of them is lost. -/
theorem readsAs {r : ExecutionResult} (h : IsExitCode r.exitCode) :
    ReadsAs (RewordedRecord keys) ofWire r.toWire r :=
  readsAs_record "ExecutionResult" (by decide)
    (.next (.required rfl (readsAs_exitCode h))
      (.next (.required rfl (readsAs_bytes r.stdout))
        (.next (.required rfl (readsAs_bytes r.stderr))
          (.next (.required rfl (readsAs_bool r.stdoutTruncated))
            (.next (.required rfl (readsAs_bool r.stderrTruncated)) (.done r))))))

theorem reworded_self (r : ExecutionResult) : RewordedRecord keys r.toWire r.toWire :=
  .refl (by simp [keys, Field.of])

end ExecutionResult

namespace EntryKind

theorem readsAs (kind : EntryKind) : ReadsAs Eq ofWire kind.toWire kind := by
  cases kind with
  | file => exact readsAs_eq rfl
  | directory => exact readsAs_eq rfl

end EntryKind

namespace Stat

/-- The keys of a written answer about a path. -/
def keys : List Key :=
  [{ toField := .of "type" EntryKind.ofWire [] }, { toField := .of "size" Decode.word64 [] }]

/-- An answer about a path is read back, its size in 64 bits. -/
theorem readsAs {s : Stat} (h : s.size < 2 ^ (64 : Nat)) :
    ReadsAs (RewordedRecord keys) ofWire s.toWire s :=
  readsAs_record "Stat" (by decide)
    (.next (.required rfl (EntryKind.readsAs s.kind))
      (.next (.required rfl (readsAs_word64 h)) (.done s)))

theorem reworded_self (s : Stat) : RewordedRecord keys s.toWire s.toWire :=
  .refl (by simp [keys, Field.of])

end Stat

namespace DirEntry

/-- The keys of a written entry. -/
def keys : List Key :=
  [{ toField := .of "name" Decode.text [] }, { toField := .of "type" EntryKind.ofWire [] }]

theorem readsAs (e : DirEntry) : ReadsAs (RewordedRecord keys) ofWire e.toWire e :=
  readsAs_record "DirEntry" (by decide)
    (.next (.required rfl (readsAs_text e.name))
      (.next (.required rfl (EntryKind.readsAs e.kind)) (.done e)))

theorem reworded_self (e : DirEntry) : RewordedRecord keys e.toWire e.toWire :=
  .refl (by simp [keys, Field.of])

end DirEntry

namespace CommandOutput

/-- The keys of a written output. -/
def keys : List Key :=
  [{ toField := .withDefault "exit_code" Decode.exitCode ["exitCode"]
     default? := some (.integer ({} : CommandOutput).exitCode) },
    { toField := .withDefault "stdout" Decode.stream [], default? := some (.text "") },
    { toField := .withDefault "stderr" Decode.stream [], default? := some (.text "") }]

/-- The output as it is read back: malformed pieces of its streams are replaced. -/
def readBack (o : CommandOutput) : CommandOutput where
  exitCode := o.exitCode
  stdout := Bytes.ofString o.stdout.lossyText
  stderr := Bytes.ofString o.stderr.lossyText

/-- An output is read back with what is malformed in its streams replaced. -/
theorem readsAs {o : CommandOutput} (h : IsExitCode o.exitCode) :
    ReadsAs (RewordedRecord keys) ofWire o.toWire o.readBack :=
  have hstream (text : String) : ReadsAs Eq Decode.stream (.text text) (Bytes.ofString text) :=
    readsAs_eq rfl
  readsAs_record "CommandOutput" (by decide)
    (.next (.withDefault rfl rfl rfl (readsAs_exitCode h))
      (.next (.withDefault rfl rfl rfl (hstream o.stdout.lossyText))
        (.next (.withDefault rfl rfl rfl (hstream o.stderr.lossyText)) (.done o.readBack))))

theorem reworded_self (o : CommandOutput) : RewordedRecord keys o.toWire o.toWire :=
  .refl (by simp [keys, Field.withDefault, Field.of])

/-- Nothing is lost exactly when both streams are texts. -/
theorem readBack_eq_iff {o : CommandOutput} :
    o.readBack = o ↔ o.stdout.text?.isSome ∧ o.stderr.text?.isSome := by
  rw [← Bytes.ofString_lossyText_iff, ← Bytes.ofString_lossyText_iff, readBack]
  constructor
  · intro h
    exact ⟨congrArg CommandOutput.stdout h, congrArg CommandOutput.stderr h⟩
  · rintro ⟨hout, herr⟩
    rw [hout, herr]

/-- What is read back is written alike. -/
theorem toWire_readBack (o : CommandOutput) : o.readBack.toWire = o.toWire := by
  simp only [toWire, readBack, Bytes.lossyText_ofString]

end CommandOutput

/-! ## All exchanged forms -/

/-- An output whose bytes are texts is read back as it is, and no other; what is lost is lost by one
exchange, and the wording makes no difference. -/
structure CommandOutput.RoundTrips (o : CommandOutput) : Prop where
  same_iff : ofWire o.toWire = .ok o ↔ o.stdout.text?.isSome ∧ o.stderr.text?.isSome
  settles : ∃ o', ofWire o.toWire = .ok o' ∧ ofWire o'.toWire = .ok o'
  inOtherWords : ∀ v, RewordedRecord keys o.toWire v → ofWire v = ofWire o.toWire

/-- The streams are written as texts, so that malformed pieces are lost by the first exchange. -/
theorem CommandOutput.roundTrips {o : CommandOutput} (h : IsExitCode o.exitCode) :
    o.RoundTrips where
  same_iff := by
    rw [readsAs h _ o.reworded_self, Except.ok.injEq, readBack_eq_iff]
  settles := by
    have hback := readsAs h _ o.reworded_self
    refine ⟨o.readBack, hback, ?_⟩
    rw [o.toWire_readBack, hback]
  inOtherWords v hv := by
    rw [readsAs h v hv, readsAs h _ o.reworded_self]

/-- Every exchanged record is read back as it was written, with any spelling of its keys, without
defaults and in any order; only outputs of commands lose the bytes that are no text. -/
theorem exchanged_forms_round_trip :
    (∀ l : OutputLimits, l.Fits →
      RoundTrips OutputLimits.toWire OutputLimits.ofWire (RewordedRecord OutputLimits.keys) l)
    ∧ (∀ c : ShellConfig, c.Fits →
      RoundTrips ShellConfig.toWire ShellConfig.ofWire (RewordedRecord ShellConfig.keys) c)
    ∧ (∀ c : EngineConfig, c.Fits →
      RoundTrips EngineConfig.toWire EngineConfig.ofWire (RewordedRecord EngineConfig.keys) c)
    ∧ (∀ r : CommandRequest, r.limits.Fits →
      RoundTrips CommandRequest.toWire CommandRequest.ofWire (RewordedRecord CommandRequest.keys) r)
    ∧ (∀ b : Bundle, RoundTrips Bundle.toWire Bundle.ofWire (RewordedRecord Bundle.keys) b)
    ∧ (∀ c : BundleCommand,
      RoundTrips BundleCommand.toWire BundleCommand.ofWire (RewordedRecord BundleCommand.keys) c)
    ∧ (∀ i : ToolInput,
      RoundTrips ToolInput.toWire ToolInput.ofWire (RewordedRecord ToolInput.keys) i)
    ∧ (∀ o : ToolOutput, IsExitCode o.exitCode →
      RoundTrips ToolOutput.toWire ToolOutput.ofWire (RewordedRecord ToolOutput.keys) o)
    ∧ (∀ r : ExecutionResult, IsExitCode r.exitCode →
      RoundTrips ExecutionResult.toWire ExecutionResult.ofWire (RewordedRecord ExecutionResult.keys)
        r)
    ∧ (∀ s : Stat, s.size < 2 ^ (64 : Nat) →
      RoundTrips Stat.toWire Stat.ofWire (RewordedRecord Stat.keys) s)
    ∧ (∀ e : DirEntry, RoundTrips DirEntry.toWire DirEntry.ofWire (RewordedRecord DirEntry.keys) e)
    ∧ (∀ kind : EntryKind, RoundTrips EntryKind.toWire EntryKind.ofWire Eq kind)
    ∧ (∀ o : CommandOutput, IsExitCode o.exitCode → o.RoundTrips) :=
  ⟨fun l h => .of_readsAs (OutputLimits.readsAs h) l.reworded_self,
    fun c h => .of_readsAs (ShellConfig.readsAs h) c.reworded_self,
    fun c h => .of_readsAs (EngineConfig.readsAs h) c.reworded_self,
    fun r h => .of_readsAs (CommandRequest.readsAs h) r.reworded_self,
    fun b => .of_readsAs b.readsAs b.reworded_self,
    fun c => .of_readsAs c.readsAs c.reworded_self,
    fun i => .of_readsAs i.readsAs i.reworded_self,
    fun o h => .of_readsAs (ToolOutput.readsAs h) o.reworded_self,
    fun r h => .of_readsAs (ExecutionResult.readsAs h) r.reworded_self,
    fun s h => .of_readsAs (Stat.readsAs h) s.reworded_self,
    fun e => .of_readsAs e.readsAs e.reworded_self,
    fun kind => .of_readsAs kind.readsAs rfl,
    fun _ h => CommandOutput.roundTrips h⟩

/-- One ceiling in its other spelling, the other one left out; defaults; and bytes that are lost. -/
theorem exchanged_forms_round_trip_short :
    ((⟨5, 1024 * 1024⟩ : OutputLimits).Fits
      ∧ OutputLimits.ofWire (.record [("maxStdoutBytes", ofNat 5)]) = .ok ⟨5, 1024 * 1024⟩)
    ∧ (({} : ShellConfig).Fits ∧ ShellConfig.ofWire (ShellConfig.toWire {}) = .ok {})
    ∧ (({} : EngineConfig).Fits ∧ EngineConfig.ofWire (EngineConfig.toWire {}) = .ok {})
    ∧ (IsExitCode 3 ∧ ToolOutput.ofWire (ToolOutput.toWire ⟨3, "a", "", false, false, "a"⟩)
      = .ok ⟨3, "a", "", false, false, "a"⟩)
    ∧ Stat.ofWire (Stat.toWire ⟨.file, 7⟩) = .ok ⟨.file, 7⟩
    ∧ CommandOutput.ofWire (CommandOutput.toWire ⟨3, [0xFF], []⟩) ≠ .ok ⟨3, [0xFF], []⟩ := by
  obtain ⟨hlimits, hshell, hengine, -, -, -, -, htool, -, hstat, -, -, hcommand⟩ :=
    exchanged_forms_round_trip
  have hfits : (⟨5, 1024 * 1024⟩ : OutputLimits).Fits := by decide
  have hcode : IsExitCode 3 := by decide
  have hwords : RewordedRecord OutputLimits.keys (OutputLimits.toWire ⟨5, 1024 * 1024⟩)
      (.record [("maxStdoutBytes", ofNat 5)]) :=
    ⟨_, _, rfl, rfl, .drop (List.mem_cons_of_mem _ List.mem_cons_self) rfl
      (.keep List.mem_cons_self (by decide) rfl .nil)⟩
  refine ⟨⟨hfits, (hlimits _ hfits).inOtherWords _ hwords⟩,
    ⟨by decide, (hshell {} (by decide)).same⟩, ⟨by decide, (hengine {} (by decide)).same⟩,
    ⟨hcode, (htool _ hcode).same⟩, (hstat ⟨.file, 7⟩ (by decide)).same, ?_⟩
  rw [Ne, (hcommand ⟨3, [0xFF], []⟩ hcode).same_iff]
  decide +kernel

end Sandshell
