import Sandshell.Guest.Engine
import Sandshell.Proofs.Guest.Twin

/-!
# Whole runs

What holds of every call holds of every step of a program, and of every run, by induction on its
steps.
-/

namespace Sandshell

open Relation (ReflTransGen)

variable {root : String} {u : Tree}

namespace SystemCall

variable {g : Guest}

/-- A call as a function on guests. -/
theorem run_apply (memory : Bool) (call : SystemCall) (g : Guest) :
    (call.run memory).run g =
      if g.mounted && !memory then (.error (.trapped backtrace), g)
      else match call.ending? g.mounted with
        | some ending => (.error ending, g)
        | none =>
          if !memory && !call.isMemoryless then (.ok Errno.fault.number, g)
          else match call.answer g with
            | (.ok (), g') => (.ok 0, g')
            | (.error stop, g') => (stopped g.mounted stop, g') := by
  rw [run]
  simp only [StateT.run, bind, StateT.bind, get, getThe, MonadStateOf.get, StateT.get, pure]
  split
  · rfl
  cases call.ending? g.mounted with
  | some ending => rfl
  | none =>
    dsimp only
    split
    · rfl
    simp only [ExceptT.run, StateT.bind]
    rcases call.answer g with ⟨stop | _, g'⟩ <;> rfl

/-- No call sees anything outside of the root. -/
theorem blind_answer (call : SystemCall) : Guest.Blind root call.answer := by
  cases call with
  | argsSizesGet count size => exact (Guest.blind_argsSizesGet count size).ofStep
  | argsGet addresses buffer => exact Guest.blind_argsGet addresses buffer
  | environSizesGet count size => exact (Guest.blind_environSizesGet count size).ofStep
  | environGet addresses buffer => exact Guest.blind_environGet addresses buffer
  | procExit code => exact Guest.blind_pure ()
  | schedYield => exact Guest.blind_pure ()
  | clockTimeGet clock address => exact (Guest.blind_clockTimeGet clock address).ofStep
  | randomGet buffer length => exact (Guest.blind_randomGet buffer length).ofStep
  | fdWrite fd buffers count written => exact (Guest.blind_fdWrite fd buffers count written).ofStep
  | fdRead fd buffers count read => exact (Guest.blind_fdRead fd buffers count read).ofStep
  | fdSeek fd delta whence offset => exact (Guest.blind_fdSeek fd delta whence offset).ofStep
  | fdTell fd offset => exact (Guest.blind_fdTell fd offset).ofStep
  | fdClose fd => exact (Guest.blind_fdClose fd).ofStep
  | fdPrestatGet fd address => exact Guest.blind_fdPrestatGet fd address
  | fdPrestatDirName fd address length =>
    exact (Guest.blind_fdPrestatDirName fd address length).ofStep
  | fdFdstatGet fd address => exact Guest.blind_fdFdstatGet fd address
  | fdFilestatGet fd address => exact Guest.blind_fdFilestatGet fd address
  | fdReaddir fd buffer length cookie used =>
    exact (Guest.blind_fdReaddir fd buffer length cookie used).ofStep
  | pathOpen fd path length openFlags fdFlags address =>
    exact (Guest.blind_pathOpen fd path length openFlags fdFlags address).ofStep
  | pathFilestatGet fd path length address =>
    exact Guest.blind_pathFilestatGet fd path length address
  | pathUnlinkFile fd path length => exact (Guest.blind_pathUnlinkFile fd path length).ofStep
  | pathCreateDirectory fd path length =>
    exact (Guest.blind_pathCreateDirectory fd path length).ofStep
  | unimplemented name => exact Guest.blind_pure ()

/-- A call ends the run, or answers, in the same way for twins, and leaves twins. -/
theorem run_twin (h : Guest.Twin root g u) (memory : Bool) (call : SystemCall) :
    ReflTransGen Guest.Change g ((call.run memory).run g).2
      ∧ ∃ u', (call.run memory).run (g.withFiles u)
          = (((call.run memory).run g).1, ((call.run memory).run g).2.withFiles u')
        ∧ Guest.Twin root ((call.run memory).run g).2 u' := by
  obtain ⟨hchanges, u', hsame, htwin⟩ := blind_answer call g u h
  have hmounted : (g.withFiles u).mounted = g.mounted := rfl
  rw [run_apply, run_apply, hmounted, hsame]
  split
  · exact ⟨.refl, u, rfl, h⟩
  split
  · exact ⟨.refl, u, rfl, h⟩
  split
  · exact ⟨.refl, u, rfl, h⟩
  rcases hanswer : call.answer g with ⟨stop | _, g'⟩
  · rw [hanswer] at hchanges htwin
    exact ⟨hchanges, u', rfl, htwin⟩
  · rw [hanswer] at hchanges htwin
    exact ⟨hchanges, u', rfl, htwin⟩

end SystemCall

namespace Running

variable {γ : Type} {r : Running}

/-- The running program with other files. -/
def withFiles (r : Running) (files : Tree) : Running :=
  { r with guest := r.guest.withFiles files }

/-- Two outcomes for twins that started as `g`: the same result, and twins again. -/
structure InStep (root : String) (g : Guest) (out out' : γ × Running) : Prop where
  changes : ReflTransGen Guest.Change g out.2.guest
  same : ∃ u', out' = (out.1, out.2.withFiles u') ∧ Guest.Twin root out.2.guest u'

/-- Runs in step stay so when only the log grows. -/
theorem inStep_stay (h : Guest.Twin root r.guest u) (result : γ) (last : Nat)
    (log : List LogEntry) :
    InStep root r.guest (result, { r with last, log })
      (result, { r.withFiles u with last, log }) :=
  ⟨.refl, u, rfl, h⟩

/-- They stay so when both get the same memory. -/
theorem inStep_memory (h : Guest.Twin root r.guest u) (result : γ) (m : GuestMemory)
    (last : Nat) (log : List LogEntry) :
    InStep root r.guest (result, { guest := { r.guest with memory := m }, last, log })
      (result, { guest := { r.guest.withFiles u with memory := m }, last, log }) :=
  ⟨.single (.memory m), u, rfl, h.confined, h.root_eq, h.agree⟩

/-- A test that does not depend on the files outside keeps them in step. -/
theorem inStep_ite {c : Prop} [Decidable c] {g : Guest} {a a' b b' : γ × Running}
    (ha : InStep root g a a') (hb : InStep root g b b') :
    InStep root g (if c then a else b) (if c then a' else b') := by
  split
  · exact ha
  · exact hb

/-- A call keeps them in step. -/
theorem inStep_call (h : Guest.Twin root r.guest u) (exportsMemory : Bool) (bounds : MemoryBounds)
    (c : SystemCall) : InStep root r.guest (step exportsMemory bounds r (.call c))
      (step exportsMemory bounds (r.withFiles u) (.call c)) := by
  obtain ⟨hchanges, u', hsame, htwin⟩ := SystemCall.run_twin h exportsMemory c
  have hguest : (r.withFiles u).guest = r.guest.withFiles u := rfl
  simp only [step, hguest, hsame]
  rcases hrun : (c.run exportsMemory).run r.guest with ⟨ending | number, g'⟩
  · rw [hrun] at hchanges htwin
    exact ⟨hchanges, u', rfl, htwin⟩
  · rw [hrun] at hchanges htwin
    exact ⟨hchanges, u', rfl, htwin⟩

/-- Leaving the program does too. -/
theorem inStep_exitWith (h : Guest.Twin root r.guest u) (exportsMemory : Bool) (code : Int) :
    InStep root r.guest (step.exitWith exportsMemory r code)
      (step.exitWith exportsMemory (r.withFiles u) code) := by
  obtain ⟨hchanges, u', hsame, htwin⟩ := SystemCall.run_twin h exportsMemory (.procExit code)
  have hguest : (r.withFiles u).guest = r.guest.withFiles u := rfl
  simp only [step.exitWith, hguest, hsame]
  rcases hrun : ((SystemCall.procExit code).run exportsMemory).run r.guest with ⟨ending | _, g'⟩
  · rw [hrun] at hchanges htwin
    exact ⟨hchanges, u', rfl, htwin⟩
  · rw [hrun] at hchanges htwin
    exact ⟨hchanges, u', rfl, htwin⟩

/-- Twins take the same step: it ends both runs or leaves the same in both logs. -/
theorem inStep_step (h : Guest.Twin root r.guest u) (exportsMemory : Bool) (bounds : MemoryBounds)
    (s : Step) : InStep root r.guest (step exportsMemory bounds r s)
      (step exportsMemory bounds (r.withFiles u) s) := by
  cases s with
  | call c => exact inStep_call h exportsMemory bounds c
  | poke address data => exact inStep_ite (inStep_memory h _ _ _ _) (inStep_stay h _ _ _)
  | peek address length =>
    exact inStep_ite (inStep_stay h _ _ _) (inStep_ite (inStep_stay h _ _ _) (inStep_stay h _ _ _))
  | copyWord target source => exact inStep_ite (inStep_memory h _ _ _ _) (inStep_stay h _ _ _)
  | grow pages =>
    have hmemory : (r.withFiles u).guest.memory = r.guest.memory := rfl
    simp only [step, hmemory]
    cases grow bounds r.guest.memory pages with
    | none => exact inStep_stay h _ _ _
    | some memory => exact inStep_memory h _ _ _ _
  | exit code => exact inStep_exitWith h exportsMemory code
  | exitLast => exact inStep_exitWith h exportsMemory _
  | exitWord address => exact inStep_ite (inStep_exitWith h exportsMemory _) (inStep_stay h _ _ _)
  | trap t => exact inStep_stay h _ _ _

/-- Twins run in the same way, by induction on the steps of their program. -/
theorem inStep_steps (h : Guest.Twin root r.guest u) (exportsMemory : Bool)
    (bounds : MemoryBounds) (program : List Step) :
    InStep root r.guest (steps exportsMemory bounds r program)
      (steps exportsMemory bounds (r.withFiles u) program) := by
  induction program generalizing r u with
  | nil => exact inStep_stay h _ _ _
  | cons s rest ih =>
    obtain ⟨hchanges, u', hsame, htwin⟩ := inStep_step h exportsMemory bounds s
    rw [steps, steps, hsame]
    rcases hstep : step exportsMemory bounds r s with ⟨ending | entry, r'⟩
    · rw [hstep] at hchanges htwin
      exact ⟨hchanges, u', rfl, htwin⟩
    · rw [hstep] at hchanges htwin
      obtain ⟨hchanges', u'', hsame', htwin'⟩ := ih htwin
      exact ⟨hchanges.trans hchanges', u'', hsame', htwin'⟩

/-- Any guest is its own twin, so a run of steps is one of changes. -/
theorem changes_steps (h : r.guest.descriptors.Confined) (exportsMemory : Bool)
    (bounds : MemoryBounds) (program : List Step) :
    ReflTransGen Guest.Change r.guest (steps exportsMemory bounds r program).2.guest :=
  (inStep_steps ⟨h, rfl, .refl _ _⟩ exportsMemory bounds program).changes

end Running

end Sandshell
