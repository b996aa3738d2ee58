import Sandshell.Proofs.Step

/-!
# Laws of steps

A law says how steps may move a state when they succeed, and what they may leave when they fail.
Steps that obey a law can be put together; so it is enough to look at the steps that a program is
made of.
-/

namespace Sandshell

/-- What steps may do to a state. What a success leads to, and then a failure, is a failure from the
beginning. -/
structure Law (σ ε : Type) where
  moves : σ → σ → Prop
  fails : σ → ε → σ → Prop
  refl : ∀ s, moves s s
  trans : ∀ {s s' s''}, moves s s' → moves s' s'' → moves s s''
  fails_of_moves : ∀ {s s' s'' e}, moves s s' → fails s' e s'' → fails s e s''

namespace Law

variable {σ τ ε α β : Type} {law : Law σ ε}

/-- A relation that successes and failures stay in alike. -/
def along (moves : σ → σ → Prop) (refl : ∀ s, moves s s)
    (trans : ∀ s s' s'', moves s s' → moves s' s'' → moves s s'') : Law σ ε :=
  ⟨moves, fun s _ s' => moves s s', refl, trans _ _ _, trans _ _ _⟩

/-- The law for a state that has more to it. -/
def comap (law : Law σ ε) (view : τ → σ) : Law τ ε where
  moves s s' := law.moves (view s) (view s')
  fails s e s' := law.fails (view s) e (view s')
  refl s := law.refl (view s)
  trans := law.trans
  fails_of_moves := law.fails_of_moves

/-- The law allows this end of a step that began in `s`. -/
def Ends (law : Law σ ε) (s : σ) (result : Except ε α) (s' : σ) : Prop :=
  match result with
  | .ok _ => law.moves s s'
  | .error e => law.fails s e s'

/-- A law that holds of the rest of a run holds of the run with a lawful move before. -/
theorem Ends.after {s s' s'' : σ} {result : Except ε α} (h' : law.Ends s' result s'')
    (h : law.moves s s') : law.Ends s result s'' := by
  cases result with
  | ok a => exact law.trans h h'
  | error e => exact law.fails_of_moves h h'

/-- The step does what the law allows. -/
def Obeys (law : Law σ ε) (x : ExceptT ε (StateM σ) α) : Prop :=
  ∀ s, law.Ends s (x s).1 (x s).2

section

variable {x : ExceptT ε (StateM σ) α} {s s' : σ}

theorem Obeys.ends (hx : law.Obeys x) {result : Except ε α} (h : x s = (result, s')) :
    law.Ends s result s' := by
  have hends := hx s
  rwa [h] at hends

/-- A step that obeys makes a lawful move where it succeeds. -/
theorem Obeys.ok (hx : law.Obeys x) {a : α} (h : x s = (.ok a, s')) : law.moves s s' :=
  hx.ends h

/-- Where it fails, it ends in a lawful way. -/
theorem Obeys.error (hx : law.Obeys x) {e : ε} (h : x s = (.error e, s')) : law.fails s e s' :=
  hx.ends h

end

theorem obeys_pure (a : α) : law.Obeys (pure a : ExceptT ε (StateM σ) α) :=
  law.refl

/-- What only fails has to fail in a lawful way. -/
theorem obeys_throw {e : ε} (h : ∀ s, law.fails s e s) :
    law.Obeys (throw e : ExceptT ε (StateM σ) α) :=
  h

/-- Two steps that obey do so one after the other. -/
theorem Obeys.bind {x : ExceptT ε (StateM σ) α} {f : α → ExceptT ε (StateM σ) β}
    (hx : law.Obeys x) (hf : ∀ a, law.Obeys (f a)) : law.Obeys (x >>= f) := by
  intro s
  cases h : x s with
  | mk result s' =>
    cases result with
    | ok a =>
      rw [bind_apply_ok h]
      exact (hf a s').after (hx.ok h)
    | error e =>
      rw [bind_apply_error h]
      exact hx.error h

/-- Steps for the members of a list obey if each of them does. -/
theorem Obeys.mapM_of_mem {f : α → ExceptT ε (StateM σ) β} {l : List α}
    (hf : ∀ a ∈ l, law.Obeys (f a)) : law.Obeys (l.mapM f) := by
  induction l with
  | nil => exact obeys_pure []
  | cons a rest ih =>
    rw [List.forall_mem_cons] at hf
    rw [List.mapM_cons]
    exact hf.1.bind fun b => (ih hf.2).bind fun bs => obeys_pure (b :: bs)

theorem Obeys.mapM {f : α → ExceptT ε (StateM σ) β} (hf : ∀ a, law.Obeys (f a)) (l : List α) :
    law.Obeys (l.mapM f) :=
  mapM_of_mem fun a _ => hf a

/-! ## Steps that change nothing -/

/-- The state stays, also when the step fails. -/
def unchanged : Law σ ε :=
  along (fun s s' => s' = s) (fun _ => rfl) fun _ _ _ h h' => h'.trans h

/-- What leaves the state unchanged only gives a result. -/
theorem Obeys.exists_apply_eq {x : ExceptT ε (StateM σ) α} (hx : unchanged.Obeys x) (s : σ) :
    ∃ result, x s = (result, s) := by
  have hends := hx s
  rcases h : x s with ⟨e | a, s'⟩
  · rw [h] at hends
    obtain rfl : s' = s := hends
    exact ⟨_, rfl⟩
  · rw [h] at hends
    obtain rfl : s' = s := hends
    exact ⟨_, rfl⟩

/-- And what only gives a result leaves it unchanged. -/
theorem obeys_unchanged {x : ExceptT ε (StateM σ) α} (h : ∀ s, ∃ result, x s = (result, s)) :
    unchanged.Obeys x := by
  intro s
  obtain ⟨result, hx⟩ := h s
  rw [hx]
  cases result with
  | error e => exact rfl
  | ok a => exact rfl

/-! ## Failures like successes -/

section

variable {moves : σ → σ → Prop} {refl : ∀ s, moves s s}
variable {trans : ∀ s s' s'', moves s s' → moves s' s'' → moves s s''}
variable {x : ExceptT ε (StateM σ) α}

/-- Where failures stay in the same relation as successes, the result does not matter. -/
theorem obeys_along_iff : (along moves refl trans).Obeys x ↔ ∀ s, moves s (x s).2 := by
  refine forall_congr' fun s => ?_
  cases (x s).1 <;> exact Iff.rfl

end

end Law

end Sandshell
