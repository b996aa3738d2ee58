import Sandshell.Proofs.Law

/-!
# Steps that keep an invariant

A law relates the states before and after a step. Where what a step does depends on what the steps
before it gave, as a path that is looked up and then written, an invariant is carried from step to
step together with what is known of each result.
-/

namespace Sandshell

/-- What holds between steps, and what holds after one that failed. -/
structure Invariant (σ ε : Type) where
  holds : σ → Prop
  fails : ε → σ → Prop

variable {σ ε α β : Type}

namespace Invariant

/-- A failure leaves what a success leaves. -/
def steady (holds : σ → Prop) : Invariant σ ε := ⟨holds, fun _ => holds⟩

variable {inv : Invariant σ ε} {holds : σ → Prop} {post post' : α → Prop} {after : β → Prop}

/-- What is left where a step ended with a result. -/
abbrev After (inv : Invariant σ ε) (post : α → Prop) (result : Except ε α) (s : σ) : Prop :=
  match result with
  | .ok a => inv.holds s ∧ post a
  | .error e => inv.fails e s

/-- The step keeps the invariant, and its result has a property. -/
def Keeps (inv : Invariant σ ε) (step : ExceptT ε (StateM σ) α) (post : α → Prop) : Prop :=
  ∀ s, inv.holds s → inv.After post (step s).1 (step s).2

section

variable {step : ExceptT ε (StateM σ) α} {s s' : σ}

/-- A step that succeeds gives what was promised and leaves the invariant. -/
theorem Keeps.ok (h : inv.Keeps step post) (hs : inv.holds s) {a : α}
    (hstep : step s = (.ok a, s')) : inv.holds s' ∧ post a := by
  have hkept := h s hs
  rwa [hstep] at hkept

/-- One that fails leaves what failures are allowed to leave. -/
theorem Keeps.error (h : inv.Keeps step post) (hs : inv.holds s) {e : ε}
    (hstep : step s = (.error e, s')) : inv.fails e s' := by
  have hkept := h s hs
  rwa [hstep] at hkept

theorem Keeps.of_cases (hok : ∀ s a s', inv.holds s → step s = (.ok a, s') → inv.holds s' ∧ post a)
    (herror : ∀ s e s', inv.holds s → step s = (.error e, s') → inv.fails e s') :
    inv.Keeps step post := by
  intro s hs
  rcases hstep : step s with ⟨e | a, s'⟩
  · exact herror s e s' hs hstep
  · exact hok s a s' hs hstep

/-- Where a failure leaves what a success leaves, it does not matter how the step ended. -/
theorem keeps_steady_iff :
    (steady holds).Keeps step (fun _ => True) ↔ ∀ s, holds s → holds (step s).2 := by
  refine forall₂_congr fun s _ => ?_
  cases (step s).1 with
  | error e => simp [After, steady]
  | ok a => simp [After, steady]

/-- What a step promises it promises less of, too. -/
theorem Keeps.imp (h : inv.Keeps step post) (himp : ∀ a, post a → post' a) :
    inv.Keeps step post' :=
  .of_cases (fun _ a _ hs hstep => (h.ok hs hstep).imp_right (himp a)) fun _ _ _ hs => h.error hs

/-- Nothing is said of the result. -/
theorem Keeps.silent (h : inv.Keeps step post) : inv.Keeps step fun _ => True :=
  h.imp fun _ _ => trivial

end

theorem keeps_pure {a : α} (h : post a) : inv.Keeps (pure a) post :=
  fun _ hs => ⟨hs, h⟩

theorem keeps_throw {e : ε} (h : ∀ s, inv.holds s → inv.fails e s) :
    inv.Keeps (throw e : ExceptT ε (StateM σ) α) post :=
  h

/-- What follows a step may look at the state that the step leaves. -/
theorem After.bind {step : ExceptT ε (StateM σ) α} {f : α → ExceptT ε (StateM σ) β} {s : σ}
    (h : inv.After post (step s).1 (step s).2)
    (hf : ∀ a s', step s = (.ok a, s') → inv.holds s' → post a →
      inv.After after (f a s').1 (f a s').2) :
    inv.After after ((step >>= f) s).1 ((step >>= f) s).2 := by
  rcases hstep : step s with ⟨e | a, s'⟩
  · rw [hstep] at h
    rwa [bind_apply_error hstep]
  · rw [hstep] at h
    rw [bind_apply_ok hstep]
    exact hf a s' hstep h.1 h.2

/-- The second step may rely on what the first one gives. -/
theorem Keeps.bind {step : ExceptT ε (StateM σ) α} {f : α → ExceptT ε (StateM σ) β}
    (h : inv.Keeps step post) (hf : ∀ a, post a → inv.Keeps (f a) after) :
    inv.Keeps (step >>= f) after :=
  fun s hs => After.bind (h s hs) fun a s' _ hs' ha => hf a ha s' hs'

/-- What follows a step may not need to know its result. -/
theorem Keeps.before {step : ExceptT ε (StateM σ) α} {f : α → ExceptT ε (StateM σ) β}
    (h : inv.Keeps step fun _ => True) (hf : ∀ a, inv.Keeps (f a) after) :
    inv.Keeps (step >>= f) after :=
  h.bind fun a _ => hf a

/-- A step for each member keeps the invariant if those for the members do. -/
theorem Keeps.mapM_of_mem {f : α → ExceptT ε (StateM σ) β} {l : List α}
    (hf : ∀ a ∈ l, inv.Keeps (f a) after) : inv.Keeps (l.mapM f) fun bs => ∀ b ∈ bs, after b := by
  induction l with
  | nil => exact keeps_pure (List.forall_mem_nil after)
  | cons a rest ih =>
    rw [List.forall_mem_cons] at hf
    rw [List.mapM_cons]
    exact hf.1.bind fun b hb => (ih hf.2).bind fun bs hbs =>
      keeps_pure (List.forall_mem_cons.2 ⟨hb, hbs⟩)

theorem Keeps.mapM {f : α → ExceptT ε (StateM σ) β} (hf : ∀ a, inv.Keeps (f a) after)
    (l : List α) : inv.Keeps (l.mapM f) fun bs => ∀ b ∈ bs, after b :=
  mapM_of_mem fun a _ => hf a

/-- The results of the steps may be of no interest. -/
theorem Keeps.mapM_silent {f : α → ExceptT ε (StateM σ) β} {l : List α}
    (hf : ∀ a ∈ l, inv.Keeps (f a) fun _ => True) : inv.Keeps (l.mapM f) fun _ => True :=
  (mapM_of_mem hf).silent

/-! ## Steps that cannot fail -/

/-- The step keeps what holds of the state, and its result has a property. -/
def Sustains (holds : σ → Prop) (step : StateM σ α) (post : α → Prop) : Prop :=
  ∀ s, holds s → holds (step s).2 ∧ post (step s).1

theorem sustains_pure {a : α} (h : post a) : Sustains holds (pure a) post :=
  fun _ hs => ⟨hs, h⟩

/-- The same holds of steps that cannot fail. -/
theorem Sustains.bind {step : StateM σ α} {f : α → StateM σ β} (h : Sustains holds step post)
    (hf : ∀ a, post a → Sustains holds (f a) after) : Sustains holds (step >>= f) after := by
  intro s hs
  obtain ⟨hs', ha⟩ := h s hs
  exact hf _ ha _ hs'

/-- Steps for the members of a list sustain what each of them does. -/
theorem Sustains.mapM_of_mem {f : α → StateM σ β} {l : List α}
    (hf : ∀ a ∈ l, Sustains holds (f a) after) :
    Sustains holds (l.mapM f) fun bs => ∀ b ∈ bs, after b := by
  induction l with
  | nil => exact sustains_pure (List.forall_mem_nil after)
  | cons a rest ih =>
    rw [List.forall_mem_cons] at hf
    rw [List.mapM_cons]
    exact hf.1.bind fun b hb => (ih hf.2).bind fun bs hbs =>
      sustains_pure (List.forall_mem_cons.2 ⟨hb, hbs⟩)

/-- So does choosing among the members. -/
theorem Sustains.filterM_of_mem {f : α → StateM σ Bool} {l : List α}
    (hf : ∀ a ∈ l, Sustains holds (f a) fun _ => True) :
    Sustains holds (l.filterM f) fun _ => True := by
  have haux : ∀ kept, Sustains holds (l.filterAuxM f kept) fun _ => True := by
    induction l with
    | nil => exact fun kept => sustains_pure trivial
    | cons a rest ih =>
      rw [List.forall_mem_cons] at hf
      exact fun kept => hf.1.bind fun b _ => ih hf.2 _
  exact (haux []).bind fun kept _ => sustains_pure trivial

/-- Where a failure leaves what a success leaves, it can be looked at. -/
theorem Keeps.run {step : ExceptT ε (StateM σ) α} (h : (steady holds).Keeps step post) :
    Sustains holds step.run fun result => ∀ a, result = .ok a → post a := by
  intro s hs
  rcases hstep : step s with ⟨e | a, s'⟩
  · have hrun : step.run s = (.error e, s') := hstep
    rw [hrun]
    exact ⟨h.error hs hstep, nofun⟩
  · have hrun : step.run s = (.ok a, s') := hstep
    rw [hrun]
    obtain ⟨hs', ha⟩ := h.ok hs hstep
    exact ⟨hs', fun _ heq => Except.ok.inj heq ▸ ha⟩

end Invariant

/-- A law holds of a step exactly if the step keeps what the law lets a state come to, whichever
state it is. -/
theorem Law.obeys_iff_keeps {law : Law σ ε} {step : ExceptT ε (StateM σ) α} : law.Obeys step
    ↔ ∀ s, (⟨law.moves s, law.fails s⟩ : Invariant σ ε).Keeps step fun _ => True := by
  constructor
  · intro h s
    exact .of_cases (fun _ _ _ hs hstep => ⟨law.trans hs (h.ok hstep), trivial⟩)
      fun _ _ _ hs hstep => law.fails_of_moves hs (h.error hstep)
  · intro h s
    rcases hstep : step s with ⟨e | a, s'⟩
    · exact (h s).error (law.refl s) hstep
    · exact ((h s).ok (law.refl s) hstep).1

end Sandshell
