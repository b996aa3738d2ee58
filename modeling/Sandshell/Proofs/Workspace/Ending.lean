import Sandshell.Proofs.Keeps
import Sandshell.Workspace.Walk

/-!
# Walks that end

Steps that call a workspace end as its calls do; walks need not. A walk ends if nothing is waiting any more or if a visit is refused, after so many visits. The
unbounded walk gives a result exactly if it ends; a walk by recursion on the number of visits gives
the same one then, whatever the number. A walk ends if each visit hands on only what is deeper than
what it visits, and there is nothing below some depth.
-/

namespace Sandshell

/-! ## Steps that end -/

section

variable {W α β : Type}

theorem returns_pure (a : α) : Returns (pure a : WorkspaceM W α) := by
  intro w hendless
  cases hendless

/-- Two steps that return do so one after the other. -/
theorem Returns.bind {step : WorkspaceM W α} {f : α → WorkspaceM W β} (h : Returns step)
    (hf : ∀ a, Returns (f a)) : Returns (step >>= f) := by
  intro w
  rcases hstep : step w with ⟨e | a, w'⟩
  · have hne := h w
    rw [hstep] at hne
    rw [bind_apply_error hstep]
    exact fun hendless => hne (congrArg Except.error (Except.error.inj hendless))
  · rw [bind_apply_ok hstep]
    exact hf a w'

/-- So do steps for the members of a list. -/
theorem Returns.mapM {f : α → WorkspaceM W β} (hf : ∀ a, Returns (f a)) (l : List α) :
    Returns (l.mapM f) := by
  induction l with
  | nil => exact returns_pure []
  | cons a rest ih =>
    rw [List.mapM_cons]
    exact (hf a).bind fun b => ih.bind fun bs => returns_pure (b :: bs)

end

namespace Walk

variable {W α β : Type} {visit : α → WorkspaceM W (List β × List α)}
variable {waiting : List α} {w w' : W} {visits : Nat} {result : Except WorkspaceError (List β)}

/-- A walk comes to an end after so many visits, with a result. -/
inductive Ends (visit : α → WorkspaceM W (List β × List α)) :
    List α → W → Nat → Except WorkspaceError (List β) → W → Prop
  | done {w : W} : Ends visit [] w 0 (.ok []) w
  | refused {a : α} {waiting : List α} {w w' : W} {e : WorkspaceError}
      (h : visit a w = (.error e, w')) : Ends visit (a :: waiting) w 1 (.error e) w'
  | next {a : α} {next waiting : List α} {more : List β} {w mid w' : W} {visits : Nat}
      {result : Except WorkspaceError (List β)} (h : visit a w = (.ok (more, next), mid))
      (hrest : Ends visit (next ++ waiting) mid visits result w') :
      Ends visit (a :: waiting) w (visits + 1) (result.map (more ++ ·)) w'

/-- A walk comes to an end after finitely many visits. -/
def Terminates (visit : α → WorkspaceM W (List β × List α)) (waiting : List α) (w : W) : Prop :=
  ∃ visits result w', Ends visit waiting w visits result w'

theorem map_append_append (found more : List β) (result : Except WorkspaceError (List β)) :
    (result.map (more ++ ·)).map (found ++ ·) = result.map (found ++ more ++ ·) := by
  cases result with
  | error e => rfl
  | ok rest =>
    show Except.ok (found ++ (more ++ rest)) = Except.ok (found ++ more ++ rest)
    rw [List.append_assoc]

/-! ## Unbounded walks -/

/-- A walk that ends has an end, after what has been found before. -/
theorem Ends.toEnd?_eq (h : Ends visit waiting w visits result w') (found : List β) :
    (Progress.mk found waiting).toEnd? visit w = some (result.map (found ++ ·), w') := by
  induction h generalizing found with
  | @done w =>
    rw [Progress.toEnd?]
    show some (Except.ok found, w) = some (Except.ok (found ++ []), w)
    rw [List.append_nil]
  | refused h =>
    rw [Progress.toEnd?]
    simp only [h]
    rfl
  | next h hrest ih =>
    rw [Progress.toEnd?]
    simp only [h]
    rw [ih, map_append_append]

/-- What the unbounded walk gives is what some walk ends with. -/
theorem exists_ends_of_toEnd? {progress : Progress α β} {r : Except WorkspaceError (List β) × W}
    (h : progress.toEnd? visit w = some r) :
    ∃ visits result, Ends visit progress.waiting w visits result r.2
      ∧ result.map (progress.found ++ ·) = r.1 := by
  -- by induction on the approximations of the fixpoint, one more visit each
  refine Progress.toEnd?.partial_correctness visit (fun progress w r =>
    ∃ visits result, Ends visit progress.waiting w visits result r.2
      ∧ result.map (progress.found ++ ·) = r.1) (fun approximation ih => ?_) progress w r h
  rintro ⟨found, waiting⟩ w r h
  cases waiting with
  | nil =>
    obtain rfl := Option.some.inj h
    refine ⟨0, .ok [], .done, ?_⟩
    show Except.ok (found ++ []) = Except.ok found
    rw [List.append_nil]
  | cons a waiting =>
    dsimp only at h
    rcases hvisit : visit a w with ⟨e | ⟨more, next⟩, mid⟩
    · rw [hvisit] at h
      obtain rfl := Option.some.inj h
      exact ⟨1, .error e, .refused hvisit, rfl⟩
    · rw [hvisit] at h
      obtain ⟨visits, result, hends, hresult⟩ := ih _ _ _ h
      exact ⟨visits + 1, _, .next hvisit hends, (map_append_append found more result).trans hresult⟩

/-- It gives the same without a bound. -/
theorem Ends.unbounded_apply (h : Ends visit waiting w visits result w') :
    unbounded visit waiting w = (result, w') := by
  rw [unbounded, h.toEnd?_eq []]
  cases result <;> rfl

/-- Nothing comes of a walk that does not terminate. -/
theorem unbounded_of_not_terminates (h : ¬ Terminates visit waiting w) :
    unbounded visit waiting w = (.error .endless, w) := by
  cases hend : (Progress.mk [] waiting).toEnd? visit w with
  | none => rw [unbounded, hend, Option.getD_none]
  | some r =>
    obtain ⟨visits, result, hends, -⟩ := exists_ends_of_toEnd? hend
    exact absurd ⟨visits, result, r.2, hends⟩ h

/-! ## Visits by recursion -/

/-- A walk that ends gives its result, however many of its visits are done by recursion. -/
theorem Ends.run_apply (h : Ends visit waiting w visits result w') (n : Nat) :
    run visit n waiting w = (result, w') := by
  induction h generalizing n with
  | done => cases n <;> rfl
  | refused h =>
    cases n with
    | zero => exact (Ends.refused h).unbounded_apply
    | succ n =>
      rw [run]
      exact bind_apply_error h
  | @next a next waiting more w mid w' visits result h hrest ih =>
    cases n with
    | zero => exact (Ends.next h hrest).unbounded_apply
    | succ n =>
      rw [run, bind_apply_ok h]
      cases result with
      | error e => exact bind_apply_error (ih n)
      | ok rest => exact bind_apply_ok (ih n)

/-- A walk that does not terminate has no end after any number of visits. -/
theorem run_of_not_terminates (h : ¬ Terminates visit waiting w) (n : Nat) :
    (run visit n waiting w).1 = .error .endless := by
  induction n generalizing waiting w with
  | zero =>
    cases waiting with
    | nil => exact absurd ⟨0, _, w, .done⟩ h
    | cons a rest => rw [run, unbounded_of_not_terminates h]
  | succ n ih =>
    cases waiting with
    | nil => exact absurd ⟨0, _, w, .done⟩ h
    | cons a rest =>
      rw [run]
      rcases hvisit : visit a w with ⟨e | ⟨more, next⟩, mid⟩
      · exact absurd ⟨1, _, mid, .refused hvisit⟩ h
      · have hrest : ¬ Terminates visit (next ++ rest) mid := by
          rintro ⟨visits, result, w', hends⟩
          exact h ⟨visits + 1, _, w', .next hvisit hends⟩
        rw [bind_apply_ok hvisit]
        exact congrArg Prod.fst (bind_apply_error (Prod.ext (ih hrest) rfl))

/-- A walk whose visits end can end with what they fail with, and with nothing else. -/
theorem Ends.ne_endless (hvisit : ∀ a, Returns (visit a))
    (h : Ends visit waiting w visits result w') : result ≠ .error .endless := by
  induction h with
  | done =>
    intro hendless
    cases hendless
  | @refused a _ w _ e h =>
    intro hendless
    apply hvisit a w
    rw [h]
    exact congrArg Except.error (Except.error.inj hendless)
  | @next _ _ _ _ _ _ _ _ result h hrest ih =>
    intro hendless
    cases result with
    | error e => exact ih (congrArg Except.error (Except.error.inj hendless))
    | ok found => cases hendless

/-- Where visits end, a walk has no end exactly if it does not terminate. -/
theorem below_eq_endless_iff [Workspace W] (hvisit : ∀ a, Returns (visit a)) (start : α) :
    (below visit start w).1 = .error .endless ↔ ¬ Terminates visit [start] w := by
  constructor
  · rintro hendless ⟨visits, result, w', hends⟩
    apply hends.ne_endless hvisit
    rw [← hendless]
    exact congrArg Prod.fst (hends.run_apply (Workspace.extent w)).symm
  · exact fun h => run_of_not_terminates h (Workspace.extent w)

/-! ## Walks that go down -/

/-- Visits of places that a walk gets away from can stand before any walk that ends. -/
theorem terminates_append {places : List α}
    (h : ∀ a ∈ places, ∀ rest, Terminates visit rest w → Terminates visit (a :: rest) w)
    (hwaiting : Terminates visit waiting w) : Terminates visit (places ++ waiting) w := by
  induction places with
  | nil => exact hwaiting
  | cons a rest ih =>
    rw [List.forall_mem_cons] at h
    exact h.1 _ (ih h.2)

/-- A walk ends where visits leave the workspace alone and hand on only what is less than what they
visit. -/
theorem terminates_of_lt (size : α → Nat)
    (hvisit : ∀ a, (Invariant.steady (· = w)).Keeps (visit a) fun r => ∀ b ∈ r.2, size b < size a)
    (waiting : List α) : Terminates visit waiting w := by
  have hcons : ∀ n a, size a = n → ∀ rest, Terminates visit rest w →
      Terminates visit (a :: rest) w := by
    intro n
    induction n using Nat.strongRecOn with
    | ind n ih =>
      rintro a rfl rest hrest
      rcases hnext : visit a w with ⟨e | ⟨more, next⟩, mid⟩
      · exact ⟨1, _, mid, .refused hnext⟩
      · obtain ⟨rfl, hless⟩ := (hvisit a).ok rfl hnext
        obtain ⟨visits, result, w', hends⟩ := terminates_append
          (fun b hb => ih _ (hless b hb) b rfl) hrest
        exact ⟨visits + 1, _, w', .next hnext hends⟩
  rw [← List.append_nil waiting]
  exact terminates_append (fun a _ => hcons _ a rfl) ⟨0, .ok [], w, .done⟩

/-! ## Walks that do not end -/

/-- A walk that has always one more to visit does not end. -/
theorem not_terminates_of_stays (stays : List α → Prop) (hnil : ¬ stays [])
    (hvisit : ∀ a waiting, stays (a :: waiting) →
      ∃ more next, visit a w = (.ok (more, next), w) ∧ stays (next ++ waiting))
    (hwaiting : stays waiting) : ¬ Terminates visit waiting w := by
  rintro ⟨visits, result, w', hends⟩
  have hnever : ∀ {waiting v visits result w'}, Ends visit waiting v visits result w' →
      v = w → ¬ stays waiting := by
    intro waiting v visits result w' hends
    induction hends with
    | done => exact fun _ => hnil
    | refused h =>
      rintro rfl hstays
      obtain ⟨more, next, heq, -⟩ := hvisit _ _ hstays
      rw [h] at heq
      cases heq
    | next h hrest ih =>
      rintro rfl hstays
      obtain ⟨more, next, heq, hnext⟩ := hvisit _ _ hstays
      rw [h] at heq
      cases heq
      exact ih rfl hnext
  exact hnever hends rfl hwaiting

end Walk

end Sandshell
