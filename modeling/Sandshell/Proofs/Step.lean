import Mathlib.Data.List.Basic

/-!
# Steps that can fail

Calls of guests, of memory and of workspaces are functions on a state whose effect stays when they
fail. These lemmas take them apart.
-/

namespace Sandshell

variable {ε σ α β : Type} {x : ExceptT ε (StateM σ) α} {f : α → ExceptT ε (StateM σ) β}
variable {s s' : σ} {a : α} {e : ε}

/-- The second step goes on where the first one succeeded. -/
theorem bind_apply_ok (h : x s = (.ok a, s')) : (x >>= f) s = f a s' := by
  show (ExceptT.bind x f) s = _
  simp only [ExceptT.bind, ExceptT.mk, bind, StateT.bind, h]
  rfl

/-- After a failure the second step is not taken. -/
theorem bind_apply_error (h : x s = (.error e, s')) : (x >>= f) s = (.error e, s') := by
  show (ExceptT.bind x f) s = _
  simp only [ExceptT.bind, ExceptT.mk, bind, StateT.bind, h]
  rfl

theorem get_bind_apply {f : σ → ExceptT ε (StateM σ) β} :
    ((get : ExceptT ε (StateM σ) σ) >>= f) s = f s s :=
  rfl

/-- What follows a step depends only on what the step does there. -/
theorem bind_apply_congr {y : ExceptT ε (StateM σ) α} (h : x s = y s) :
    (x >>= f) s = (y >>= f) s := by
  rcases hx : x s with ⟨e | a, s'⟩
  · rw [bind_apply_error hx, bind_apply_error (h ▸ hx)]
  · rw [bind_apply_ok hx, bind_apply_ok (h ▸ hx)]

/-- Both steps of a success succeeded. -/
theorem exists_of_bind_apply_ok {b : β} (h : (x >>= f) s = (.ok b, s')) :
    ∃ a mid, x s = (.ok a, mid) ∧ f a mid = (.ok b, s') := by
  cases hx : x s with
  | mk result mid =>
    cases result with
    | error e =>
      rw [bind_apply_error hx] at h
      cases h
    | ok a => exact ⟨a, mid, rfl, (bind_apply_ok hx).symm.trans h⟩

/-- What two steps leave: what the first one left if it failed, and else what the second one did. -/
theorem bind_apply_snd : ((x >>= f) s).2 =
    match x s with
    | (.ok a, s') => (f a s').2
    | (.error _, s') => s' := by
  rcases h : x s with ⟨e | a, s'⟩
  · rw [bind_apply_error h]
  · rw [bind_apply_ok h]

theorem bind_pure_apply_snd {g : α → β} : ((x >>= fun a => pure (g a)) s).2 = (x s).2 := by
  rw [bind_apply_snd]
  split
  · next h => exact (congrArg Prod.snd h).symm
  · next h => exact (congrArg Prod.snd h).symm

/-- What is all right has a result. -/
theorem exists_of_isOk {x : Except ε α} (h : x.isOk) : ∃ a, x = .ok a := by
  cases x with
  | error e => contradiction
  | ok a => exact ⟨a, rfl⟩

theorem exists_of_map_eq_ok {x : Except ε α} {f : α → β} {b : β} (h : x.map f = .ok b) :
    ∃ a, x = .ok a ∧ f a = b := by
  cases x with
  | error e => cases h
  | ok a => exact ⟨a, rfl, Except.ok.inj h⟩

theorem return_eq_map (x : Except ε α) (f : α → β) : (do return f (← x)) = x.map f := by
  cases x <;> rfl

/-- Steps that succeed and leave the state alone, one after the other. -/
theorem mapM_apply_ok {f : α → ExceptT ε (StateM σ) β} {g : α → β} {l : List α}
    (h : ∀ a ∈ l, f a s = (.ok (g a), s)) : l.mapM f s = (.ok (l.map g), s) := by
  induction l with
  | nil => rfl
  | cons a rest ih =>
    have hrest := ih fun a ha => h a (List.mem_cons_of_mem _ ha)
    rw [List.mapM_cons, bind_apply_ok (h a List.mem_cons_self), bind_apply_ok hrest]
    rfl

/-- Steps that leave the state alone, one after the other: one of them fails, or each has its
result. -/
theorem exists_mapM_apply {f : α → ExceptT ε (StateM σ) β} {comesTo : α → Except ε β → Prop}
    {l : List α} (h : ∀ a ∈ l, ∃ r, f a s = (r, s) ∧ comesTo a r) :
    (∃ a ∈ l, ∃ e, comesTo a (.error e) ∧ l.mapM f s = (.error e, s))
      ∨ ∃ bs, l.mapM f s = (.ok bs, s) ∧ List.Forall₂ (fun a b => comesTo a (.ok b)) l bs := by
  induction l with
  | nil => exact .inr ⟨[], rfl, .nil⟩
  | cons a rest ih =>
    rw [List.forall_mem_cons] at h
    obtain ⟨⟨r, hr, hcomes⟩, hrest⟩ := h
    simp only [List.mapM_cons, List.exists_mem_cons_iff]
    cases r with
    | error e => exact .inl (.inl ⟨e, hcomes, bind_apply_error hr⟩)
    | ok b =>
      rw [bind_apply_ok hr]
      rcases ih hrest with ⟨a', ha', e, hfails, hrun⟩ | ⟨bs, hrun, hall⟩
      · exact .inl (.inr ⟨a', ha', e, hfails, bind_apply_error hrun⟩)
      · exact .inr ⟨b :: bs, bind_apply_ok hrun, .cons hcomes hall⟩

/-- Steps that leave the state alone fail one after the other if one of them does. -/
theorem exists_mapM_apply_error {f : α → ExceptT ε (StateM σ) β} {l : List α}
    (hkeeps : ∀ a ∈ l, (f a s).2 = s) (ha : a ∈ l) (hfails : ∃ e, f a s = (.error e, s)) :
    ∃ e, l.mapM f s = (.error e, s) := by
  induction l with
  | nil => contradiction
  | cons b rest ih =>
    rw [List.forall_mem_cons] at hkeeps
    rw [List.mapM_cons]
    rcases hb : f b s with ⟨e | c, s'⟩
    · rw [hb] at hkeeps
      obtain rfl : s' = s := hkeeps.1
      exact ⟨e, bind_apply_error hb⟩
    · rw [hb] at hkeeps
      obtain rfl : s' = s := hkeeps.1
      have hrest : a ∈ rest := by
        rcases List.mem_cons.1 ha with rfl | hmem
        · obtain ⟨e, he⟩ := hfails
          rw [hb] at he
          cases he
        · exact hmem
      obtain ⟨e, he⟩ := ih hkeeps.2 hrest
      rw [bind_apply_ok hb]
      exact ⟨e, bind_apply_error he⟩

/-- Each result comes from one of the members. -/
theorem exists_of_mem_mapM {f : α → Except ε β} {l : List α} {bs : List β} (h : l.mapM f = .ok bs)
    {b : β} (hb : b ∈ bs) : ∃ a ∈ l, f a = .ok b := by
  induction l generalizing bs with
  | nil =>
    obtain rfl := Except.ok.inj h
    contradiction
  | cons a rest ih =>
    rw [List.mapM_cons] at h
    cases ha : f a with
    | error e =>
      rw [ha] at h
      contradiction
    | ok first =>
      cases hrest : rest.mapM f with
      | error e =>
        rw [ha, hrest] at h
        contradiction
      | ok more =>
        rw [ha, hrest] at h
        obtain rfl : first :: more = bs := Except.ok.inj h
        rcases List.mem_cons.1 hb with rfl | hmem
        · exact ⟨a, List.mem_cons_self, ha⟩
        · obtain ⟨a', ha', hfa⟩ := ih hrest hmem
          exact ⟨a', List.mem_cons_of_mem a ha', hfa⟩

/-- Both fail in the same way, or both succeed with related results. -/
inductive SameOutcome (related : α → α → Prop) : Except ε α → Except ε α → Prop
  | error (e : ε) : SameOutcome related (.error e) (.error e)
  | ok {a b : α} (h : related a b) : SameOutcome related (.ok a) (.ok b)

theorem SameOutcome.refl (r : Except ε α) : SameOutcome (· = ·) r r := by
  cases r with
  | error e => exact .error e
  | ok a => exact .ok rfl

/-- The same outcomes are the same errors. -/
theorem SameOutcome.eq_error_iff {related : α → α → Prop} {r r' : Except ε α} {e : ε}
    (h : SameOutcome related r r') : r = .error e ↔ r' = .error e := by
  cases h with
  | error e => exact Iff.rfl
  | ok hrelated => exact iff_of_false (by simp) (by simp)

/-- With the same results they are the same altogether. -/
theorem SameOutcome.eq {r r' : Except ε α} (h : SameOutcome (· = ·) r r') : r = r' := by
  cases h with
  | error e => rfl
  | ok heq => exact congrArg Except.ok heq

/-- Steps that go on alike from related results have the same outcome. -/
theorem SameOutcome.bind {related : α → α → Prop} {related' : β → β → Prop} {r r' : Except ε α}
    {f f' : α → Except ε β} (h : SameOutcome related r r')
    (hf : ∀ a b, related a b → SameOutcome related' (f a) (f' b)) :
    SameOutcome related' (r >>= f) (r' >>= f') := by
  cases h with
  | error e => exact .error e
  | ok hrelated => exact hf _ _ hrelated

/-- What is the same of related results is the same of the outcomes. -/
theorem SameOutcome.map_eq {related : α → α → Prop} {r r' : Except ε α} {f : α → β}
    (h : SameOutcome related r r') (hf : ∀ a b, related a b → f a = f b) : r.map f = r'.map f := by
  cases h with
  | error e => rfl
  | ok hrelated => exact congrArg Except.ok (hf _ _ hrelated)

end Sandshell
