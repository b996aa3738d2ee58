import Mathlib.Data.List.Induction
import Mathlib.Data.List.Lex
import Sandshell.Proofs.Workspace.Ending

/-!
# Which walks end

A walk takes ways, told by the names along them, in the order of these names. A directory can show an
entry that stands for the directory itself: a way that such a name ends is a loop, which the walk
enters as soon as it comes there. So the walk ends exactly if before each loop it meets a directory
that cannot be visited.
-/

namespace Sandshell.Walk

/-- An entry of this name stands for the directory that it is in. -/
def IsBlank (name : String) : Prop :=
  name = "" ∨ name = "."

instance (name : String) : Decidable (IsBlank name) :=
  inferInstanceAs (Decidable (_ ∨ _))

/-- Where a walk can go: which ways lead to directories, where visits are refused, and in which order
the names in a directory are taken. -/
structure Ways where
  passes : List String → Prop
  refuses : List String → Prop
  before : String → String → Prop
  passes_root : passes []
  passes_of_concat : ∀ {way name}, passes (way ++ [name]) → passes way
  bounded : ∃ bound, ∀ way, passes way → way.length < bound
  before_asymm : ∀ {a b}, before a b → ¬ before b a

namespace Ways

variable {ways : Ways} {way rest s : List String} {m n name : String} {names : List String}

/-- The way leads back to where it was before its last name. -/
def Loops (ways : Ways) (way : List String) : Prop :=
  ways.passes way ∧ ∃ front name, way = front ++ [name] ∧ IsBlank name

/-- A visit at the end of the way is refused. -/
def RefusedAt (ways : Ways) (way : List String) : Prop :=
  ways.passes way ∧ ways.refuses way

/-- Every loop comes after a way at the end of which a visit is refused. -/
def Stops (ways : Ways) : Prop :=
  ∀ way, ways.Loops way → ∃ refused, ways.RefusedAt refused ∧ List.Lex ways.before refused way

/-- Every loop from the end of the way on comes after a refusal from there on. -/
def StopsBelow (ways : Ways) (way : List String) : Prop :=
  ∀ n s, ways.Loops (way ++ n :: s) →
    ∃ r, ways.RefusedAt (way ++ r) ∧ List.Lex ways.before r (n :: s)

/-- Every loop that begins with one of the names comes after a refusal that does. -/
def StopsThrough (ways : Ways) (way names : List String) : Prop :=
  ∀ n ∈ names, ∀ s, ways.Loops (way ++ n :: s) →
    ∃ m ∈ names, ∃ r, ways.RefusedAt (way ++ m :: r) ∧ List.Lex ways.before (m :: r) (n :: s)

/-- Where an entry of this name leads from the end of a way. -/
def onward (way : List String) (name : String) : List String :=
  if IsBlank name then way else way ++ [name]

theorem onward_of_isBlank (h : IsBlank name) (way : List String) : onward way name = way :=
  if_pos h

theorem onward_of_not (h : ¬ IsBlank name) (way : List String) : onward way name = way ++ [name] :=
  if_neg h

theorem passes_onward (h : ways.passes (way ++ [name])) : ways.passes (onward way name) := by
  by_cases hblank : IsBlank name
  · rw [onward_of_isBlank hblank]
    exact ways.passes_of_concat h
  · rwa [onward_of_not hblank]

/-- A way that is passed is passed from its beginning. -/
theorem passes_of_append (h : ways.passes (way ++ rest)) : ways.passes way := by
  induction rest using List.reverseRecOn with
  | nil => rwa [List.append_nil] at h
  | append_singleton rest name ih =>
    rw [← List.append_assoc] at h
    exact ih (ways.passes_of_concat h)

theorem passes_concat_of_append_cons (h : ways.passes (way ++ n :: rest)) :
    ways.passes (way ++ [n]) := by
  rw [List.append_cons] at h
  exact passes_of_append h

/-- The last name of a loop is a blank one. -/
theorem loops_concat (hpasses : ways.passes (way ++ [name])) (hblank : IsBlank name) :
    ways.Loops (way ++ [name]) :=
  ⟨hpasses, way, name, rfl, hblank⟩

/-- What comes before a way that begins with the first of several names, and begins with one of them
itself, begins with the same one. -/
theorem eq_head_of_lex (hordered : (n :: names).Pairwise ways.before) (hm : m ∈ n :: names)
    {r : List String} (h : List.Lex ways.before (m :: r) (n :: s)) :
    m = n ∧ List.Lex ways.before r s := by
  have hlater : m ∈ names → ways.before n m := List.rel_of_pairwise_cons hordered
  have hsame : ¬ ways.before n n := fun hn => ways.before_asymm hn hn
  cases h with
  | rel hbefore =>
    rcases List.mem_cons.1 hm with rfl | hmem
    · exact absurd hbefore hsame
    · exact absurd hbefore (ways.before_asymm (hlater hmem))
  | cons hlex => exact ⟨rfl, hlex⟩

/-- The first of several names is no blank one, and all that is said of the names holds of it. -/
theorem StopsThrough.head (h : ways.StopsThrough way (n :: names))
    (hordered : (n :: names).Pairwise ways.before) (hpasses : ways.passes (way ++ [n])) :
    ¬ IsBlank n ∧ ways.StopsBelow (way ++ [n]) := by
  constructor
  · intro hblank
    obtain ⟨m, hm, r, -, hlex⟩ := h n List.mem_cons_self [] (loops_concat hpasses hblank)
    cases (eq_head_of_lex hordered hm hlex).2
  · intro n' s hloops
    rw [← List.append_cons] at hloops
    obtain ⟨m, hm, r, hrefused, hlex⟩ := h n List.mem_cons_self _ hloops
    obtain ⟨rfl, hbelow⟩ := eq_head_of_lex hordered hm hlex
    rw [List.append_cons] at hrefused
    exact ⟨r, hrefused, hbelow⟩

/-- What is said of several names holds without one that leads to no refusal. -/
theorem StopsThrough.tail (h : ways.StopsThrough way (n :: names))
    (hnone : ∀ r, ¬ ways.RefusedAt (way ++ n :: r)) : ways.StopsThrough way names := by
  intro n' hn' s hloops
  obtain ⟨m, hm, r, hrefused, hlex⟩ := h n' (List.mem_cons_of_mem _ hn') s hloops
  rcases List.mem_cons.1 hm with rfl | hmem
  · exact absurd hrefused (hnone r)
  · exact ⟨m, hmem, r, hrefused, hlex⟩

/-- All refusals and loops from a way on, whose own visit is not refused, begin with a name that it
shows. -/
theorem StopsBelow.through (h : ways.StopsBelow way) (hopen : ¬ ways.RefusedAt way)
    (hnames : ∀ name, name ∈ names ↔ ways.passes (way ++ [name])) :
    ways.StopsThrough way names := by
  intro n _ s hloops
  obtain ⟨r, hrefused, hlex⟩ := h n s hloops
  cases r with
  | nil =>
    rw [List.append_nil] at hrefused
    exact absurd hrefused hopen
  | cons m r =>
    exact ⟨m, (hnames m).2 (passes_concat_of_append_cons hrefused.1), r, hrefused, hlex⟩

end Ways

variable {W α β : Type} {visit : α → WorkspaceM W (List β × List α)} {w : W} {ways : Ways}
variable {child : α → String → α} {stands : α → List String → Prop}
variable {a : α} {way front : List String} {name : String} {rest : List α}

/-- The visits of a walk follow ways: they are refused where these say so, and else hand on the names
that a way goes on by, in order. -/
structure Explores (visit : α → WorkspaceM W (List β × List α)) (w : W) (ways : Ways)
    (child : α → String → α) (stands : α → List String → Prop) : Prop where
  visit_refused : ∀ {a way}, stands a way → ways.passes way → ways.refuses way →
    ∃ e, visit a w = (.error e, w)
  visit_open : ∀ {a way}, stands a way → ways.passes way → ¬ ways.refuses way →
    ∃ found, ∃ names : List String, visit a w = (.ok (found, names.map (child a)), w)
      ∧ names.Pairwise ways.before ∧ ∀ name, name ∈ names ↔ ways.passes (way ++ [name])
  stands_child : ∀ {a way name}, stands a way → ways.passes (way ++ [name]) →
    stands (child a name) (Ways.onward way name)

namespace Explores

/-! ## Loops that are met -/

/-- Turns off a way earlier, by a name that comes before. -/
def Aside (ways : Ways) (way other : List String) : Prop :=
  ∃ front m n rest rest', way = front ++ m :: rest ∧ other = front ++ n :: rest' ∧ ways.before m n

/-- Of two ways aside from each other one is before the other. -/
theorem Aside.lex {other : List String} (h : Aside ways way other) :
    List.Lex ways.before way other := by
  obtain ⟨front, m, n, rest, rest', rfl, rfl, hbefore⟩ := h
  exact (List.Lex.rel hbefore).append_left _ _

/-- They stay aside further on. -/
theorem Aside.onward {other : List String} (h : Aside ways way other) (name : String) :
    Aside ways (Ways.onward way name) other := by
  by_cases hblank : IsBlank name
  · rwa [Ways.onward_of_isBlank hblank]
  · obtain ⟨front, m, n, rest, rest', rfl, hother, hbefore⟩ := h
    rw [Ways.onward_of_not hblank, List.append_assoc]
    exact ⟨front, m, n, rest ++ [name], rest', rfl, hother, hbefore⟩

/-- The loop lies ahead: something that stands on the way to it is waiting, and before that only what
stands for ways that turn off earlier. -/
def Heads (ways : Ways) (stands : α → List String → Prop) (front loop : List String)
    (waiting : List α) : Prop :=
  ∃ pre a rest, waiting = pre ++ a :: rest
    ∧ (∀ b ∈ pre, ∃ way, stands b way ∧ ways.passes way ∧ Aside ways way loop)
    ∧ ∃ way, stands a way ∧ way <+: front

/-- A way to a loop goes on to it by a name, after which it is still before the loop. -/
theorem exists_onward_prefix (hblank : IsBlank name) (hway : way <+: front) :
    ∃ c more, front ++ [name] = way ++ c :: more ∧ Ways.onward way c <+: front := by
  obtain ⟨tail, rfl⟩ := hway
  cases tail with
  | nil =>
    refine ⟨name, [], by rw [List.append_nil], ?_⟩
    rw [Ways.onward_of_isBlank hblank]
    exact List.prefix_append _ _
  | cons c tail =>
    refine ⟨c, tail ++ [name], by rw [List.append_assoc, List.cons_append], ?_⟩
    by_cases hc : IsBlank c
    · rw [Ways.onward_of_isBlank hc]
      exact List.prefix_append _ _
    · rw [Ways.onward_of_not hc, List.append_cons way c tail]
      exact List.prefix_append _ _

variable {names : List String}

/-- The names in a directory on the way to a loop have the loop ahead. -/
theorem heads_children (h : Explores visit w ways child stands) (hstands : stands a way)
    (hordered : names.Pairwise ways.before)
    (hnames : ∀ n, n ∈ names ↔ ways.passes (way ++ [n])) (hpasses : ways.passes (front ++ [name]))
    (hblank : IsBlank name) (hway : way <+: front) (rest : List α) :
    Heads ways stands front (front ++ [name]) (names.map (child a) ++ rest) := by
  obtain ⟨c, more, hloop, hc⟩ := exists_onward_prefix hblank hway
  have hcmem : c ∈ names :=
    (hnames c).2 (Ways.passes_concat_of_append_cons (hloop ▸ hpasses))
  -- the first name that leads to a place before the loop may be a blank one, and then `c` comes later
  have hsome : (names.find? fun m => Ways.onward way m <+: front).isSome :=
    List.find?_isSome.2 ⟨c, hcmem, decide_eq_true hc⟩
  obtain ⟨m, hm⟩ := Option.isSome_iff_exists.1 hsome
  obtain ⟨hmfront, ms, ms', rfl, hfirst⟩ := List.find?_eq_some_iff_append.1 hm
  refine ⟨ms.map (child a), child a m, ms'.map (child a) ++ rest, by simp, fun b hb => ?_,
    _, h.stands_child hstands ((hnames m).1 (by simp)), of_decide_eq_true hmfront⟩
  obtain ⟨x, hx, rfl⟩ := List.mem_map.1 hb
  have hxpasses : ways.passes (way ++ [x]) := (hnames x).1 (List.mem_append_left _ hx)
  have hxfront : ¬ Ways.onward way x <+: front := by simpa using hfirst x hx
  have hxblank : ¬ IsBlank x := by
    intro hxblank
    rw [Ways.onward_of_isBlank hxblank] at hxfront
    exact hxfront hway
  have hcnot : c ∉ ms := fun hcms => by simpa [hc] using hfirst c hcms
  have hbefore : ways.before x c :=
    (List.pairwise_append.1 hordered).2.2 x hx c ((List.mem_append.1 hcmem).resolve_left hcnot)
  refine ⟨way ++ [x], ?_, hxpasses, way, x, c, [], more, rfl, hloop, hbefore⟩
  have hstandsx := h.stands_child hstands hxpasses
  rwa [Ways.onward_of_not hxblank] at hstandsx

/-- A walk that comes to a loop before a refusal goes round in it forever. -/
theorem not_terminates_of_loops (h : Explores visit w ways child stands) (hstart : stands a [])
    {loop : List String} (hloop : ways.Loops loop)
    (hfree : ∀ way, ways.RefusedAt way → ¬ List.Lex ways.before way loop) :
    ¬ Terminates visit [a] w := by
  obtain ⟨hpasses, front, name, rfl, hblank⟩ := hloop
  refine not_terminates_of_stays (Heads ways stands front (front ++ [name])) ?_ ?_ ?_
  · rintro ⟨pre, b, rest, hnil, -⟩
    exact absurd hnil (by simp)
  · rintro b waiting ⟨pre, c, rest, hwaiting, hpre, way, hstands, hway⟩
    cases pre with
    | nil =>
      obtain ⟨rfl, rfl⟩ := List.cons.inj hwaiting
      -- the way to the loop comes before the loop itself
      have hlex : List.Lex ways.before way (front ++ [name]) := by
        obtain ⟨c, more, hloop, -⟩ := exists_onward_prefix hblank hway
        rw [hloop]
        nth_rewrite 1 [← List.append_nil way]
        exact List.Lex.nil.append_left _ way
      have hwaypasses : ways.passes way := by
        obtain ⟨tail, rfl⟩ := hway
        rw [List.append_assoc] at hpasses
        exact Ways.passes_of_append hpasses
      obtain ⟨found, names, hvisit, hordered, hnames⟩ := h.visit_open hstands hwaypasses
        fun hrefuses => hfree way ⟨hwaypasses, hrefuses⟩ hlex
      exact ⟨found, _, hvisit, h.heads_children hstands hordered hnames hpasses hblank hway _⟩
    | cons first pre =>
      obtain ⟨rfl, rfl⟩ := List.cons.inj hwaiting
      obtain ⟨⟨turn, hturn, hturnpasses, haside⟩, hpre⟩ := List.forall_mem_cons.1 hpre
      obtain ⟨found, names, hvisit, -, hnames⟩ := h.visit_open hturn hturnpasses
        fun hrefuses => hfree turn ⟨hturnpasses, hrefuses⟩ haside.lex
      refine ⟨found, _, hvisit, names.map (child b) ++ pre, c, rest,
        (List.append_assoc _ pre (c :: rest)).symm,
        List.forall_mem_append.2 ⟨fun b' hb' => ?_, hpre⟩, way, hstands, hway⟩
      obtain ⟨x, hx, rfl⟩ := List.mem_map.1 hb'
      have hxpasses := (hnames x).1 hx
      exact ⟨_, h.stands_child hturn hxpasses, Ways.passes_onward hxpasses, haside.onward x⟩
  · exact ⟨[], a, [], rfl, List.forall_mem_nil _, [], hstart, List.nil_prefix⟩

/-! ## Refusals that are met first -/

/-- A walk terminates from the names in a directory on if it does from each of them, given that
another one is refused on its way or that it terminates with what is waiting behind. -/
theorem terminates_children {rest : List α} (hordered : names.Pairwise ways.before)
    (hpasses : ∀ n ∈ names, ways.passes (way ++ [n]))
    (hstops : ways.StopsThrough way names)
    (hchild : ∀ n ∈ names, ¬ IsBlank n → ways.StopsBelow (way ++ [n]) → ∀ rest,
      (∃ r, ways.RefusedAt (way ++ [n] ++ r)) ∨ Terminates visit rest w →
      Terminates visit (child a n :: rest) w)
    (hrest : (∃ n ∈ names, ∃ r, ways.RefusedAt (way ++ n :: r)) ∨ Terminates visit rest w) :
    Terminates visit (names.map (child a) ++ rest) w := by
  induction names with
  | nil => simpa using hrest
  | cons n names ih =>
    have hnpasses := hpasses n List.mem_cons_self
    obtain ⟨hblank, hbelow⟩ := hstops.head hordered hnpasses
    apply hchild n List.mem_cons_self hblank hbelow
    by_cases hrefused : ∃ r, ways.RefusedAt (way ++ [n] ++ r)
    · exact .inl hrefused
    right
    have hnone : ∀ r, ¬ ways.RefusedAt (way ++ n :: r) := by
      intro r hr
      rw [List.append_cons] at hr
      exact hrefused ⟨r, hr⟩
    refine ih (List.pairwise_cons.1 hordered).2 (fun m hm => hpasses m (List.mem_cons_of_mem _ hm))
      (hstops.tail hnone) (fun m hm => hchild m (List.mem_cons_of_mem _ hm)) ?_
    refine hrest.imp_left fun ⟨m, hm, r, hr⟩ => ?_
    rcases List.mem_cons.1 hm with rfl | hmem
    · exact absurd hr (hnone r)
    · exact ⟨m, hmem, r, hr⟩

/-- A walk from a directory on terminates if every loop from there on comes after a refusal, and if a
visit is refused from there on or the walk terminates with what is waiting behind. -/
theorem terminates_cons (h : Explores visit w ways child stands) (depth : Nat)
    (hdepth : ∀ other, ways.passes other → other.length < way.length + depth)
    (hstands : stands a way) (hpasses : ways.passes way) (hstops : ways.StopsBelow way)
    (hrest : (∃ r, ways.RefusedAt (way ++ r)) ∨ Terminates visit rest w) :
    Terminates visit (a :: rest) w := by
  -- ways end, so there is a number of names by which this one can go on at most
  induction depth generalizing a way rest with
  | zero => exact absurd (hdepth way hpasses) (Nat.lt_irrefl _)
  | succ depth ih =>
    by_cases hrefuses : ways.refuses way
    · obtain ⟨e, hvisit⟩ := h.visit_refused hstands hpasses hrefuses
      exact ⟨1, _, _, .refused hvisit⟩
    have hopen : ¬ ways.RefusedAt way := fun hrefused => hrefuses hrefused.2
    obtain ⟨found, names, hvisit, hordered, hnames⟩ := h.visit_open hstands hpasses hrefuses
    have hthrough := hstops.through hopen hnames
    have hchildren : Terminates visit (names.map (child a) ++ rest) w := by
      refine terminates_children hordered (fun n hn => (hnames n).1 hn) hthrough ?_ ?_
      · intro n hn hblank hbelow rest hrest
        have hn := (hnames n).1 hn
        have hchild := h.stands_child hstands hn
        rw [Ways.onward_of_not hblank] at hchild
        refine ih (fun other hother => ?_) hchild hn hbelow hrest
        have hless := hdepth other hother
        rw [List.length_append, List.length_singleton]
        omega
      · refine hrest.imp_left fun ⟨r, hr⟩ => ?_
        cases r with
        | nil =>
          rw [List.append_nil] at hr
          exact absurd hr hopen
        | cons n r => exact ⟨n, (hnames n).2 (Ways.passes_concat_of_append_cons hr.1), r, hr⟩
    obtain ⟨visits, result, w', hends⟩ := hchildren
    exact ⟨visits + 1, _, w', .next hvisit hends⟩

/-- A walk terminates exactly if every loop comes after a refusal. -/
theorem terminates_iff (h : Explores visit w ways child stands) (hstart : stands a []) :
    Terminates visit [a] w ↔ ways.Stops := by
  constructor
  · intro hends loop hloop
    by_contra hfree
    rw [not_exists] at hfree
    exact h.not_terminates_of_loops hstart hloop (fun way hway hlex => hfree way ⟨hway, hlex⟩) hends
  · intro hstops
    obtain ⟨bound, hbound⟩ := ways.bounded
    refine h.terminates_cons bound (fun other hother => ?_) hstart ways.passes_root ?_ (.inr ?_)
    · rw [List.length_nil, Nat.zero_add]
      exact hbound other hother
    · exact fun n s hloops => hstops (n :: s) hloops
    · exact ⟨0, _, _, .done⟩

end Explores

end Sandshell.Walk
