import Sandshell.Proofs.Guest.Texts

/-!
# Accesses to guest memory

A step on a guest works on areas of its memory: some it reads, and some it writes. It does not panic;
outside the areas that it writes no byte changes; it succeeds only where all areas lie in memory; and
unless it answers that they do not, it does the same in a memory that goes on behind the end of this
one, with any bytes there. These facts are put together along with the steps.
-/

namespace Sandshell

namespace GuestMemory

/-- Where an area of memory starts, and its length. -/
abbrev Area := Nat × Nat

variable {m m' after after' last last' : GuestMemory} {start length address : Nat} {data : Bytes}
variable {areas areas' : List Area}

/-- All areas lie in memory. -/
def HoldsAreas (m : GuestMemory) (areas : List Area) : Prop :=
  ∀ area ∈ areas, m.holds area.1 area.2

/-- The address is that of a byte of one of the areas. -/
def CoveredBy (areas : List Area) (address : Nat) : Prop :=
  ∃ area ∈ areas, Covers area.1 area.2 address

theorem holdsAreas_append :
    m.HoldsAreas (areas ++ areas') ↔ m.HoldsAreas areas ∧ m.HoldsAreas areas' :=
  List.forall_mem_append

theorem holdsAreas_nil (m : GuestMemory) : m.HoldsAreas [] :=
  fun _ harea => absurd harea List.not_mem_nil

theorem holdsAreas_cons {area : Area} :
    m.HoldsAreas (area :: areas) ↔ m.holds area.1 area.2 ∧ m.HoldsAreas areas :=
  List.forall_mem_cons

theorem holdsAreas_singleton {area : Area} : m.HoldsAreas [area] ↔ m.holds area.1 area.2 :=
  List.forall_mem_singleton

/-- Whether areas lie in a memory depends on its size only. -/
theorem holdsAreas_congr (h : m'.size = m.size) : m'.HoldsAreas areas ↔ m.HoldsAreas areas := by
  simp only [HoldsAreas, holds, h]

/-- An address is covered by two lists of areas exactly if it is by one of them. -/
theorem coveredBy_append :
    CoveredBy (areas ++ areas') address ↔ CoveredBy areas address ∨ CoveredBy areas' address := by
  simp only [CoveredBy, List.mem_append, or_and_right, exists_or]

theorem coveredBy_cons {area : Area} : CoveredBy (area :: areas) address
    ↔ Covers area.1 area.2 address ∨ CoveredBy areas address :=
  List.exists_mem_cons_iff _ _ _

theorem not_coveredBy_nil : ¬ CoveredBy [] address := by
  rintro ⟨_, harea, -⟩
  exact List.not_mem_nil harea

theorem coveredBy_singleton {area : Area} :
    CoveredBy [area] address ↔ Covers area.1 area.2 address :=
  coveredBy_cons.trans (or_iff_left not_coveredBy_nil)

/-! ## Larger memories -/

/-- The second memory begins with the bytes of the first one. -/
structure Begins (m m' : GuestMemory) : Prop where
  size_le : m.size ≤ m'.size
  byte_eq : ∀ address < m.size, m'.byte address = m.byte address

/-- A step made `after` of `m`; of `m'` it made a memory with the same bytes at the beginning, and
left alone what stands behind them. -/
structure Alike (m m' after after' : GuestMemory) : Prop where
  begins : after.Begins after'
  size_eq : after'.size = m'.size
  byte_eq : ∀ address, m.size ≤ address → after'.byte address = m'.byte address

/-- A memory that begins with another one holds all areas of that one. -/
theorem Begins.holds (h : m.Begins m') (hholds : m.holds start length) : m'.holds start length := by
  have hsize := h.size_le
  rw [GuestMemory.holds, decide_eq_true_eq] at hholds ⊢
  omega

/-- Growing changes no byte, so that two such memories are alike. -/
theorem Begins.alike (h : m.Begins m') : Alike m m' m m' :=
  ⟨h, rfl, fun _ _ => rfl⟩

/-- Memories that stay alike through two steps stay alike through both. -/
theorem Alike.trans (h : Alike m m' after after') (hsize : after.size = m.size)
    (h' : Alike after after' last last') : Alike m m' last last' :=
  ⟨h'.begins, h'.size_eq.trans h.size_eq, fun address haddress =>
    (h'.byte_eq address (hsize ▸ haddress)).trans (h.byte_eq address haddress)⟩

/-- What is stored does not depend on what was there. -/
theorem byte_store_congr (h : m'.byte address = m.byte address) :
    (m'.store start data).byte address = (m.store start data).byte address := by
  induction data generalizing m m' start with
  | nil => exact h
  | cons b rest ih =>
    refine ih ?_
    rw [byte, byte, Std.ExtTreeMap.getD_insert, Std.ExtTreeMap.getD_insert]
    split
    · rfl
    · exact h

/-- Storing in both memories, where the smaller one ends behind the data. -/
theorem Begins.alike_store (h : m.Begins m') (hholds : m.holds start data.length) :
    Alike m m' (m.store start data) (m'.store start data) := by
  rw [GuestMemory.holds, decide_eq_true_eq] at hholds
  refine ⟨⟨?_, fun address haddress => ?_⟩, size_store _ _ _, fun address haddress => ?_⟩
  · rw [size_store, size_store]
    exact h.size_le
  · rw [size_store] at haddress
    exact byte_store_congr (h.byte_eq address haddress)
  · exact byte_store_of_le (hholds.trans haddress)

/-- The array of buffers depends on its bytes only. -/
theorem buffersAt_congr {count : Nat}
    (h : ∀ address, Covers start (8 * count) address → m'.byte address = m.byte address) :
    m'.buffersAt start count = m.buffersAt start count := by
  induction count generalizing start with
  | zero => rfl
  | succ count ih =>
    have hword : ∀ offset, offset + 4 ≤ 8 * (count + 1) →
        m'.wordAt (start + offset) = m.wordAt (start + offset) := by
      intro offset hoffset
      rw [wordAt, wordAt, area_congr fun address hstart hend => h address ⟨by omega, by omega⟩]
    rw [buffersAt, buffersAt, ih fun address haddress => h address ?_]
    · have hfirst := hword 0 (by omega)
      rw [Nat.add_zero] at hfirst
      rw [hfirst, hword 4 (by omega)]
    · exact ⟨Nat.le_of_add_right_le haddress.1, by have := haddress.2; omega⟩

/-- The area of an array of buffers; one without buffers has none. -/
def arrayArea (start count : UInt32) : List Area :=
  if count = 0 then [] else [(start.toNat, 8 * count.toNat)]

/-- The areas of buffers. -/
def bufferAreas (buffers : List (UInt32 × UInt32)) : List Area :=
  buffers.map fun (address, length) => (address.toNat, length.toNat)

/-- The parts of buffers that so many bytes fill, one after the other. -/
def filledAreas : List (UInt32 × UInt32) → (count : Nat) → List Area
  | [], _ => []
  | (address, length) :: rest, count =>
    if count = 0 then []
    else (address.toNat, min length.toNat count) :: filledAreas rest (count - length.toNat)

/-- The areas of texts and of their addresses; without texts there are none. -/
def textAreas (slot place : Nat) (texts : List String) : List Area :=
  if texts = [] then [] else [(slot, 4 * texts.length), (place, (Bytes.terminatedAll texts).length)]

end GuestMemory

/-- How steps fail: one error says that an area does not lie in memory, and some are panics. -/
class Failure (ε : Type) where
  outside : ε
  IsPanic : ε → Prop
  not_isPanic_outside : ¬ IsPanic outside

instance : Failure Errno := ⟨.fault, fun _ => False, id⟩

instance : Failure Stop := ⟨.errno .fault, fun stop => stop = .panicked, Stop.noConfusion⟩

namespace Guest

open GuestMemory (Area HoldsAreas CoveredBy Begins Alike holdsAreas_append coveredBy_append)

variable {α β ε : Type} [Failure ε] {g g' : Guest} {start length : Nat} {data : Bytes}
variable {reads writes reads' writes' : List Area}

/-- What a step does to memory that reads some areas and writes some. -/
structure Accesses (reads writes : List Area) (x : ExceptT ε (StateM Guest) α) (g : Guest) :
    Prop where
  not_panic : ∀ e, (x g).1 = .error e → ¬ Failure.IsPanic e
  size_eq : (x g).2.memory.size = g.memory.size
  /-- Also when it fails, only bytes of the memory in areas that it writes may change. -/
  byte : ∀ address, (x g).2.memory.byte address ≠ g.memory.byte address →
    address < g.memory.size ∧ CoveredBy writes address
  /-- It succeeds only if all areas lie in memory. -/
  inside : ∀ a, (x g).1 = .ok a → g.memory.HoldsAreas (reads ++ writes)
  /-- Unless it is a fault it comes to the same in a larger memory. -/
  larger : (x g).1 ≠ .error Failure.outside → ∀ m, g.memory.Begins m → ∃ m',
    x { g with memory := m } = ((x g).1, { (x g).2 with memory := m' })
      ∧ Alike g.memory m (x g).2.memory m'

/-- A step that memory makes no difference to, and that leaves it alone. -/
def Memoryless (x : CallM α) : Prop :=
  ∀ g m, x { g with memory := m } = ((x g).1, { (x g).2 with memory := m })

/-! ## Steps without memory -/

/-- A call without memory leaves the memory as it is. -/
theorem Memoryless.memory_eq {x : CallM α} (hx : Memoryless x) (g : Guest) :
    (x g).2.memory = g.memory :=
  congrArg (fun out => out.2.memory) (hx g g.memory)

/-- It reads no area and writes none. -/
theorem Memoryless.accesses {x : CallM α} (hx : Memoryless x) (g : Guest) : Accesses [] [] x g where
  not_panic _ _ := id
  size_eq := congrArg GuestMemory.size (hx.memory_eq g)
  byte address h := absurd (congrArg (GuestMemory.byte · address) (hx.memory_eq g)) h
  inside _ _ := GuestMemory.holdsAreas_nil _
  larger _ m hm := ⟨m, hx g m, (hx.memory_eq g).symm ▸ hm.alike⟩

theorem memoryless_pure (a : α) : Memoryless (pure a) :=
  fun _ _ => rfl

theorem memoryless_throw (e : Errno) : Memoryless (throw e : CallM α) :=
  fun _ _ => rfl

theorem memoryless_liftM (r : Except Errno α) : Memoryless (liftM r : CallM α) := by
  cases r with
  | error e => exact memoryless_throw e
  | ok a => exact memoryless_pure a

/-- An update that commutes with changes of the memory does not touch it. -/
theorem memoryless_modify {f : Guest → Guest}
    (hf : ∀ g m, f { g with memory := m } = { f g with memory := m }) :
    Memoryless (modify f : CallM Unit) :=
  fun g m => congrArg (Prod.mk _) (hf g m)

/-- One such call after another touches no memory either. -/
theorem Memoryless.bind {x : CallM α} {f : α → CallM β} (hx : Memoryless x)
    (hf : ∀ a, Memoryless (f a)) : Memoryless (x >>= f) := by
  intro g m
  have hlarger := hx g m
  rcases hxg : x g with ⟨e | a, g'⟩
  · rw [hxg] at hlarger
    rw [bind_apply_error hxg, bind_apply_error hlarger]
  · rw [hxg] at hlarger
    rw [bind_apply_ok hxg, bind_apply_ok hlarger]
    exact hf a g' m

/-- What a step does with the state must not depend on its memory. -/
theorem memoryless_get {f : Guest → CallM α} (hf : ∀ g m, f { g with memory := m } = f g)
    (h : ∀ g, Memoryless (f g)) : Memoryless (get >>= f) := by
  intro g m
  rw [get_bind_apply, get_bind_apply, hf]
  exact h g g m

/-- A check before a step. -/
theorem memoryless_unless {c : Prop} [Decidable c] {e : Errno} {f : PUnit → CallM α} {x : CallM α}
    (hx : Memoryless x) : Memoryless (if c then throw e >>= f else x) := by
  split
  · exact memoryless_throw e
  · exact hx

theorem memoryless_descriptor? (fd : UInt32) : Memoryless (descriptor? fd) :=
  fun _ _ => rfl

theorem memoryless_word (n : Nat) : Memoryless (word n) := by
  rw [word]
  split
  · exact memoryless_pure _
  · exact memoryless_throw _

/-- Changes of files do not touch the memory. -/
theorem memoryless_updateFiles (change : Tree → Except Errno Tree) :
    Memoryless (updateFiles change) := by
  refine memoryless_get (fun _ _ => rfl) fun g => ?_
  split
  · exact memoryless_modify fun _ _ => rfl
  · exact memoryless_throw _

theorem memoryless_startName (fd : UInt32) : Memoryless (startName fd) := by
  refine (memoryless_descriptor? fd).bind fun found => ?_
  split
  · split
    · exact memoryless_pure _
    · exact memoryless_throw _
  · exact memoryless_throw _

/-- Bytes that come from a file are only stored by another step. -/
theorem memoryless_readFile (fd : UInt32) (most : Nat) : Memoryless (readFile fd most) := by
  refine (memoryless_descriptor? fd).bind fun found => ?_
  split
  · exact memoryless_throw _
  · exact memoryless_throw _
  · refine memoryless_get (fun _ _ => rfl) fun g => ?_
    split
    · exact memoryless_throw _
    · exact (memoryless_modify fun _ _ => rfl).bind fun _ => memoryless_pure _

theorem memoryless_readData (fd : UInt32) (most : Nat) : Memoryless (readData fd most) := by
  rw [readData]
  split
  · exact memoryless_get (fun _ _ => rfl) fun g =>
      Memoryless.bind (memoryless_modify fun _ _ => rfl) fun _ => memoryless_pure _
  split
  · exact memoryless_throw _
  · exact memoryless_readFile fd most

/-- Bytes that go to a file have been gathered by another step. -/
theorem memoryless_writeFile (fd : UInt32) (data : Bytes) : Memoryless (writeFile fd data) := by
  refine (memoryless_descriptor? fd).bind fun found => ?_
  split
  · refine memoryless_get (fun _ _ => rfl) fun g => ?_
    split
    · exact memoryless_throw _
    · exact memoryless_unless (memoryless_unless (memoryless_modify fun _ _ => rfl))
  · exact memoryless_throw _

theorem memoryless_writeData (fd : UInt32) (data : Bytes) : Memoryless (writeData fd data) := by
  have hstream : ∀ (c : Prop) [Decidable c] (f : Guest → Guest),
      (∀ g m, f { g with memory := m } = { f g with memory := m }) →
      Memoryless (modify f >>= fun _ => if c then throw .io else pure () : CallM Unit) := by
    intro c _ f hf
    refine Memoryless.bind (memoryless_modify hf) fun _ => ?_
    split
    · exact memoryless_throw _
    · exact memoryless_pure _
  refine memoryless_get (fun _ _ => rfl) fun g => ?_
  dsimp only
  split
  · exact memoryless_throw _
  split
  · exact hstream _ _ fun _ _ => rfl
  split
  · exact hstream _ _ fun _ _ => rfl
  · exact memoryless_writeFile fd data

theorem memoryless_fdClose (fd : UInt32) : Memoryless (fdClose fd) := by
  rw [fdClose]
  split
  · exact memoryless_pure _
  · exact (memoryless_descriptor? fd).bind fun _ => memoryless_unless
      (memoryless_modify fun _ _ => rfl)

/-! ## Rules for steps -/

namespace Accesses

variable {x : ExceptT ε (StateM Guest) α} {f : α → ExceptT ε (StateM Guest) β}

/-- Other areas that lie in memory whenever these do, and cover the same bytes and perhaps more. -/
theorem mono (h : Accesses reads writes x g)
    (hholds : g.memory.HoldsAreas (reads ++ writes) → g.memory.HoldsAreas (reads' ++ writes'))
    (hcovered : ∀ address, CoveredBy writes address → CoveredBy writes' address) :
    Accesses reads' writes' x g where
  not_panic := h.not_panic
  size_eq := h.size_eq
  byte address hchanged := (h.byte address hchanged).imp_right (hcovered address)
  inside a ha := hholds (h.inside a ha)
  larger := h.larger

/-- Where a call succeeds, all that it reads and writes lies in the memory. -/
theorem inside_of_apply (h : Accesses reads writes x g) {a : α} (hx : x g = (.ok a, g')) :
    g.memory.HoldsAreas (reads ++ writes) :=
  h.inside a (congrArg Prod.fst hx)

/-- A step that does not panic keeps to its areas among those that may. -/
theorem ofStep {x : CallM α} (h : Accesses reads writes x g) :
    Accesses reads writes (liftM x : PanicM Guest α) g := by
  have happly := PanicM.liftM_apply x g
  have hlarger := h.larger
  rcases hx : x g with ⟨e | a, g'⟩
  · rw [hx] at happly hlarger
    refine ⟨fun stop hstop => ?_, h.size_eq, h.byte, fun a ha => ?_, fun hne m hm => ?_⟩
    · rw [happly] at hstop
      cases hstop
      exact Stop.noConfusion
    · rw [happly] at ha
      cases ha
    · have hinside : e ≠ Failure.outside := by
        rintro rfl
        exact hne (by rw [happly]; rfl)
      obtain ⟨m', hxm, halike⟩ := hlarger (fun heq => hinside (Except.error.inj heq)) m hm
      rw [happly]
      exact ⟨m', PanicM.liftM_apply_error hxm, halike⟩
  · rw [hx] at happly hlarger
    refine ⟨fun stop hstop => ?_, h.size_eq, h.byte, fun _ _ => ?_, fun _ m hm => ?_⟩
    · rw [happly] at hstop
      cases hstop
    · exact h.inside a (congrArg Prod.fst hx)
    · obtain ⟨m', hxm, halike⟩ := hlarger (fun heq => by cases heq) m hm
      rw [happly]
      exact ⟨m', PanicM.liftM_apply_ok hxm, halike⟩

/-- A step that only answers that an area does not lie in memory. -/
theorem fault (h : x g = (.error Failure.outside, g)) : Accesses reads writes x g where
  not_panic e he := by
    rw [h] at he
    exact Except.error.inj he ▸ Failure.not_isPanic_outside
  size_eq := by rw [h]
  byte address hchanged := absurd (by rw [h]) hchanged
  inside a ha := by rw [h] at ha; cases ha
  larger hne := absurd (congrArg Prod.fst h) hne

/-- The second step works on what the first one left. -/
theorem bind (hx : Accesses reads writes x g)
    (hf : ∀ a g', x g = (.ok a, g') → Accesses reads' writes' (f a) g') :
    Accesses (reads ++ reads') (writes ++ writes') (x >>= f) g := by
  obtain ⟨hpanic, hsize, hbyte, hinside, hlarger⟩ := hx
  rcases hxg : x g with ⟨e | a, g'⟩
  · -- what the first step has written before it failed stays written
    rw [hxg] at hpanic hsize hbyte hinside hlarger
    have hbind : (x >>= f) g = (.error e, g') := bind_apply_error hxg
    refine ⟨?_, ?_, ?_, ?_, ?_⟩
    · rw [hbind]
      exact fun e' he' => hpanic e' (congrArg _ (Except.error.inj he'))
    · rw [hbind]
      exact hsize
    · rw [hbind]
      exact fun address h => (hbyte address h).imp_right fun h => coveredBy_append.2 (.inl h)
    · rw [hbind]
      intro b hb
      cases hb
    · rw [hbind]
      intro hne m hm
      obtain ⟨m', hxm, halike⟩ := hlarger (fun heq => hne (congrArg _ (Except.error.inj heq))) m hm
      exact ⟨m', bind_apply_error hxm, halike⟩
  -- the second step starts in the memory that the first one leaves, which has the same size
  · obtain ⟨hpanic', hsize', hbyte', hinside', hlarger'⟩ := hf a g' hxg
    rw [hxg] at hsize hbyte hinside hlarger
    have hbind : (x >>= f) g = f a g' := bind_apply_ok hxg
    refine ⟨?_, ?_, ?_, ?_, ?_⟩
    · rwa [hbind]
    · rw [hbind]
      exact hsize'.trans hsize
    · rw [hbind]
      intro address h
      -- a byte that the first step leaves is changed by the second one
      by_cases hfirst : g'.memory.byte address = g.memory.byte address
      · have hsecond := hbyte' address (hfirst ▸ h)
        exact ⟨hsize ▸ hsecond.1, coveredBy_append.2 (.inr hsecond.2)⟩
      · exact (hbyte address hfirst).imp_right fun h => coveredBy_append.2 (.inl h)
    · rw [hbind]
      intro b hb
      have hfirst := holdsAreas_append.1 (hinside a rfl)
      have hsecond := holdsAreas_append.1 ((GuestMemory.holdsAreas_congr hsize).1 (hinside' b hb))
      exact holdsAreas_append.2 ⟨holdsAreas_append.2 ⟨hfirst.1, hsecond.1⟩,
        holdsAreas_append.2 ⟨hfirst.2, hsecond.2⟩⟩
    · rw [hbind]
      intro hne m hm
      obtain ⟨m', hxm, halike⟩ := hlarger (fun heq => by cases heq) m hm
      obtain ⟨m'', hfm, halike'⟩ := hlarger' hne m' halike.begins
      exact ⟨m'', (bind_apply_ok hxm).trans hfm, halike.trans hsize halike'⟩

/-- The first step only reads, and the second one only writes. -/
theorem bind_writes (hx : Accesses reads [] x g)
    (hf : ∀ a g', x g = (.ok a, g') → Accesses [] writes (f a) g') :
    Accesses reads writes (x >>= f) g := by
  have hboth := hx.bind hf
  rwa [List.append_nil, List.nil_append] at hboth

/-- What the second step does with the state must not depend on its memory. -/
theorem get {f : Guest → ExceptT ε (StateM Guest) α} (h : Accesses reads writes (f g) g)
    (hf : ∀ m, f { g with memory := m } = f g) : Accesses reads writes (get >>= f) g where
  not_panic := h.not_panic
  size_eq := h.size_eq
  byte := h.byte
  inside := h.inside
  larger hne m hm := by
    obtain ⟨m', hfm, halike⟩ := h.larger hne m hm
    refine ⟨m', ?_, halike⟩
    rw [get_bind_apply, hf]
    exact hfm

end Accesses

theorem accesses_pure (a : α) (g : Guest) :
    Accesses [] [] (pure a : ExceptT ε (StateM Guest) α) g where
  not_panic e he := by cases he
  size_eq := rfl
  byte _ hchanged := absurd rfl hchanged
  inside _ _ := GuestMemory.holdsAreas_nil _
  larger _ m hm := ⟨m, rfl, hm.alike⟩

/-- A step without memory before another one. -/
theorem Memoryless.bind_accesses {x : CallM α} {f : α → CallM β} (hx : Memoryless x)
    (hf : ∀ a g', x g = (.ok a, g') → Accesses reads writes (f a) g') :
    Accesses reads writes (x >>= f) g :=
  (hx.accesses g).bind hf

/-! ## Steps on memory -/

omit [Failure ε] in
/-- Two steps on the memory one after the other are one step. -/
theorem onMemory_bind (x : ExceptT ε (StateM GuestMemory) α)
    (f : α → ExceptT ε (StateM GuestMemory) β) :
    onMemory (x >>= f) = onMemory x >>= fun a => onMemory (f a) := by
  funext g
  rcases hx : x g.memory with ⟨e | a, m⟩
  · rw [onMemory_apply (bind_apply_error hx), bind_apply_error (onMemory_apply hx)]
  · rw [bind_apply_ok (onMemory_apply hx), onMemory, onMemory, bind_apply_ok hx]

/-- A step that reads an area: its result depends on the bytes there only. -/
theorem accesses_read {step : MemoryM α} {f : GuestMemory → Except Errno α}
    (h : ∀ m, step m = (if m.holds start length then f m else .error .fault, m))
    (hf : ∀ m m' : GuestMemory,
      (∀ address, GuestMemory.Covers start length address → m'.byte address = m.byte address) →
        f m' = f m)
    (g : Guest) : Accesses [(start, length)] [] (onMemory step) g := by
  have happly := onMemory_apply (h g.memory)
  by_cases hholds : g.memory.holds start length
  · rw [if_pos hholds] at happly
    refine ⟨fun _ _ => id, ?_, ?_, fun _ _ => GuestMemory.holdsAreas_singleton.2 hholds,
      fun _ m hm => ?_⟩
    · rw [happly]
    · intro address hchanged
      exact absurd (by rw [happly]) hchanged
    · have hend : start + length ≤ g.memory.size := of_decide_eq_true hholds
      have hsame : f m = f g.memory :=
        hf _ _ fun address haddress => hm.byte_eq address (haddress.2.trans_le hend)
      refine ⟨m, ?_, ?_⟩
      · rw [happly, onMemory_apply (h m), if_pos (hm.holds hholds), hsame]
      · rw [happly]
        exact hm.alike
  · rw [if_neg hholds] at happly
    exact .fault happly

/-- A step that stores data in an area. -/
theorem accesses_store {step : MemoryM Unit}
    (h : ∀ m, step m = if m.holds start data.length then (.ok (), m.store start data)
      else (.error .fault, m))
    (g : Guest) : Accesses [] [(start, data.length)] (onMemory step) g := by
  have happly := h g.memory
  by_cases hholds : g.memory.holds start data.length
  · rw [if_pos hholds] at happly
    replace happly := onMemory_apply happly
    refine ⟨fun _ _ => id, ?_, ?_, fun _ _ => GuestMemory.holdsAreas_singleton.2 hholds,
      fun _ m hm => ?_⟩
    · rw [happly]
      exact GuestMemory.size_store _ _ _
    · rw [happly]
      intro address hchanged
      have hcovered : GuestMemory.Covers start data.length address :=
        Decidable.not_not.1 fun h => hchanged (GuestMemory.byte_store_of_not_covers h)
      exact ⟨hcovered.2.trans_le (of_decide_eq_true hholds),
        GuestMemory.coveredBy_singleton.2 hcovered⟩
    · refine ⟨m.store start data, ?_, ?_⟩
      · rw [happly]
        exact onMemory_apply ((h m).trans (if_pos (hm.holds hholds)))
      · rw [happly]
        exact hm.alike_store hholds
  · rw [if_neg hholds] at happly
    exact .fault (onMemory_apply happly)

/-- A slice reads its area. -/
theorem accesses_slice (start length : Nat) (g : Guest) :
    Accesses [(start, length)] [] (onMemory (GuestMemory.slice start length)) g :=
  accesses_read (GuestMemory.slice_apply start length)
    (fun _ _ h => congrArg Except.ok
      (GuestMemory.area_congr fun _ hstart hend => h _ ⟨hstart, hend⟩))
    g

/-- A check takes the whole area for read. -/
theorem accesses_check (start length : Nat) (g : Guest) :
    Accesses [(start, length)] [] (onMemory (GuestMemory.check start length)) g :=
  accesses_read (GuestMemory.check_apply start length) (fun _ _ _ => rfl) g

/-- The text that bytes spell. -/
def spelledText (data : Bytes) : Except Errno String :=
  match data.text? with
  | some s => .ok s
  | none => .error .ilseq

/-- A text is read where its pointer and its length say. -/
theorem accesses_readText (start length : Nat) (g : Guest) :
    Accesses [(start, length)] [] (onMemory (GuestMemory.readText start length)) g := by
  have hread : ∀ m, GuestMemory.readText start length m
      = (if m.holds start length then spelledText (m.area start length) else .error .fault, m) :=
    GuestMemory.readText_apply start length
  exact accesses_read hread (fun _ _ h => congrArg spelledText
    (GuestMemory.area_congr fun _ hstart hend => h _ ⟨hstart, hend⟩)) g

/-- Data is written behind its address, as far as it goes. -/
theorem accesses_write (start : Nat) (data : Bytes) (g : Guest) :
    Accesses [] [(start, data.length)] (onMemory (GuestMemory.write start data)) g := by
  by_cases hdata : data.length < 2 ^ 32
  · exact accesses_store (GuestMemory.write_apply hdata start) g
  · exact .fault (onMemory_apply (GuestMemory.write_apply_error fun h => absurd h hdata))

/-- A number in little-endian order takes as many bytes as it is asked for. -/
theorem accesses_littleEndian (start count n : Nat) (g : Guest) :
    Accesses [] [(start, count)]
      (onMemory (GuestMemory.write start (Bytes.littleEndian count n))) g := by
  have hwrite := accesses_write start (Bytes.littleEndian count n) g
  rwa [Bytes.length_littleEndian] at hwrite

theorem accesses_writeWord (start : Nat) (n : UInt32) (g : Guest) :
    Accesses [] [(start, 4)] (onMemory (GuestMemory.writeWord start n)) g :=
  accesses_littleEndian start 4 n.toNat g

theorem accesses_writeLong (start n : Nat) (g : Guest) :
    Accesses [] [(start, 8)] (onMemory (GuestMemory.writeLong start n)) g :=
  accesses_littleEndian start 8 n g

/-- Filling writes the whole area. -/
theorem accesses_fill (start length : Nat) (b : UInt8) (g : Guest) :
    Accesses [] [(start, length)] (onMemory (GuestMemory.fill start length b)) g := by
  have hfill : ∀ m, GuestMemory.fill start length b m
      = if m.holds start (List.replicate length b).length then
          (.ok (), m.store start (List.replicate length b))
        else (.error .fault, m) := by
    intro m
    rw [List.length_replicate]
    split
    · next hholds => exact GuestMemory.fill_apply b hholds
    · next hholds =>
      exact bind_apply_error
        ((GuestMemory.check_apply start length m).trans (by rw [if_neg hholds]))
  have hstore := accesses_store hfill g
  rwa [List.length_replicate] at hstore

/-- A number that need not fit. -/
theorem accesses_number (start n : Nat) (g : Guest) :
    Accesses [] [(start, 4)] (do onMemory (GuestMemory.writeWord start (← word n))) g :=
  (memoryless_word n).bind_accesses fun _ g' _ => accesses_writeWord start _ g'

/-- Of a path only its text is read. -/
theorem accesses_resolve (fd path length : UInt32) (g : Guest) :
    Accesses [(path.toNat, length.toNat)] [] (resolve fd path length) g := by
  refine (accesses_readText _ _ g).bind_writes fun text g' _ => ?_
  refine Memoryless.accesses (memoryless_get (fun _ _ => rfl) fun g => ?_) g'
  split
  · exact memoryless_pure _
  · exact memoryless_throw _

/-- The buffers of a vector are read as one array of pairs. -/
theorem accesses_readBuffers (start count : UInt32) (g : Guest) :
    Accesses (GuestMemory.arrayArea start count) []
      (onMemory (GuestMemory.readBuffers start.toNat count.toNat)) g := by
  have hread := GuestMemory.readBuffers_apply start.toNat count.toNat
  rw [GuestMemory.arrayArea]
  split
  · next hcount =>
    rw [hcount]
    exact accesses_pure [] g
  · next hcount =>
    have harray : ∀ m : GuestMemory, m.HoldsArray start.toNat count.toNat
        ↔ m.holds start.toNat (8 * count.toNat) :=
      fun m => or_iff_right fun hzero => hcount (UInt32.toNat_inj.1 hzero)
    simp only [harray] at hread
    exact accesses_read hread (fun _ _ h => congrArg Except.ok (GuestMemory.buffersAt_congr h)) g

/-- Gathering reads all buffers and writes nothing. -/
theorem accesses_gather (buffers : List (UInt32 × UInt32)) (g : Guest) :
    Accesses (GuestMemory.bufferAreas buffers) [] (gather buffers) g := by
  induction buffers generalizing g with
  | nil => exact accesses_pure [] g
  | cons buffer rest ih =>
    exact (accesses_slice _ _ g).bind fun _ g' _ =>
      (ih g').bind_writes fun _ g'' _ => accesses_pure _ g''

/-- Scattering writes the buffers as far as the data goes. -/
theorem accesses_scatter (buffers : List (UInt32 × UInt32)) (data : Bytes) (g : Guest) :
    Accesses [] (GuestMemory.filledAreas buffers data.length) (scatter buffers data) g := by
  induction buffers generalizing data g with
  | nil => exact accesses_pure () g
  | cons buffer rest ih =>
    rw [scatter, GuestMemory.filledAreas]
    by_cases hdata : data = []
    · rw [if_pos (List.isEmpty_iff.2 hdata), if_pos (List.length_eq_zero_iff.2 hdata)]
      exact accesses_pure () g
    · rw [if_neg fun h => hdata (List.isEmpty_iff.1 h),
        if_neg fun h => hdata (List.length_eq_zero_iff.1 h), ← List.length_take,
        ← List.length_drop]
      exact (accesses_write _ _ g).bind fun _ g' _ => ih _ g'

end Guest

end Sandshell
