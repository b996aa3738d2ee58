import Mathlib.Data.List.Nodup
import Mathlib.Data.List.Forall2
import Mathlib.Data.List.Pairwise
import Mathlib.Data.List.Perm.Basic
import Sandshell.Wire.Decode

/-!
# Records in other words

A written record may come back with some of its keys spelled otherwise, without some of its keys
whose values are defaults, and in another order. Reading finds under each field what was written
there, or nothing where the default was written.
-/

namespace Sandshell.Wire

/-- Reading goes on from what has been read. -/
theorem bind_eq {α β : Type} {x : Except WireError α} {f : α → Except WireError β} {a : α}
    {r : Except WireError β} (hx : x = .ok a) (hf : f a = r) : (x >>= f) = r := by
  rw [hx]
  exact hf

/-! ## Keys -/

/-- All spellings of a field. -/
def Field.names (f : Field) : List String :=
  f.name :: f.aliases

/-- A field as it is written. -/
structure Key extends Field where
  /-- The written form of the default. -/
  default? : Option Value := none
  /-- In what other words a value may be said here. -/
  reworded : Value → Value → Prop := Eq

/-- No spelling stands for two fields, or twice for one. -/
def Apart (keys : List Key) : Prop :=
  (keys.flatMap fun k => k.names).Nodup

instance (keys : List Key) : Decidable (Apart keys) :=
  inferInstanceAs (Decidable (List.Nodup _))

/-- The same entries in other words. -/
inductive Reworded (keys : List Key) : List (String × Value) → List (String × Value) → Prop where
  | nil : Reworded keys [] []
  /-- A key stands in any of its spellings. -/
  | keep {k : Key} {key : String} {v v' : Value} {entries entries' : List (String × Value)}
      (hk : k ∈ keys) (hkey : key ∈ k.names) (hv : k.reworded v v')
      (h : Reworded keys entries entries') :
      Reworded keys ((k.name, v) :: entries) ((key, v') :: entries')
  /-- A key with its default is left out. -/
  | drop {k : Key} {v : Value} {entries entries' : List (String × Value)}
      (hk : k ∈ keys) (hv : k.default? = some v) (h : Reworded keys entries entries') :
      Reworded keys ((k.name, v) :: entries) entries'
  /-- The keys come in another order. -/
  | reorder {entries entries' entries'' : List (String × Value)}
      (h : Reworded keys entries entries') (hperm : entries'.Perm entries'') :
      Reworded keys entries entries''

/-- The same record in other words. -/
def RewordedRecord (keys : List Key) (v v' : Value) : Prop :=
  ∃ entries entries', v = .record entries ∧ v' = .record entries' ∧ Reworded keys entries entries'

/-- The same list, each item in other words. -/
def RewordedList (item : Value → Value → Prop) (v v' : Value) : Prop :=
  ∃ items items', v = .list items ∧ v' = .list items' ∧ List.Forall₂ item items items'

variable {keys : List Key} {k : Key} {entries entries' : List (String × Value)} {f g : Field}
  {fields : List Field} {key : String} {v v' : Value}

/-- Nothing has to be said otherwise. -/
theorem Reworded.refl (h : ∀ e ∈ entries, ∃ k ∈ keys, e.1 = k.name ∧ k.reworded e.2 e.2) :
    Reworded keys entries entries := by
  induction entries with
  | nil => exact .nil
  | cons e rest ih =>
    obtain ⟨key, v⟩ := e
    obtain ⟨k, hk, rfl, hv⟩ := h (key, v) List.mem_cons_self
    exact .keep hk List.mem_cons_self hv (ih fun e he => h e (List.mem_cons_of_mem _ he))

/-- A record whose entries stand for themselves is a rewording of itself. -/
theorem RewordedRecord.refl (h : ∀ e ∈ entries, ∃ k ∈ keys, e.1 = k.name ∧ k.reworded e.2 e.2) :
    RewordedRecord keys (.record entries) (.record entries) :=
  ⟨entries, entries, rfl, rfl, .refl h⟩

/-- So is a list whose members do. -/
theorem RewordedList.refl {item : Value → Value → Prop} {items : List Value}
    (h : ∀ v ∈ items, item v v) : RewordedList item (.list items) (.list items) :=
  ⟨items, items, rfl, rfl, List.forall₂_same.2 h⟩

/-! ## What entries give for a field -/

/-- The values under the spellings of a field. -/
def Field.values (f : Field) (entries : List (String × Value)) : List Value :=
  (entries.filter fun e => e.1 ∈ f.names).map Prod.snd

@[simp]
theorem Field.values_nil : f.values [] = [] := rfl

theorem Field.values_cons_of_mem (h : key ∈ f.names) :
    f.values ((key, v) :: entries) = v :: f.values entries := by
  simp [Field.values, h]

theorem Field.values_cons_of_not_mem (h : key ∉ f.names) :
    f.values ((key, v) :: entries) = f.values entries := by
  simp [Field.values, h]

/-- The values of a field do not depend on the order of the entries, but for their own. -/
theorem Field.values_perm (h : entries.Perm entries') :
    (f.values entries).Perm (f.values entries') :=
  (h.filter _).map _

/-- Keys that are apart share no name. -/
theorem Apart.eq_of_mem {keys : List Key} {k k' : Key} (h : Apart keys) (hk : k ∈ keys)
    (hk' : k' ∈ keys) (hkey : key ∈ k.names) (hkey' : key ∈ k'.names) : k = k' := by
  by_contra hne
  have : Std.Symm (Function.onFun List.Disjoint fun k : Key => k.names) :=
    ⟨fun _ _ hdisjoint => fun _ hb ha => hdisjoint ha hb⟩
  exact (List.nodup_flatMap.1 h).2.forall hk hk' hne hkey hkey'

/-- What may have become of the values of a key: there is at most one, and it stands in other words
or not at all. -/
inductive Key.Kept (k : Key) : List Value → List Value → Prop where
  | absent : Kept k [] []
  | kept {v v' : Value} (h : k.reworded v v') : Kept k [v] [v']
  | dropped {v : Value} (h : k.default? = some v) : Kept k [v] []

/-- What a key keeps it keeps in any order. -/
theorem Key.Kept.perm {values values' values'' : List Value} (h : k.Kept values values')
    (hperm : values'.Perm values'') : k.Kept values values'' := by
  cases h with
  | absent => exact hperm.nil_eq ▸ .absent
  | kept h => exact (List.perm_singleton.1 hperm.symm) ▸ .kept h
  | dropped h => exact hperm.nil_eq ▸ .dropped h

/-- Rewording keeps the values of every key, with other names and without defaults. -/
theorem Reworded.kept (h : Reworded keys entries entries') (hapart : Apart keys) (hk : k ∈ keys)
    (honce : (k.values entries).length ≤ 1) :
    k.Kept (k.values entries) (k.values entries') := by
  induction h with
  | nil => exact .absent
  | @keep k' key v v' entries entries' hk' hkey hv _ ih =>
    by_cases hsame : k' = k
    · subst hsame
      rw [Field.values_cons_of_mem List.mem_cons_self] at honce ⊢
      rw [Field.values_cons_of_mem hkey]
      have hrest : k'.values entries = [] :=
        List.length_eq_zero_iff.1 (by rw [List.length_cons] at honce; omega)
      rw [hrest] at ih ⊢
      -- a second value would have been kept from the rest, where there is none
      cases hvalues : k'.values entries' with
      | nil => exact .kept hv
      | cons => cases hvalues ▸ ih (Nat.zero_le 1)
    -- an entry for another key has none of this key's names
    · have hname : k'.name ∉ k.names := fun hmem =>
        hsame (hapart.eq_of_mem hk' hk List.mem_cons_self hmem)
      have hkey' : key ∉ k.names := fun hmem => hsame (hapart.eq_of_mem hk' hk hkey hmem)
      rw [Field.values_cons_of_not_mem hname] at honce ⊢
      rw [Field.values_cons_of_not_mem hkey']
      exact ih honce
  | @drop k' v entries entries' hk' hv _ ih =>
    by_cases hsame : k' = k
    · subst hsame
      rw [Field.values_cons_of_mem List.mem_cons_self] at honce ⊢
      have hrest : k'.values entries = [] :=
        List.length_eq_zero_iff.1 (by rw [List.length_cons] at honce; omega)
      rw [hrest] at ih ⊢
      cases hvalues : k'.values entries' with
      | nil => exact .dropped hv
      | cons => cases hvalues ▸ ih (Nat.zero_le 1)
    · have hname : k'.name ∉ k.names := fun hmem =>
        hsame (hapart.eq_of_mem hk' hk List.mem_cons_self hmem)
      rw [Field.values_cons_of_not_mem hname] at honce ⊢
      exact ih honce
  | reorder _ hperm ih => exact (ih honce).perm (Field.values_perm hperm)

/-! ## Reading -/

/-- What is found for a key: what has been read before, and what the entries give. -/
def Key.found (k : Key) (read : Slots) (entries : List (String × Value)) : List Value :=
  (read.lookup k.name).toList ++ k.values entries

theorem Field.mem_names : key ∈ f.names ↔ (key = f.name || f.aliases.contains key) = true := by
  simp [Field.names]

/-- A name that no key has is no field. -/
theorem find?_eq_none (h : ((keys.map Key.toField).find?
    fun f => key = f.name || f.aliases.contains key) = none) (hk : k ∈ keys) : key ∉ k.names := by
  rw [Field.mem_names]
  exact List.find?_eq_none.1 h _ (List.mem_map_of_mem hk)

/-- A field that is found is that of a key with the name. -/
theorem find?_eq_some (h : ((keys.map Key.toField).find?
    fun f => key = f.name || f.aliases.contains key) = some f) :
    ∃ k ∈ keys, k.toField = f ∧ key ∈ k.names := by
  obtain ⟨k, hk, rfl⟩ := List.mem_map.1 (List.mem_of_find?_eq_some h)
  have hkey := List.find?_some h
  exact ⟨k, hk, rfl, Field.mem_names.2 hkey⟩

/-- Entries in which each key has at most one value, which passes its check, are read, and each
value is found under the name of its key. -/
theorem ofEntries_eq (hapart : Apart keys) (entries : List (String × Value)) (read : Slots)
    (honce : ∀ k ∈ keys, (k.found read entries).length ≤ 1)
    (hchecked : ∀ k ∈ keys, ∀ v ∈ k.values entries, k.check v = .ok ()) :
    ∃ slots, Slots.ofEntries (keys.map Key.toField) read entries = .ok slots
      ∧ ∀ k ∈ keys, slots.lookup k.name = (k.found read entries).head? := by
  induction entries generalizing read with
  | nil =>
    refine ⟨read, rfl, fun k _ => ?_⟩
    rw [Key.found, Field.values_nil, List.append_nil]
    cases read.lookup k.name <;> rfl
  | cons e rest ih =>
    obtain ⟨key, v⟩ := e
    rw [Slots.ofEntries]
    split
    next hnone =>
      have hsame : ∀ k ∈ keys, k.values ((key, v) :: rest) = k.values rest := fun k hk =>
        Field.values_cons_of_not_mem (find?_eq_none hnone hk)
      obtain ⟨slots, hslots, hlookup⟩ := ih read
        (fun k hk => by rw [Key.found, ← hsame k hk]; exact honce k hk)
        (fun k hk => by rw [← hsame k hk]; exact hchecked k hk)
      exact ⟨slots, hslots, fun k hk => by rw [hlookup k hk, Key.found, Key.found, hsame k hk]⟩
    next f hsome =>
      obtain ⟨k, hk, rfl, hkey⟩ := find?_eq_some hsome
      have hvalues : k.values ((key, v) :: rest) = v :: k.values rest :=
        Field.values_cons_of_mem hkey
      -- the value moves from the entries to what has been read
      have hlength := honce k hk
      rw [Key.found, hvalues, List.length_append, List.length_cons] at hlength
      have hunread : read.lookup k.name = none := by
        cases hread : read.lookup k.name with
        | none => rfl
        | some _ => rw [hread, Option.toList_some, List.length_singleton] at hlength; omega
      have hfound : ∀ k' ∈ keys,
          k'.found ((k.name, v) :: read) rest = k'.found read ((key, v) :: rest) := by
        intro k' hk'
        by_cases hsame : k' = k
        · rw [hsame, Key.found, Key.found, hvalues, hunread, List.lookup_cons_self]
          rfl
        · have hname : k'.name ≠ k.name := fun heq => hsame
            (hapart.eq_of_mem hk' hk List.mem_cons_self (heq ▸ List.mem_cons_self))
          have hkey' : key ∉ k'.names := fun hmem => hsame (hapart.eq_of_mem hk' hk hmem hkey)
          rw [Key.found, Key.found, Field.values_cons_of_not_mem hkey', List.lookup_cons,
            beq_eq_false_iff_ne.2 hname]
      obtain ⟨slots, hslots, hlookup⟩ := ih ((k.name, v) :: read)
        (fun k' hk' => by rw [hfound k' hk']; exact honce k' hk')
        (fun k' hk' v' hv' => hchecked k' hk' v' (by
          by_cases hmem : key ∈ k'.names
          · rw [Field.values_cons_of_mem hmem]
            exact List.mem_cons_of_mem v hv'
          · rwa [Field.values_cons_of_not_mem hmem]))
      refine ⟨slots, ?_, fun k' hk' => by rw [hlookup k' hk', hfound k' hk']⟩
      rw [hunread, Option.isSome_none, if_neg Bool.false_ne_true,
        hchecked k hk v (by rw [hvalues]; exact List.mem_cons_self)]
      exact hslots

/-- A key that is written once at most, in forms that are all read; one without a default is
written. -/
structure Key.Written (k : Key) (entries : List (String × Value)) : Prop where
  once : (k.values entries).length ≤ 1
  checked : ∀ v ∈ k.values entries, ∀ v', k.reworded v v' → k.check v' = .ok ()
  required : k.required = true → k.values entries ≠ [] ∧ k.default? = none

theorem Key.Kept.length_le {values values' : List Value} (h : k.Kept values values') :
    values'.length ≤ 1 := by
  cases h <;> simp

/-- A value that is kept rewords one that has been there. -/
theorem Key.Kept.mem {values values' : List Value} (h : k.Kept values values') (hv : v' ∈ values') :
    ∃ v ∈ values, k.reworded v v' := by
  cases h with
  | absent => cases hv
  | kept h => exact ⟨_, List.mem_singleton_self _, List.mem_singleton.1 hv ▸ h⟩
  | dropped => cases hv

/-- A written record is read in all its wordings, and under each field stands what has become of
its value. -/
theorem read_reworded (type : String) (hapart : Apart keys) (h : Reworded keys entries entries')
    (hwritten : ∀ k ∈ keys, k.Written entries) :
    ∃ slots, Slots.read type (keys.map Key.toField) (.record entries') = .ok slots
      ∧ ∀ k ∈ keys, k.Kept (k.values entries) (slots.lookup k.name).toList := by
  -- rewording keeps the values of each key, and there is at most one
  have hkept : ∀ k ∈ keys, k.Kept (k.values entries) (k.values entries') := fun k hk =>
    h.kept hapart hk (hwritten k hk).once
  have hfound : ∀ k : Key, k.found [] entries' = k.values entries' := fun _ => rfl
  obtain ⟨slots, hslots, hlookup⟩ := ofEntries_eq hapart entries' []
    (fun k hk => by rw [hfound]; exact (hkept k hk).length_le)
    (fun k hk v' hv' => by
      obtain ⟨v, hv, hreworded⟩ := (hkept k hk).mem hv'
      exact (hwritten k hk).checked v hv v' hreworded)
  have hslot : ∀ k ∈ keys, k.Kept (k.values entries) (slots.lookup k.name).toList := by
    intro k hk
    rw [hlookup k hk, hfound]
    have hone := (hkept k hk).length_le
    have htoList : (k.values entries').head?.toList = k.values entries' := by
      rcases hvalues : k.values entries' with _ | ⟨v, _ | ⟨w, more⟩⟩
      · rfl
      · rfl
      · rw [hvalues, List.length_cons, List.length_cons] at hone
        omega
    rw [htoList]
    exact hkept k hk
  -- no required key is missing, since it has no default that could be left out
  refine ⟨slots, ?_, hslot⟩
  have hcomplete : (keys.map Key.toField).find? (fun f =>
      f.required && (slots.lookup f.name).isNone) = none := by
    rw [List.find?_eq_none]
    intro f hf
    obtain ⟨k, hk, rfl⟩ := List.mem_map.1 hf
    intro hmissing
    rw [Bool.and_eq_true, Option.isNone_iff_eq_none] at hmissing
    obtain ⟨hrequired, hnone⟩ := hmissing
    obtain ⟨hne, hdefault⟩ := (hwritten k hk).required hrequired
    have hkept := hslot k hk
    rw [hnone] at hkept
    generalize k.values entries = values at hne hkept
    cases hkept with
    | absent => exact hne rfl
    | dropped hv => rw [hdefault] at hv; cases hv
  refine bind_eq hslots ?_
  rw [hcomplete]
  rfl

/-! ## Values of fields -/

/-- A value is read as `a` in all its wordings. -/
def ReadsAs {α : Type} (reworded : Value → Value → Prop) (decode : Decoder α) (v : Value) (a : α) :
    Prop :=
  ∀ v', reworded v v' → decode v' = .ok a

section Fields

variable {α : Type} {decode : Decoder α} {a fallback : α} {slots : Slots}

/-- A value that stands for itself is read as what it decodes to. -/
theorem readsAs_eq (h : decode v = .ok a) : ReadsAs Eq decode v a := by
  rintro _ rfl
  exact h

/-- However the entries are said otherwise, `read` finds `a` under the key. -/
structure Key.Gives (k : Key) (entries : List (String × Value)) (read : Slots → Except WireError α)
    (a : α) : Prop where
  written : k.Written entries
  read_eq : ∀ slots : Slots, k.Kept (k.values entries) (slots.lookup k.name).toList →
    read slots = .ok a

/-- What was not written is not there. -/
theorem Key.Kept.eq_nil {values : List Value} (h : k.Kept [] values) : values = [] := by
  cases h
  rfl

/-- A written value is found, unless it is the default's and left out. -/
theorem Key.Kept.eq_some_or_dropped (h : k.Kept [v] (slots.lookup k.name).toList) :
    (∃ v', slots.lookup k.name = some v' ∧ k.reworded v v')
      ∨ slots.lookup k.name = none ∧ k.default? = some v := by
  cases hlookup : slots.lookup k.name with
  | some v' =>
    rw [hlookup] at h
    cases h with
    | kept hv => exact .inl ⟨v', rfl, hv⟩
  | none =>
    rw [hlookup] at h
    cases h with
    | dropped hv => exact .inr ⟨rfl, hv⟩

/-- A key with one value is written if this value can be read. -/
theorem Key.Written.of_value (hvalues : k.values entries = [v])
    (hcheck : k.check = fun v => (decode v).map fun _ => ())
    (hdefault : k.required = true → k.default? = none) (hreads : ReadsAs k.reworded decode v a) :
    k.Written entries where
  once := by rw [hvalues]; exact Nat.le_refl 1
  checked := by
    rw [hvalues]
    intro w hw v' hv'
    rw [List.mem_singleton.1 hw] at hv'
    rw [hcheck]
    exact congrArg (Except.map fun _ => ()) (hreads v' hv')
  required hrequired := by
    rw [hvalues]
    exact ⟨List.cons_ne_nil v [], hdefault hrequired⟩

variable {name : String} {aliases : List String} {reworded : Value → Value → Prop} {d : Value}

/-- A field that has to be there cannot be left out, since it has no default. -/
theorem Key.Gives.required
    (hvalues : (Field.of name decode aliases).values entries = [v])
    (hreads : ReadsAs reworded decode v a) :
    Key.Gives ⟨.of name decode aliases, none, reworded⟩ entries (·.get name decode) a where
  written := .of_value hvalues rfl (fun _ => rfl) hreads
  read_eq slots hkept := by
    rw [hvalues] at hkept
    rw [Slots.get]
    rcases hkept.eq_some_or_dropped with ⟨v', hlookup, hv⟩ | ⟨-, hdefault⟩
    · rw [show slots.lookup name = some v' from hlookup]
      exact hreads v' hv
    · cases hdefault

/-- The default may be left out, since its written form is read as the default. -/
theorem Key.Gives.withDefault
    (hvalues : (Field.withDefault name decode aliases).values entries = [v]) (hsame : reworded v v)
    (hdefault : decode d = .ok fallback) (hreads : ReadsAs reworded decode v a) :
    Key.Gives ⟨.withDefault name decode aliases, some d, reworded⟩ entries
      (·.getD name decode fallback) a where
  written := .of_value hvalues rfl Bool.noConfusion hreads
  read_eq slots hkept := by
    rw [hvalues] at hkept
    rw [Slots.getD]
    rcases hkept.eq_some_or_dropped with ⟨v', hlookup, hv⟩ | ⟨hlookup, hv⟩
    · rw [show slots.lookup name = some v' from hlookup]
      exact hreads v' hv
    · rw [show slots.lookup name = none from hlookup]
      obtain rfl : d = v := Option.some.inj hv
      rw [← hdefault, hreads d hsame]

/-- A value that is absent is not written at all. -/
theorem Key.Gives.optional {v? : Option Value}
    (hvalues : (Field.withDefault name decode aliases).values entries = v?.toList)
    (habsent : v? = none → fallback = a)
    (hreads : ∀ v, v? = some v → ReadsAs reworded decode v a) :
    Key.Gives ⟨.withDefault name decode aliases, none, reworded⟩ entries
      (·.getD name decode fallback) a where
  written := by
    cases v? with
    | none =>
      refine ⟨by rw [hvalues]; exact Nat.zero_le 1, ?_, Bool.noConfusion⟩
      rw [hvalues]
      exact fun v hv => absurd hv List.not_mem_nil
    | some v => exact .of_value hvalues rfl Bool.noConfusion (hreads v rfl)
  read_eq slots hkept := by
    rw [hvalues] at hkept
    rw [Slots.getD]
    cases v? with
    | none =>
      have hlookup : slots.lookup name = none := Option.toList_eq_nil_iff.1 hkept.eq_nil
      rw [hlookup, habsent rfl]
    | some v =>
      rcases hkept.eq_some_or_dropped with ⟨v', hlookup, hv⟩ | ⟨-, hdefault⟩
      · rw [show slots.lookup name = some v' from hlookup]
        exact hreads v rfl v' hv
      · cases hdefault

/-- Reading key after key rebuilds the record `r`. -/
inductive Rebuilds {ρ : Type} (entries : List (String × Value)) :
    List Key → (Slots → Except WireError ρ) → ρ → Prop where
  | done (r : ρ) : Rebuilds entries [] (fun _ => pure r) r
  | next {k : Key} {keys : List Key} {α : Type} {read : Slots → Except WireError α} {a : α}
      {assemble : α → Slots → Except WireError ρ} {r : ρ} (hk : k.Gives entries read a)
      (hrest : Rebuilds entries keys (assemble a) r) :
      Rebuilds entries (k :: keys) (fun slots => read slots >>= fun a => assemble a slots) r

variable {ρ : Type} {assemble : Slots → Except WireError ρ} {r : ρ}

/-- All keys of a record that can be rebuilt are written. -/
theorem Rebuilds.written (h : Rebuilds entries keys assemble r) : ∀ k ∈ keys, k.Written entries := by
  induction h with
  | done => exact List.forall_mem_nil _
  | next hk _ ih => exact List.forall_mem_cons.2 ⟨hk.written, ih⟩

/-- It is rebuilt from any slots that keep its values. -/
theorem Rebuilds.assemble_eq (h : Rebuilds entries keys assemble r)
    (hkept : ∀ k ∈ keys, k.Kept (k.values entries) (slots.lookup k.name).toList) :
    assemble slots = .ok r := by
  induction h with
  | done => rfl
  | next hk _ ih =>
    rw [List.forall_mem_cons] at hkept
    exact bind_eq (hk.read_eq slots hkept.1) (ih hkept.2)

/-- A record whose keys rebuild it is read back in all its wordings. -/
theorem readsAs_record (type : String) (hapart : Apart keys)
    (h : Rebuilds entries keys assemble r) :
    ReadsAs (RewordedRecord keys)
      (fun v => Slots.read type (keys.map Key.toField) v >>= assemble) (.record entries) r := by
  rintro _ ⟨_, entries', hentries, rfl, hwords⟩
  cases hentries
  obtain ⟨slots, hslots, hkept⟩ := read_reworded type hapart hwords h.written
  exact bind_eq hslots (h.assemble_eq hkept)

end Fields

end Sandshell.Wire
