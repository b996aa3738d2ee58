import Mathlib.Data.List.Count
import Mathlib.Data.List.Nodup
import Sandshell.Proofs.Guest.Listing

/-!
# Listing a directory that changes

A guest may make and remove entries of a directory between the turns in which it lists it. A place
in the listing is a number of entries, so what comes or goes before an entry moves the entry itself.
An entry that is moved back across the place of the next turn is skipped, and one that is moved on
across it is found again; an entry that is always there and never moves so is found exactly once.
-/

namespace Sandshell

open Relation (ReflTransGen)

namespace Tree

variable {t : Tree} {d name : String} {place : Nat}

/-- The names in a directory, in the order of the listing. -/
def names (t : Tree) (d : String) : List String :=
  (t.entries d).map DirEntry.name

/-- The name stands before a place in the listing. -/
def Passes (t : Tree) (d name : String) (place : Nat) : Prop :=
  name ∈ (t.names d).take place

instance (t : Tree) (d name : String) (place : Nat) : Decidable (t.Passes d name place) :=
  inferInstanceAs (Decidable (_ ∈ _))

/-- No name is listed twice. -/
theorem nodup_names (t : Tree) (d : String) : (t.names d).Nodup :=
  (List.pairwise_map.2 (t.pairwise_entries d)).nodup

/-- The records from a place on carry the names from this place on. -/
theorem name_dirents (t : Tree) (d : String) (place : Nat) :
    (t.dirents d place).map Dirent.name = ((t.names d).drop place).map Bytes.ofString := by
  have hentries : ((t.entries d).zipIdx 1).map Prod.fst = t.entries d := List.zipIdx_map_fst 1 _
  rw [names, ← List.map_drop]
  conv_rhs => rw [← hentries]
  rw [← List.map_drop, dirents, List.map_map, List.map_map, List.map_map]
  rfl

/-- A name in a directory stands before a place or has one record from there on. -/
theorem count_dirents (hname : name ∈ t.names d) (place : Nat) :
    (if t.Passes d name place then 1 else 0)
      + ((t.dirents d place).map Dirent.name).count (Bytes.ofString name) = 1 := by
  have hbefore : ((t.names d).take place).count name = if t.Passes d name place then 1 else 0 :=
    ((t.nodup_names d).sublist (List.take_sublist place _)).count
  rw [name_dirents, List.count_map_of_injective _ _ Bytes.ofString_injective, ← hbefore,
    ← List.count_append, List.take_append_drop]
  exact List.count_eq_one_of_mem (t.nodup_names d) hname

end Tree

/-! ## Changes between turns -/

namespace Guest

variable {files : FileSet} {r : GuestRequest} {g g' : Guest}

/-- What a guest may do between two turns: remove files, open and make them, and work on memory that
does not get smaller. -/
inductive Edits (g : Guest) : Guest → Prop
  | own (m : GuestMemory) (hsize : g.memory.size ≤ m.size) : Edits g { g with memory := m }
  | unlink (exportsMemory : Bool) (fd path length : UInt32) :
    Edits g (((SystemCall.pathUnlinkFile fd path length).run exportsMemory).run g).2
  | make (exportsMemory : Bool) (fd path length openFlags fdFlags address : UInt32) :
    Edits g (((SystemCall.pathOpen fd path length openFlags fdFlags address).run
      exportsMemory).run g).2

/-- All that was open stays as it is, and memory does not get smaller. -/
structure Steady (g g' : Guest) : Prop where
  get?_eq : ∀ fd d, g.descriptors.Numbered → g.descriptors.get? fd = some d →
    g'.descriptors.get? fd = some d
  size_le : g.memory.size ≤ g'.memory.size

theorem Steady.refl (g : Guest) : Steady g g :=
  ⟨fun _ _ _ hget => hget, Nat.le_refl _⟩

theorem steady_files (g : Guest) (files : Tree) : Steady g { g with files } :=
  ⟨fun _ _ _ hget => hget, Nat.le_refl _⟩

/-- Unlinking leaves descriptors and memory alone. -/
theorem steady_pathUnlinkFile (fd path length : UInt32) (g : Guest) :
    Steady g (pathUnlinkFile fd path length g).2 := by
  rw [pathUnlinkFile, resolve_bind_apply]
  cases g.target fd path length with
  | error e => exact .refl g
  | ok resolved =>
    dsimp only
    rw [updateFiles_apply]
    cases g.files.removeFile resolved with
    | error e => exact .refl g
    | ok files => exact steady_files g files

/-- Opening leaves the other descriptors where they are. -/
theorem steady_pathOpen (fd path length openFlags fdFlags address : UInt32) (g : Guest) :
    Steady g (pathOpen fd path length openFlags fdFlags address g).2 := by
  rcases pathOpen_cases g fd path length openFlags fdFlags address
    with ⟨e, herror⟩ | ⟨hholds, resolved, flags, htarget, hflags, hfdFlags⟩
  · rw [herror]
    exact .refl g
  · rw [pathOpen_apply hholds htarget hflags hfdFlags]
    cases openEntry g.files resolved flags (fdFlags.toNat.testBit 0) with
    | error e => exact .refl g
    | ok opened =>
      dsimp only
      cases hinsert : g.descriptors.insert opened.1 with
      | error e => exact steady_files g opened.2
      | ok inserted =>
        obtain ⟨-, -, htable⟩ := DescriptorTable.insert_eq_ok hinsert
        refine ⟨fun n d hg hget => ?_, Nat.le_of_eq (GuestMemory.size_store _ _ _).symm⟩
        show inserted.2.get? n = some d
        rw [htable, DescriptorTable.get?_added, if_neg (Nat.ne_of_lt (hg.lt_next hget)), hget]

/-- Edits of the files leave what a listing reads besides them. -/
theorem Edits.steady (h : Edits g g') : Steady g g' := by
  have hrun : ∀ (call : SystemCall) (exportsMemory : Bool), Steady g (call.answer g).2 →
      Steady g ((call.run exportsMemory).run g).2 := by
    intro call exportsMemory hanswer
    rcases call.run_snd exportsMemory g with hsame | hsnd
    · rw [hsame]
      exact .refl g
    · rwa [hsnd]
  cases h with
  | own m hsize => exact ⟨fun _ _ _ hget => hget, hsize⟩
  | unlink exportsMemory fd path length => exact hrun _ _ (steady_pathUnlinkFile fd path length g)
  | make exportsMemory fd path length openFlags fdFlags address =>
    exact hrun _ _ (steady_pathOpen fd path length openFlags fdFlags address g)

theorem Edits.act (h : Edits g g') : Act g g' := by
  cases h with
  | own m hsize => exact .own m
  | unlink exportsMemory fd path length => exact .call _ _
  | make exportsMemory fd path length openFlags fdFlags address => exact .call _ _

/-- Whatever edits come between the turns of a listing, the guest goes on with it. -/
theorem Reached.steady_of_edits (h : Reached files r g) (hedits : ReflTransGen Edits g g') :
    ReflTransGen Act g g' ∧ Steady g g' := by
  induction hedits with
  | refl => exact ⟨.refl, .refl g⟩
  | tail _ hlast ih =>
    obtain ⟨hacts, hsteady⟩ := ih
    have hnumbered := (h.trans hacts).numbered
    refine ⟨hacts.tail hlast.act, fun fd d hg hget => ?_, ?_⟩
    · exact hlast.steady.get?_eq fd d hnumbered (hsteady.get?_eq fd d hg hget)
    · exact hsteady.size_le.trans hlast.steady.size_le

end Guest

/-! ## Turns and pauses -/

namespace ListingBuffer

variable {b : ListingBuffer} {files : FileSet} {r : GuestRequest} {g g' : Guest} {t : Tree}
variable {d name : String} {place most : Nat} {u v : Turn} {turns rest : List Turn}

namespace Turn

/-- How often the turns find a name. -/
def times (name : String) (turns : List Turn) : Nat :=
  ((turns.flatMap found).map Dirent.name).count (Bytes.ofString name)

/-- In the pause between two turns the name moves back, to before the place where the second one
begins. -/
def Skips (d name : String) (u v : Turn) : Prop :=
  ¬ u.files.Passes d name v.place ∧ v.files.Passes d name v.place

/-- In the pause between two turns the name moves on, from before the place where the second one
begins. -/
def Repeats (d name : String) (u v : Turn) : Prop :=
  u.files.Passes d name v.place ∧ ¬ v.files.Passes d name v.place

instance (d name : String) (u v : Turn) : Decidable (Skips d name u v) :=
  inferInstanceAs (Decidable (_ ∧ _))

instance (d name : String) (u v : Turn) : Decidable (Repeats d name u v) :=
  inferInstanceAs (Decidable (_ ∧ _))

/-- In the pause between two turns none of the entries that were found comes or goes. -/
def KeepsFound (d : String) (u v : Turn) : Prop :=
  (v.files.names d).take v.place = (u.files.names d).take v.place

/-- In how many pauses the name moves back across the next place. -/
def skips (d name : String) (turns : List Turn) : Nat :=
  (turns.zip turns.tail).countP fun (u, v) => Skips d name u v

/-- In how many pauses the name moves on across the next place. -/
def repeats (d name : String) (turns : List Turn) : Nat :=
  (turns.zip turns.tail).countP fun (u, v) => Repeats d name u v

/-- How often a name is found adds up over the turns. -/
theorem times_cons (name : String) (u : Turn) (turns : List Turn) : times name (u :: turns)
    = (u.found.map Dirent.name).count (Bytes.ofString name) + times name turns := by
  rw [times, List.flatMap_cons, List.map_append, List.count_append, times]

theorem skips_cons_cons (d name : String) (u v : Turn) (rest : List Turn) :
    skips d name (u :: v :: rest)
      = skips d name (v :: rest) + if Skips d name u v then 1 else 0 := by
  show List.countP _ ((u, v) :: _) = _
  rw [List.countP_cons]
  simp only [decide_eq_true_eq]
  rfl

theorem repeats_cons_cons (d name : String) (u v : Turn) (rest : List Turn) :
    repeats d name (u :: v :: rest)
      = repeats d name (v :: rest) + if Repeats d name u v then 1 else 0 := by
  show List.countP _ ((u, v) :: _) = _
  rw [List.countP_cons]
  simp only [decide_eq_true_eq]
  rfl

end Turn

/-- The guest can list the directory: it has no more than so many entries, and the buffer has room
for the record of any of them. -/
structure Lists (b : ListingBuffer) (d : String) (most : Nat) (g : Guest) : Prop where
  ready : b.Ready g.files d g
  length_le : (g.files.entries d).length ≤ most
  room : 24 + g.files.longestName d ≤ b.length.toNat

/-- Acts after which the guest can still list the directory. -/
def Pauses (b : ListingBuffer) (d : String) (most : Nat) (g g' : Guest) : Prop :=
  ReflTransGen Guest.Act g g' ∧ b.Lists d most g'

/-- Turns from a place on, the first of them on given files: an entry that is there in all of them
stood before the place at the beginning or is found, once more for each pause in which it moves on
across the next place, and once less for each one in which it moves back. -/
structure Balanced (d : String) (t : Tree) (place : Nat) (turns : List Turn) : Prop where
  starts : ∃ found later, turns = ⟨t, place, found⟩ :: later
  times_add : ∀ name, (∀ turn ∈ turns, name ∈ turn.files.names d) →
    (if t.Passes d name place then 1 else 0) + Turn.times name turns + Turn.skips d name turns
      = 1 + Turn.repeats d name turns

/-- A turn that hands out what comes next keeps the account in balance. -/
theorem Balanced.cons {found : List Dirent} {next : Nat} {t' : Tree}
    (h : Balanced d t' next turns) (happend : t.dirents d place = found ++ t.dirents d next) :
    Balanced d t place (⟨t, place, found⟩ :: turns) := by
  refine ⟨⟨found, turns, rfl⟩, fun name hname => ?_⟩
  rw [List.forall_mem_cons] at hname
  have hrest := h.times_add name hname.2
  obtain ⟨found', later, rfl⟩ := h.starts
  have hplace := Tree.count_dirents hname.1 place
  have hnext := Tree.count_dirents hname.1 next
  rw [happend, List.map_append, List.count_append] at hplace
  rw [Turn.times_cons, Turn.skips_cons_cons, Turn.repeats_cons_cons]
  -- the name moves across the next place in one way, in the other way, or not at all
  have hcross : (if Turn.Skips d name ⟨t, place, found⟩ ⟨t', next, found'⟩ then 1 else 0)
        + (if t.Passes d name next then 1 else 0)
      = (if Turn.Repeats d name ⟨t, place, found⟩ ⟨t', next, found'⟩ then 1 else 0)
        + if t'.Passes d name next then 1 else 0 := by
    unfold Turn.Skips Turn.Repeats
    by_cases hbefore : t.Passes d name next <;> by_cases hafter : t'.Passes d name next <;>
      simp [hbefore, hafter]
  dsimp only at hplace hnext ⊢
  omega

theorem balanced_last (t : Tree) (d : String) (place : Nat) :
    Balanced d t place [⟨t, place, t.dirents d place⟩] := by
  refine ⟨⟨_, _, rfl⟩, fun name hname => ?_⟩
  have hplace := Tree.count_dirents (hname _ (List.mem_singleton_self _)) place
  rw [Turn.times_cons]
  exact hplace

/-- By induction on how far the place is from the end of the longest listing. -/
theorem ends_balanced (h : Guest.Reached files r g) (hlists : b.Lists d most g)
    (hmost : most < 2 ^ 64) :
    b.Ends (b.Pauses d most) g place (Balanced d g.files place) := by
  induction hn : most - place using Nat.strong_induction_on generalizing g place with
  | h n ih =>
    have hcount : (g.files.entries d).length < 2 ^ 64 := hlists.length_le.trans_lt hmost
    have hturned := hlists.ready.turned h.not_mounted hcount hlists.room place
    by_cases hleft : b.filled (b.after g place) < b.length.toNat
    · refine .last hturned.answer_eq hleft ?_
      rw [turn, hturned.found_eq_of_lt hleft]
      exact balanced_last g.files d place
    · rw [Nat.not_lt] at hleft
      obtain ⟨x, hlast, hnext, hne, happend⟩ := hturned.exists_getLast hlists.room hleft
      have hpos := List.length_pos_iff.2 hne
      have hplace : place < (g.files.entries d).length := by
        have hlength := congrArg List.length happend
        rw [Tree.dirents_eq_drop, List.length_drop, Tree.length_dirents, List.length_append]
          at hlength
        omega
      have hlength := hlists.length_le
      refine .more hturned.answer_eq hleft hlast fun g' hpause => ?_
      have hreached : Guest.Reached files r g' := (h.call true (b.call place)).trans hpause.1
      have hrest := ih (most - x.next) (by omega) hreached hpause.2 rfl
      exact hrest.imp fun rest hbalanced => hbalanced.cons happend

/-- Where what was found stays, nothing moves across the places. -/
theorem Turn.crossings_eq_zero (h : turns.IsChain (KeepsFound d)) (name : String) :
    skips d name turns = 0 ∧ repeats d name turns = 0 := by
  induction turns with
  | nil => exact ⟨rfl, rfl⟩
  | cons u rest ih =>
    cases rest with
    | nil => exact ⟨rfl, rfl⟩
    | cons v rest =>
      rw [List.isChain_cons_cons] at h
      obtain ⟨hskips, hrepeats⟩ := ih h.2
      have hsame : v.files.Passes d name v.place ↔ u.files.Passes d name v.place := by
        rw [Tree.Passes, Tree.Passes, h.1]
      rw [skips_cons_cons, repeats_cons_cons, hskips, hrepeats]
      unfold Skips Repeats
      simp [hsame]

/-- A name that stays is found once, and once more for each repetition, unless it is skipped. -/
theorem Balanced.times_add_skips (h : Balanced d t 0 turns)
    (hname : ∀ turn ∈ turns, name ∈ turn.files.names d) :
    Turn.times name turns + Turn.skips d name turns = 1 + Turn.repeats d name turns := by
  have hstart : ¬ t.Passes d name 0 := by
    rw [Tree.Passes, List.take_zero]
    exact List.not_mem_nil
  have htimes := h.times_add name hname
  rwa [if_neg hstart, Nat.zero_add] at htimes

/-- The call itself leaves all that is open, the files, and the size of memory. -/
theorem Lists.after (h : b.Lists d most g) (hg : g.mounted = false)
    (hmost : most < 2 ^ 64) (place : Nat) : b.Lists d most (b.after g place) := by
  have hturned := h.ready.turned hg (h.length_le.trans_lt hmost) h.room place
  obtain ⟨name, hget⟩ := h.ready.exists_get?
  rw [hturned.after_eq]
  refine ⟨⟨rfl, ⟨name, hget⟩, ?_, ?_⟩, h.length_le, h.room⟩
  · rw [Guest.received, GuestMemory.holds_store, GuestMemory.holds_store]
    exact h.ready.holds_start
  · rw [Guest.received, GuestMemory.holds_store, GuestMemory.holds_store]
    exact h.ready.holds_used

/-- Removing and making files leaves the directory open. -/
theorem Lists.pauses_of_edits (h : b.Lists d most g) (hg : Guest.Reached files r g)
    (hedits : ReflTransGen Guest.Edits g g') (hlength : (g'.files.entries d).length ≤ most)
    (hroom : 24 + g'.files.longestName d ≤ b.length.toNat) : b.Pauses d most g g' := by
  obtain ⟨hacts, hsteady⟩ := hg.steady_of_edits hedits
  obtain ⟨name, hget⟩ := h.ready.exists_get?
  have hholds : ∀ start length : Nat, g.memory.holds start length →
      g'.memory.holds start length := by
    intro start length hholds
    rw [GuestMemory.holds, decide_eq_true_eq] at hholds ⊢
    exact hholds.trans hsteady.size_le
  exact ⟨hacts, ⟨rfl, ⟨name, hsteady.get?_eq _ _ hg.numbered hget⟩, hholds _ _ h.ready.holds_start,
    hholds _ _ h.ready.holds_used⟩, hlength, hroom⟩

/-- However a guest makes and removes entries of a directory between the turns in which it lists it,
the loop ends as long as there is a bound on their number. An entry that is there in all turns is
found once, once more for each pause in which it moves on across the next place, and once less for
each one in which it moves back. So it is found exactly once if no pause touches the entries before
the next place. -/
theorem finds_entries_that_stay (h : Guest.Reached files r g) (hlists : b.Lists d most g)
    (hmost : most < 2 ^ 64) :
    b.Ends (b.Pauses d most) g 0 (fun turns =>
        ∀ name, (∀ turn ∈ turns, name ∈ turn.files.names d) →
          Turn.times name turns + Turn.skips d name turns = 1 + Turn.repeats d name turns
            ∧ (turns.IsChain (Turn.KeepsFound d) → Turn.times name turns = 1))
      ∧ ∀ place g', ReflTransGen Guest.Edits (b.after g place) g' →
        (g'.files.entries d).length ≤ most → 24 + g'.files.longestName d ≤ b.length.toNat →
          b.Pauses d most (b.after g place) g' := by
  constructor
  · refine (ends_balanced h hlists hmost).imp fun turns hbalanced name hname => ?_
    have htimes := hbalanced.times_add_skips hname
    refine ⟨htimes, fun hkeeps => ?_⟩
    obtain ⟨hskips, hrepeats⟩ := Turn.crossings_eq_zero hkeeps name
    rwa [hskips, hrepeats] at htimes
  · intro place g' hedits hlength hroom
    exact (hlists.after h.not_mounted hmost place).pauses_of_edits (h.call true (b.call place))
      hedits hlength hroom

/-- A buffer of one record lists the root in turns. -/
theorem lists_narrow : narrow.Lists "" 3 (Guest.startWith threeFiles "a") where
  ready := ready_narrow
  length_le := by decide +kernel
  room := by decide +kernel

/-- A guest that has three files to list, one in each turn. -/
theorem finds_entries_that_stay_narrow :
    Guest.Reached threeFiles (Guest.inRoot threeFiles) (Guest.startWith threeFiles "a")
      ∧ narrow.Lists "" 3 (Guest.startWith threeFiles "a")
      ∧ narrow.Ends (narrow.Pauses "" 3) (Guest.startWith threeFiles "a") 0 (fun turns =>
        ∀ name, (∀ turn ∈ turns, name ∈ turn.files.names "") →
          Turn.times name turns + Turn.skips "" name turns = 1 + Turn.repeats "" name turns
            ∧ (turns.IsChain (Turn.KeepsFound "") → Turn.times name turns = 1)) := by
  have hreached : Guest.Reached threeFiles (Guest.inRoot threeFiles)
      (Guest.startWith threeFiles "a") := Guest.reached_startWith (by decide +kernel) "a"
  exact ⟨hreached, lists_narrow, (finds_entries_that_stay hreached lists_narrow (by decide)).1⟩

/-- This guest after its first turn, when it has removed the file that it found. -/
def removedFirst : Guest :=
  (((SystemCall.pathUnlinkFile 3 0 1).run true).run
    (narrow.after (Guest.startWith threeFiles "a") 0)).2

theorem lists_removedFirst : narrow.Lists "" 3 removedFirst where
  ready := ⟨rfl, ⟨".", by decide +kernel⟩, by decide +kernel, by decide +kernel⟩
  length_le := by decide +kernel
  room := by decide +kernel

/-- It never finds the second file, which is there all the time. -/
theorem not_forall_finds_entries_that_stay :
    ¬ ∀ (files : FileSet) (r : GuestRequest) (g : Guest) (b : ListingBuffer) (d : String)
      (most : Nat), Guest.Reached files r g → b.Lists d most g → most < 2 ^ 64 →
        b.Ends (fun g g' => ReflTransGen Guest.Edits g g' ∧ b.Lists d most g') g 0 fun turns =>
          ∀ name, (∀ turn ∈ turns, name ∈ turn.files.names d) → Turn.times name turns = 1 := by
  intro hall
  have hends := hall _ _ _ narrow "" 3 (Guest.reached_startWith (by decide +kernel) "a")
    lists_narrow (by decide)
  cases hends with
  | last _ hleft _ => exact absurd hleft (by decide +kernel)
  | @more _ _ _ x _ _ hlast hrest =>
    have hnext : (narrow.found (narrow.after (Guest.startWith threeFiles "a") 0)).getLast?.map
        Dirent.next = some 1 := by decide +kernel
    rw [hlast, Option.map_some, Option.some.injEq] at hnext
    have hends := hrest removedFirst ⟨.single (.unlink true 3 0 1), lists_removedFirst⟩
    rw [hnext] at hends
    cases hends with
    | last _ _ hturns =>
      have htimes := hturns "b" (by decide +kernel)
      revert htimes
      decide +kernel
    | more _ hfull _ _ => exact absurd hfull (by decide +kernel)

end ListingBuffer

end Sandshell
