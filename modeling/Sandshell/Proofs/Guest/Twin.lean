import Sandshell.Proofs.Guest.Change
import Sandshell.Proofs.Guest.Memory
import Sandshell.Proofs.Tree.Agreement

/-!
# Guests that cannot be told apart

Twins are guests that differ only in files that are not within their root. A system call has the
same result on both, and leaves twins.
-/

namespace Sandshell.Guest

open Sandshell.Path (isWithin)
open Relation (ReflTransGen)

variable {α β ε : Type} {root : String} {g g' : Guest} {u u' : Tree}

/-- The guest with other files. -/
def withFiles (g : Guest) (files : Tree) : Guest := { g with files }

@[simp] theorem withFiles_files (g : Guest) (files : Tree) : (g.withFiles files).files = files := rfl

@[simp] theorem withFiles_descriptors (g : Guest) (files : Tree) :
    (g.withFiles files).descriptors = g.descriptors := rfl

/-- Files that could be a guest's own, as far as the guest can see within its root. -/
structure Twin (root : String) (g : Guest) (u : Tree) : Prop where
  confined : g.descriptors.Confined
  root_eq : g.descriptors.root = root
  agree : Tree.Agree root g.files u

/-- The first step has a result and changes the guest; the second one, on the guest with other
files, has the same result, and the guests are still twins. -/
structure Follows (root : String) (x y : ExceptT ε (StateM Guest) α) (g : Guest) (u : Tree) : Prop where
  changes : ReflTransGen Change g (x g).2
  same : ∃ u', y (g.withFiles u) = ((x g).1, (x g).2.withFiles u') ∧ Twin root (x g).2 u'

/-- A step that does the same to twins. -/
def Blind (root : String) (x : ExceptT ε (StateM Guest) α) : Prop :=
  ∀ g u, Twin root g u → Follows root x x g u

/-! ## Rules for steps -/

/-- Twins that are given the same result follow each other. -/
theorem follows_pure (h : Twin root g u) (a : α) :
    Follows root (pure a : ExceptT ε (StateM Guest) α) (pure a) g u :=
  ⟨.refl, u, rfl, h⟩

theorem follows_throw (h : Twin root g u) (e : ε) :
    Follows root (throw e : ExceptT ε (StateM Guest) α) (throw e) g u :=
  ⟨.refl, u, rfl, h⟩

/-- The second step may use the result of the first one, which is the same for both guests. -/
theorem Follows.bind {x y : ExceptT ε (StateM Guest) α} {f k : α → ExceptT ε (StateM Guest) β} (hx : Follows root x y g u)
    (hf : ∀ a g' u', x g = (.ok a, g') → Twin root g' u' → Follows root (f a) (k a) g' u') :
    Follows root (x >>= f) (y >>= k) g u := by
  obtain ⟨hchanges, u', hsame, htwin⟩ := hx
  -- the state of a failing step stays, so both outcomes leave twins
  rcases hxg : x g with ⟨e | a, g'⟩
  · rw [hxg] at hchanges hsame htwin
    have hx' : (x >>= f) g = (.error e, g') := bind_apply_error hxg
    have hy' : (y >>= k) (g.withFiles u) = (.error e, g'.withFiles u') := bind_apply_error hsame
    exact ⟨hx' ▸ hchanges, u', by rw [hx', hy'], hx' ▸ htwin⟩
  · rw [hxg] at hchanges hsame htwin
    have hx' : (x >>= f) g = f a g' := bind_apply_ok hxg
    have hy' : (y >>= k) (g.withFiles u) = k a (g'.withFiles u') := bind_apply_ok hsame
    obtain ⟨hchanges', u'', hsame', htwin'⟩ := hf a g' u' hxg htwin
    exact ⟨hx' ▸ hchanges.trans hchanges', u'', by rw [hx', hy', hsame'], hx' ▸ htwin'⟩

/-- Asking for the state gives each guest its own. -/
theorem follows_get {f k : Guest → ExceptT ε (StateM Guest) α} (h : Follows root (f g) (k (g.withFiles u)) g u) :
    Follows root (get >>= f) (get >>= k) g u :=
  ⟨h.changes, h.same⟩

/-- A choice that is the same for both guests. -/
theorem follows_ite {c : Prop} [Decidable c] {x x' y y' : ExceptT ε (StateM Guest) α}
    (hx : c → Follows root x y g u) (hx' : ¬ c → Follows root x' y' g u) :
    Follows root (if c then x else x') (if c then y else y') g u := by
  split
  · next hc => exact hx hc
  · next hc => exact hx' hc

/-- A check that fails for both guests or for none. -/
theorem follows_unless {c : Prop} [Decidable c] {e : ε} {f k : β → ExceptT ε (StateM Guest) α} {x y : ExceptT ε (StateM Guest) α}
    (h : Twin root g u) (hrest : ¬ c → Follows root x y g u) :
    Follows root (if c then throw e >>= f else x) (if c then throw e >>= k else y) g u :=
  follows_ite (fun _ => follows_throw h e) hrest

/-- Outcomes that are the same for both guests, as far as they are related. -/
theorem follows_lift {related : β → β → Prop} {r r' : Except Errno β} {f k : β → CallM α}
    (h : Twin root g u) (hsame : SameOutcome related r r')
    (hf : ∀ a b, r = .ok a → related a b → Follows root (f a) (k b) g u) :
    Follows root (liftM r >>= f) (liftM r' >>= k) g u := by
  cases hsame with
  | error e => exact follows_throw h e
  | ok hrelated => exact hf _ _ rfl hrelated

/-- A change that makes twins of twins. -/
theorem follows_modify {f k : Guest → Guest} (hchanges : ReflTransGen Change g (f g))
    (hsame : k (g.withFiles u) = (f g).withFiles u') (h : Twin root (f g) u') :
    Follows root (modify f : CallM Unit) (modify k) g u :=
  ⟨hchanges, u', congrArg (Prod.mk _) hsame, h⟩

/-- They have the same memory, so that steps on it go alike. -/
theorem follows_onMemory (h : Twin root g u) (step : ExceptT ε (StateM GuestMemory) α) :
    Follows root (onMemory step) (onMemory step) g u :=
  ⟨.single (.memory _), u, rfl, h.confined, h.root_eq, h.agree⟩

theorem blind_pure (a : α) : Blind root (pure a : ExceptT ε (StateM Guest) α) :=
  fun _ _ h => follows_pure h a

theorem blind_throw (e : ε) : Blind root (throw e : ExceptT ε (StateM Guest) α) :=
  fun _ _ h => follows_throw h e

/-- A step on the memory does not see the files at all. -/
theorem blind_onMemory (step : ExceptT ε (StateM GuestMemory) α) : Blind root (onMemory step) :=
  fun _ _ h => follows_onMemory h step

/-- One step after another sees no more than each of them. -/
theorem Blind.bind {x : ExceptT ε (StateM Guest) α} {f : α → ExceptT ε (StateM Guest) β} (hx : Blind root x)
    (hf : ∀ a, Blind root (f a)) : Blind root (x >>= f) :=
  fun g u h => (hx g u h).bind fun a g' u' _ h' => hf a g' u' h'

/-- What a step does with the state must not depend on the files, unless it is shown otherwise. -/
theorem blind_get {f : Guest → ExceptT ε (StateM Guest) α}
    (h : ∀ g u, Twin root g u → Follows root (f g) (f (g.withFiles u)) g u) :
    Blind root (get >>= f) :=
  fun g u htwin => follows_get (h g u htwin)

/-- A step that does not panic does the same to twins among those that may. -/
theorem Follows.ofStep {x y : CallM α} (h : Follows root x y g u) :
    Follows root (liftM x : PanicM Guest α) (liftM y) g u := by
  obtain ⟨hchanges, u', hsame, htwin⟩ := h
  refine ⟨hchanges, u', ?_, htwin⟩
  rw [PanicM.liftM_apply, PanicM.liftM_apply, hsame]

/-- A step that cannot panic is as blind as one that can. -/
theorem Blind.ofStep {x : CallM α} (hx : Blind root x) :
    Blind root (liftM x : PanicM Guest α) :=
  fun g u h => (hx g u h).ofStep

/-! ## Parts of calls -/

theorem blind_sum (a b : UInt32) : Blind root (PanicM.sum a b) := by
  rw [PanicM.sum]
  split
  · exact blind_pure _
  · exact blind_throw _

theorem blind_word (n : Nat) : Blind root (word n) := by
  rw [word]
  split
  · exact blind_pure _
  · exact blind_throw _

/-- Storing a number that fits into 32 bits. -/
theorem blind_writeWord (start n : Nat) :
    Blind root (do onMemory (GuestMemory.writeWord start (← word n))) :=
  (blind_word n).bind fun _ => blind_onMemory _

/-- Twins have the same descriptors, so that looking one up goes alike. -/
theorem follows_descriptor? {f k : Option Descriptor → CallM α} {fd : UInt32}
    (h : Follows root (f (g.descriptors.get? fd.toNat)) (k (g.descriptors.get? fd.toNat)) g u) :
    Follows root (descriptor? fd >>= f) (descriptor? fd >>= k) g u :=
  ⟨h.changes, h.same⟩

theorem follows_descriptor?_ofStep {f k : Option Descriptor → PanicM Guest α} {fd : UInt32}
    (h : Follows root (f (g.descriptors.get? fd.toNat)) (k (g.descriptors.get? fd.toNat)) g u) :
    Follows root (liftM (descriptor? fd) >>= f) (liftM (descriptor? fd) >>= k) g u :=
  ⟨h.changes, h.same⟩

/-- Resolving a path looks at the descriptors only. -/
theorem blind_resolve (fd path length : UInt32) : Blind root (resolve fd path length) := by
  refine (blind_onMemory _).bind fun text => blind_get fun g u h => ?_
  rw [withFiles_descriptors]
  cases g.descriptors.resolve fd.toNat text with
  | error e => exact follows_throw h e
  | ok resolved => exact follows_pure h resolved

/-- A path that a call resolves can be named. -/
theorem names_of_resolve {fd path length : UInt32} {resolved : String}
    (hrun : resolve fd path length g = (.ok resolved, g')) : g'.descriptors.Names resolved := by
  obtain ⟨text, mid, -, hlookup⟩ := exists_of_bind_apply_ok hrun
  rw [get_bind_apply] at hlookup
  cases hresolve : mid.descriptors.resolve fd.toNat text with
  | error e =>
    rw [hresolve] at hlookup
    cases hlookup
  | ok found =>
    rw [hresolve] at hlookup
    cases hlookup
    exact .inr ⟨_, _, hresolve⟩

/-- Twins resolve a path alike, to a place inside the root. -/
theorem follows_resolve {f k : String → CallM α} {fd path length : UInt32} (h : Twin root g u)
    (hf : ∀ resolved g' u', g'.descriptors.Names resolved → Twin root g' u' →
      Follows root (f resolved) (k resolved) g' u') :
    Follows root (resolve fd path length >>= f) (resolve fd path length >>= k) g u :=
  (blind_resolve fd path length g u h).bind fun resolved g' u' hrun h' =>
    hf resolved g' u' (names_of_resolve hrun) h'

/-- A change of the files that leads to the same outcome for both guests. -/
theorem follows_updateFiles {change : Tree → Except Errno Tree} {path : String}
    (h : Twin root g u) (hpath : g.descriptors.Names path)
    (hedit : ∀ t', change g.files = .ok t' → Tree.Edit path g.files t')
    (hsame : SameOutcome (Tree.Agree root) (change g.files) (change u)) :
    Follows root (updateFiles change) (updateFiles change) g u := by
  refine follows_get ?_
  rw [withFiles_files]
  revert hedit hsame
  generalize change g.files = r
  generalize change u = r'
  rintro hedit (e | hagree)
  · exact follows_throw h e
  · exact follows_modify (.single (.edit hpath (hedit _ rfl))) rfl ⟨h.confined, h.root_eq, hagree⟩

/-! ## Arguments, environment, time and chance -/

variable {fd : UInt32}

/-- The texts of a program are no files. -/
theorem blind_textSizes (texts : List String) (count size : UInt32) :
    Blind root (textSizes texts count size) :=
  (blind_word _).bind fun _ => (blind_onMemory _).bind fun _ => blind_writeWord _ _

theorem blind_argsSizesGet (count size : UInt32) : Blind root (argsSizesGet count size) :=
  blind_get fun g u h => blind_textSizes g.args count size g u h

theorem blind_argsGet (addresses buffer : UInt32) : Blind root (argsGet addresses buffer) :=
  blind_get fun _ _ h => follows_onMemory h _

theorem blind_environSizesGet (count size : UInt32) : Blind root (environSizesGet count size) :=
  blind_get fun g u h => blind_textSizes g.env count size g u h

theorem blind_environGet (addresses buffer : UInt32) : Blind root (environGet addresses buffer) :=
  blind_get fun _ _ h => follows_onMemory h _

theorem blind_clockTimeGet (clock address : UInt32) : Blind root (clockTimeGet clock address) := by
  rw [clockTimeGet]
  split
  · exact blind_throw _
  · exact blind_get fun _ _ h => follows_onMemory h _

theorem blind_randomGet (buffer length : UInt32) : Blind root (randomGet buffer length) := by
  refine (blind_onMemory _).bind fun _ => blind_get fun g u h => ?_
  refine (follows_onMemory h _).bind fun _ g' u' _ h' => ?_
  exact follows_modify (.single (.draw _)) rfl ⟨h'.confined, h'.root_eq, h'.agree⟩

/-! ## Reading and writing -/

/-- Gathering looks at the memory only. -/
theorem blind_gather (buffers : List (UInt32 × UInt32)) : Blind root (gather buffers) := by
  induction buffers with
  | nil => exact blind_pure _
  | cons buffer rest ih => exact (blind_onMemory _).bind fun _ => ih.bind fun _ => blind_pure _

/-- Scattering does too. -/
theorem blind_scatter (buffers : List (UInt32 × UInt32)) (data : Bytes) :
    Blind root (scatter buffers data) := by
  induction buffers generalizing data with
  | nil => exact blind_pure _
  | cons buffer rest ih =>
    rw [scatter]
    split
    · exact blind_pure _
    · exact (blind_onMemory _).bind fun _ => ih _

/-- The path of an open file is within the root, where twins have the same files. -/
theorem Twin.getElem?_eq (h : Twin root g u) {fd : Nat} {d : Descriptor}
    (hget : g.descriptors.get? fd = some d) : u.files[d.path]? = g.files.files[d.path]? :=
  (h.agree.getElem?_eq _ (h.root_eq ▸ h.confined.isWithin _ _ hget)).symm

/-- What can be named is within the root. -/
theorem Twin.isWithin_names (h : Twin root g u) {path : String} (hpath : g.descriptors.Names path) :
    isWithin root path :=
  h.root_eq ▸ (h.confined.names hpath).2

/-- Moving in an open file. -/
theorem changes_seek {fd offset : Nat} :
    ReflTransGen Change g
      { g with descriptors := (g.descriptors.seek? fd offset).getD g.descriptors } := by
  cases hseek : g.descriptors.seek? fd offset with
  | none => exact .refl
  | some descriptors => exact .single (.moved hseek)

/-- Moving the offset of one twin only is seen by its own reads. -/
theorem Twin.seek (h : Twin root g u) (fd offset : Nat) : Twin root
    { g with descriptors := (g.descriptors.seek? fd offset).getD g.descriptors } u := by
  cases hseek : g.descriptors.seek? fd offset with
  | none => exact h
  | some descriptors =>
    obtain ⟨hconfined, hroot⟩ := h.confined.seek? hseek
    exact ⟨hconfined, hroot.trans h.root_eq, h.agree⟩

/-- Writing changes a file inside, which both twins have. -/
theorem blind_writeFile (fd : UInt32) (data : Bytes) : Blind root (writeFile fd data) := by
  intro g u h
  refine follows_descriptor? ?_
  cases hget : g.descriptors.get? fd.toNat with
  | none => exact follows_throw h _
  | some d =>
    cases d with
    | directory path name => exact follows_throw h _
    | file path offset append =>
      have hsame : u.files[path]? = g.files.files[path]? := h.getElem?_eq hget
      have hwithin : isWithin root path := h.root_eq ▸ h.confined.isWithin _ _ hget
      refine follows_get ?_
      rw [withFiles_files, hsame]
      cases hold : g.files.files[path]? with
      | none => exact follows_throw h _
      | some old =>
        have hmem : path ∈ g.files.files :=
          Std.ExtTreeMap.mem_iff_isSome_getElem?.2 (hold ▸ rfl)
        dsimp only
        generalize (if append then old.length else offset) = start
        refine follows_unless h fun _ => follows_unless h fun _ => ?_
        -- first the file changes, then the descriptor moves on
        have hset : g.files.setFile path (overwrite old start data)
            = { g.files with files := g.files.files.insert path (overwrite old start data) } :=
          Tree.setFile_of_mem hmem _
        have hedit : Change g (g.withFiles (g.files.setFile path (overwrite old start data))) :=
          .edit (.inl ⟨_, _, _, hget⟩) (hset ▸ .set hmem _)
        have htwin : Twin root (g.withFiles (g.files.setFile path (overwrite old start data)))
            (u.setFile path (overwrite old start data)) :=
          ⟨h.confined, h.root_eq, h.agree.setFile hwithin hmem _⟩
        exact follows_modify (changes_seek.head hedit) rfl (htwin.seek fd.toNat _)

/-- Other data goes to the captures, which both twins have. -/
theorem blind_writeData (fd : UInt32) (data : Bytes) : Blind root (writeData fd data) := by
  refine blind_get fun g u h => ?_
  refine follows_ite (fun _ => follows_throw h _) fun _ => follows_ite (fun _ => ?_) fun _ =>
    follows_ite (fun _ => ?_) fun _ => blind_writeFile fd data g u h
  · refine (follows_modify (.single (.output data)) rfl ⟨h.confined, h.root_eq, h.agree⟩).bind
      fun _ g' u' _ h' => ?_
    exact follows_ite (fun _ => follows_throw h' _) fun _ => follows_pure h' _
  · refine (follows_modify (.single (.errors data)) rfl ⟨h.confined, h.root_eq, h.agree⟩).bind
      fun _ g' u' _ h' => ?_
    exact follows_ite (fun _ => follows_throw h' _) fun _ => follows_pure h' _

/-- Writing sees the descriptor and the file that it stands for. -/
theorem blind_fdWrite (fd buffers count written : UInt32) :
    Blind root (fdWrite fd buffers count written) := by
  refine (blind_onMemory _).bind fun buffers => blind_get fun g u h => ?_
  refine (blind_gather _ g u h).bind fun data g' u' _ h' => ?_
  exact ((blind_writeData fd data).bind fun _ => blind_writeWord _ _) g' u' h'

theorem blind_readInput (most : Nat) : Blind root (readInput most) := by
  refine blind_get fun g u h => ?_
  exact (follows_modify (.single (.input _)) rfl ⟨h.confined, h.root_eq, h.agree⟩).bind
    fun _ g' u' _ h' => follows_pure h' _

/-- Reading sees a file inside, which both twins have. -/
theorem blind_readFile (fd : UInt32) (most : Nat) : Blind root (readFile fd most) := by
  intro g u h
  refine follows_descriptor? ?_
  cases hget : g.descriptors.get? fd.toNat with
  | none => exact follows_throw h _
  | some d =>
    cases d with
    | directory path name => exact follows_throw h _
    | file path offset append =>
      have hsame : u.files[path]? = g.files.files[path]? := h.getElem?_eq hget
      refine follows_get ?_
      rw [withFiles_files, hsame]
      cases g.files.files[path]? with
      | none => exact follows_throw h _
      | some contents =>
        exact (follows_modify changes_seek rfl (h.seek fd.toNat _)).bind
          fun _ g' u' _ h' => follows_pure h' _

/-- So does reading into buffers. -/
theorem blind_fdRead (fd buffers count read : UInt32) : Blind root (fdRead fd buffers count read) := by
  refine (blind_onMemory _).bind fun buffers => ?_
  have hrest : ∀ data, Blind root (do
      scatter buffers data
      onMemory (GuestMemory.writeWord read.toNat (← word data.length))) :=
    fun data => (blind_scatter buffers data).bind fun _ => blind_writeWord _ _
  intro g u h
  refine follows_ite (fun _ => ((blind_readInput _).bind hrest) g u h) fun _ => ?_
  exact follows_unless h fun _ => ((blind_readFile fd _).bind hrest) g u h

/-- The offset is the descriptor's. -/
theorem blind_fdTell (fd offset : UInt32) : Blind root (fdTell fd offset) := by
  intro g u h
  refine follows_descriptor? ?_
  cases g.descriptors.get? fd.toNat with
  | none => exact follows_throw h _
  | some d =>
    cases d with
    | directory path name => exact follows_throw h _
    | file path here append => exact follows_onMemory h _

/-- Closing looks at no file. -/
theorem blind_fdClose (fd : UInt32) : Blind root (fdClose fd) := by
  intro g u h
  refine follows_ite (fun _ => follows_pure h _) fun _ => follows_descriptor? ?_
  refine follows_unless h fun _ => ?_
  exact follows_modify (.single (.closed _)) rfl ⟨h.confined.remove, h.root_eq, h.agree⟩

theorem blind_seekTo (fd offset : UInt32) (there : Int) : Blind root (seekTo fd offset there) := by
  intro g u h
  refine follows_unless h fun _ => follows_unless h fun _ => ?_
  exact (follows_modify changes_seek rfl (h.seek fd.toNat _)).bind
    fun _ g' u' _ h' => follows_onMemory h' _

/-- Seeking from the end sees the length of a file inside. -/
theorem blind_fdSeek (fd : UInt32) (delta : Int) (whence offset : UInt32) :
    Blind root (fdSeek fd delta whence offset) := by
  intro g u h
  refine follows_descriptor? ?_
  cases hget : g.descriptors.get? fd.toNat with
  | none => exact follows_throw h _
  | some d =>
    cases d with
    | directory path name => exact follows_throw h _
    | file path here append =>
      have hwithin : isWithin root path := h.root_eq ▸ h.confined.isWithin _ _ hget
      have hfrom : ∀ base : Nat, Follows root (seekTo fd offset (base + delta))
          (seekTo fd offset (base + delta)) g u := fun base => blind_seekTo fd offset _ g u h
      refine follows_ite (fun _ => hfrom 0) fun _ => follows_ite (fun _ => hfrom here) fun _ =>
        follows_ite (fun _ => follows_get ?_) fun _ => follows_throw h _
      rw [withFiles_files, ← h.agree.fileSize hwithin]
      exact hfrom _

/-! ## Facts about descriptors and paths -/

/-- Looking up the name of the directory that the guest starts in. -/
theorem blind_startName (fd : UInt32) : Blind root (startName fd) := by
  intro g u h
  refine follows_descriptor? ?_
  cases g.descriptors.get? fd.toNat with
  | none => exact follows_throw h _
  | some d =>
    cases d with
    | directory path name => exact follows_ite (fun _ => follows_pure h _) fun _ => follows_throw h _
    | file path here append => exact follows_throw h _

/-- The record of the root is about its name only. -/
theorem blind_fdPrestatGet (fd address : UInt32) : Blind root (fdPrestatGet fd address) :=
  (blind_startName fd).ofStep.bind fun _ => (blind_onMemory _).bind fun _ =>
    (blind_sum _ _).bind fun _ => (blind_word _).ofStep.bind fun _ => blind_onMemory _

theorem blind_fdPrestatDirName (fd address length : UInt32) :
    Blind root (fdPrestatDirName fd address length) :=
  (blind_startName fd).bind fun _ _ _ h => follows_unless h fun _ => follows_onMemory h _

/-- That of a descriptor is about what it stands for. -/
theorem blind_fdFdstatGet (fd address : UInt32) : Blind root (fdFdstatGet fd address) := by
  intro g u h
  refine follows_descriptor?_ofStep ?_
  cases g.descriptors.get? fd.toNat with
  | none => exact follows_ite (fun _ => follows_onMemory h _) fun _ => follows_throw h _
  | some d => cases d <;> exact follows_onMemory h _

/-- The size of a file within the root is the same for twins. -/
theorem follows_writePathFilestat (h : Twin root g u) {path : String} (hpath : isWithin root path)
    (address : UInt32) (kind : EntryKind) : Follows root (writePathFilestat address kind path)
      (writePathFilestat address kind path) g u := by
  refine follows_get ?_
  rw [withFiles_files, ← h.agree.fileSize hpath]
  exact follows_onMemory h _

/-- That of a file is about one inside. -/
theorem blind_fdFilestatGet (fd address : UInt32) : Blind root (fdFilestatGet fd address) := by
  intro g u h
  refine follows_descriptor?_ofStep ?_
  cases hget : g.descriptors.get? fd.toNat with
  | none => exact follows_ite (fun _ => follows_onMemory h _) fun _ => follows_throw h _
  | some d =>
    have hwithin : isWithin root d.path := h.root_eq ▸ h.confined.isWithin _ _ hget
    cases d <;> exact follows_writePathFilestat h hwithin address _

/-- A path leads inside, where twins have the same files. -/
theorem blind_pathFilestatGet (fd path length address : UInt32) :
    Blind root (pathFilestatGet fd path length address) := by
  intro g u h
  refine ((blind_resolve fd path length).ofStep g u h).bind fun resolved g' u' hrun h' =>
    follows_get ?_
  have hwithin := h'.isWithin_names (names_of_resolve (PanicM.of_liftM_apply_eq_ok hrun))
  rw [withFiles_files, ← h'.agree.kind? hwithin]
  cases g'.files.kind? resolved with
  | none => exact follows_throw h' _
  | some kind => exact follows_writePathFilestat h' hwithin address kind

/-! ## Opening, removing and listing -/

/-- What is unlinked is inside. -/
theorem blind_pathUnlinkFile (fd path length : UInt32) :
    Blind root (pathUnlinkFile fd path length) := by
  intro g u h
  refine follows_resolve h fun resolved g' u' hnames h' => ?_
  exact follows_updateFiles h' hnames (fun _ => Tree.edit_of_removeFile)
    (h'.agree.removeFile (h'.isWithin_names hnames))

/-- What is made is inside. -/
theorem blind_pathCreateDirectory (fd path length : UInt32) :
    Blind root (pathCreateDirectory fd path length) := by
  intro g u h
  refine follows_resolve h fun resolved g' u' hnames h' => ?_
  exact follows_updateFiles h' hnames (fun _ => Tree.edit_of_makeDirectory)
    (h'.agree.makeDirectory (h'.isWithin_names hnames))

/-- What is listed is inside. -/
theorem blind_fdReaddir (fd buffer length : UInt32) (cookie : Nat) (used : UInt32) :
    Blind root (fdReaddir fd buffer length cookie used) := by
  intro g u h
  refine follows_descriptor? ?_
  cases hget : g.descriptors.get? fd.toNat with
  | none => exact follows_throw h _
  | some d =>
    cases d with
    | file path here append => exact follows_throw h _
    | directory path name =>
      have hwithin : isWithin root path := h.root_eq ▸ h.confined.isWithin _ _ hget
      refine follows_get ?_
      simp only [withFiles_files, listing, Tree.children_eq_entries, h.agree.entries hwithin]
      refine follows_lift h (.refl _) ?_
      rintro data _ - rfl
      exact ((blind_onMemory _).bind fun _ => blind_writeWord _ _) g u h

/-- What is opened is inside, and so is what it makes. -/
theorem blind_pathOpen (fd path length openFlags fdFlags address : UInt32) :
    Blind root (pathOpen fd path length openFlags fdFlags address) := by
  refine (blind_onMemory _).bind fun _ g u h => ?_
  refine follows_resolve h fun resolved g' u' hnames h' => ?_
  cases OpenFlags.ofBits? openFlags with
  | none => exact follows_throw h' _
  | some flags =>
    refine follows_unless h' fun _ => follows_get ?_
    rw [withFiles_files, withFiles_descriptors]
    -- the tree changes first, and the descriptor is stored after it
    refine follows_lift h' (h'.agree.openEntry (h'.isWithin_names hnames) flags _) ?_
    rintro ⟨d, files⟩ ⟨_, files'⟩ hopen ⟨rfl, hagree⟩
    obtain ⟨hpath, hfiles⟩ := edit_of_openEntry hopen
    have hchanges : ReflTransGen Change g' (g'.withFiles files) := by
      rcases hfiles with rfl | hfiles
      · exact .refl
      · exact .single (.edit hnames hfiles)
    have htwin : Twin root (g'.withFiles files) files' := ⟨h'.confined, h'.root_eq, hagree⟩
    refine Follows.bind (follows_modify hchanges rfl htwin) fun _ g'' u'' hrun htwin' => ?_
    cases hrun
    refine follows_lift htwin' (.refl _) ?_
    rintro ⟨number, descriptors⟩ _ hinsert rfl
    have hnamed : g'.descriptors.Names d.path := hpath.symm ▸ hnames
    obtain ⟨hconfined, hroot⟩ := h'.confined.insert hnamed hinsert
    refine Follows.bind (follows_modify (.single (.opened hnamed hinsert)) rfl
      ⟨hconfined, hroot.trans h'.root_eq, htwin'.agree⟩) fun _ _ _ _ htwin'' => ?_
    exact follows_onMemory htwin'' _

end Sandshell.Guest
