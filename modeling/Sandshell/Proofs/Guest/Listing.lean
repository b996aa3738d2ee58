import Mathlib.Data.String.Basic
import Sandshell.Proofs.Guest.Answer
import Sandshell.Proofs.Guest.Dirent
import Sandshell.Proofs.Guest.Numbering
import Sandshell.Proofs.Tree.Entries

/-!
# Listing a directory

A listing call stores the records of a directory from a place on, as many bytes of them as there is
room for. A guest that goes on from the place that the last complete record names, until the buffer is
not full any more, finds every entry once.
-/

namespace Sandshell

open Sandshell.Path (IsName)
open Relation (ReflTransGen)

/-! ## Records of a directory -/

/-- What the record of an entry tells. -/
def Dirent.ofEntry (directory : String) (entry : DirEntry) (next : Nat) : Dirent where
  next
  number := (inode (Path.join directory entry.name)).toNat
  kind := entry.kind.number
  name := Bytes.ofString entry.name

theorem direntBytes_eq (directory : String) (entry : DirEntry) (next : Nat) :
    Guest.direntBytes directory entry next = (Dirent.ofEntry directory entry next).encode := by
  unfold Guest.direntBytes Dirent.encode Dirent.header Dirent.ofEntry
  simp only [List.append_assoc]

namespace Tree

variable {t : Tree} {d : String} {cookie : Nat}

/-- The records of a directory from a place on. -/
def dirents (t : Tree) (directory : String) (cookie : Nat) : List Dirent :=
  (((t.entries directory).zipIdx 1).drop cookie).map fun (entry, next) =>
    .ofEntry directory entry next

/-- The bytes of the longest name in a directory. -/
def longestName (t : Tree) (directory : String) : Nat :=
  ((t.entries directory).map fun entry => (Bytes.ofString entry.name).length).foldr max 0

/-- Listing from a place on leaves out what comes before it. -/
theorem dirents_eq_drop (t : Tree) (d : String) (cookie : Nat) :
    t.dirents d cookie = (t.dirents d 0).drop cookie := by
  rw [dirents, dirents, List.drop_zero, List.map_drop]

theorem length_dirents (t : Tree) (d : String) :
    (t.dirents d 0).length = (t.entries d).length := by
  rw [dirents, List.length_map, List.drop_zero, List.length_zipIdx]

/-- Every record names the place after it. -/
theorem getElem?_dirents (t : Tree) (d : String) (n : Nat) :
    (t.dirents d 0)[n]? = (t.entries d)[n]?.map fun entry => Dirent.ofEntry d entry (n + 1) := by
  rw [dirents, List.drop_zero, List.getElem?_map, List.getElem?_zipIdx, Option.map_map,
    Nat.add_comm n 1]
  rfl

/-- No name in a directory is longer than the longest. -/
theorem length_le_longestName {entry : DirEntry} (h : entry ∈ t.entries d) :
    (Bytes.ofString entry.name).length ≤ t.longestName d := by
  rw [longestName]
  generalize t.entries d = entries at h
  induction entries with
  | nil => cases h
  | cons first rest ih =>
    rw [List.map_cons, List.foldr_cons]
    rcases List.mem_cons.1 h with rfl | hrest
    · exact le_max_left _ _
    · exact (ih hrest).trans (le_max_right _ _)

/-- Each record is that of an entry, and names the place after it. -/
theorem exists_of_mem_dirents {x : Dirent} (hx : x ∈ t.dirents d cookie) :
    ∃ n entry, (t.entries d)[n]? = some entry ∧ x = .ofEntry d entry (n + 1) := by
  rw [dirents_eq_drop] at hx
  obtain ⟨n, hn⟩ := List.mem_iff_getElem?.1 (List.mem_of_mem_drop hx)
  rw [getElem?_dirents, Option.map_eq_some_iff] at hn
  obtain ⟨entry, hentry, heq⟩ := hn
  exact ⟨n, entry, hentry, heq.symm⟩

theorem length_name_le {x : Dirent} (hx : x ∈ t.dirents d cookie) :
    x.name.length ≤ t.longestName d := by
  obtain ⟨n, entry, hentry, rfl⟩ := exists_of_mem_dirents hx
  exact length_le_longestName (List.mem_of_getElem? hentry)

/-- All records fit into their fields where names and the number of entries do. -/
theorem fits_of_mem_dirents (hcount : (t.entries d).length < 2 ^ 64)
    (hname : t.longestName d < 2 ^ 32) {x : Dirent} (hx : x ∈ t.dirents d cookie) : x.Fits := by
  have hlength := length_name_le hx
  obtain ⟨n, entry, hentry, rfl⟩ := exists_of_mem_dirents hx
  have hlt : n < (t.entries d).length := (List.getElem?_eq_some_iff.1 hentry).1
  exact ⟨by show n + 1 < _; omega, UInt64.toNat_lt _, hlength.trans_lt hname⟩

end Tree

/-! ## The call -/

namespace Guest

variable {g g' : Guest} {t : Tree} {d name : String} {cookie room : Nat} {data : Bytes}
variable {fd buffer length used : UInt32}

/-- The records are cut at the room that there is for them, unless one of them has a name that is
too long for its field. -/
theorem records_cases (d : String) (l : List (DirEntry × Nat)) (room : Nat) :
    (records d room l).map (·.take room)
        = .ok ((l.flatMap fun (entry, next) => direntBytes d entry next).take room)
      ∨ records d room l = .error .overflow
        ∧ ∃ e ∈ l, 2 ^ 32 ≤ (Bytes.ofString e.1.name).length := by
  induction l generalizing room with
  | nil =>
    rw [records]
    exact .inl rfl
  | cons e rest ih =>
    obtain ⟨entry, next⟩ := e
    rw [records]
    split
    · next hroom =>
      rw [hroom, List.take_zero]
      exact .inl rfl
    split
    · next hlong => exact .inr ⟨rfl, (entry, next), List.mem_cons_self, hlong⟩
    · rw [return_eq_map, List.flatMap_cons, List.take_append]
      rcases ih (room - (direntBytes d entry next).length) with hok | ⟨herror, e, he, hlong⟩
      · obtain ⟨data, hdata, htake⟩ := exists_of_map_eq_ok hok
        rw [hdata, ← htake, ← List.take_append]
        exact .inl rfl
      · rw [herror]
        exact .inr ⟨rfl, e, List.mem_cons_of_mem _ he, hlong⟩

/-- A listing gives as much of the records as there is room for, unless a name is too long to say
so. -/
theorem listing_cases (t : Tree) (d : String) (cookie room : Nat) :
    listing t d cookie room = .ok (((t.dirents d cookie).flatMap Dirent.encode).take room)
      ∨ listing t d cookie room = .error .overflow ∧ 2 ^ 32 ≤ t.longestName d := by
  rcases records_cases d (((t.entries d).zipIdx 1).drop cookie) room
    with hok | ⟨herror, e, he, hlong⟩
  · left
    simp only [listing, Tree.children_eq_entries, hok, Tree.dirents, List.flatMap_map, direntBytes_eq]
  · right
    have hentry : e.1 ∈ t.entries d := List.fst_mem_of_mem_zipIdx (List.mem_of_mem_drop he)
    refine ⟨?_, hlong.trans (Tree.length_le_longestName hentry)⟩
    rw [listing, Tree.children_eq_entries, herror]
    rfl

/-- The guest with data put into a buffer, and its length at an address. -/
def received (g : Guest) (buffer used : UInt32) (data : Bytes) : Guest :=
  { g with
    memory := (g.memory.store buffer.toNat data).store used.toNat
      (Bytes.littleEndian 4 data.length) }

/-- A listing is stored with its length; where the length cannot be stored, the records already
are. -/
theorem fdReaddir_apply (hget : g.descriptors.get? fd.toNat = some (.directory d name))
    (buffer length used : UInt32) (cookie : Nat) :
    fdReaddir fd buffer length cookie used g = match listing g.files d cookie length.toNat with
      | .error e => (.error e, g)
      | .ok data =>
        if g.memory.holds buffer.toNat data.length then
          if g.memory.holds used.toNat 4 then (.ok (), g.received buffer used data)
          else (.error .fault, { g with memory := g.memory.store buffer.toNat data })
        else (.error .fault, g) := by
  have hfd : fdReaddir fd buffer length cookie used g = (do
      let data ← liftM (listing g.files d cookie length.toNat)
      onMemory (GuestMemory.write buffer.toNat data)
      onMemory (GuestMemory.writeWord used.toNat (← word data.length)) : CallM Unit) g := by
    have hfound : descriptor? fd g = (.ok (some (.directory d name)), g) := by
      rw [← hget]
      rfl
    have hself : (get : CallM Guest) g = (.ok g, g) := rfl
    rw [fdReaddir, bind_apply_ok hfound]
    exact bind_apply_ok hself
  rw [hfd]
  cases hlisting : listing g.files d cookie length.toNat with
  | error e => rfl
  | ok data =>
    -- no more is taken than there is room for, so that the length is a word
    have hlength : data.length < 2 ^ 32 := by
      obtain ⟨all, -, rfl⟩ := exists_of_map_eq_ok hlisting
      exact (List.length_take_le _ _).trans_lt length.toNat_lt
    have hbuffer := onMemory_write_apply hlength buffer.toNat g
    show (onMemory (GuestMemory.write buffer.toNat data) >>= _ : CallM Unit) g = _
    dsimp only
    split
    · next hholds =>
      rw [if_pos hholds] at hbuffer
      rw [bind_apply_ok hbuffer, writeWord_apply hlength, GuestMemory.holds_store]
      rfl
    · next hholds =>
      rw [if_neg hholds] at hbuffer
      exact bind_apply_error hbuffer

end Guest

/-! ## A turn of the loop -/

/-- The arguments of a listing call but for the place; buffer and word have no byte in common. -/
structure ListingBuffer where
  fd : UInt32
  start : UInt32
  length : UInt32
  used : UInt32
  apart : GuestMemory.Apart start.toNat length.toNat used.toNat 4

namespace ListingBuffer

variable {b : ListingBuffer} {g g' : Guest} {t : Tree} {d : String} {cookie : Nat} {data : Bytes}

/-- The call. -/
def call (b : ListingBuffer) (cookie : Nat) : SystemCall :=
  .fdReaddir b.fd b.start b.length cookie b.used

/-- What the call answers. -/
def answer (b : ListingBuffer) (g : Guest) (cookie : Nat) : Except Ending Nat :=
  (((b.call cookie).run true).run g).1

/-- The guest after the call. -/
def after (b : ListingBuffer) (g : Guest) (cookie : Nat) : Guest :=
  (((b.call cookie).run true).run g).2

/-- How many bytes were stored, as the guest finds it. -/
def filled (b : ListingBuffer) (g : Guest) : Nat :=
  (g.memory.area b.used.toNat 4).toNumber

/-- The complete records that the guest finds. -/
def found (b : ListingBuffer) (g : Guest) : List Dirent :=
  Dirent.readAll (g.memory.area b.start.toNat (b.filled g))

/-- The bytes that are stored of a directory from a place on. -/
def stored (b : ListingBuffer) (t : Tree) (d : String) (cookie : Nat) : Bytes :=
  ((t.dirents d cookie).flatMap Dirent.encode).take b.length.toNat

/-- The files are those of the tree, the descriptor is the directory, and both areas lie in
memory. -/
structure Ready (b : ListingBuffer) (t : Tree) (d : String) (g : Guest) : Prop where
  files_eq : g.files = t
  exists_get? : ∃ name, g.descriptors.get? b.fd.toNat = some (.directory d name)
  holds_start : g.memory.holds b.start.toNat b.length.toNat
  holds_used : g.memory.holds b.used.toNat 4

theorem length_stored_le (b : ListingBuffer) (t : Tree) (d : String) (cookie : Nat) :
    (b.stored t d cookie).length ≤ b.length.toNat :=
  List.length_take_le _ _

theorem length_stored_lt (b : ListingBuffer) (t : Tree) (d : String) (cookie : Nat) :
    (b.stored t d cookie).length < 2 ^ 32 :=
  (b.length_stored_le t d cookie).trans_lt b.length.toNat_lt

/-- The length that is stored is that of the data. -/
theorem filled_received (b : ListingBuffer) (g : Guest) (hdata : data.length < 2 ^ 32) :
    b.filled (g.received b.start b.used data) = data.length :=
  GuestMemory.toNumber_area_store _ _ hdata

/-- The buffer begins with the data. -/
theorem area_received (b : ListingBuffer) (g : Guest) (hdata : data.length ≤ b.length.toNat) :
    (g.received b.start b.used data).memory.area b.start.toNat data.length = data := by
  have hapart : GuestMemory.Apart b.start.toNat data.length b.used.toNat
      (Bytes.littleEndian 4 data.length).length := by
    rw [Bytes.length_littleEndian]
    exact b.apart.imp (fun hbefore => by omega) id
  rw [Guest.received, GuestMemory.area_store_of_apart hapart, GuestMemory.area_store]

/-- The call stores the first bytes of the records, unless it finds a name of 2^32 bytes or more. -/
theorem Ready.run_call (h : b.Ready t d g) (hg : g.mounted = false) (cookie : Nat) :
    ((b.call cookie).run true).run g = (.ok 0, g.received b.start b.used (b.stored t d cookie))
      ∨ ((b.call cookie).run true).run g = (.ok Errno.overflow.number, g)
        ∧ 2 ^ 32 ≤ t.longestName d := by
  obtain ⟨name, hget⟩ := h.exists_get?
  have hanswer := Guest.fdReaddir_apply hget b.start b.length b.used cookie
  rw [h.files_eq] at hanswer
  rcases Guest.listing_cases t d cookie b.length.toNat with hok | ⟨herror, hlong⟩
  · have hstart : g.memory.holds b.start.toNat (b.stored t d cookie).length :=
      GuestMemory.holds_mono h.holds_start
        (Nat.add_le_add_left (b.length_stored_le t d cookie) _)
    rw [hok] at hanswer
    change _ = if g.memory.holds b.start.toNat (b.stored t d cookie).length then _ else _ at hanswer
    rw [if_pos hstart, if_pos h.holds_used] at hanswer
    exact .inl (SystemCall.run_eq_zero (PanicM.liftM_apply_ok hanswer) hg rfl)
  · rw [herror] at hanswer
    exact .inr ⟨SystemCall.run_eq_number (PanicM.liftM_apply_error hanswer) hg rfl, hlong⟩

/-- A turn of a guest with room for every record: what it finds are the complete ones. -/
structure Turned (b : ListingBuffer) (t : Tree) (d : String) (g : Guest) (cookie : Nat) : Prop where
  answer_eq : b.answer g cookie = .ok 0
  after_eq : b.after g cookie = g.received b.start b.used (b.stored t d cookie)
  filled_eq : b.filled (b.after g cookie) = (b.stored t d cookie).length
  found_eq : b.found (b.after g cookie) = Dirent.complete b.length.toNat (t.dirents d cookie)

/-- A guest that is ready takes a turn from every cookie. -/
theorem Ready.turned (h : b.Ready t d g) (hg : g.mounted = false)
    (hcount : (t.entries d).length < 2 ^ 64) (hroom : 24 + t.longestName d ≤ b.length.toNat)
    (cookie : Nat) : b.Turned t d g cookie := by
  have hname : t.longestName d < 2 ^ 32 := by
    have hlength := b.length.toNat_lt
    omega
  have hrun := (h.run_call hg cookie).resolve_right fun hlong => Nat.not_lt_of_le hlong.2 hname
  have hafter : b.after g cookie = g.received b.start b.used (b.stored t d cookie) :=
    congrArg Prod.snd hrun
  have hfilled : b.filled (b.after g cookie) = (b.stored t d cookie).length := by
    rw [hafter, b.filled_received g (b.length_stored_lt t d cookie)]
  refine ⟨congrArg Prod.fst hrun, hafter, hfilled, ?_⟩
  rw [found, hfilled, hafter, b.area_received g (b.length_stored_le t d cookie), stored]
  exact Dirent.readAll_take (fun x hx => Tree.fits_of_mem_dirents hcount hname hx) _

end ListingBuffer

/-- The records that come first from a place on, and the place that the last one of them names. -/
theorem Tree.dirents_eq_append {t : Tree} {d : String} {cookie : Nat} {found : List Dirent}
    {x : Dirent} (hfound : found <+: t.dirents d cookie) (hlast : found.getLast? = some x) :
    x.next = cookie + found.length
      ∧ t.dirents d cookie = found ++ t.dirents d (cookie + found.length) := by
  obtain ⟨rest, hrest⟩ := hfound
  have hne : found ≠ [] := by
    rintro rfl
    cases hlast
  have hpos : 0 < found.length := List.length_pos_iff.2 hne
  constructor
  · have hx : (t.dirents d cookie)[found.length - 1]? = some x := by
      rw [← hrest, List.getElem?_append_left (by omega), ← List.getLast?_eq_getElem?, hlast]
    rw [dirents_eq_drop, List.getElem?_drop, getElem?_dirents, Option.map_eq_some_iff] at hx
    obtain ⟨entry, -, rfl⟩ := hx
    show cookie + (found.length - 1) + 1 = _
    omega
  · rw [dirents_eq_drop t d (cookie + found.length), ← List.drop_drop, ← dirents_eq_drop, ← hrest,
      List.drop_left]

/-! ## The loop -/

namespace ListingBuffer

variable {b : ListingBuffer} {files : FileSet} {r : GuestRequest} {g g' : Guest} {t : Tree}
variable {d : String} {cookie : Nat}

/-- Where room is left, the guest finds all records from the place on. -/
theorem Turned.found_eq_of_lt (h : b.Turned t d g cookie)
    (hleft : b.filled (b.after g cookie) < b.length.toNat) :
    b.found (b.after g cookie) = t.dirents d cookie :=
  h.found_eq.trans (Dirent.complete_eq_self (h.filled_eq ▸ hleft))

/-- A full buffer that any one record fits into has a complete one, and the last of these names the
place from which the rest follows. -/
theorem Turned.exists_getLast (h : b.Turned t d g cookie)
    (hroom : 24 + t.longestName d ≤ b.length.toNat)
    (hfull : b.length.toNat ≤ b.filled (b.after g cookie)) :
    ∃ x, (b.found (b.after g cookie)).getLast? = some x
      ∧ x.next = cookie + (b.found (b.after g cookie)).length
      ∧ b.found (b.after g cookie) ≠ []
      ∧ t.dirents d cookie = b.found (b.after g cookie) ++ t.dirents d x.next := by
  have hne : b.found (b.after g cookie) ≠ [] := by
    rw [h.filled_eq, stored] at hfull
    rw [h.found_eq]
    cases hall : t.dirents d cookie with
    | nil =>
      rw [hall, List.flatMap_nil, List.take_nil, List.length_nil] at hfull
      omega
    | cons x rest =>
      have hx : x ∈ t.dirents d cookie := hall ▸ List.mem_cons_self
      have hlength := Tree.length_name_le hx
      exact Dirent.complete_ne_nil (by rw [Dirent.length_encode]; omega)
  have hprefix : b.found (b.after g cookie) <+: t.dirents d cookie :=
    h.found_eq ▸ Dirent.complete_prefix b.length.toNat _
  have hlast := List.getLast?_eq_some_getLast hne
  obtain ⟨hnext, happend⟩ := Tree.dirents_eq_append hprefix hlast
  exact ⟨_, hlast, hnext, hne, hnext ▸ happend⟩

/-- A turn of the loop: the files at the call, the place, and the records that the guest finds. -/
structure Turn where
  files : Tree
  place : Nat
  found : List Dirent

/-- The turn of a guest at a place. -/
def turn (b : ListingBuffer) (g : Guest) (place : Nat) : Turn where
  files := g.files
  place
  found := b.found (b.after g place)

/-- However a guest pauses between its calls, the loop from a place on ends, and its turns are as
stated: it ends when the buffer is not full, and else goes on from the place that the last complete
record names. -/
inductive Ends (b : ListingBuffer) (pause : Guest → Guest → Prop) :
    Guest → Nat → (List Turn → Prop) → Prop
  | last {g : Guest} {place : Nat} {P : List Turn → Prop} (hanswer : b.answer g place = .ok 0)
    (hleft : b.filled (b.after g place) < b.length.toNat) (hturns : P [b.turn g place]) :
    Ends b pause g place P
  | more {g : Guest} {place : Nat} {P : List Turn → Prop} {x : Dirent}
    (hanswer : b.answer g place = .ok 0)
    (hfull : b.length.toNat ≤ b.filled (b.after g place))
    (hlast : (b.found (b.after g place)).getLast? = some x)
    (hrest : ∀ g', pause (b.after g place) g' →
      Ends b pause g' x.next fun rest => P (b.turn g place :: rest)) : Ends b pause g place P

/-- What a weaker statement needs a stronger one gives. -/
theorem Ends.imp {pause : Guest → Guest → Prop} {P Q : List Turn → Prop}
    (h : b.Ends pause g cookie P) (himp : ∀ turns, P turns → Q turns) : b.Ends pause g cookie Q := by
  induction h generalizing Q with
  | last hanswer hleft hturns => exact .last hanswer hleft (himp _ hturns)
  | more hanswer hfull hlast _ ih =>
    exact .more hanswer hfull hlast fun g' hpause => ih g' hpause fun rest => himp _

/-- Acts that leave the files, the descriptor and the two areas. -/
def Idles (b : ListingBuffer) (t : Tree) (d : String) (g g' : Guest) : Prop :=
  ReflTransGen Guest.Act g g' ∧ b.Ready t d g'

/-- By induction on the number of records that are left. -/
theorem ends_of_idles (h : Guest.Reached files r g) (hready : b.Ready t d g)
    (hcount : (t.entries d).length < 2 ^ 64) (hroom : 24 + t.longestName d ≤ b.length.toNat) :
    b.Ends (b.Idles t d) g cookie fun turns => turns.flatMap Turn.found = t.dirents d cookie := by
  induction hn : (t.dirents d cookie).length using Nat.strong_induction_on generalizing g cookie with
  | h n ih =>
    have hturned := hready.turned h.not_mounted hcount hroom cookie
    by_cases hleft : b.filled (b.after g cookie) < b.length.toNat
    · refine .last hturned.answer_eq hleft ?_
      rw [List.flatMap_singleton]
      exact hturned.found_eq_of_lt hleft
    · rw [Nat.not_lt] at hleft
      obtain ⟨x, hlast, hnext, hne, happend⟩ := hturned.exists_getLast hroom hleft
      refine .more hturned.answer_eq hleft hlast fun g' hidles => ?_
      have hreached : Guest.Reached files r g' := (h.call true (b.call cookie)).trans hidles.1
      have hpos := List.length_pos_iff.2 hne
      have hrest := ih (t.dirents d x.next).length
        (by rw [← hn, happend, List.length_append]; omega) hreached hidles.2 rfl
      refine hrest.imp fun rest hfound => ?_
      rw [List.flatMap_cons, hfound]
      exact happend.symm

end ListingBuffer

/-! ## What the records tell -/

namespace Guest

variable {files : FileSet} {r : GuestRequest} {g : Guest} {d name : String}

/-- A record tells inode number and kind as the call on the path of the entry does. -/
theorem Reached.filestat_of_dirent (h : Reached files r g) {fd path length address : UInt32}
    (hget : g.descriptors.get? fd.toNat = some (.directory d name)) {x : Dirent}
    (hx : x ∈ g.files.dirents d 0) (hholds : g.memory.holds path.toNat length.toNat)
    (hname : g.memory.area path.toNat length.toNat = x.name)
    (haddress : HoldsFilestat g.memory address) :
    ∃ g', ((SystemCall.pathFilestatGet fd path length address).run true).run g = (.ok 0, g')
      ∧ (g'.memory.area (address.toNat + 8) 8).toNumber = x.number
      ∧ g'.memory.byte (address.toNat + 16) = x.kind := by
  obtain ⟨n, entry, hentry, rfl⟩ := Tree.exists_of_mem_dirents hx
  obtain ⟨hentryName, hkind⟩ := h.wellFormed_files.of_mem_entries (List.mem_of_getElem? hentry)
  have htext : g.memory.textAt path.toNat length.toNat = .ok entry.name := by
    have hbytes : g.memory.area path.toNat length.toNat = Bytes.ofString entry.name := hname
    rw [GuestMemory.textAt, if_pos hholds, hbytes, Bytes.text?_ofString]
  have htarget : g.target fd path length = .ok (Path.join d entry.name) := by
    have hresolve := h.confined.resolve_names hget (by simpa using hentryName)
      (List.cons_ne_nil entry.name [])
    rw [Path.ofSegments_singleton] at hresolve
    rw [target, htext]
    exact hresolve
  exact ⟨_, SystemCall.run_eq_zero (pathFilestatGet_apply htarget hkind haddress) h.not_mounted rfl,
    number_withFilestat _ _ _ _ (UInt64.toNat_lt _), kind_withFilestat _ _ _ _ _⟩

end Guest

namespace ListingBuffer

variable {b : ListingBuffer} {files : FileSet} {r : GuestRequest} {g : Guest} {t : Tree} {d : String}

/-- A call stores the records of a directory from a place on, as far as they fit. So a guest that
goes on from the last complete record finds each entry of the directory once and in order, with the
inode number and the kind that the call on its path tells. -/
theorem finds_each_entry (h : Guest.Reached files r g) (hready : b.Ready t d g) :
    (∀ cookie,
        (∃ g', ((b.call cookie).run true).run g = (.ok 0, g')
          ∧ g' = g.received b.start b.used (b.stored t d cookie)
          ∧ b.filled g' = (b.stored t d cookie).length
          ∧ g'.memory.area b.start.toNat (b.filled g') = b.stored t d cookie)
        ∨ ((b.call cookie).run true).run g = (.ok Errno.overflow.number, g)
          ∧ 2 ^ 32 ≤ t.longestName d)
      ∧ ((t.entries d).length < 2 ^ 64 → 24 + t.longestName d ≤ b.length.toNat →
        b.Ends (b.Idles t d) g 0 fun turns => turns.flatMap Turn.found = t.dirents d 0)
      ∧ (t.dirents d 0).map Dirent.name = (t.entries d).map (fun entry => Bytes.ofString entry.name)
      ∧ (t.entries d).Pairwise (fun entry entry' => entry.name < entry'.name)
      ∧ (∀ name kind, ⟨name, kind⟩ ∈ t.entries d
        ↔ '/' ∉ name.toList ∧ name ≠ "" ∧ t.kind? (Path.join d name) = some kind)
      ∧ ∀ x ∈ t.dirents d 0, ∀ g' path length address, b.Idles t d g g' →
        g'.memory.holds path.toNat length.toNat → g'.memory.area path.toNat length.toNat = x.name →
        Guest.HoldsFilestat g'.memory address →
        ∃ g'', ((SystemCall.pathFilestatGet b.fd path length address).run true).run g' = (.ok 0, g'')
          ∧ (g''.memory.area (address.toNat + 8) 8).toNumber = x.number
          ∧ g''.memory.byte (address.toNat + 16) = x.kind := by
  refine ⟨fun cookie => ?_, fun hcount hroom => ends_of_idles h hready hcount hroom, ?_,
    t.pairwise_entries d, fun name kind => ?_, ?_⟩
  -- one call stores as much of the listing as there is room for
  · refine (hready.run_call h.not_mounted cookie).imp (fun hrun => ⟨_, hrun, rfl, ?_⟩) id
    have hfilled := b.filled_received g (b.length_stored_lt t d cookie)
    exact ⟨hfilled, hfilled ▸ b.area_received g (b.length_stored_le t d cookie)⟩
  · have hentries : ((t.entries d).zipIdx 1).map Prod.fst = t.entries d := List.zipIdx_map_fst 1 _
    conv_rhs => rw [← hentries]
    rw [Tree.dirents, List.drop_zero, List.map_map, List.map_map]
    rfl
  · exact (hready.files_eq ▸ h.wellFormed_files).mem_entries_iff
  -- between the calls nothing changes what a path stands for
  · intro x hx g' path length address hidles hholds hname haddress
    obtain ⟨name, hget⟩ := hidles.2.exists_get?
    exact (h.trans hidles.1).filestat_of_dirent hget (hidles.2.files_eq.symm ▸ hx) hholds hname
      haddress

/-- Three empty files in the root. -/
def threeFiles : FileSet :=
  (((∅ : FileSet).insert "a" []).insert "b" []).insert "c" []

/-- A buffer for one record and the most of another one. -/
def narrow : ListingBuffer where
  fd := 3
  start := 1024
  length := 40
  used := 512
  apart := .inr (by decide)

theorem ready_narrow :
    narrow.Ready ⟨threeFiles, ∅⟩ "" (Guest.startWith threeFiles "a") where
  files_eq := Tree.ensureDirectory_eq_self (Tree.isDirectory_root _)
  exists_get? := ⟨".", DescriptorTable.get?_ofRoot ""⟩
  holds_start := by decide +kernel
  holds_used := by decide +kernel

/-- A guest with this buffer finds the three files. -/
theorem finds_each_entry_narrow :
    Guest.Reached threeFiles (Guest.inRoot threeFiles) (Guest.startWith threeFiles "a")
      ∧ narrow.Ready ⟨threeFiles, ∅⟩ "" (Guest.startWith threeFiles "a")
      ∧ narrow.Ends (narrow.Idles ⟨threeFiles, ∅⟩ "") (Guest.startWith threeFiles "a") 0
        fun turns => turns.flatMap Turn.found = [⟨1, (inode "a").toNat, 4, [97]⟩,
          ⟨2, (inode "b").toNat, 4, [98]⟩, ⟨3, (inode "c").toNat, 4, [99]⟩] := by
  have hreached : Guest.Reached threeFiles (Guest.inRoot threeFiles)
      (Guest.startWith threeFiles "a") := Guest.reached_startWith (by decide +kernel) "a"
  have hends := (finds_each_entry hreached ready_narrow).2.1 (by decide +kernel) (by decide +kernel)
  have hdirents : (⟨threeFiles, ∅⟩ : Tree).dirents "" 0 = [⟨1, (inode "a").toNat, 4, [97]⟩,
      ⟨2, (inode "b").toNat, 4, [98]⟩, ⟨3, (inode "c").toNat, 4, [99]⟩] := by decide +kernel
  exact ⟨hreached, ready_narrow, hdirents ▸ hends⟩

end ListingBuffer

end Sandshell
