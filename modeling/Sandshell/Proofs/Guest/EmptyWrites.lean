import Sandshell.Proofs.Guest.Opening
import Sandshell.Proofs.Guest.Transfers

/-!
# Writes of nothing

A write to a file begins at its offset, and a gap in front of it is filled with zeros. Where there is
nothing to write the gap is filled all the same: so an offset behind the end of a file, and a write
without any data, make the file longer. In all other places a write of nothing leaves files alone.
-/

namespace Sandshell

namespace Guest

open Sandshell.GuestMemory (room)

variable {start g g' g₁ : Guest} {fd buffers count written : UInt32} {receipt : Receipt}

/-- Where nothing is put, only the gap in front of it is filled. -/
theorem overwrite_nil (old : Bytes) (start : Nat) :
    overwrite old start [] = old ++ List.replicate (start - old.length) 0 := by
  rw [overwrite, List.append_nil, List.length_nil, Nat.add_zero]
  by_cases hgap : old.length ≤ start
  · rw [List.take_of_length_le hgap, List.drop_of_length_le hgap, List.append_nil]
  · have hnone : start - old.length = 0 := by omega
    rw [hnone, List.replicate_zero, List.append_nil, List.append_nil, List.take_append_drop]

namespace OpenFile

/-- The descriptor does not append and is behind the end of its file, at a place that a file of this
guest may reach. -/
structure Past (o : OpenFile g fd) : Prop where
  append_eq : o.append = false
  length_lt : o.contents.length < o.offset
  offset_lt : o.offset < 2 ^ 64
  offset_le : o.offset ≤ g.maxFile

theorem Past.start_eq {o : OpenFile g fd} (h : o.Past) : o.start = o.offset := by
  rw [start, h.append_eq]
  rfl

/-- Writing no bytes fills the gap up to the offset with zeros and leaves other files as they
are. -/
theorem getElem?_written_nil (o : OpenFile g fd) (path : String) :
    (o.written []).files.files[path]? =
      if path = o.path then some (o.contents ++ List.replicate (o.start - o.contents.length) 0)
      else g.files.files[path]? := by
  rw [← overwrite_nil]
  exact Tree.getElem?_setFile o.mem_files _ path

/-- Nothing is filled but where the descriptor is behind the end. -/
theorem getElem?_written_nil_of_not_past {o : OpenFile g fd} (h : ¬ o.Past)
    (hend : o.start < 2 ^ 64) (hfits : o.start ≤ g.maxFile) (path : String) :
    (o.written []).files.files[path]? = g.files.files[path]? := by
  -- a gap is in front of a write only if the descriptor is past the end
  have hnone : o.start - o.contents.length = 0 := by
    by_contra hgap
    have happend : o.append = false := by
      by_contra hnot
      rw [start, if_pos (Bool.eq_true_of_not_eq_false hnot)] at hgap
      omega
    have hstart : o.start = o.offset := by
      rw [start, happend]
      rfl
    exact h ⟨happend, by omega, by omega, by omega⟩
  rw [o.getElem?_written_nil, hnone, List.replicate_zero, List.append_nil]
  split
  · next heq => rw [heq, o.contents_eq]
  · rfl

end OpenFile

/-- Without data no file changes, or the gap in front of no data is filled. -/
theorem Work.files_of_room_eq_zero (h : Work g fd (.write buffers count written) receipt g₁)
    (hempty : room (g.memory.buffersAt buffers.toNat count.toNat) = 0) :
    g₁.files = g.files ∨ g.memory.Gives buffers count [] ∧ ∃ o : OpenFile g fd,
      o.start < 2 ^ 64 ∧ o.start ≤ g.maxFile ∧ g₁.files = (o.written []).files := by
  cases h with
  | output hdata => exact .inl rfl
  | errors hdata => exact .inl rfl
  | @put _ _ _ _ data hdata hfd o hend hfits =>
    have hnil : data = [] := by
      obtain ⟨_, ⟨-, rfl⟩, -, rfl⟩ := hdata
      refine List.eq_nil_of_length_eq_zero ?_
      rw [GuestMemory.length_gathered, hempty]
    subst hnil
    exact .inr ⟨hdata, o, hend, hfits, rfl⟩

/-- Behind the end of a file, a call that writes nothing fills the gap. -/
theorem getElem?_of_past (hg : g.mounted = false) (hnumbered : g.descriptors.Numbered)
    (hgives : g.memory.Gives buffers count []) {o : OpenFile g fd} (hpast : o.Past)
    {result : Except Ending Nat}
    (hrun : ((SystemCall.fdWrite fd buffers count written).run true).run g = (result, g'))
    (path : String) : g'.files.files[path]? =
      if path = o.path then some (o.contents ++ List.replicate (o.offset - o.contents.length) 0)
      else g.files.files[path]? := by
  have hfd := not_isStream_of_numbered hnumbered o.get?_eq
  have hstart := hpast.start_eq
  have hend : o.start + ([] : Bytes).length < 2 ^ 64 := hstart ▸ hpast.offset_lt
  have hfits : o.start + ([] : Bytes).length ≤ g.maxFile := hstart ▸ hpast.offset_le
  have hwork : Work g fd (.write buffers count written) _ _ := .put hgives hfd o hend hfits
  obtain ⟨-, m, hdone⟩ := hwork.of_run hg hrun
  rw [hdone, ← hstart]
  exact o.getElem?_written_nil path

/-- Everywhere else it leaves all files as they are. -/
theorem getElem?_of_not_past (hg : g.mounted = false) (hnumbered : g.descriptors.Numbered)
    (hempty : room (g.memory.buffersAt buffers.toNat count.toNat) = 0) {exportsMemory : Bool}
    (hnot : ¬ (exportsMemory ∧ g.memory.Gives buffers count [] ∧ ∃ o : OpenFile g fd, o.Past))
    {result : Except Ending Nat}
    (hrun : ((SystemCall.fdWrite fd buffers count written).run exportsMemory).run g
      = (result, g')) (path : String) :
    g'.files.files[path]? = g.files.files[path]? := by
  by_cases hwork : exportsMemory ∧ ∃ receipt g₁,
    Work g fd (.write buffers count written) receipt g₁
  · obtain ⟨rfl, receipt, g₁, hw⟩ := hwork
    obtain ⟨-, m, hdone⟩ := hw.of_run hg hrun
    rw [hdone]
    show g₁.files.files[path]? = _
    rcases hw.files_of_room_eq_zero hempty with hsame | ⟨hgives, o, hend, hfits, hwritten⟩
    · rw [hsame]
    · have hpast : ¬ o.Past := fun hpast => hnot ⟨rfl, hgives, o, hpast⟩
      rw [hwritten]
      exact OpenFile.getElem?_written_nil_of_not_past hpast hend hfits path
  · obtain ⟨e, hrefused⟩ := run_transfer_of_refused hg hnumbered hwork
    obtain ⟨rfl, rfl⟩ := Prod.mk.inj (hrefused.symm.trans hrun)
    rfl

/-- A call that writes nothing, whatever its answer, leaves all files as they are, unless it can take
its buffers and its descriptor is behind the end of a file without appending. Then this file gets
zeros up to the offset, and no other file changes. -/
theorem Reachable.write_of_nothing_iff (h : Reachable start g) (exportsMemory : Bool)
    (fd buffers count written : UInt32)
    (hempty : room (g.memory.buffersAt buffers.toNat count.toNat) = 0)
    {result : Except Ending Nat}
    (hrun : ((SystemCall.fdWrite fd buffers count written).run exportsMemory).run g
      = (result, g')) :
    ((∀ path : String, g'.files.files[path]? = g.files.files[path]?)
        ↔ ¬ (exportsMemory ∧ g.memory.Gives buffers count [] ∧ ∃ o : OpenFile g fd, o.Past))
      ∧ ∀ o : OpenFile g fd, exportsMemory → g.memory.Gives buffers count [] → o.Past →
        ∀ path : String, g'.files.files[path]? = if path = o.path then
            some (o.contents ++ List.replicate (o.offset - o.contents.length) 0)
          else g.files.files[path]? := by
  have hg := h.not_mounted
  refine ⟨⟨?_, fun hnot => getElem?_of_not_past hg h.numbered hempty hnot hrun⟩, ?_⟩
  · rintro hkept ⟨rfl, hgives, o, hpast⟩
    -- the file has become longer
    have hlonger := getElem?_of_past hg h.numbered hgives hpast hrun o.path
    rw [hkept, o.contents_eq, if_pos rfl] at hlonger
    have hlength := congrArg List.length (Option.some.inj hlonger)
    have hgap := hpast.length_lt
    rw [List.length_append, List.length_replicate] at hlength
    omega
  · rintro o rfl hgives hpast path
    exact getElem?_of_past hg h.numbered hgives hpast hrun path

/-- A guest that has a file of one byte open under number 4, and has moved five bytes on. -/
def behindEnd : Guest :=
  (((SystemCall.fdSeek 4 5 0 32).run true).run
    (((SystemCall.pathOpen 3 0 1 0 0 8).run true).run (startWith oneByte "f")).2).2

theorem reachable_behindEnd : ∃ start, Reachable start behindEnd := by
  obtain ⟨start, h⟩ := reachable_startWith oneByte "f"
  exact ⟨start, h.isStart, (h.acts.tail (.call true _)).tail (.call true _)⟩

/-- What the guest has open. -/
def openBehindEnd : OpenFile behindEnd 4 where
  path := "f"
  offset := 5
  append := false
  contents := [97]
  get?_eq := by decide +kernel
  contents_eq := by decide +kernel

/-- Writing nothing there makes the file four bytes longer. -/
theorem write_of_nothing_behindEnd : (∃ start, Reachable start behindEnd)
    ∧ room (behindEnd.memory.buffersAt 0 0) = 0
    ∧ ∃ g', ((SystemCall.fdWrite 4 0 0 48).run true).run behindEnd = (.ok 0, g')
      ∧ g'.files.files["f"]? = some [97, 0, 0, 0, 0] := by
  obtain ⟨start, h⟩ := reachable_behindEnd
  have hempty : room (behindEnd.memory.buffersAt 0 0) = 0 := rfl
  have hzero : (((SystemCall.fdWrite 4 0 0 48).run true).run behindEnd).1 = .ok 0 := by
    decide +kernel
  have hrun : ((SystemCall.fdWrite 4 0 0 48).run true).run behindEnd
      = (.ok 0, (((SystemCall.fdWrite 4 0 0 48).run true).run behindEnd).2) := Prod.ext hzero rfl
  have hgives : behindEnd.memory.Gives 0 0 [] := ⟨[], ⟨.inl rfl, rfl⟩, nofun, rfl⟩
  have hpast : openBehindEnd.Past := ⟨rfl, by decide, by decide, by decide +kernel⟩
  obtain ⟨-, hfilled⟩ := h.write_of_nothing_iff true 4 0 0 48 hempty hrun
  exact ⟨⟨start, h⟩, hempty, _, hrun, hfilled openBehindEnd rfl hgives hpast "f"⟩

/-- So writing nothing does change a file. -/
theorem not_forall_write_of_nothing : ¬ ∀ (start g g' : Guest) (fd buffers count written : UInt32)
    (path : String) (offset : Nat) (append : Bool) (result : Except Ending Nat),
      Reachable start g → g.descriptors.get? fd.toNat = some (.file path offset append) →
        room (g.memory.buffersAt buffers.toNat count.toNat) = 0 →
          ((SystemCall.fdWrite fd buffers count written).run true).run g = (result, g') →
            ∀ p : String, g'.files.files[p]? = g.files.files[p]? := by
  intro hall
  obtain ⟨start, h⟩ := reachable_behindEnd
  have hkept := hall start behindEnd _ 4 0 0 48 "f" 5 false _ h openBehindEnd.get?_eq rfl rfl "f"
  have hlonger : (((SystemCall.fdWrite 4 0 0 48).run true).run behindEnd).2.files.files["f"]?
      = some [97, 0, 0, 0, 0] := by decide +kernel
  have hchanged := hlonger.symm.trans (hkept.trans openBehindEnd.contents_eq)
  exact absurd (Option.some.inj hchanged) (by decide)

end Guest

end Sandshell
