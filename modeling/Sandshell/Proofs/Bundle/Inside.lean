import Sandshell.Proofs.Bundle.Bridge
import Sandshell.Proofs.Bundle.Terms
import Sandshell.Proofs.Path.Inside
import Sandshell.Proofs.Shell.Ending
import Sandshell.Workspace.Traced

/-!
# Calls stay inside

Every path that a script, or a command of a bundle, hands to a tree stays inside its root. There are
five places where such paths are made: resolving an operand, folding the segments of a pattern,
walking directories, taking a snapshot and writing back what a guest left. All of them start from a
path that stays inside, or from one that the tree itself shows.
-/

namespace Sandshell

open Workspace (Terms)
open Sandshell.Path (IsNormal LeadsDown StaysInside)

/-! ## Recorded calls -/

namespace Traced

variable {W α : Type}

/-- The workspace before any call. -/
def fresh (w : W) : Traced W :=
  ⟨w, []⟩

/-- All recorded calls name paths within the terms, which are kept of the wrapped workspace, also by
walks without an end. -/
def terms (terms : Terms W) : Terms (Traced W) where
  holds t := terms.holds t.workspace ∧ ∀ call ∈ t.calls, terms.path call.path
  fails _ t := terms.holds t.workspace ∧ ∀ call ∈ t.calls, terms.path call.path
  path := terms.path
  name := terms.name
  writes := terms.writes
  endless := True

/-- Recording a call inside the root takes nothing from what the step keeps. -/
theorem keeps_record {terms : Terms W} {call : WorkspaceCall} (hcall : terms.path call.path)
    {step : WorkspaceM W α} {post : α → Prop}
    (h : (Invariant.steady terms.holds).Keeps step post) :
    (Invariant.steady (Traced.terms terms).holds).Keeps (record call step) post := by
  intro t ht
  have hcalls : ∀ made ∈ call :: t.calls, terms.path made.path :=
    List.forall_mem_cons.2 ⟨hcall, ht.2⟩
  unfold record
  rcases hstep : step t.workspace with ⟨e | a, w⟩
  · exact ⟨h.error ht.1 hstep, hcalls⟩
  · obtain ⟨hholds, hpost⟩ := h.ok ht.1 hstep
    exact ⟨⟨hholds, hcalls⟩, hpost⟩

/-- Terms that the calls of a workspace keep are kept by those of the recording one. -/
theorem open_terms [Workspace W] {terms : Terms W} (h : terms.Open) : (Traced.terms terms).Open where
  root := h.root
  resolve := h.resolve
  enter := h.enter
  leave := h.leave
  segment := h.segment
  normal := h.normal
  read hp := keeps_record hp (h.read hp)
  stat hp := keeps_record hp (h.stat hp)
  list hp := keeps_record hp (h.list hp)
  write data hp := keeps_record hp (h.write data hp)
  delete hp := keeps_record hp (h.delete hp)
  search _ _ := trivial
  snapshot _ _ := trivial

end Traced

/-! ## Calls on trees -/

namespace Tree

/-- Calls on a tree name paths that stay inside, and its listings show names, so that walks end. -/
def insideTerms : Terms Tree where
  holds := HasNormalKeys
  fails e t := t.HasNormalKeys ∧ e ≠ .workspace .endless
  path := StaysInside
  name := LeadsDown
  writes := True
  endless := False

/-- A change of a tree that leaves its keys normal leaves the recorded paths inside. -/
theorem keeps_change {update : Tree → Except WorkspaceError Tree}
    (hupdate : ∀ t t', t.HasNormalKeys → update t = .ok t' → t'.HasNormalKeys) :
    (Invariant.steady insideTerms.holds).Keeps (change update) fun _ => True := by
  refine Invariant.keeps_steady_iff.2 fun t ht => ?_
  cases hresult : update t with
  | error e => rwa [change_of_error update hresult]
  | ok t' =>
    rw [change_of_ok update hresult]
    exact hupdate t t' ht hresult

theorem open_insideTerms : insideTerms.Open where
  root := Path.staysInside_empty
  resolve := Path.StaysInside.resolve?
  enter := Path.StaysInside.join
  leave := Path.StaysInside.parent
  segment hne hslash hdot hdots := ⟨hne, hdot, hdots, hslash⟩
  normal := IsNormal.staysInside
  read _ := Invariant.keeps_steady_iff.2 fun _ ht => ht
  stat _ := Invariant.keeps_steady_iff.2 fun _ ht => ht
  list _ := .of_cases (fun _ _ _ ht hlist => by
      obtain ⟨hlisted, rfl⟩ := Prod.mk.inj hlist
      exact ⟨ht, fun entry hentry => (ht.isName_of_list hlisted entry hentry).leadsDown⟩)
    fun _ _ _ ht hlist => (Prod.mk.inj hlist).2 ▸ ht
  write data _ := keeps_change fun _ _ ht hwrite => ht.write hwrite
  delete _ := keeps_change fun _ _ ht hdelete => ht.delete hdelete
  search ht hforever := ht.not_searchesForever hforever
  snapshot ht hforever := hforever (ht.terminates_snapshot _)

/-- On a tree with normal paths the commands of bundles end, so that all scripts with such a delegate
do. -/
theorem HasNormalKeys.endsFrom_of_bridge {t : Tree} (h : t.HasNormalKeys) {sh : Shell Tree}
    {b : Bridge} (hb : sh.delegate? = some b.delegate) : sh.EndsFrom t := by
  refine h.endsFrom fun d hd request t ht => ?_
  obtain rfl := Option.some.inj (hb.symm.trans hd)
  have hkeeps := Bridge.keeps_run open_insideTerms (fun _ => rfl) b request
  refine ⟨Terms.holds_of_delegated hkeeps ht, fun hendless => ?_⟩
  exact (hkeeps.error ht (Prod.ext hendless rfl)).2 rfl

end Tree

/-- Whatever is run on a well-formed tree, a script in a normal directory, with or without a
delegate that runs the commands of bundles, or such a command alone: all calls on the tree name
paths that stay inside its root. -/
theorem calls_stay_inside {t : Tree} (h : t.WellFormed) :
    (∀ (sh : Shell (Traced Tree)) (text : String) (state : ShellState),
        (sh.delegate? = none ∨ ∃ b : Bridge, sh.delegate? = some b.delegate) → IsNormal state.cwd →
        ∀ call ∈ (sh.execute text ⟨.fresh t, state⟩).2.workspace.calls, StaysInside call.path)
      ∧ ∀ (b : Bridge) (r : CommandRequest), ∀ call ∈ (b.run r (Traced.fresh t)).2.calls,
        StaysInside call.path := by
  have hopen := Traced.open_terms Tree.open_insideTerms
  have hstart : (Traced.terms Tree.insideTerms).holds (.fresh t) :=
    ⟨h.hasNormalKeys, List.forall_mem_nil _⟩
  constructor
  · intro sh text state hd hcwd
    have hpermits := hopen.permits (fun _ _ => ⟨fun h => ⟨h, fun _ => trivial⟩, And.left⟩)
      (fun _ => rfl) hd
    have hsession : (Traced.terms Tree.insideTerms).session.holds ⟨.fresh t, state⟩ :=
      ⟨hstart, hcwd.staysInside⟩
    exact (hpermits.holds_after_execute (fun _ => Iff.rfl) (fun _ => trivial) hsession).2
  · intro b r
    exact (Terms.holds_of_delegated (Bridge.keeps_run hopen (fun _ => rfl) b r) hstart).2

/-- A pattern that goes up, a command of a bundle that removes a file and makes another one. -/
theorem calls_stay_inside_up :
    let b := Bridge.installed (Bridge.moveUp 2)
    let sh : Shell (Traced Tree) := { delegate? := some b.delegate }
    let start : Session (Traced Tree) := ⟨.fresh Bridge.nested, { cwd := "d" }⟩
    let after := (sh.execute "cat ../d/./*; cd ..; tool" start).2.workspace
    Bridge.nested.WellFormed ∧ IsNormal "d"
      ∧ after.calls = [.write "f", .delete "d/f", .read "d/f", .list "d", .list "", .read "d/f",
        .stat "d/f", .list "d"]
      ∧ ∀ call ∈ after.calls, StaysInside call.path := by
  refine ⟨Bridge.wellFormed_nested, by decide +kernel, by decide +kernel, ?_⟩
  exact (calls_stay_inside Bridge.wellFormed_nested).1 _ _ _ (.inr ⟨_, rfl⟩) (by decide +kernel)

end Sandshell
