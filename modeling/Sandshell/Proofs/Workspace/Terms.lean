import Mathlib.Logic.Relation
import Sandshell.Proofs.Keeps
import Sandshell.Proofs.Workspace.Ending
import Sandshell.Shell.Builtin.Condition
import Sandshell.Shell.Expansion.Glob
import Sandshell.Utility.Run

/-!
# Terms of using a workspace

Commands make the paths that they name in calls from the working directory, from operands, from the
names in listings and from patterns. Terms say which paths calls may name and what the calls then keep
of the workspace. Utilities, conditions and the matching of file names read files, ask what stands at
a path and list directories, all within the terms; no other call is made by them.
-/

namespace Sandshell

/-- What is kept of a workspace, also where a command fails, the paths that calls may name, the names
that listings may show, whether files may be written, and whether walks may have no end. -/
structure Workspace.Terms (W : Type) where
  holds : W → Prop
  fails : ShellError → W → Prop
  path : String → Prop
  name : String → Prop
  writes : Prop
  endless : Prop

namespace Workspace

variable {W α β : Type} [Workspace W]

/-- A search of a directory, as an operand of a search names it, does not terminate. -/
def SearchesForever (w : W) : Prop :=
  ∃ (skipHidden : Bool) (cwd operand path : String) (stat : Stat) (w' : W),
    Path.resolve? cwd operand = some path ∧ Workspace.stat path w = (.ok (some stat), w')
      ∧ stat.kind = .directory
      ∧ ¬ Walk.Terminates (Search.visit skipHidden) [⟨Search.shownPrefix operand, path⟩] w'

/-- Calls that look at paths on these terms keep them, and lead to paths and names on them. Searches
terminate unless the terms let walks have no end. -/
structure Terms.Sound (terms : Terms W) : Prop where
  root : terms.path ""
  resolve : ∀ {cwd operand p}, terms.path cwd → Path.resolve? cwd operand = some p → terms.path p
  enter : ∀ {p n}, terms.path p → terms.name n → terms.path (Path.join p n)
  leave : ∀ {p}, terms.path p → terms.path (Path.parent p)
  segment : ∀ {n}, n ≠ "" → '/' ∉ n.toList → n ≠ "." → n ≠ ".." → terms.name n
  read : ∀ {p}, terms.path p →
    (Invariant.steady terms.holds).Keeps (Workspace.read p : WorkspaceM W Bytes) fun _ => True
  stat : ∀ {p}, terms.path p →
    (Invariant.steady terms.holds).Keeps (Workspace.stat p : WorkspaceM W (Option Stat)) fun _ => True
  list : ∀ {p}, terms.path p →
    (Invariant.steady terms.holds).Keeps (Workspace.list p : WorkspaceM W (List DirEntry))
      fun entries => ∀ entry ∈ entries, terms.name entry.name
  search : ∀ {w}, terms.holds w → SearchesForever w → terms.endless

/-- What is kept by steps on a workspace. A failure leaves what a success leaves, and is no step
without an end unless the terms let walks be such. -/
abbrev Terms.steady (terms : Terms W) : Invariant W WorkspaceError where
  holds := terms.holds
  fails e w := terms.holds w ∧ (e = .endless → terms.endless)

end Workspace

open Workspace
open Invariant (Sustains keeps_pure sustains_pure)

variable {W α β : Type} [Workspace W] {terms : Terms W}

section

variable {post : α → Prop} {step : WorkspaceM W α}

omit [Workspace W] in
/-- A step that ends has nothing to ask of the terms. -/
theorem Returns.keeps (hreturns : Returns step)
    (h : (Invariant.steady terms.holds).Keeps step post) : terms.steady.Keeps step post := by
  refine .of_cases (fun _ _ _ hw => h.ok hw) fun w e w' hw herror => ⟨h.error hw herror, ?_⟩
  rintro rfl
  exact absurd (congrArg Prod.fst herror) (hreturns w)

omit [Workspace W] in
/-- A failure that is looked at leaves what a success leaves. -/
theorem Invariant.Keeps.observing (h : terms.steady.Keeps step post) :
    terms.steady.Keeps (Sandshell.observing step) fun result =>
      (∀ a, result = .ok a → post a) ∧ (result = .error .endless → terms.endless) := by
  intro w hw
  unfold Sandshell.observing
  rcases hstep : step w with ⟨e | a, w'⟩
  · obtain ⟨hw', hendless⟩ := h.error hw hstep
    exact ⟨hw', nofun, fun heq => hendless (Except.error.inj heq)⟩
  · obtain ⟨hw', ha⟩ := h.ok hw hstep
    exact ⟨hw', fun b heq => Except.ok.inj heq ▸ ha, nofun⟩

end

/-- No slash stands in a segment of a pattern. -/
theorem Wildcard.no_slash_of_mem_segments {pattern segment : List Glyph}
    (hsegment : segment ∈ Wildcard.segments pattern) : .char '/' ∉ segment := by
  induction pattern generalizing segment with
  | nil =>
    rw [Wildcard.segments, List.mem_singleton] at hsegment
    rw [hsegment]
    exact List.not_mem_nil
  | cons g rest ih =>
    rw [Wildcard.segments] at hsegment
    split at hsegment
    · rcases List.mem_cons.1 hsegment with rfl | hmem
      · exact List.not_mem_nil
      · exact ih hmem
    · next hg =>
      cases hrest : Wildcard.segments rest with
      | nil =>
        rw [hrest] at hsegment
        rw [List.mem_singleton.1 hsegment, List.mem_singleton]
        exact fun heq => hg heq.symm
      | cons piece pieces =>
        rw [hrest] at hsegment ih
        rcases List.mem_cons.1 hsegment with rfl | hmem
        · rw [List.mem_cons, not_or]
          exact ⟨fun heq => hg heq.symm, ih List.mem_cons_self⟩
        · exact ih (List.mem_cons_of_mem _ hmem)

/-! ## Walks -/

section

variable {holds : W → Prop} {visit : α → WorkspaceM W (List β × List α)}
variable {place : α → Prop} {finding : β → Prop}
variable (hvisit : ∀ a, place a → (Invariant.steady holds).Keeps (visit a)
  fun r => (∀ b ∈ r.1, finding b) ∧ ∀ a ∈ r.2, place a)
include hvisit

omit [Workspace W] in
/-- A walk that ends has found what its visits find. -/
theorem Walk.Ends.after {waiting : List α} {w w' : W} {visits : Nat}
    {result : Except WorkspaceError (List β)} (h : Walk.Ends visit waiting w visits result w')
    (hwaiting : ∀ a ∈ waiting, place a) (hw : holds w) :
    (Invariant.steady holds).After (fun bs => ∀ b ∈ bs, finding b) result w' := by
  induction h with
  | done => exact ⟨hw, List.forall_mem_nil finding⟩
  | refused hrefused =>
    exact (hvisit _ (hwaiting _ List.mem_cons_self)).error hw hrefused
  | @next a next waiting more w mid w' visits result hnext hrest ih =>
    rw [List.forall_mem_cons] at hwaiting
    obtain ⟨hmid, hmore, hplaces⟩ := (hvisit a hwaiting.1).ok hw hnext
    have hafter := ih (List.forall_mem_append.2 ⟨hplaces, hwaiting.2⟩) hmid
    cases result with
    | error e => exact hafter
    | ok found => exact ⟨hafter.1, List.forall_mem_append.2 ⟨hmore, hafter.2⟩⟩

omit [Workspace W] in
/-- A walk keeps what each of its visits keeps. -/
theorem Walk.keeps_unbounded {waiting : List α} (hwaiting : ∀ a ∈ waiting, place a) :
    (Invariant.steady holds).Keeps (Walk.unbounded visit waiting)
      fun bs => ∀ b ∈ bs, finding b := by
  intro w hw
  by_cases hends : Walk.Terminates visit waiting w
  · obtain ⟨visits, result, w', hends⟩ := hends
    rw [hends.unbounded_apply]
    exact hends.after hvisit hwaiting hw
  · rw [Walk.unbounded_of_not_terminates hends]
    exact hw

/-- A walk finds what its visits find, in places that they hand on. -/
theorem Walk.keeps_below {start : α} (hstart : place start) :
    (Invariant.steady holds).Keeps (Walk.below visit start) fun bs => ∀ b ∈ bs, finding b := by
  have hrun : ∀ visits waiting, (∀ a ∈ waiting, place a) →
      (Invariant.steady holds).Keeps (Walk.run visit visits waiting)
        fun bs => ∀ b ∈ bs, finding b := by
    intro visits waiting hwaiting
    fun_induction Walk.run visit visits waiting with
    | case1 => exact keeps_pure (List.forall_mem_nil finding)
    | case2 => exact Walk.keeps_unbounded hvisit hwaiting
    | case3 visits directory waiting ih =>
      rw [List.forall_mem_cons] at hwaiting
      apply (hvisit directory hwaiting.1).bind
      rintro ⟨found, next⟩ ⟨hfound, hnext⟩
      exact (ih next (List.forall_mem_append.2 ⟨hnext, hwaiting.2⟩)).bind fun more hmore =>
        keeps_pure (List.forall_mem_append.2 ⟨hfound, hmore⟩)
  exact fun w hw => hrun (Workspace.extent w) [start] (List.forall_mem_singleton.2 hstart) w hw

end

/-- A walk has no end only where it does not terminate. -/
theorem Walk.after_below {visit : α → WorkspaceM W (List β × List α)} {start : α} {post : List β → Prop}
    {w : W} (hreturns : ∀ a, Returns (visit a))
    (hkeeps : (Invariant.steady terms.holds).Keeps (Walk.below visit start) post)
    (hendless : ¬ Walk.Terminates visit [start] w → terms.endless) (hw : terms.holds w) :
    terms.steady.After post (Walk.below visit start w).1 (Walk.below visit start w).2 := by
  rcases hwalk : Walk.below visit start w with ⟨e | found, w'⟩
  · refine ⟨hkeeps.error hw hwalk, ?_⟩
    rintro rfl
    exact hendless ((Walk.below_eq_endless_iff hreturns start).1 (congrArg Prod.fst hwalk))
  · exact hkeeps.ok hw hwalk

theorem Search.visit_returns (skipHidden : Bool) (directory : Search.Target) :
    Returns (Search.visit skipHidden directory :
      WorkspaceM W (List Search.Target × List Search.Target)) :=
  (Workspace.list_returns directory.path).bind fun _ => returns_pure _

namespace Workspace.Terms.Sound

variable (h : terms.Sound)
include h

theorem keeps_read {p : String} (hp : terms.path p) :
    terms.steady.Keeps (Workspace.read p : WorkspaceM W Bytes) fun _ => True :=
  (Workspace.read_returns p).keeps (h.read hp)

theorem keeps_stat {p : String} (hp : terms.path p) :
    terms.steady.Keeps (Workspace.stat p : WorkspaceM W (Option Stat)) fun _ => True :=
  (Workspace.stat_returns p).keeps (h.stat hp)

/-- The names that a listing gives are on the terms. -/
theorem keeps_list {p : String} (hp : terms.path p) :
    terms.steady.Keeps (Workspace.list p : WorkspaceM W (List DirEntry))
      fun entries => ∀ entry ∈ entries, terms.name entry.name :=
  (Workspace.list_returns p).keeps (h.list hp)

/-- An operand resolves to a path on the terms of the working directory. -/
theorem of_resolvePath {cwd operand p : String} (hcwd : terms.path cwd)
    (hp : resolvePath cwd operand = .ok p) : terms.path p := by
  rw [resolvePath] at hp
  split at hp
  · next hresolve =>
    obtain rfl := Except.ok.inj hp
    exact h.resolve hcwd hresolve
  · contradiction

/-! ## Utilities -/

/-- Utilities read what their operands resolve to. -/
theorem keeps_utilityRead {ctx : UtilityContext} (hcwd : terms.path ctx.cwd) (name : String) :
    terms.steady.Keeps (ctx.read name : WorkspaceM W (Except String Bytes)) fun _ => True := by
  unfold UtilityContext.read
  cases hpath : resolvePath ctx.cwd name with
  | error e => exact keeps_pure trivial
  | ok path =>
    apply (h.keeps_read (h.of_resolvePath hcwd hpath)).observing.bind
    rintro result -
    split <;> exact keeps_pure trivial

/-- `cat` reads its operands only. -/
theorem keeps_cat {ctx : UtilityContext} (hcwd : terms.path ctx.cwd) (args : List String) :
    terms.steady.Keeps (Cat.outcome ctx args : WorkspaceM W CommandOutcome) fun _ => True := by
  have hcontents : ∀ operand, terms.steady.Keeps
      (Cat.contents ctx operand : WorkspaceM W (Except String Bytes)) fun _ => True := by
    intro operand
    unfold Cat.contents
    split
    · exact keeps_pure trivial
    · exact h.keeps_utilityRead hcwd operand
  unfold Cat.outcome
  dsimp only
  split
  · exact keeps_pure trivial
  · exact (Invariant.Keeps.mapM_silent fun operand _ => hcontents operand).before fun _ =>
      keeps_pure trivial

/-- What an operand of a listing leads to is a path within the terms. -/
theorem keeps_look {ctx : UtilityContext} (hcwd : terms.path ctx.cwd) (operand : String) :
    terms.steady.Keeps (Ls.look ctx operand : WorkspaceM W (String × Option (String × Stat)))
      fun looked => ∀ found, looked.2 = some found → terms.path found.1 := by
  unfold Ls.look
  cases hpath : Path.resolve? ctx.cwd operand with
  | none => exact keeps_pure nofun
  | some path =>
    have hp := h.resolve hcwd hpath
    refine (h.keeps_stat hp).bind fun stat _ => keeps_pure fun found hfound => ?_
    obtain ⟨_, -, rfl⟩ := Option.map_eq_some_iff.1 hfound
    exact hp

/-- `ls` asks for a directory and for what is in it. -/
theorem keeps_directoryLines (o : Ls.Options) {path : String} (hp : terms.path path) :
    terms.steady.Keeps (Ls.directoryLines o path : WorkspaceM W String) fun _ => True := by
  have hsize : ∀ entry : DirEntry, terms.name entry.name →
      terms.steady.Keeps (Ls.shownSize o path entry : WorkspaceM W Nat) fun _ => True := by
    intro entry hentry
    unfold Ls.shownSize
    split
    · apply (h.keeps_stat (h.enter hp hentry)).bind
      intro stat _
      split <;> exact keeps_pure trivial
    · exact keeps_pure trivial
  apply (h.keeps_list hp).bind
  intro entries hentries
  refine (Invariant.Keeps.mapM_silent fun entry hentry => ?_).before fun _ => keeps_pure trivial
  exact (hsize entry (hentries entry (List.mem_of_mem_filter hentry))).before
    fun _ => keeps_pure trivial

theorem keeps_directorySections (o : Ls.Options) (headed first : Bool)
    {directories : List (String × String)} (hpaths : ∀ d ∈ directories, terms.path d.2) :
    terms.steady.Keeps (Ls.directorySections o headed first directories : WorkspaceM W String)
      fun _ => True := by
  induction directories generalizing first with
  | nil => exact keeps_pure trivial
  | cons directory rest ih =>
    rw [List.forall_mem_cons] at hpaths
    exact (h.keeps_directoryLines o hpaths.1).bind fun _ _ =>
      (ih false hpaths.2).bind fun _ _ => keeps_pure trivial

/-- It asks for nothing else than its operands and what is in them. -/
theorem keeps_ls {ctx : UtilityContext} (hcwd : terms.path ctx.cwd) (args : List String) :
    terms.steady.Keeps (Ls.outcome ctx args : WorkspaceM W CommandOutcome) fun _ => True := by
  unfold Ls.outcome
  dsimp only
  split
  · exact keeps_pure trivial
  · apply (Invariant.Keeps.mapM (h.keeps_look hcwd) _).bind
    intro looked hlooked
    refine (h.keeps_directorySections _ _ _ fun d hd => ?_).bind fun _ _ => keeps_pure trivial
    obtain ⟨⟨operand, there⟩, hmem, hthere⟩ := List.mem_filterMap.1 hd
    cases there with
    | none => contradiction
    | some found =>
      dsimp only at hthere
      split at hthere
      · obtain rfl := Option.some.inj hthere
        exact hlooked _ hmem found rfl
      · contradiction

/-- A visit of a search finds files and directories in the one it visits. -/
theorem keeps_visit (skipHidden : Bool) {directory : Search.Target}
    (hp : terms.path directory.path) :
    (Invariant.steady terms.holds).Keeps
      (Search.visit skipHidden directory : WorkspaceM W (List Search.Target × List Search.Target))
      fun r => (∀ t ∈ r.1, terms.path t.path) ∧ ∀ t ∈ r.2, terms.path t.path := by
  refine (h.list hp).bind fun entries hentries => keeps_pure ⟨?_, ?_⟩ <;>
  · intro target htarget
    obtain ⟨entry, hentry, rfl⟩ := List.mem_map.1 htarget
    have hmem := List.mem_of_mem_filter (List.mem_of_mem_filter hentry)
    exact h.enter hp (hentries entry hmem)

/-- All targets of an operand are on the terms of the working directory. -/
theorem keeps_targets (mode : Search.Mode) (recursive : Bool) {cwd : String}
    (hcwd : terms.path cwd) (operand : String) :
    terms.steady.Keeps (Search.targets mode recursive cwd operand :
      WorkspaceM W (Except String (List Search.Target)))
      fun r => ∀ found, r = .ok found → ∀ t ∈ found, terms.path t.path := by
  unfold Search.targets
  cases hpath : Path.resolve? cwd operand with
  | none => exact keeps_pure nofun
  | some path =>
    have hp := h.resolve hcwd hpath
    intro w hw
    refine Invariant.After.bind (h.keeps_stat hp w hw) fun stat w' hstat hw' _ => ?_
    cases stat with
    | none => exact ⟨hw', nofun⟩
    | some stat =>
      cases hkind : stat.kind with
      | file =>
        dsimp only
        rw [hkind, if_pos rfl]
        refine ⟨hw', fun found hfound => ?_⟩
        obtain rfl := Except.ok.inj hfound
        exact List.forall_mem_singleton.2 hp
      | directory =>
        dsimp only
        rw [hkind, if_neg (by decide)]
        split
        · exact ⟨hw', nofun⟩
        -- whether the search terminates is a matter of the workspace that `stat` leaves
        · have hforever := fun hnever => h.search hw
            ⟨mode.recursive, cwd, operand, path, stat, w', hpath, hstat, hkind, hnever⟩
          have hkeeps := Walk.keeps_below (fun _ ht => h.keeps_visit mode.recursive ht)
            (show terms.path (⟨Search.shownPrefix operand, path⟩ : Search.Target).path from hp)
          refine Invariant.After.bind (Walk.after_below (Search.visit_returns mode.recursive) hkeeps
            hforever hw') fun found w'' _ hw'' hfound => ⟨hw'', fun found' heq => ?_⟩
          obtain rfl := Except.ok.inj heq
          exact hfound

theorem keeps_searchFile (mode : Search.Mode) (o : Search.Options) (isMatch : String → Bool)
    (showName : Bool) {target : Search.Target} (hp : terms.path target.path) :
    terms.steady.Keeps
      (Search.searchFile mode o isMatch showName target : WorkspaceM W Search.Report)
      fun _ => True := by
  apply (h.keeps_read hp).observing.bind
  intro result _
  split
  · exact keeps_pure trivial
  · split <;> exact keeps_pure trivial

/-- Searching files reads the targets. -/
theorem keeps_searchFiles (mode : Search.Mode) (o : Search.Options) (isMatch : String → Bool)
    {cwd : String} (hcwd : terms.path cwd) :
    terms.steady.Keeps (Search.searchFiles mode o isMatch cwd : WorkspaceM W Search.Report)
      fun _ => True := by
  apply (Invariant.Keeps.mapM (h.keeps_targets mode _ hcwd) _).bind
  intro collected hcollected
  refine (Invariant.Keeps.mapM_silent fun target htarget => ?_).before fun _ => keeps_pure trivial
  obtain ⟨result, hresult, hmem⟩ := List.mem_flatMap.1 htarget
  cases result with
  | error e => exact absurd hmem List.not_mem_nil
  | ok found => exact h.keeps_searchFile mode o isMatch _ (hcollected _ hresult found rfl target hmem)

/-- A search asks for its operands and what is below. -/
theorem keeps_search (mode : Search.Mode) {ctx : UtilityContext} (hcwd : terms.path ctx.cwd)
    (args : List String) :
    terms.steady.Keeps (Search.outcome mode ctx args : WorkspaceM W CommandOutcome)
      fun _ => True := by
  unfold Search.outcome
  split
  · exact keeps_pure trivial
  · split
    · exact keeps_pure trivial
    · refine Invariant.Keeps.before ?_ fun _ => keeps_pure trivial
      unfold Search.searchWith
      split
      · exact keeps_pure trivial
      · exact h.keeps_searchFiles mode _ _ hcwd

/-- A utility only looks at the workspace. -/
theorem keeps_utility {ctx : UtilityContext} (hcwd : terms.path ctx.cwd) (args : List String)
    (utility : Utility) :
    terms.steady.Keeps (utility.run ctx args : WorkspaceM W CommandOutcome) fun _ => True := by
  cases utility with
  | cat => exact h.keeps_cat hcwd args
  | ls => exact h.keeps_ls hcwd args
  | grep => exact h.keeps_search _ hcwd args
  | rg => exact h.keeps_search _ hcwd args
  | _ => exact keeps_pure trivial

/-- A test asks for the paths that it is about. -/
theorem keeps_condition {cwd : String} (hcwd : terms.path cwd) (args : List String) :
    terms.steady.Keeps (Condition.outcome cwd args : WorkspaceM W CommandOutcome)
      fun _ => True := by
  unfold Condition.outcome
  dsimp only
  split
  · exact keeps_pure trivial
  · refine Invariant.Keeps.before ?_ fun _ => keeps_pure trivial
    unfold Condition.decide
    split
    · exact keeps_pure trivial
    · cases hpath : Path.resolve? cwd _ with
      | none => exact keeps_pure trivial
      | some path => exact (h.keeps_stat (h.resolve hcwd hpath)).bind fun _ _ => keeps_pure trivial

/-! ## File names -/

/-- The places that a pattern comes to have paths within the terms. -/
theorem path_of_step? {name : String} (hslash : '/' ∉ name.toList) (hne : name ≠ "")
    {place place' : Glob.Place} (hplace : terms.path place.path)
    (hstep : Glob.step? name place = some place') : terms.path place'.path := by
  rw [Glob.step?] at hstep
  split_ifs at hstep with hdot hdots hroot
  · obtain rfl := Option.some.inj hstep
    exact hplace
  · obtain rfl := Option.some.inj hstep
    exact h.leave hplace
  · obtain rfl := Option.some.inj hstep
    exact h.enter hplace (h.segment hne hslash hdot hdots)

/-- A star lists the directory where it stands. -/
theorem sustains_children (segment : List Glyph) (last : Bool) {place : Glob.Place}
    (hplace : terms.path place.path) :
    Sustains terms.holds (Glob.children segment last place : StateM W (List Glob.Place))
      fun places => ∀ place ∈ places, terms.path place.path := by
  apply (h.list hplace).run.bind
  intro result hresult
  cases result with
  | error e => exact sustains_pure (List.forall_mem_nil _)
  | ok entries =>
    refine sustains_pure fun place' hplace' => ?_
    obtain ⟨entry, hentry, hmatch⟩ := List.mem_filterMap.1 hplace'
    split at hmatch
    · obtain rfl := Option.some.inj hmatch
      exact h.enter hplace (hresult entries rfl entry hentry)
    · contradiction

/-- A pattern moves by segments that are not empty and hold no slash. -/
theorem sustains_advance {segment : List Glyph} (hslash : .char '/' ∉ segment)
    (hne : segment ≠ []) (last : Bool) {places : List Glob.Place}
    (hplaces : ∀ place ∈ places, terms.path place.path) :
    Sustains terms.holds (Glob.advance segment last places : StateM W (List Glob.Place))
      fun places => ∀ place ∈ places, terms.path place.path := by
  unfold Glob.advance
  split
  · refine sustains_pure fun place' hplace' => ?_
    obtain ⟨place, hplace, hstep⟩ := List.mem_filterMap.1 hplace'
    refine h.path_of_step? ?_ ?_ (hplaces place hplace) hstep
    · rw [Wildcard.text, String.toList_ofList, List.mem_map]
      rintro ⟨g, hg, hchar⟩
      cases g with
      | star => exact absurd hchar (by decide)
      | char c =>
        obtain rfl : c = '/' := hchar
        exact hslash hg
    · rw [Wildcard.text, ne_eq, ← String.toList_eq_nil_iff, String.toList_ofList, List.map_eq_nil_iff]
      exact hne
  · split
    · exact sustains_pure (List.forall_mem_nil _)
    · refine (Sustains.mapM_of_mem fun place hplace =>
        h.sustains_children segment last (hplaces place hplace)).bind fun found hfound => ?_
      refine sustains_pure fun place hplace => ?_
      obtain ⟨list, hlist, hmem⟩ := List.mem_flatten.1 hplace
      exact hfound list hlist place hmem

/-- A pattern leads from place to place, segment by segment. -/
theorem sustains_walk {segments : List (List Glyph)}
    (hsegments : ∀ segment ∈ segments, .char '/' ∉ segment ∧ segment ≠ [])
    {places : List Glob.Place} (hplaces : ∀ place ∈ places, terms.path place.path) :
    Sustains terms.holds (Glob.walk places segments : StateM W (List Glob.Place))
      fun places => ∀ place ∈ places, terms.path place.path := by
  induction segments generalizing places with
  | nil => exact sustains_pure hplaces
  | cons segment rest ih =>
    rw [List.forall_mem_cons] at hsegments
    unfold Glob.walk
    split
    · exact sustains_pure (List.forall_mem_nil _)
    · exact (h.sustains_advance hsegments.1.1 hsegments.1.2 _ hplaces).bind fun places' hplaces' =>
        ih hsegments.2 hplaces'

/-- Matching file names only looks at the workspace. -/
theorem sustains_expand {cwd : String} (hcwd : terms.path cwd) (pattern : List Glyph) :
    Sustains terms.holds (Glob.expand cwd pattern : StateM W (List String)) fun _ => True := by
  have hexists : ∀ place : Glob.Place, terms.path place.path →
      Sustains terms.holds (Glob.exists? place : StateM W Bool) fun _ => True := by
    intro place hplace
    apply (h.stat hplace).run.bind
    intro result _
    split <;> exact sustains_pure trivial
  unfold Glob.expand
  dsimp only
  split
  · exact sustains_pure trivial
  · next segments hne heq =>
    have hsegments : ∀ segment ∈ (Wildcard.segments pattern).filter (!·.isEmpty),
        .char '/' ∉ segment ∧ segment ≠ [] := by
      intro segment hsegment
      obtain ⟨hmem, hempty⟩ := List.mem_filter.1 hsegment
      exact ⟨Wildcard.no_slash_of_mem_segments hmem, by simpa using hempty⟩
    refine (h.sustains_walk hsegments ?_).bind fun places hplaces => ?_
    · rw [List.forall_mem_singleton]
      split
      · exact h.root
      · exact hcwd
    · exact (Sustains.filterM_of_mem fun place hplace => hexists place (hplaces place hplace)).bind
        fun _ _ => sustains_pure trivial

end Workspace.Terms.Sound

end Sandshell
