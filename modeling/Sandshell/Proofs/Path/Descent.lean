import Mathlib.Data.List.Induction
import Mathlib.Data.String.Basic
import Mathlib.Order.Monotone.Basic
import Sandshell.Proofs.Path.Below

/-!
# Places below a directory

Names lead from a directory to places below it, different names to different ones.
-/

namespace Sandshell.Path

variable {place name : String} {names names' rest : List String}

/-- Where names lead from a place. -/
def descend (place : String) (names : List String) : String :=
  names.foldl join place

@[simp] theorem descend_nil (place : String) : descend place [] = place := rfl

/-- Going down by some names and then by others is going down by all of them. -/
theorem descend_append (place : String) (names rest : List String) :
    descend place (names ++ rest) = descend (descend place names) rest :=
  List.foldl_append

theorem descend_concat (place : String) (names : List String) (name : String) :
    descend place (names ++ [name]) = join (descend place names) name :=
  descend_append place names [name]

/-- Going down leads nowhere out of a place. -/
theorem isWithin_descend (place : String) (names : List String) :
    isWithin place (descend place names) := by
  induction names using List.reverseRecOn with
  | nil => exact isWithin_self place
  | append_singleton names name ih =>
    rw [descend_concat]
    exact isWithin_join ih name

/-- Names lead away from where they begin. -/
theorem descend_ne (hnames : ∀ name ∈ names, IsName name) (hne : names ≠ []) :
    descend place names ≠ place := by
  by_cases hplace : place = ""
  · obtain ⟨front, last, rfl⟩ := (List.eq_nil_or_concat names).resolve_left hne
    rw [hplace, List.concat_eq_append, descend_concat]
    exact join_ne_empty (hnames last (by simp)).ne_empty
  · rw [descend, foldl_join hplace hne]
    intro heq
    have hbelow := below_append place (ofSegments names)
    rw [heq] at hbelow
    exact hbelow.irrefl

/-- Different names lead to different places. -/
theorem descend_inj (hnames : ∀ name ∈ names, IsName name) (hnames' : ∀ name ∈ names', IsName name)
    (heq : descend place names = descend place names') : names = names' := by
  induction names using List.reverseRecOn generalizing names' with
  | nil =>
    by_contra hne
    exact descend_ne hnames' (Ne.symm hne) heq.symm
  | append_singleton front last ih =>
    rcases List.eq_nil_or_concat names' with rfl | ⟨front', last', rfl⟩
    · exact absurd heq (descend_ne hnames (by simp))
    · rw [List.concat_eq_append] at heq hnames' ⊢
      rw [descend_concat, descend_concat] at heq
      have hlast := hnames last (by simp)
      have hlast' := hnames' last' (by simp)
      have hparent := congrArg parent heq
      rw [parent_join hlast.no_slash, parent_join hlast'.no_slash] at hparent
      have hfront := ih (fun n hn => hnames n (List.mem_append_left _ hn))
        (fun n hn => hnames' n (List.mem_append_left _ hn)) hparent
      rw [← hparent] at heq
      rw [hfront, join_inj heq]

theorem isName_concat (hnames : ∀ n ∈ names, IsName n) (hname : IsName name) :
    ∀ n ∈ names ++ [name], IsName n :=
  List.forall_mem_append.2 ⟨hnames, List.forall_mem_singleton.2 hname⟩

/-- A name after a normal path makes a normal path. -/
theorem isNormal_join (hplace : IsNormal place) (hname : IsName name) :
    IsNormal (join place name) := by
  obtain ⟨names, hnames, rfl⟩ := isNormal_iff.1 hplace
  have hall := isName_concat hnames hname
  have heq : join (ofSegments names) name = ofSegments (names ++ [name]) := by
    rw [← foldl_join_ofSegments fun n hn => (hnames n hn).ne_empty,
      ← foldl_join_ofSegments fun n hn => (hall n hn).ne_empty, List.foldl_append]
    rfl
  rw [heq]
  exact isNormal_ofSegments hall

/-- From the root names lead to the path with these segments. -/
theorem descend_root (hnames : ∀ name ∈ names, IsName name) :
    descend "" names = ofSegments names :=
  foldl_join_ofSegments fun name hname => (hnames name hname).ne_empty

/-- The names of a normal path lead to it. -/
theorem descend_components {p : String} (hp : IsNormal p) : descend "" (components p) = p := by
  obtain ⟨hnames, hpath⟩ := of_normalize?_eq_some hp
  rw [descend_root hnames, ← hpath]

/-- A joined path splits into its two parts again. -/
theorem split_join (hname : '/' ∉ name.toList) (d : String) : split (join d name) = (d, name) := by
  by_cases hd : d = ""
  · rw [hd, join_empty, split, splitLast?_of_no_slash hname]
    rfl
  · rw [join_of_ne hd, split, splitLast?_append hname]
    rfl

/-- A normal path other than the root is a name in a directory. -/
theorem exists_eq_join {p : String} (hp : IsNormal p) (hne : p ≠ "") :
    ∃ d name, IsName name ∧ p = join d name := by
  obtain ⟨names, hnames, rfl⟩ := isNormal_iff.1 hp
  have hnonempty : names ≠ [] := fun hnil => hne (hnil ▸ ofSegments_nil)
  obtain ⟨front, last, rfl⟩ := (List.eq_nil_or_concat names).resolve_left hnonempty
  rw [List.concat_eq_append] at hnames ⊢
  refine ⟨descend "" front, last, hnames last (by simp), ?_⟩
  rw [← descend_concat, descend_root hnames]

/-- The names in a directory are ordered like their paths. -/
theorem strictMono_join (d : String) : StrictMono (join d) := by
  intro name name' hlt
  by_cases hd : d = ""
  · rwa [hd, join_empty, join_empty]
  · rw [join_of_ne hd, join_of_ne hd, String.lt_iff, String.toList_append,
      String.toList_append (t := name')]
    exact List.append_left_lt (String.lt_iff.1 hlt)

end Sandshell.Path
