import Mathlib.Data.List.Basic
import SamLmdb.Lib.PageTree

/-!
# Replacing pages on a path

Pages are values, so a page that is replaced is replaced in its parent too, and so on
down to the root. The nodes on both sides of the path are not touched.
-/

namespace PageTree

open Page

variable {κ ν : Type}

/-- The root page, where `page` is the top of a stack. -/
def bottom (page : Page κ ν) : Stack κ ν → Page κ ν
  | [] => page
  | (page, _) :: outer => bottom page outer

/-- The stack below a page that has been replaced by `page`. -/
def reseat (page : Page κ ν) : Stack κ ν → Stack κ ν
  | [] => []
  | (.leaf nodes, i) :: outer => (.leaf nodes, i) :: outer
  | (.branch children, i) :: outer =>
    let parent := .branch (children.modify i fun child => (child.1, page))
    (parent, i) :: reseat parent outer

def relabel (sep : κ) : Stack κ ν → Stack κ ν
  | (.branch children, i) :: outer =>
    let parent := .branch (children.modify i fun child => (sep, child.2))
    (parent, i) :: reseat parent outer
  | stack => stack

section Children

variable {children : List (κ × Page κ ν)} {i : ℕ} {f : κ × Page κ ν → κ × Page κ ν}

theorem take_modify_self : (children.modify i f).take i = children.take i := by
  rw [List.take_modify, List.modify_eq_self]
  exact List.length_take_le i children

theorem drop_modify_succ : (children.modify i f).drop (i + 1) = children.drop (i + 1) :=
  List.drop_modify_of_lt f i (i + 1) children (Nat.lt_succ_self i)

/-- A branch page stays uniform when one of its children is replaced. -/
theorem Page.Uniform.modify {n : ℕ} (uniform : Uniform (n + 1) (.branch children))
    (fits : ∀ child ∈ children, Uniform n (f child).2) : Uniform (n + 1) (.branch (children.modify i f)) := by
  cases uniform with
  | branch two each =>
    refine .branch (by simpa using two) fun child here => ?_
    obtain ⟨j, at_j⟩ := List.mem_iff_getElem?.1 here
    rw [List.getElem?_modify] at at_j
    obtain ⟨old, there, rfl⟩ := Option.map_eq_some_iff.1 at_j
    have inside := List.mem_of_getElem? there
    split
    · exact fits old inside
    · exact each old inside

theorem Page.Uniform.set {nodes : List ν} (uniform : Uniform 0 (.leaf nodes : Page κ ν)) (i : ℕ) (x : ν) :
    Uniform 0 (.leaf (nodes.set i x) : Page κ ν) := by
  cases uniform with
  | leaf nonempty => exact .leaf (by simpa using nonempty)

end Children

section Reseat

variable {root page page' : Page κ ν} {n i j : ℕ} {outer : Stack κ ν} {sep : κ}

@[simp] theorem leftOf_reseat (page : Page κ ν) (outer : Stack κ ν) :
    leftOf (reseat page outer) = leftOf outer := by
  induction outer generalizing page with
  | nil => rfl
  | cons top outer ih =>
    obtain ⟨parent, i⟩ := top
    cases parent with
    | leaf nodes => rfl
    | branch children => simp only [reseat, leftOf, ih, take_modify_self]

@[simp] theorem rightOf_reseat (page : Page κ ν) (outer : Stack κ ν) :
    rightOf (reseat page outer) = rightOf outer := by
  induction outer generalizing page with
  | nil => rfl
  | cons top outer ih =>
    obtain ⟨parent, i⟩ := top
    cases parent with
    | leaf nodes => rfl
    | branch children => simp only [reseat, rightOf, ih, drop_modify_succ]

theorem Path.bottom_eq (path : Path root n ((page, i) :: outer)) : bottom page outer = root := by
  generalize stacked : (page, i) :: outer = stack at path
  induction path generalizing page i outer with
  | root =>
    cases stacked
    rfl
  | child _ _ ih =>
    cases stacked
    rw [bottom]
    exact ih rfl

theorem Path.getLast_eq {stack : Stack κ ν} (path : Path root n stack) : stack.getLast?.map Prod.fst = some root := by
  induction path with
  | root => rfl
  | child _ _ ih => rwa [List.getLast?_cons_cons]

theorem Path.of_leaf {nodes : List ν} {stack : Stack κ ν} (path : Path (.leaf nodes) n stack) :
    ∃ i, stack = [(.leaf nodes, i)] := by
  induction path with
  | @root _ i _ => exact ⟨i, rfl⟩
  | child _ _ ih =>
    obtain ⟨_, same⟩ := ih
    cases same

theorem Path.reseat (path : Path root n ((page, i) :: outer)) (uniform : Uniform n page') (j : ℕ) :
    Path (bottom page' (reseat page' outer)) n ((page', j) :: reseat page' outer) := by
  generalize stacked : (page, i) :: outer = stack at path
  induction path generalizing page i outer page' j with
  | root =>
    cases stacked
    exact .root uniform
  | @child n children k sep old _ outer' below here ih =>
    cases stacked
    have parent := below.uniform.modify (i := k) (f := fun child => (child.1, page')) fun _ _ => uniform
    have replaced : (children.modify k fun child => (child.1, page'))[k]? = some (sep, page') := by
      rw [List.getElem?_modify_eq, here]
      rfl
    exact .child (ih parent k rfl) replaced

theorem Path.relabel {children : List (κ × Page κ ν)} (path : Path root n
    ((page, j) :: (.branch children, i) :: outer))
    (sep : κ) : Path (bottom page (relabel sep ((.branch children, i) :: outer))) n
      ((page, j) :: PageTree.relabel sep ((.branch children, i) :: outer)) := by
  cases path with
  | child below here =>
    have parent := below.uniform.modify (i := i) (f := fun child => (sep, child.2)) fun child inside => by
      cases below.uniform with
      | branch _ each => exact each child inside
    have relabelled : (children.modify i fun child => (sep, child.2))[i]? = some (sep, page) := by
      rw [List.getElem?_modify_eq, here]
      rfl
    exact .child (below.reseat parent i) relabelled

@[simp] theorem leftOf_relabel (sep : κ) (outer : Stack κ ν) : leftOf (relabel sep outer) = leftOf outer := by
  unfold relabel
  split
  · simp only [leftOf, leftOf_reseat, take_modify_self]
  · rfl

@[simp] theorem rightOf_relabel (sep : κ) (outer : Stack κ ν) : rightOf (relabel sep outer) = rightOf outer := by
  unfold relabel
  split
  · simp only [rightOf, rightOf_reseat, drop_modify_succ]
  · rfl

theorem Spot.of_leaf {nodes : List ν} {x : ν} (here : nodes[i]? = some x) :
    Spot (.leaf nodes : Page κ ν) [(.leaf nodes, i)] (nodes.take i) x (nodes.drop (i + 1)) := by
  have nonempty : nodes ≠ [] := List.ne_nil_of_mem (List.mem_of_getElem? here)
  have path : Path (.leaf nodes : Page κ ν) 0 [(.leaf nodes, i)] := .root (.leaf nonempty)
  have spot := Spot.on path here
  simpa [leftOf, rightOf] using spot

theorem Spot.replace {nodes : List ν} {front back : List ν} {x : ν}
    (spot : Spot root ((.leaf nodes, i) :: outer) front x back) (y : ν) :
    Spot (bottom (.leaf (nodes.set i y)) (PageTree.reseat (.leaf (nodes.set i y)) outer))
      ((.leaf (nodes.set i y), i) :: PageTree.reseat (.leaf (nodes.set i y)) outer) front y back := by
  obtain ⟨_, same, here, path, rfl, rfl⟩ := spot.top
  cases same
  have inside := (List.getElem?_eq_some_iff.1 here).1
  have replaced := Spot.on (x := y) (path.reseat (path.uniform.set i y) i) (by simp [inside])
  rwa [leftOf_reseat, rightOf_reseat, List.take_set_of_le (Nat.le_refl i),
    List.drop_set_of_lt (Nat.lt_succ_self i)] at replaced

end Reseat

end PageTree
