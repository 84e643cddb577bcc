import Mathlib.Data.List.Basic
import Mathlib.Order.Lattice
import Mathlib.Data.List.Flatten
import Mathlib.Data.List.TakeDrop

/-!
# Trees of pages and paths into them

Leaf pages hold nodes and branch pages hold children with a separator key each. A
path is the stack of pages from the root down to a page, with the index chosen on
every page; what lies left and right of it is read off the stack. All leaf pages of a
uniform tree are equally deep and none is empty.
-/

namespace PageTree

inductive Page (κ ν : Type) where
  | leaf (nodes : List ν)
  | branch (nodes : List (κ × Page κ ν))

abbrev Stack (κ ν : Type) := List (Page κ ν × ℕ)

variable {κ ν : Type}

namespace Page

def numkeys : Page κ ν → ℕ
  | leaf nodes => nodes.length
  | branch nodes => nodes.length

@[simp] theorem numkeys_leaf (nodes : List ν) : (leaf nodes : Page κ ν).numkeys = nodes.length := rfl

@[simp] theorem numkeys_branch (children : List (κ × Page κ ν)) :
    (branch children).numkeys = children.length := rfl

mutual

def nodes : Page κ ν → List ν
  | leaf nodes => nodes
  | branch children => nodesList children

def nodesList : List (κ × Page κ ν) → List ν
  | [] => []
  | (_, page) :: children => page.nodes ++ nodesList children

end

@[simp] theorem nodes_leaf (nodes : List ν) : (leaf nodes : Page κ ν).nodes = nodes := by
  rw [Page.nodes]

@[simp] theorem nodes_branch (children : List (κ × Page κ ν)) : (branch children).nodes = nodesList children := by
  rw [Page.nodes]

@[simp] theorem nodesList_nil : nodesList ([] : List (κ × Page κ ν)) = [] := by
  rw [nodesList]

@[simp] theorem nodesList_cons (child : κ × Page κ ν) (children : List (κ × Page κ ν)) :
    nodesList (child :: children) = child.2.nodes ++ nodesList children := by
  rw [nodesList]

@[simp] theorem nodesList_append (front back : List (κ × Page κ ν)) :
    nodesList (front ++ back) = nodesList front ++ nodesList back := by
  induction front with
  | nil => simp
  | cons child front ih => simp [ih]

theorem mem_nodesList {children : List (κ × Page κ ν)} {x : ν} :
    x ∈ nodesList children ↔ ∃ child ∈ children, x ∈ child.2.nodes := by
  induction children with
  | nil => simp
  | cons child children ih => simp [ih]

/-- All leaf pages are `n` levels below the page, no leaf page is empty, and a
branch page has two children at least. -/
inductive Uniform : ℕ → Page κ ν → Prop
  | leaf {nodes} : nodes ≠ [] → Uniform 0 (leaf nodes)
  | branch {n children} : 2 ≤ children.length → (∀ child ∈ children, Uniform n child.2) →
    Uniform (n + 1) (branch children)

theorem Uniform.numkeys_pos {n : ℕ} {page : Page κ ν} (uniform : Uniform n page) : 0 < page.numkeys := by
  cases uniform with
  | leaf nonempty => exact List.length_pos_iff.2 nonempty
  | branch two _ => exact Nat.lt_of_lt_of_le Nat.two_pos two

theorem Uniform.nodes_ne_nil {n : ℕ} {page : Page κ ν} (uniform : Uniform n page) : page.nodes ≠ [] := by
  induction uniform with
  | leaf nonempty => simpa using nonempty
  | branch two _ ih =>
    rename_i n children _
    cases children with
    | nil => cases two
    | cons child children => simp [ih child (by simp)]

end Page

open Page

/-- The nodes left of the pages below the top, whose children have been entered. -/
def leftOf : Stack κ ν → List ν
  | [] => []
  | (.leaf _, _) :: outer => leftOf outer
  | (.branch children, i) :: outer => leftOf outer ++ nodesList (children.take i)

def rightOf : Stack κ ν → List ν
  | [] => []
  | (.leaf _, _) :: outer => rightOf outer
  | (.branch children, i) :: outer => nodesList (children.drop (i + 1)) ++ rightOf outer

/-- The nodes up to the index on the top page, and those behind it. -/
def upTo : Stack κ ν → List ν
  | (.leaf nodes, i) :: outer => leftOf outer ++ nodes.take (i + 1)
  | _ => []

def ahead : Stack κ ν → List ν
  | (.leaf nodes, i) :: outer => nodes.drop (i + 1) ++ rightOf outer
  | _ => []

/-- A stack that leads from the root to a page with `n` levels below it. -/
inductive Path (root : Page κ ν) : ℕ → Stack κ ν → Prop
  | root {n i} : Uniform n root → Path root n [(root, i)]
  | child {n children i sep page j outer} : Path root (n + 1) ((.branch children, i) :: outer) →
      children[i]? = some (sep, page) → Path root n ((page, j) :: (.branch children, i) :: outer)

section Paths

variable {root page : Page κ ν} {n i j : ℕ} {outer : Stack κ ν} {children : List (κ × Page κ ν)}

theorem Path.at (path : Path root n ((page, i) :: outer)) (j : ℕ) : Path root n ((page, j) :: outer) := by
  cases path with
  | root uniform => exact .root uniform
  | child below here => exact .child below here

theorem Path.uniform (path : Path root n ((page, i) :: outer)) : Uniform n page := by
  generalize stacked : (page, i) :: outer = stack at path
  induction path generalizing page i outer with
  | root uniform =>
    cases stacked
    exact uniform
  | child _ here ih =>
    cases stacked
    cases ih rfl with
    | branch _ each => exact each _ (List.mem_of_getElem? here)

theorem Path.leaf {stack : Stack κ ν} (path : Path root 0 stack) :
    ∃ nodes i outer, stack = (.leaf nodes, i) :: outer := by
  obtain ⟨page, i, outer, rfl⟩ : ∃ page i outer, stack = (page, i) :: outer := by
    cases path <;> exact ⟨_, _, _, rfl⟩
  cases path.uniform with
  | @leaf nodes _ => exact ⟨nodes, i, outer, rfl⟩

theorem nodesList_split {sep : κ} (here : children[i]? = some (sep, page)) :
    nodesList children = nodesList (children.take i) ++ page.nodes ++ nodesList (children.drop (i + 1)) := by
  obtain ⟨inside, same⟩ := List.getElem?_eq_some_iff.1 here
  have split : children = children.take i ++ (sep, page) :: children.drop (i + 1) := by
    rw [← same, List.getElem_cons_drop, List.take_append_drop]
  conv_lhs => rw [split]
  simp

/-- What the top page holds, with what lies left and right of it, is the whole tree. -/
theorem Path.nodes_eq (path : Path root n ((page, i) :: outer)) :
    root.nodes = leftOf outer ++ page.nodes ++ rightOf outer := by
  generalize stacked : (page, i) :: outer = stack at path
  induction path generalizing page i outer with
  | root =>
    cases stacked
    simp [leftOf, rightOf]
  | child _ here ih =>
    cases stacked
    rw [ih rfl, nodes_branch, nodesList_split here]
    simp [leftOf, rightOf, List.append_assoc]

theorem leftOf_succ {sep : κ} (here : children[i]? = some (sep, page)) :
    leftOf ((.branch children, i + 1) :: outer) = leftOf ((.branch children, i) :: outer) ++ page.nodes := by
  obtain ⟨inside, same⟩ := List.getElem?_eq_some_iff.1 here
  have split : children.take (i + 1) = children.take i ++ [(sep, page)] := by
    rw [← same, List.take_append_getElem inside]
  simp [leftOf, split, List.append_assoc]

theorem rightOf_pred {sep : κ} (here : children[i + 1]? = some (sep, page)) :
    rightOf ((.branch children, i) :: outer) = page.nodes ++ rightOf ((.branch children, i + 1) :: outer) := by
  obtain ⟨inside, same⟩ := List.getElem?_eq_some_iff.1 here
  have split : children.drop (i + 1) = (sep, page) :: children.drop (i + 2) := by
    rw [← same, List.getElem_cons_drop inside]
  simp [rightOf, split, List.append_assoc]

theorem rightOf_last (last : children.length ≤ i + 1) :
    rightOf ((.branch children, i) :: outer) = rightOf outer := by
  simp [rightOf, List.drop_eq_nil_of_le last]

theorem leftOf_first : leftOf ((.branch children, 0) :: outer) = leftOf outer := by
  simp [leftOf]

theorem Path.drop {upper lower : Stack κ ν} (path : Path root n (upper ++ lower)) (nonempty : lower ≠ []) :
    Path root (n + upper.length) lower := by
  induction upper generalizing n with
  | nil => exact path
  | cons top upper ih =>
    rw [List.length_cons, ← Nat.add_assoc, Nat.add_right_comm]
    cases upper with
    | nil =>
      obtain ⟨_, below, rfl⟩ := List.exists_cons_of_ne_nil nonempty
      cases path with
      | child below _ => exact ih below
    | cons _ _ =>
      cases path with
      | child below _ => exact ih below

/-- The stack leads to the node `x` of the tree, between the nodes of `front` and `back`. -/
inductive Spot (root : Page κ ν) : Stack κ ν → List ν → ν → List ν → Prop
  | on {nodes i outer x} : Path root 0 ((.leaf nodes, i) :: outer) → nodes[i]? = some x →
      Spot root ((.leaf nodes, i) :: outer) (leftOf outer ++ nodes.take i) x (nodes.drop (i + 1) ++ rightOf outer)

theorem Spot.nodes_eq {stack : Stack κ ν} {front back : List ν} {x : ν} (spot : Spot root stack front x back) :
    root.nodes = front ++ x :: back := by
  cases spot with
  | @on nodes i outer _ path here =>
    obtain ⟨inside, same⟩ := List.getElem?_eq_some_iff.1 here
    have split : nodes = nodes.take i ++ x :: nodes.drop (i + 1) := by
      rw [← same, List.getElem_cons_drop, List.take_append_drop]
    rw [path.nodes_eq, nodes_leaf]
    conv_lhs => rw [split]
    simp [List.append_assoc]

theorem Spot.path {stack : Stack κ ν} {front back : List ν} {x : ν} (spot : Spot root stack front x back) :
    Path root 0 stack := by
  cases spot with
  | on path _ => exact path

theorem Spot.top {front back : List ν} {x : ν}
    (spot : Spot root ((page, i) :: outer) front x back) :
    ∃ nodes, page = leaf nodes ∧ nodes[i]? = some x ∧ Path root 0 ((.leaf nodes, i) :: outer) ∧
      front = leftOf outer ++ nodes.take i ∧ back = nodes.drop (i + 1) ++ rightOf outer := by
  cases spot with
  | @on nodes _ _ _ path here => exact ⟨nodes, rfl, here, path, rfl, rfl⟩

theorem Spot.ahead {stack : Stack κ ν} {front back : List ν} {x : ν} (spot : Spot root stack front x back) :
    ahead stack = back := by
  cases spot with
  | on _ _ => rfl

theorem Spot.upTo {stack : Stack κ ν} {front back : List ν} {x : ν} (spot : Spot root stack front x back) :
    upTo stack = front ++ [x] := by
  cases spot with
  | @on nodes i outer _ _ here =>
    obtain ⟨inside, same⟩ := List.getElem?_eq_some_iff.1 here
    rw [PageTree.upTo, ← List.take_append_getElem inside, same, List.append_assoc]

/-- The stack leads between two nodes, or to an end of the tree. -/
inductive Gap (root : Page κ ν) : Stack κ ν → List ν → List ν → Prop
  | on {nodes i outer} : Path root 0 ((.leaf nodes, i) :: outer) → i ≤ nodes.length →
      Gap root ((.leaf nodes, i) :: outer) (leftOf outer ++ nodes.take i) (nodes.drop i ++ rightOf outer)

theorem Spot.gap {stack : Stack κ ν} {front back : List ν} {x : ν} (spot : Spot root stack front x back) :
    Gap root stack front (x :: back) := by
  cases spot with
  | @on nodes i outer _ path here =>
    obtain ⟨inside, same⟩ := List.getElem?_eq_some_iff.1 here
    have gap := Gap.on path (Nat.le_of_lt inside)
    rwa [← List.getElem_cons_drop inside, same] at gap

theorem Gap.path {stack : Stack κ ν} {front back : List ν}
    (gap : Gap root stack front back) : Path root 0 stack := by
  cases gap with
  | on path _ => exact path

theorem Gap.nodes_eq {stack : Stack κ ν} {front back : List ν} (gap : Gap root stack front back) :
    root.nodes = front ++ back := by
  cases gap with
  | @on nodes i outer path _ =>
    rw [path.nodes_eq, nodes_leaf, List.append_assoc, List.append_assoc, ← List.append_assoc (nodes.take i),
      List.take_append_drop]

theorem Gap.top {front back : List ν} (gap : Gap root ((page, i) :: outer) front back) :
    ∃ nodes, page = leaf nodes ∧ i ≤ nodes.length ∧ Path root 0 ((.leaf nodes, i) :: outer) ∧
      front = leftOf outer ++ nodes.take i ∧ back = nodes.drop i ++ rightOf outer := by
  cases gap with
  | @on nodes _ _ path upTo => exact ⟨nodes, rfl, upTo, path, rfl, rfl⟩

end Paths

section Keys

variable [LinearOrder κ]

/-- The separators split the keys: left of one all keys are less, right of it none is.
The first separator of a page is not used. -/
inductive Page.Separated (key : ν → κ) : Page κ ν → Prop
  | leaf {nodes} : Separated key (leaf nodes)
  | branch {children} : (∀ i sep page, 0 < i → children[i]? = some (sep, page) →
      (∀ x ∈ nodesList (children.take i), key x < sep) ∧ ∀ x ∈ nodesList (children.drop i), sep ≤ key x) →
      (∀ child ∈ children, Separated key child.2) → Separated key (branch children)

variable {key : ν → κ} {root page : Page κ ν} {children : List (κ × Page κ ν)}

theorem Path.separated {n i : ℕ} {outer : Stack κ ν} (path : Path root n ((page, i) :: outer))
    (separated : root.Separated key) : page.Separated key := by
  generalize stacked : (page, i) :: outer = stack at path
  induction path generalizing page i outer with
  | root =>
    cases stacked
    exact separated
  | child _ here ih =>
    cases stacked
    cases ih rfl with
    | branch _ each => exact each _ (List.mem_of_getElem? here)

/-- Separators increase, since every child has a key. -/
theorem Page.Separated.increasing {n : ℕ} (separated : (Page.branch children).Separated key)
    (uniform : Uniform n (Page.branch children)) (i j : ℕ) (a b : κ) (used : 1 ≤ i) (before : i < j)
    (at_i : (children.map Prod.fst)[i]? = some a) (at_j : (children.map Prod.fst)[j]? = some b) : a < b := by
  cases separated with
  | branch splits _ =>
  cases uniform with
  | branch _ each =>
  rw [List.getElem?_map, Option.map_eq_some_iff] at at_i at_j
  obtain ⟨⟨_, page⟩, here, rfl⟩ := at_i
  obtain ⟨⟨_, right⟩, there, rfl⟩ := at_j
  obtain ⟨x, inside⟩ := List.exists_mem_of_ne_nil _ (each _ (List.mem_of_getElem? here)).nodes_ne_nil
  have above : _ ≤ key x := (splits i _ _ used here).2 x
    (mem_nodesList.2 ⟨_, List.mem_of_getElem? (i := 0) (by simpa using here), inside⟩)
  have below : key x < _ := (splits j _ _ (by omega) there).1 x
    (mem_nodesList.2 ⟨_, List.mem_of_getElem? ((List.getElem?_take_of_lt before).trans here), inside⟩)
  exact lt_of_le_of_lt above below

end Keys

end PageTree
