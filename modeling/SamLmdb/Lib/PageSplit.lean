import Mathlib.Data.List.Basic
import SamLmdb.Lib.PageEdit

/-!
# Splitting pages on a path

A page that is full becomes two. The right one is a new child beside the left one, and
a parent without room for another separator is split itself, up to the root. How much
room there is and where a page is split are parameters: the nodes on both sides of the
path do not depend on them.
-/

namespace PageTree

open Page

variable {κ ν : Type}

/-- The page is on top of the stack, and every page is the child that the one below goes to. -/
inductive Chain : Page κ ν → Stack κ ν → Prop
  | root {page} : Chain page []
  | child {children i sep page outer} : Chain (.branch children) outer → children[i]? = some (sep, page) →
      Chain page ((.branch children, i) :: outer)

section Chains

variable {root page page' : Page κ ν} {outer : Stack κ ν}

theorem Path.chain {n i : ℕ} (path : Path root n ((page, i) :: outer)) : Chain page outer := by
  generalize stacked : (page, i) :: outer = stack at path
  induction path generalizing page i outer with
  | root =>
    cases stacked
    exact .root
  | child _ here ih =>
    cases stacked
    exact .child (ih rfl) here

theorem Chain.nodes_eq (chain : Chain page outer) :
    (bottom page outer).nodes = leftOf outer ++ page.nodes ++ rightOf outer := by
  induction chain with
  | root => simp [bottom, leftOf, rightOf]
  | child _ here ih =>
    rw [bottom, ih, nodes_branch, nodesList_split here]
    simp [leftOf, rightOf, List.append_assoc]

theorem Chain.reseat (chain : Chain page outer) (page' : Page κ ν) : Chain page' (reseat page' outer) := by
  induction chain generalizing page' with
  | root => exact .root
  | @child children i sep page outer _ here ih =>
    have replaced : (children.modify i fun child => (child.1, page'))[i]? = some (sep, page') := by
      rw [List.getElem?_modify_eq, here]
      rfl
    exact .child (ih _) replaced

end Chains

/-- The stack leads to the node `x`, between those of `front` and `back`. The pages need not be
as deep as each other. -/
inductive Placed : Stack κ ν → List ν → ν → List ν → Prop
  | on {nodes i outer x} : Chain (.leaf nodes) outer → nodes[i]? = some x →
      Placed ((.leaf nodes, i) :: outer) (leftOf outer ++ nodes.take i) x (nodes.drop (i + 1) ++ rightOf outer)

section Placed

variable {stack : Stack κ ν} {front back : List ν} {x : ν}

theorem Spot.placed {root : Page κ ν} (spot : Spot root stack front x back) : Placed stack front x back := by
  cases spot with
  | on path here => exact .on path.chain here

def rootOf : Stack κ ν → Option (Page κ ν)
  | [] => none
  | (page, _) :: outer => some (bottom page outer)

def topNode : Stack κ ν → Option ν
  | (.leaf nodes, i) :: _ => nodes[i]?
  | _ => none

def rewrite (y : ν) : Stack κ ν → Stack κ ν
  | (.leaf nodes, i) :: outer => (.leaf (nodes.set i y), i) :: reseat (.leaf (nodes.set i y)) outer
  | stack => stack

theorem Placed.topNode_eq (placed : Placed stack front x back) : topNode stack = some x := by
  cases placed with
  | on _ here => exact here

theorem Placed.rootOf_eq (placed : Placed stack front x back) :
    ∃ root, rootOf stack = some root ∧ root.nodes = front ++ x :: back := by
  cases placed with
  | @on nodes i outer _ chain here =>
    obtain ⟨inside, same⟩ := List.getElem?_eq_some_iff.1 here
    have split : nodes = nodes.take i ++ x :: nodes.drop (i + 1) := by
      rw [← same, List.getElem_cons_drop, List.take_append_drop]
    refine ⟨_, rfl, ?_⟩
    rw [chain.nodes_eq, nodes_leaf]
    conv_lhs => rw [split]
    simp [List.append_assoc]

theorem Placed.rewrite (placed : Placed stack front x back) (y : ν) : Placed (rewrite y stack) front y back := by
  cases placed with
  | @on nodes i outer _ chain here =>
    have inside := (List.getElem?_eq_some_iff.1 here).1
    have at_i : (nodes.set i y)[i]? = some y := by simp [inside]
    have placed := Placed.on (chain.reseat (.leaf (nodes.set i y))) at_i
    rwa [leftOf_reseat, rightOf_reseat, List.take_set_of_le (Nat.le_refl i),
      List.drop_set_of_lt (Nat.lt_succ_self i)] at placed

end Placed

section Cut

variable {α : Type} {entries : List α} {i s : ℕ}

theorem take_cut_left (before : i < s) : (entries.take s).take i = entries.take i := by
  rw [List.take_take, Nat.min_eq_left (Nat.le_of_lt before)]

theorem drop_cut_left (inside : i < entries.length) (before : i < s) :
    (entries.take s).drop (i + 1) ++ entries.drop s = entries.drop (i + 1) := by
  have short : i + 1 ≤ (entries.take s).length := by
    rw [List.length_take]
    omega
  rw [← List.drop_append_of_le_length short, List.take_append_drop]

theorem take_cut_right (after : s ≤ i) : entries.take s ++ (entries.drop s).take (i - s) = entries.take i := by
  rw [← List.take_add, Nat.add_sub_cancel' after]

theorem drop_cut_right (after : s ≤ i) : (entries.drop s).drop (i - s + 1) = entries.drop (i + 1) := by
  rw [List.drop_drop]
  congr 1
  omega

theorem getElem?_cut_right (after : s ≤ i) : (entries.drop s)[i - s]? = entries[i]? := by
  rw [List.getElem?_drop, Nat.add_sub_cancel' after]

end Cut

def half {α : Type} (page : List α → Page κ ν) (entries : List α) (s : ℕ) (below : Stack κ ν × Stack κ ν)
    (i : ℕ) :
    Stack κ ν :=
  if i < s then (page (entries.take s), i) :: below.1 else (page (entries.drop s), i - s) :: below.2

/-- The stacks below two pages that stand where there was one. -/
structure Beside (left right : Page κ ν) (outer : Stack κ ν) (below : Stack κ ν × Stack κ ν) : Prop where
  chain_left : Chain left below.1
  chain_right : Chain right below.2
  leftOf_left : leftOf below.1 = leftOf outer
  rightOf_left : rightOf below.1 = right.nodes ++ rightOf outer
  leftOf_right : leftOf below.2 = leftOf outer ++ left.nodes
  rightOf_right : rightOf below.2 = rightOf outer

section Half

variable {s i : ℕ} {outer : Stack κ ν} {below : Stack κ ν × Stack κ ν}

theorem Beside.placed {nodes : List ν} {x : ν}
    (beside : Beside (.leaf (nodes.take s)) (.leaf (nodes.drop s)) outer below) (here : nodes[i]? = some x) :
    Placed (half .leaf nodes s below i) (leftOf outer ++ nodes.take i) x (nodes.drop (i + 1) ++ rightOf outer) := by
  have inside := (List.getElem?_eq_some_iff.1 here).1
  rw [half]
  split
  · rename_i before
    have placed := Placed.on (x := x) beside.chain_left (by rw [List.getElem?_take_of_lt before, here])
    rwa [beside.leftOf_left, beside.rightOf_left, take_cut_left before, nodes_leaf, ← List.append_assoc,
      drop_cut_left inside before] at placed
  · rename_i after
    have after := Nat.le_of_not_lt after
    have placed := Placed.on (x := x) beside.chain_right (by rw [getElem?_cut_right after, here])
    rwa [beside.leftOf_right, beside.rightOf_right, nodes_leaf, List.append_assoc, take_cut_right after,
      drop_cut_right after] at placed

theorem Beside.child {children : List (κ × Page κ ν)} {sep : κ} {page : Page κ ν}
    (beside : Beside (.branch (children.take s)) (.branch (children.drop s)) outer below)
    (here : children[i]? = some (sep, page)) :
    Chain page (half .branch children s below i) ∧
      leftOf (half .branch children s below i) = leftOf outer ++ nodesList (children.take i) ∧
      rightOf (half .branch children s below i) = nodesList (children.drop (i + 1)) ++ rightOf outer := by
  have inside := (List.getElem?_eq_some_iff.1 here).1
  rw [half]
  split
  · rename_i before
    refine ⟨.child beside.chain_left (by rw [List.getElem?_take_of_lt before, here]), ?_, ?_⟩
    · rw [leftOf, beside.leftOf_left, take_cut_left before]
    · rw [rightOf, beside.rightOf_left, nodes_branch, ← List.append_assoc, ← nodesList_append,
        drop_cut_left inside before]
  · rename_i after
    have after := Nat.le_of_not_lt after
    refine ⟨.child beside.chain_right (by rw [getElem?_cut_right after, here]), ?_, ?_⟩
    · rw [leftOf, beside.leftOf_right, nodes_branch, List.append_assoc, ← nodesList_append, take_cut_right after]
    · rw [rightOf, beside.rightOf_right, drop_cut_right after]

end Half

section Insert

def insertKey (keys : List κ) (i : ℕ) (key : κ) : List κ := keys.take i ++ key :: keys.drop i

/-- The separator for the right page, where the keys are cut at `s`. The cut is not behind the last. -/
def sepAt (s : ℕ) (keys : List κ) (i : ℕ) (key : κ) : κ := ((insertKey keys i key)[s]?).getD key

/-- `right` becomes the child behind the child `i`, which `left` replaces. -/
def addChild (children : List (κ × Page κ ν)) (i : ℕ) (left right : Page κ ν)
    (sep : κ) : List (κ × Page κ ν) :=
  let replaced := children.modify i fun child => (child.1, left)
  replaced.take (i + 1) ++ (sep, right) :: replaced.drop (i + 1)

section AddChild

variable {children : List (κ × Page κ ν)} {i : ℕ} {left right : Page κ ν} {sep : κ}
    (inside : i < children.length)
include inside

theorem addChild_eq : addChild children i left right sep =
    children.take i ++ (children[i].1, left) :: (sep, right) :: children.drop (i + 1) := by
  have replaced : i < (children.modify i fun child => (child.1, left)).length := by simpa using inside
  rw [addChild, drop_modify_succ, ← List.take_append_getElem replaced, take_modify_self]
  simp

theorem addChild_left : (addChild children i left right sep)[i]? = some (children[i].1, left) := by
  have length : (children.take i).length = i := by simp; omega
  rw [addChild_eq inside, List.getElem?_append_right (by omega), length, Nat.sub_self]
  rfl

theorem addChild_right : (addChild children i left right sep)[i + 1]? = some (sep, right) := by
  have length : (children.take i).length = i := by simp; omega
  rw [addChild_eq inside, List.getElem?_append_right (by omega), length, Nat.add_sub_cancel_left]
  rfl

theorem take_addChild : (addChild children i left right sep).take i = children.take i := by
  rw [addChild_eq inside, List.take_append_of_le_length (by simp; omega), List.take_take, Nat.min_self]

theorem take_addChild_succ :
    (addChild children i left right sep).take (i + 1) = children.take i ++ [(children[i].1, left)] := by
  have length : (children.take i).length = i := by simp; omega
  rw [addChild_eq inside, List.take_append, length, Nat.add_sub_cancel_left, List.take_of_length_le (by omega)]
  rfl

theorem drop_addChild_succ :
    (addChild children i left right sep).drop (i + 1) = (sep, right) :: children.drop (i + 1) := by
  have length : (children.take i).length = i := by simp; omega
  rw [addChild_eq inside, List.drop_append, length, Nat.add_sub_cancel_left, List.drop_of_length_le (by omega)]
  rfl

theorem drop_addChild : (addChild children i left right sep).drop (i + 1 + 1) = children.drop (i + 1) := by
  rw [← List.drop_drop, drop_addChild_succ inside]
  rfl

end AddChild

variable (room : List κ → κ → Bool) (splitAt : List κ → ℕ → κ → ℕ)

/-- A page has become two: the stacks below them, whose pages have made room for the right one. -/
def insertBeside (left right : Page κ ν) (sep : κ) : Stack κ ν → Stack κ ν × Stack κ ν
  | (.branch children, i) :: outer =>
    let seps := children.map Prod.fst
    let children := addChild children i left right sep
    if room seps sep then
      let parent := .branch children
      ((parent, i) :: reseat parent outer, (parent, i + 1) :: reseat parent outer)
    else
      let s := splitAt seps (i + 1) sep
      let sep := sepAt s seps (i + 1) sep
      let below := insertBeside (.branch (children.take s)) (.branch (children.drop s)) sep outer
      (half .branch children s below i, half .branch children s below (i + 1))
  | _ =>
    let root := .branch [(sep, left), (sep, right)]
    ([(root, 0)], [(root, 1)])

def splitsBeside (sep : κ) : Stack κ ν → ℕ
  | (.branch children, i) :: outer =>
    let seps := children.map Prod.fst
    if room seps sep then 0
    else 1 + splitsBeside (sepAt (splitAt seps (i + 1) sep) seps (i + 1) sep) outer
  | _ => 0

variable {room splitAt} {page : Page κ ν} {outer : Stack κ ν}

variable (room splitAt) in
/-- The nodes beside the page stay where they are. -/
theorem insertBeside_beside (chain : Chain page outer) (left right : Page κ ν) (sep : κ) :
    Beside left right outer (insertBeside room splitAt left right sep outer) := by
  induction chain generalizing left right sep with
  | root =>
    refine ⟨.child .root rfl, .child .root rfl, rfl, ?_, ?_, rfl⟩
    · simp [rightOf, insertBeside]
    · simp [leftOf, insertBeside]
  | @child children i _ _ outer below here ih =>
    have inside := (List.getElem?_eq_some_iff.1 here).1
    have at_left : (addChild children i left right sep)[i]? = some (children[i].1, left) := addChild_left inside
    have at_right : (addChild children i left right sep)[i + 1]? = some (sep, right) := addChild_right inside
    rw [insertBeside]
    split
    · have seated := below.reseat (.branch (addChild children i left right sep))
      refine ⟨.child seated at_left, .child seated at_right, ?_, ?_, ?_, ?_⟩
      · simp only [leftOf, leftOf_reseat, take_addChild inside]
      · simp [rightOf, drop_addChild_succ inside]
      · simp [leftOf, take_addChild_succ inside]
      · simp [rightOf, drop_addChild inside]
    · generalize splitAt (children.map Prod.fst) (i + 1) sep = s
      have beside := ih (.branch ((addChild children i left right sep).take s))
        (.branch ((addChild children i left right sep).drop s)) (sepAt s (children.map Prod.fst) (i + 1) sep)
      obtain ⟨left_chain, leftOf_left, rightOf_left⟩ := beside.child at_left
      obtain ⟨right_chain, leftOf_right, rightOf_right⟩ := beside.child at_right
      refine ⟨left_chain, right_chain, ?_, ?_, ?_, ?_⟩
      · rw [leftOf_left, take_addChild inside, leftOf]
      · rw [rightOf_left, drop_addChild_succ inside, nodesList_cons, rightOf, List.append_assoc]
      · rw [leftOf_right, take_addChild_succ inside, nodesList_append, leftOf]
        simp
      · rw [rightOf_right, drop_addChild inside, rightOf]

def insertNode (x : ν) (nodes : List ν) (i : ℕ) (outer : Stack κ ν) : Stack κ ν :=
  let page := .leaf (nodes.take i ++ x :: nodes.drop i)
  (page, i) :: reseat page outer

variable (room splitAt) in
/-- The page on top is cut at `s`, with the node in it. -/
def splitNode (s : ℕ) (sep : κ) (x : ν) (nodes : List ν) (i : ℕ) (outer : Stack κ ν) : Stack κ ν :=
  let nodes := nodes.take i ++ x :: nodes.drop i
  half .leaf nodes s (insertBeside room splitAt (.leaf (nodes.take s)) (.leaf (nodes.drop s)) sep outer) i

section Placing

variable {nodes : List ν} {i : ℕ} (chain : Chain page outer) (upTo : i ≤ nodes.length) (x : ν)
include upTo

theorem take_inserted : (nodes.take i ++ x :: nodes.drop i).take i = nodes.take i := by
  rw [List.take_append_of_le_length (by simp; omega), List.take_take, Nat.min_self]

theorem drop_inserted : (nodes.take i ++ x :: nodes.drop i).drop (i + 1) = nodes.drop i := by
  have length : (nodes.take i).length = i := by simp; omega
  rw [List.drop_append, length, Nat.add_sub_cancel_left, List.drop_of_length_le (by omega)]
  rfl

theorem getElem?_inserted : (nodes.take i ++ x :: nodes.drop i)[i]? = some x := by
  have length : (nodes.take i).length = i := by simp; omega
  rw [List.getElem?_append_right (by omega), length, Nat.sub_self]
  rfl

include chain

theorem insertNode_placed :
    Placed (insertNode x nodes i outer) (leftOf outer ++ nodes.take i) x (nodes.drop i ++ rightOf outer) := by
  have placed := Placed.on (chain.reseat (.leaf (nodes.take i ++ x :: nodes.drop i))) (getElem?_inserted upTo x)
  rwa [leftOf_reseat, rightOf_reseat, take_inserted upTo, drop_inserted upTo] at placed

theorem splitNode_placed (s : ℕ) (sep : κ) :
    Placed (splitNode room splitAt s sep x nodes i outer) (leftOf outer ++ nodes.take i) x
      (nodes.drop i ++ rightOf outer) := by
  have beside := insertBeside_beside room splitAt chain
    (.leaf ((nodes.take i ++ x :: nodes.drop i).take s)) (.leaf ((nodes.take i ++ x :: nodes.drop i).drop s)) sep
  have placed := beside.placed (getElem?_inserted upTo x)
  rwa [take_inserted upTo, drop_inserted upTo] at placed

end Placing

end Insert

end PageTree
