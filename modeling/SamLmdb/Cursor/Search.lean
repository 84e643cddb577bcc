import Mathlib.Order.Lattice
import Mathlib.Order.Compare
import SamLmdb.Cursor.Types

/-! Searching in mdb.c: a key on a page, the leaf page of a key, and a page's siblings. -/

namespace SamLmdb

open PageTree

section Nodes

variable {κ : Type} [LinearOrder κ]

/-- The loop of `mdb_node_search`; `high` is one more than the source's. -/
def searchLoop (cmp : ℕ → Ordering) : ℕ → ℕ → ℕ → ℕ → Ordering → ℕ × Ordering
  | 0, _, _, i, rc => (i, rc)
  | fuel + 1, low, high, i, rc =>
    if low < high then
      match cmp ((low + high - 1) / 2) with
      | .eq => ((low + high - 1) / 2, .eq)
      | .gt => searchLoop cmp fuel ((low + high - 1) / 2 + 1) high ((low + high - 1) / 2) .gt
      | .lt => searchLoop cmp fuel low ((low + high - 1) / 2) ((low + high - 1) / 2) .lt
    else (i, rc)

/-- The index that is stored in the cursor, and `*exactp`. -/
def mdbNodeSearch (key : κ) (low : ℕ) (keys : List κ) : ℕ × Bool :=
  -- an index from `keys.length` on is never compared
  let cmp := fun i => (keys[i]?).elim .eq (compare key)
  match searchLoop cmp keys.length low keys.length 0 .eq with
  | (i, rc) => (if rc = .gt then i + 1 else i, rc == .eq && 0 < keys.length)

/-- What the loop knows when `m` is the lower bound it looks for. -/
structure Narrowed (cmp : ℕ → Ordering) (n m low high i : ℕ) (rc : Ordering) : Prop where
  above : low ≤ m
  below : m ≤ high
  inside : high ≤ n
  right : high < n → cmp high = .lt
  greater : rc = .gt → i + 1 = low
  less : rc = .lt → i = high
  pending : rc = .eq → low < high

structure Found (cmp : ℕ → Ordering) (n m i : ℕ) (rc : Ordering) : Prop where
  exact : rc = .eq → i = m ∧ m < n ∧ cmp m = .eq
  greater : rc = .gt → i + 1 = m
  less : rc = .lt → i = m
  absent : rc ≠ .eq → m < n → cmp m = .lt

theorem Narrowed.found {cmp : ℕ → Ordering} {n m low high i : ℕ} {rc : Ordering}
    (narrowed : Narrowed cmp n m low high i rc) (empty : ¬ low < high) : Found cmp n m i rc := by
  have ⟨above, below, inside, right, greater, less, pending⟩ := narrowed
  have met : m = high := by omega
  constructor
  · intro eq
    exact absurd (pending eq) empty
  · intro gt
    rw [greater gt]
    omega
  · intro lt
    rw [less lt, met]
  · intro _ short
    rw [met]
    exact right (by omega)

theorem searchLoop_found {cmp : ℕ → Ordering} {n m fuel low high i : ℕ} {rc : Ordering}
    (lower : ∀ j, low ≤ j → j < m → cmp j = .gt) (at_m : m < n → cmp m ≠ .gt)
    (upper : ∀ j, m < j → j < n → cmp j = .lt) (narrowed : Narrowed cmp n m low high i rc)
    (enough : high - low ≤ fuel) :
    Found cmp n m (searchLoop cmp fuel low high i rc).1 (searchLoop cmp fuel low high i rc).2 := by
  induction fuel generalizing low high i rc with
  | zero => exact narrowed.found (by omega)
  | succ fuel ih =>
    have ⟨above, below, inside, right, _, _, _⟩ := narrowed
    rw [searchLoop]
    split
    · have middle : low ≤ (low + high - 1) / 2 ∧ (low + high - 1) / 2 < high := by omega
      generalize (low + high - 1) / 2 = mid at middle
      cases compared : cmp mid with
      | eq =>
        have met : mid = m := by
          rcases Nat.lt_trichotomy mid m with before | same | after
          · rw [lower mid middle.1 before] at compared
            cases compared
          · exact same
          · rw [upper mid after (by omega)] at compared
            cases compared
        subst met
        exact ⟨fun _ => ⟨rfl, by omega, compared⟩, nofun, nofun, fun not_eq => absurd rfl not_eq⟩
      | gt =>
        have before : mid < m := by
          rcases Nat.lt_trichotomy mid m with before | same | after
          · exact before
          · subst same
            exact absurd compared (at_m (by omega))
          · rw [upper mid after (by omega)] at compared
            cases compared
        apply ih
        · intro j from_
          exact lower j (by omega)
        · exact ⟨before, below, inside, right, fun _ => rfl, nofun, nofun⟩
        · omega
      | lt =>
        have after : m ≤ mid := by
          by_contra before
          rw [lower mid middle.1 (by omega)] at compared
          cases compared
        apply ih lower
        · exact ⟨above, after, by omega, fun _ => compared, nofun, fun _ => rfl, nofun⟩
        · omega
    · rename_i empty
      exact narrowed.found empty

theorem exists_lowerBound (key : κ) (keys : List κ) {low : ℕ} (inside : low ≤ keys.length)
    (increasing : ∀ i j a b, low ≤ i → i < j → keys[i]? = some a → keys[j]? = some b → a < b) :
    ∃ m, low ≤ m ∧ m ≤ keys.length ∧ (∀ i a, low ≤ i → i < m → keys[i]? = some a → a < key) ∧
      (∀ i a, m ≤ i → keys[i]? = some a → key ≤ a) := by
  obtain ⟨rest, length⟩ := Nat.exists_eq_add_of_le inside
  induction rest generalizing low with
  | zero =>
    refine ⟨low, Nat.le_refl low, inside, fun i a after before => absurd after (by omega), ?_⟩
    intro i a after here
    have := (List.getElem?_eq_some_iff.1 here).1
    omega
  | succ rest ih =>
    have here : keys[low]? = some keys[low] := List.getElem?_eq_getElem (by omega)
    by_cases less : keys[low] < key
    · obtain ⟨m, above, below, lower, upper⟩ := @ih (low + 1) (by omega)
        (fun i j a b after => increasing i j a b (by omega)) (by omega)
      refine ⟨m, by omega, below, fun i a after before at_i => ?_, upper⟩
      rcases Nat.eq_or_lt_of_le after with same | after
      · subst same
        cases here.symm.trans at_i
        exact less
      · exact lower i a after before at_i
    · refine ⟨low, Nat.le_refl low, inside, fun i a after before => absurd after (by omega), ?_⟩
      intro i a after at_i
      rcases Nat.eq_or_lt_of_le after with same | after
      · subst same
        cases here.symm.trans at_i
        exact not_lt.1 less
      · exact (not_lt.1 less).trans (increasing low i _ a (Nat.le_refl low) after here at_i).le

theorem mdbNodeSearch_spec (key : κ) {low : ℕ} (keys : List κ) (inside : low < keys.length)
    (increasing : ∀ i j a b, low ≤ i → i < j → keys[i]? = some a → keys[j]? = some b → a < b) :
    ∃ m, low ≤ m ∧ m ≤ keys.length ∧ (∀ i a, low ≤ i → i < m → keys[i]? = some a → a < key) ∧
      (∀ i a, m ≤ i → keys[i]? = some a → key ≤ a) ∧
      mdbNodeSearch key low keys = (m, decide (keys[m]? = some key)) := by
  obtain ⟨m, above, below, lower, upper⟩ := exists_lowerBound key keys (Nat.le_of_lt inside) increasing
  refine ⟨m, above, below, lower, upper, ?_⟩
  have at_some : ∀ i, i < keys.length → ∃ a, keys[i]? = some a ∧
      (keys[i]?).elim .eq (compare key) = compare key a := by
    intro i short
    exact ⟨keys[i], List.getElem?_eq_getElem short, by rw [List.getElem?_eq_getElem short]; rfl⟩
  have found := @searchLoop_found (fun i => (keys[i]?).elim .eq (compare key)) keys.length m
    keys.length low keys.length 0 .eq ?lower ?at_m ?upper
    ⟨above, below, Nat.le_refl _, fun short => absurd short (Nat.lt_irrefl _), nofun, nofun, fun _ => inside⟩
    (by omega)
  case lower =>
    intro j after before
    obtain ⟨a, here, compared⟩ := at_some j (by omega)
    rw [compared, compare_gt_iff_gt]
    exact lower j a after before here
  case at_m =>
    intro short
    obtain ⟨a, here, compared⟩ := at_some m short
    rw [compared, ne_eq, compare_gt_iff_gt, not_lt]
    exact upper m a (Nat.le_refl m) here
  case upper =>
    intro j after short
    obtain ⟨a, here, compared⟩ := at_some j short
    obtain ⟨b, there, _⟩ := at_some m (by omega)
    rw [compared, compare_lt_iff_lt]
    exact (upper m b (Nat.le_refl m) there).trans_lt (increasing m j b a above after there here)
  rw [mdbNodeSearch]
  generalize searchLoop _ _ _ _ _ _ = outcome at found ⊢
  obtain ⟨i, rc⟩ := outcome
  obtain ⟨exact_, greater, less, absent⟩ := found
  have missing : rc ≠ .eq → keys[m]? ≠ some key := by
    intro differs here
    have short := (List.getElem?_eq_some_iff.1 here).1
    have lt := absent differs short
    simp [here] at lt
  cases rc with
  | eq =>
    obtain ⟨same, short, eq⟩ := exact_ rfl
    obtain ⟨a, here, compared⟩ := at_some m short
    rw [compared, compare_eq_iff_eq] at eq
    subst same eq
    simp [here, Nat.zero_lt_of_lt short]
  | gt =>
    have same := greater rfl
    simpa [same] using missing (by decide)
  | lt =>
    have same := less rfl
    subst same
    simpa using missing (by decide)

end Nodes

section Siblings

variable {κ ν : Type}

/-- `mdb_cursor_sibling`; without a sibling the stack is as before. -/
def mdbCursorSibling (moveRight : Bool) : Stack κ ν → Option (Option (Stack κ ν))
  | _ :: (page, i) :: outer =>
    let atEnd := if moveRight then page.numkeys ≤ i + 1 else i = 0
    let parent :=
      if atEnd then mdbCursorSibling moveRight ((page, i) :: outer)
      else some (some ((page, if moveRight then i + 1 else i - 1) :: outer))
    match parent with
    | some (some ((.branch children, j) :: outer')) =>
      (children[j]?).map fun child =>
        some ((child.2, if moveRight then 0 else child.2.numkeys - 1) :: (.branch children, j) :: outer')
    | some none => some none
    | _ => none
  | _ => some none

variable {root page : Page κ ν} {n i : ℕ} {below : Stack κ ν}

theorem mdbCursorSibling_right (path : Path root n ((page, i) :: below)) :
    (mdbCursorSibling true ((page, i) :: below) = some none ∧ rightOf below = []) ∨
    ∃ right outer, mdbCursorSibling true ((page, i) :: below) = some (some ((right, 0) :: outer)) ∧
      Path root n ((right, 0) :: outer) ∧ leftOf outer = leftOf below ++ page.nodes ∧
      right.nodes ++ rightOf outer = rightOf below := by
  induction below generalizing page i n with
  | nil => exact .inl ⟨rfl, rfl⟩
  | cons parent outer ih =>
    obtain ⟨_, j⟩ := parent
    cases path with
    | @child n children _ sep _ _ _ path here =>
    rw [mdbCursorSibling]
    by_cases last : children.length ≤ j + 1
    · simp only [Page.numkeys_branch, last, if_true]
      rcases ih path with ⟨stays, nothing⟩ | ⟨right, outer', moves, path', left_eq, right_eq⟩
      · left
        simp [stays, rightOf_last last, nothing]
      · right
        have uniform := path'.uniform
        cases uniform with
        | @branch _ children' two each =>
        obtain ⟨⟨sep', first⟩, rest, rfl⟩ := List.exists_cons_of_length_pos (Nat.lt_of_lt_of_le Nat.two_pos two)
        refine ⟨first, (.branch ((sep', first) :: rest), 0) :: outer', by simp [moves], path'.child rfl, ?_, ?_⟩
        · rw [leftOf_first, left_eq, ← leftOf_succ here, leftOf]
          simp [List.take_of_length_le last]
        · rw [rightOf_last last, ← right_eq]
          simp [rightOf]
    · right
      have next : children[j + 1]? = some children[j + 1] := List.getElem?_eq_getElem (by omega)
      simp only [Page.numkeys_branch, last, if_true, if_false, next]
      exact ⟨_, _, rfl, (path.at (j + 1)).child next, leftOf_succ here, (rightOf_pred next).symm⟩

theorem mdbCursorSibling_left (path : Path root n ((page, i) :: below)) :
    (mdbCursorSibling false ((page, i) :: below) = some none ∧ leftOf below = []) ∨
    ∃ left outer, mdbCursorSibling false ((page, i) :: below) = some (some ((left, left.numkeys - 1) :: outer)) ∧
      Path root n ((left, left.numkeys - 1) :: outer) ∧ leftOf outer ++ left.nodes = leftOf below ∧
      rightOf outer = page.nodes ++ rightOf below := by
  induction below generalizing page i n with
  | nil => exact .inl ⟨rfl, rfl⟩
  | cons parent outer ih =>
    obtain ⟨_, j⟩ := parent
    cases path with
    | @child n children _ sep _ _ _ path here =>
    rw [mdbCursorSibling]
    cases j with
    | zero =>
      simp only [Bool.false_eq_true, if_false, if_true]
      rcases ih path with ⟨stays, nothing⟩ | ⟨left, outer', moves, path', left_eq, right_eq⟩
      · left
        simp [stays, leftOf_first, nothing]
      · right
        have uniform := path'.uniform
        cases uniform with
        | @branch _ children' two each =>
        rw [Page.numkeys_branch] at moves path'
        have last : children'[children'.length - 1]? = some children'[children'.length - 1] :=
          List.getElem?_eq_getElem (by omega)
        refine ⟨_, _, by simp [moves, last], path'.child last, ?_, ?_⟩
        · rw [← leftOf_succ last, leftOf_first, ← left_eq, leftOf, Page.nodes_branch]
          simp [show children'.length - 1 + 1 = children'.length by omega]
        · rw [rightOf_last (by omega), right_eq, Page.nodes_branch, rightOf, nodesList_split here]
          simp [List.append_assoc]
    | succ j =>
      right
      have inside := (List.getElem?_eq_some_iff.1 here).1
      have previous : children[j]? = some children[j] := List.getElem?_eq_getElem (by omega)
      simp only [Bool.false_eq_true, if_false, Nat.succ_ne_zero, Nat.add_sub_cancel, previous]
      exact ⟨_, _, rfl, (path.at j).child previous, (leftOf_succ previous).symm, rightOf_pred here⟩

end Siblings

section Descent

variable {κ ν : Type} [LinearOrder κ]

/-- The index that `mdb_page_search_root` takes on a branch page. -/
def branchIndex (target : PageTarget κ) (children : List (κ × Page κ ν)) : Option ℕ :=
  match target with
  | .first => some 0
  | .last => some (children.length - 1)
  | .key key =>
    match mdbNodeSearch key 1 (children.map Prod.fst) with
    | (i, exact_) =>
      if children.length ≤ i then some (children.length - 1)
      else if exact_ then some i
      else if 0 < i then some (i - 1) else none

mutual

/-- The loop of `mdb_page_search_root` from a page that has just been pushed. -/
def descend (target : PageTarget κ) (below : Stack κ ν) : Page κ ν → Option (Stack κ ν)
  | .leaf nodes => some ((.leaf nodes, 0) :: below)
  | .branch children =>
    if 1 < children.length then
      match branchIndex target children with
      | some i => descendInto target ((.branch children, i) :: below) i children
      | none => none
    else none

def descendInto (target : PageTarget κ) (below : Stack κ ν) : ℕ → List (κ × Page κ ν) →
    Option (Stack κ ν)
  | _, [] => none
  | 0, (_, page) :: _ => descend target below page
  | i + 1, _ :: children => descendInto target below i children

end

theorem descendInto_eq (target : PageTarget κ) (below : Stack κ ν) {i : ℕ} {children : List (κ × Page κ ν)}
    {sep : κ} {page : Page κ ν} (here : children[i]? = some (sep, page)) :
    descendInto target below i children = descend target below page := by
  induction children generalizing i with
  | nil => simp at here
  | cons child children ih =>
    cases i with
    | zero =>
      simp at here
      subst here
      rw [descendInto]
    | succ i =>
      rw [descendInto]
      exact ih (by simpa using here)

/-- What the search for the target knows of the nodes beside the page it is at. -/
def Toward (key : ν → κ) : PageTarget κ → Stack κ ν → Prop
  | .first, below => leftOf below = []
  | .last, below => rightOf below = []
  | .key sought, below => (∀ x ∈ leftOf below, key x < sought) ∧ ∀ x ∈ rightOf below, sought < key x

variable {key : ν → κ} {target : PageTarget κ} {root page : Page κ ν} {n i : ℕ} {below : Stack κ ν}
  {children : List (κ × Page κ ν)}

theorem branchIndex_key {sought : κ} (uniform : (Page.branch children).Uniform n)
    (separated : (Page.branch children).Separated key)
    (toward : Toward key (.key sought) below) :
    ∃ i, branchIndex (.key sought) children = some i ∧ i < children.length ∧
      Toward key (.key sought) ((.branch children, i) :: below) := by
  have increasing := separated.increasing uniform
  cases separated with
  | branch splits _ =>
  cases uniform with
  | branch two _ =>
  obtain ⟨m, above, inside, lower, upper, answer⟩ := mdbNodeSearch_spec sought (children.map Prod.fst)
    (by rw [List.length_map]; exact two) increasing
  rw [List.length_map] at inside
  -- the child left of the first separator that is greater
  have right_child : ∀ i, i < children.length → (i = 0 ∨ ∀ sep page, children[i]? = some (sep, page) →
    sep ≤ sought) →
      (∀ sep page, children[i + 1]? = some (sep, page) → sought < sep) →
      Toward key (.key sought) ((.branch children, i) :: below) := by
    intro i short not_above greater
    constructor
    · intro x left
      rcases List.mem_append.1 left with left | left
      · exact toward.1 x left
      · rcases not_above with rfl | not_above
        · simp at left
        · have here : children[i]? = some children[i] := List.getElem?_eq_getElem short
          have positive : 0 < i := by
            rcases Nat.eq_zero_or_pos i with rfl | positive
            · simp at left
            · exact positive
          exact ((splits i _ _ positive here).1 x left).trans_le (not_above _ _ here)
    · intro x right
      rcases List.mem_append.1 right with right | right
      · rcases Nat.lt_or_ge (i + 1) children.length with more | last
        · have next : children[i + 1]? = some children[i + 1] := List.getElem?_eq_getElem more
          exact (greater _ _ next).trans_le ((splits (i + 1) _ _ (by omega) next).2 x right)
        · simp [List.drop_eq_nil_of_le last] at right
      · exact toward.2 x right
  have key_at : ∀ (i : ℕ) sep page, children[i]? = some (sep, page) → (children.map Prod.fst)[i]? = some sep := by
    intro i sep page here
    simp [here]
  have less : ∀ (i : ℕ) sep page, 1 ≤ i → i < m → children[i]? = some (sep, page) → sep < sought :=
    fun i sep page used before here => lower i sep used before (key_at i sep page here)
  have not_less : ∀ (i : ℕ) sep page, m ≤ i → children[i]? = some (sep, page) → sought ≤ sep :=
    fun i sep page after here => upper i sep after (key_at i sep page here)
  rw [branchIndex, answer]
  by_cases past : children.length ≤ m
  · refine ⟨children.length - 1, by simp [past], by omega, ?_⟩
    refine right_child (children.length - 1) (by omega) (.inr fun sep page here => ?_) fun sep page here => ?_
    · exact (less _ sep page (by omega) (by omega) here).le
    · have := (List.getElem?_eq_some_iff.1 here).1
      omega
  · obtain ⟨⟨sep, page⟩, here⟩ : ∃ child, children[m]? = some child :=
      ⟨_, List.getElem?_eq_getElem (by omega)⟩
    rw [key_at m sep page here]
    by_cases same : sep = sought
    · refine ⟨m, by simp [past, same], by omega, ?_⟩
      refine right_child m (by omega) (.inr fun sep' page' here' => ?_) fun sep' page' next => ?_
      · cases here.symm.trans here'
        exact same.le
      · rw [← same]
        exact increasing m (m + 1) _ _ above (by omega) (key_at _ _ _ here) (key_at _ _ _ next)
    · refine ⟨m - 1, by simp [past, same, Nat.lt_of_lt_of_le Nat.one_pos above], by omega, ?_⟩
      refine right_child (m - 1) (by omega) ?_ fun sep' page' next => ?_
      · rcases Nat.eq_zero_or_pos (m - 1) with first | positive
        · exact .inl first
        · exact .inr fun sep' page' at_i => (less _ sep' page' positive (by omega) at_i).le
      · rw [Nat.sub_add_cancel above, here] at next
        cases next
        exact lt_of_le_of_ne (not_less m _ _ (Nat.le_refl m) here) (Ne.symm same)

theorem branchIndex_toward (uniform : (Page.branch children).Uniform n)
    (separated : (Page.branch children).Separated key) (toward : Toward key target below) :
    ∃ i, branchIndex target children = some i ∧ i < children.length ∧
      Toward key target ((.branch children, i) :: below) := by
  have two : 2 ≤ children.length := by
    cases uniform with
    | branch two _ => exact two
  cases target with
  | first => exact ⟨0, rfl, by omega, leftOf_first.trans toward⟩
  | last => exact ⟨_, rfl, by omega, (rightOf_last (by omega)).trans toward⟩
  | key sought => exact branchIndex_key uniform separated toward

/-- From any page of the tree the search ends on a leaf page. -/
theorem descend_toward (separated : root.Separated key) (path : Path root n ((page, i) :: below))
    (toward : Toward key target below) :
    ∃ nodes outer, descend target below page = some ((.leaf nodes, 0) :: outer) ∧
      Path root 0 ((.leaf nodes, 0) :: outer) ∧ Toward key target outer := by
  have uniform := path.uniform
  induction n generalizing page i below with
  | zero =>
    cases uniform with
    | @leaf nodes _ =>
    exact ⟨nodes, below, by rw [descend], path.at 0, toward⟩
  | succ n ih =>
    cases uniform with
    | @branch _ children two each =>
    obtain ⟨index, chosen, short, toward⟩ :=
      branchIndex_toward path.uniform (path.separated separated) toward
    have here : children[index]? = some children[index] := List.getElem?_eq_getElem short
    have path' : Path root n ((children[index].2, 0) :: (.branch children, index) :: below) :=
      (path.at index).child here
    obtain ⟨nodes, outer, reached, found⟩ := ih path' toward path'.uniform
    refine ⟨nodes, outer, ?_, found⟩
    rw [descend, if_pos (by omega)]
    simp only [chosen]
    exact (descendInto_eq target _ here).trans reached

end Descent

section PageSearch

variable {κ ν ξ : Type} [LinearOrder κ]

/-- The search for the last page by a cursor that has been there: old pages stay as long
as they were entered by their last child. -/
def searchLast (below : Stack κ ν) : Stack κ ν → Option (Stack κ ν)
  | [] => none
  | (.leaf nodes, i) :: _ => some ((.leaf nodes, i) :: below)
  | (.branch children, i) :: old =>
    if 1 < children.length then
      if i = children.length - 1 then searchLast ((.branch children, i) :: below) old
      -- pages that are pushed get index 0, so none of the old ones below is met again
      else descendInto .last ((.branch children, children.length - 1) :: below) (children.length - 1) children
    else none

/-- `mdb_page_search` without flags that modify; the callers set the index on the leaf page. -/
def mdbPageSearch (target : PageTarget κ) (db : Db κ ν) (c : Cursor κ ν ξ) : Option (Option (Cursor κ ν ξ)) :=
  match db.root with
  | none => some none
  | some root =>
    let stack :=
      match target, c.initialized, c.stack.reverse with
      | .last, true, (_, i) :: old => searchLast [] ((root, i) :: old)
      | target, _, _ => descend target [] root
    stack.map fun stack => some { c with stack := stack, initialized := true, eof := false }

variable {key : ν → κ} {target : PageTarget κ} {root page : Page κ ν} {i : ℕ} {old below : Stack κ ν}

theorem searchLast_last (separated : root.Separated key)
    (path : Path root 0 (((page, i) :: old).reverse ++ below)) (nothing : rightOf below = []) :
    ∃ nodes j outer, searchLast below ((page, i) :: old) = some ((.leaf nodes, j) :: outer) ∧
      Path root 0 ((.leaf nodes, j) :: outer) ∧ rightOf outer = [] := by
  induction old generalizing page i below with
  | nil =>
    have uniform := path.uniform
    cases uniform with
    | @leaf nodes _ => exact ⟨nodes, i, below, by rw [searchLast], path, nothing⟩
  | cons next old ih =>
    obtain ⟨child, j⟩ := next
    have path' : Path root (0 + old.reverse.length) ((child, j) :: (page, i) :: below) :=
      Path.drop (by simpa [List.append_assoc] using path) (by simp)
    cases path' with
    | @child _ children _ sep _ _ _ parent here =>
    have two : 2 ≤ children.length := by
      cases parent.uniform with
      | branch two _ => exact two
    rw [searchLast, if_pos (by omega)]
    by_cases last : i = children.length - 1
    · rw [if_pos last]
      exact ih (by simpa [List.append_assoc] using path) ((rightOf_last (by omega)).trans nothing)
    · have there : children[children.length - 1]? = some children[children.length - 1] :=
        List.getElem?_eq_getElem (by omega)
      have right : Toward key .last ((.branch children, children.length - 1) :: below) :=
        (rightOf_last (by omega)).trans nothing
      obtain ⟨nodes, outer, reached, found⟩ :=
        descend_toward separated (((parent.at (children.length - 1)).child (j := 0) there)) right
      rw [if_neg last]
      exact ⟨nodes, 0, outer, (descendInto_eq _ _ there).trans reached, found⟩

theorem mdbPageSearch_toward {db : Db κ ν} {n : ℕ} {c : Cursor κ ν ξ} (rooted : db.root = some root)
    (uniform : root.Uniform n) (separated : root.Separated key)
    (ready : c.initialized = true → Path root 0 c.stack) (target : PageTarget κ) :
    ∃ nodes j outer, mdbPageSearch target db c =
        some (some { c with stack := (.leaf nodes, j) :: outer, initialized := true, eof := false }) ∧
      Path root 0 ((.leaf nodes, j) :: outer) ∧ Toward key target outer := by
  have fresh : ∃ nodes j outer, descend target [] root = some ((.leaf nodes, j) :: outer) ∧
      Path root 0 ((.leaf nodes, j) :: outer) ∧ Toward key target outer := by
    have start : Toward key target ([] : Stack κ ν) := by
      cases target with
      | first => rfl
      | last => rfl
      | key sought => exact ⟨nofun, nofun⟩
    obtain ⟨nodes, outer, reached, found⟩ := descend_toward separated (.root (i := 0) uniform) start
    exact ⟨nodes, 0, outer, reached, found⟩
  have assembled : ∀ stack, (∃ nodes j outer, stack = some ((.leaf nodes, j) :: outer) ∧
      Path root 0 ((.leaf nodes, j) :: outer) ∧ Toward key target outer) →
      ∃ nodes j outer, (stack.map fun stack =>
          some { c with stack := stack, initialized := true, eof := false }) =
        some (some { c with stack := (.leaf nodes, j) :: outer, initialized := true, eof := false }) ∧
      Path root 0 ((.leaf nodes, j) :: outer) ∧ Toward key target outer := by
    rintro _ ⟨nodes, j, outer, rfl, found⟩
    exact ⟨nodes, j, outer, rfl, found⟩
  simp only [mdbPageSearch, rooted]
  apply assembled
  split
  · rename_i page i old initialized reversed
    have path := ready initialized
    have stacked : c.stack = ((page, i) :: old).reverse ++ [] := by rw [← reversed]; simp
    rw [stacked] at path
    have bottom := @Path.drop _ _ root 0 old.reverse [(page, i)] (by simpa using path) (by simp)
    cases bottom
    exact searchLast_last separated path rfl
  · exact fresh

end PageSearch

end SamLmdb
