import SamLmdb.Cursor.Position

/-!
Seeking a key. The keys of the tree increase, so there is one place where the nodes with
smaller keys end; the search finds it from wherever the cursor is.
-/

namespace SamLmdb

open PageTree

variable {κ δ ν ξ : Type} [LinearOrder κ]

/-- The nodes with smaller keys, and the others. -/
def nodesBelow (L : Level κ δ ν ξ) (key : κ) (nodes : List ν) : List ν :=
  nodes.takeWhile fun x => decide (L.key x < key)

def nodesFrom (L : Level κ δ ν ξ) (key : κ) (nodes : List ν) : List ν :=
  nodes.dropWhile fun x => decide (L.key x < key)

section Split

variable {L : Level κ δ ν ξ} {key : κ} {front back : List ν}

theorem nodesBelow_append_nodesFrom (key : κ) (nodes : List ν) :
    nodesBelow L key nodes ++ nodesFrom L key nodes = nodes := List.takeWhile_append_dropWhile ..

theorem nodesFrom_eq (below : ∀ x ∈ front, L.key x < key) (above : ∀ x, back.head? = some x → key ≤ L.key x) :
    nodesFrom L key (front ++ back) = back := by
  rw [nodesFrom, List.dropWhile_append_of_pos (by simpa using below)]
  cases back with
  | nil => rfl
  | cons x back => simp [above x rfl]

theorem nodesBelow_eq (below : ∀ x ∈ front, L.key x < key)
    (above : ∀ x, back.head? = some x → key ≤ L.key x) :
    nodesBelow L key (front ++ back) = front := by
  rw [nodesBelow, List.takeWhile_append_of_pos (by simpa using below)]
  cases back with
  | nil => simp
  | cons x back => simp [above x rfl]

end Split

/-- The cursor is behind the last node of a page, or nowhere. -/
def Past (c : Cursor κ ν ξ) : Prop :=
  c.initialized = true → ∃ nodes i outer, c.stack = (.leaf nodes, i) :: outer ∧ nodes.length ≤ i

/-- What the search for a key comes to: the first node that is not less, or the error.
The key is found, where it has to be. -/
inductive Sought (L : Level κ δ ν ξ) (root : Page κ ν) (exactp : Bool) (key : κ) (c : Cursor κ ν ξ) :
    Option (Answer κ δ (Cursor κ ν ξ) ⊕ Cursor κ ν ξ) → Prop
  | found {c' x rest} : nodesFrom L key root.nodes = x :: rest → (exactp = true → L.key x = key) →
      Spot root c'.stack (nodesBelow L key root.nodes) x rest → c'.xcursor = c.xcursor → c'.del = c.del →
      Sought L root exactp key c (some (.inr c'))
  | missing {c'} : (c'.initialized = true → Path root 0 c'.stack) → c'.del = c.del →
      (exactp = false → nodesFrom L key root.nodes = [] ∧ Past c') →
      (exactp = true → ∀ x, (nodesFrom L key root.nodes).head? = some x → L.key x ≠ key) →
      Sought L root exactp key c (some (.inl (.fail mdbNotfound c')))

section Sought

variable {L : Level κ δ ν ξ} {root : Page κ ν} {exactp : Bool} {key : κ} {c : Cursor κ ν ξ}
  {nodes : List ν} {i : ℕ} {outer : Stack κ ν}

/-- A spot is where the search ends if the keys on its left are less and its own is not. -/
theorem Sought.of_spot (c' : Cursor κ ν ξ) {front back : List ν} {x : ν} (spot : Spot root c'.stack front x back)
    (below : ∀ y ∈ front, L.key y < key) (above : key ≤ L.key x) (exact_ : exactp = true → L.key x = key)
    (same : c'.xcursor = c.xcursor) (del : c'.del = c.del) : Sought L root exactp key c (some (.inr c')) := by
  have above' : ∀ y, (x :: back).head? = some y → key ≤ L.key y := by
    rintro y ⟨⟩
    exact above
  have from_eq : nodesFrom L key root.nodes = x :: back := by
    rw [spot.nodes_eq, nodesFrom_eq below above']
  have below_eq : nodesBelow L key root.nodes = front := by
    rw [spot.nodes_eq, nodesBelow_eq below above']
  exact .found from_eq exact_ (below_eq ▸ spot) same del

theorem Sought.congr {c₁ c₂ : Cursor κ ν ξ} {answer : Option
    (Answer κ δ (Cursor κ ν ξ) ⊕ Cursor κ ν ξ)}
    (sought : Sought L root exactp key c₁ answer) (same : c₁.xcursor = c₂.xcursor) (del : c₁.del = c₂.del) :
    Sought L root exactp key c₂ answer := by
  cases sought with
  | found from_eq exact_ spot kept kept' => exact .found from_eq exact_ spot (kept.trans same) (kept'.trans del)
  | missing ready kept' range exact_ => exact .missing ready (kept'.trans del) range exact_

theorem sorted_around (sorted : root.nodes.Pairwise fun x y => L.key x < L.key y)
    (path : Path root 0 ((.leaf nodes, i) :: outer)) :
    (∀ x ∈ leftOf outer, ∀ y ∈ nodes, L.key x < L.key y) ∧
      (∀ x ∈ nodes, ∀ y ∈ rightOf outer, L.key x < L.key y) ∧
      nodes.Pairwise fun x y => L.key x < L.key y := by
  rw [path.nodes_eq, Page.nodes_leaf, List.append_assoc, List.pairwise_append] at sorted
  obtain ⟨_, inside, across⟩ := sorted
  rw [List.pairwise_append] at inside
  refine ⟨?_, inside.2.2, inside.1⟩
  intro x left y here
  exact across x left y (List.mem_append_left _ here)

variable (key) in
theorem leafSearch (sorted : nodes.Pairwise fun x y => L.key x < L.key y) (nonempty : nodes ≠ []) :
    ∃ m, m ≤ nodes.length ∧ (∀ x ∈ nodes.take m, L.key x < key) ∧
      (∀ x ∈ nodes.drop m, key ≤ L.key x) ∧
      mdbNodeSearch key 0 (nodes.map L.key) = (m, decide ((nodes[m]?).map L.key = some key)) := by
  have at_index : ∀ (i : ℕ) a, (nodes.map L.key)[i]? = some a → ∃ x, nodes[i]? = some x ∧ L.key x = a := by
    intro i a here
    rw [List.getElem?_map] at here
    exact Option.map_eq_some_iff.1 here
  obtain ⟨m, _, upTo, lower, upper, answer⟩ := @mdbNodeSearch_spec κ _ key 0 (nodes.map L.key)
    (by simpa using List.length_pos_iff.2 nonempty) (by
      intro i j a b _ before at_i at_j
      obtain ⟨x, hx, rfl⟩ := at_index i a at_i
      obtain ⟨y, hy, rfl⟩ := at_index j b at_j
      obtain ⟨inside_i, rfl⟩ := List.getElem?_eq_some_iff.1 hx
      obtain ⟨inside_j, rfl⟩ := List.getElem?_eq_some_iff.1 hy
      exact List.pairwise_iff_getElem.1 sorted i j inside_i inside_j before)
  refine ⟨m, by simpa using upTo, ?_, ?_, by rw [answer, List.getElem?_map]⟩
  · intro x taken
    obtain ⟨i, here⟩ := List.mem_iff_getElem?.1 taken
    rw [List.getElem?_take] at here
    split at here
    · rename_i before
      exact lower i _ (Nat.zero_le i) before (by rw [List.getElem?_map, here]; rfl)
    · cases here
  · intro x dropped
    obtain ⟨i, here⟩ := List.mem_iff_getElem?.1 dropped
    rw [List.getElem?_drop] at here
    exact upper (m + i) _ (by omega) (by rw [List.getElem?_map, here]; rfl)

/-- `set2`, on the page where the key belongs. -/
theorem seekOnPage_sought (sorted : root.nodes.Pairwise fun x y => L.key x < L.key y)
    (stacked : c.stack = (.leaf nodes, i) :: outer) (path : Path root 0 ((.leaf nodes, i) :: outer))
    (toward : Toward L.key (.key key) outer) :
    Sought L root exactp key c (seekOnPage L exactp key c) := by
  have nonempty : nodes ≠ [] := by
    simpa using path.uniform.nodes_ne_nil
  obtain ⟨left, right, inside⟩ := sorted_around sorted path
  obtain ⟨m, upTo, lower, upper, answer⟩ := leafSearch key inside nonempty
  have split : root.nodes = (leftOf outer ++ nodes.take m) ++ (nodes.drop m ++ rightOf outer) := by
    rw [path.nodes_eq, Page.nodes_leaf, List.append_assoc (leftOf outer) (nodes.take m),
      ← List.append_assoc (nodes.take m), List.take_append_drop, List.append_assoc]
  have below : ∀ x ∈ leftOf outer ++ nodes.take m, L.key x < key := by
    intro x before
    rcases List.mem_append.1 before with before | before
    · exact toward.1 x before
    · exact lower x before
  have above : ∀ x, (nodes.drop m ++ rightOf outer).head? = some x → key ≤ L.key x := by
    intro x first
    rcases List.mem_append.1 (List.mem_of_head? first) with after | after
    · exact upper x after
    · exact (toward.2 x after).le
  have from_eq : nodesFrom L key root.nodes = nodes.drop m ++ rightOf outer := by
    rw [split, nodesFrom_eq below above]
  have moved : c.setIndex m = { c with stack := (.leaf nodes, m) :: outer } := by
    simp [Cursor.setIndex, stacked]
  simp only [seekOnPage, stacked, answer]
  split
  · rename_i inexact
    rw [Bool.and_eq_true, Bool.not_eq_true', decide_eq_false_iff_not] at inexact
    rw [moved]
    refine .missing (fun _ => path.at m) rfl (fun range => absurd (inexact.1.symm.trans range) (by decide)) ?_
    intro _ x first same
    rw [from_eq] at first
    rcases Nat.lt_or_ge m nodes.length with short | past
    · rw [← List.getElem_cons_drop short] at first
      cases first
      simp [List.getElem?_eq_getElem short, same] at inexact
    · rw [List.drop_eq_nil_of_le past] at first
      exact absurd same (toward.2 x (List.mem_of_head? first)).ne'
  · rename_i exact_
    have exact_ : exactp = true → (nodes[m]?).map L.key = some key := by
      intro wanted
      simpa [wanted] using exact_
    split
    · rename_i short
      have here : nodes[m]? = some nodes[m] := List.getElem?_eq_getElem short
      rw [moved]
      refine .of_spot _ (Spot.on (path.at m) here) below ?_ ?_ rfl rfl
      · exact upper _ (List.mem_of_getElem? (i := 0) (by simp [here]))
      · intro wanted
        simpa [here] using exact_ wanted
    · rename_i past
      have last : m = nodes.length := by omega
      have inexact : exactp = false := by
        by_contra wanted
        have found := exact_ (by simpa using wanted)
        rw [List.getElem?_eq_none (by omega)] at found
        cases found
      rcases mdbCursorSibling_right (path.at m) with ⟨stays, nothing⟩ |
        ⟨page, outer', moves, path', left_eq, right_eq⟩
      · rw [stays, moved]
        refine .missing (fun _ => path.at m) rfl (fun _ => ⟨?_, ?_⟩) (fun wanted => ?_)
        · rw [from_eq, nothing, last, List.drop_length, List.append_nil]
        · exact fun _ => ⟨nodes, m, outer, rfl, by omega⟩
        · exact absurd (inexact.symm.trans wanted) (by decide)
      · rw [moves]
        cases path'.uniform with
        | @leaf nodes' nonempty' =>
        obtain ⟨y, rest, rfl⟩ := List.exists_cons_of_ne_nil nonempty'
        have spot := Spot.on (x := y) path' rfl
        have right_y : y ∈ rightOf outer := by
          rw [← right_eq]
          simp
        refine Sought.of_spot { c with stack := (.leaf (y :: rest), 0) :: outer' } spot ?_ ?_ ?_ rfl rfl
        · intro z before
          rw [List.take_zero, List.append_nil, left_eq, Page.nodes_leaf] at before
          refine below z ?_
          rwa [last, List.take_length]
        · exact (toward.2 y right_y).le
        · exact fun wanted => absurd (inexact.symm.trans wanted) (by decide)

theorem seekFromRoot_sought {db : Db κ ν} {n : ℕ} (sorted : root.nodes.Pairwise fun x y => L.key x < L.key y)
    (separated : root.Separated L.key) (uniform : root.Uniform n) (rooted : db.root = some root)
    (ready : c.initialized = true → Path root 0 c.stack) :
    Sought L root exactp key c (seekFromRoot L db exactp key c) := by
  obtain ⟨nodes, i, outer, answer, path, toward⟩ := mdbPageSearch_toward rooted uniform separated ready (.key key)
  rw [seekFromRoot, answer]
  exact (seekOnPage_sought sorted rfl path toward).congr rfl rfl

omit [LinearOrder κ] in
theorem rightOf_eq_nil {outer : Stack κ ν} (last : (outer.all fun (page, i) => page.numkeys ≤ i + 1) = true) :
    rightOf outer = [] := by
  induction outer with
  | nil => rfl
  | cons parent outer ih =>
    obtain ⟨page, i⟩ := parent
    rw [List.all_cons, Bool.and_eq_true, decide_eq_true_iff] at last
    cases page with
    | leaf nodes => exact ih last.2
    | branch children => rw [rightOf_last last.1, ih last.2]

theorem seekNear_sought {db : Db κ ν} {n : ℕ} {op : SetOp}
    (sorted : root.nodes.Pairwise fun x y => L.key x < L.key y)
    (separated : root.Separated L.key) (uniform : root.Uniform n) (rooted : db.root = some root)
    (range : exactp = false → op = .setRange)
    (stacked : c.stack = (.leaf nodes, i) :: outer) (path : Path root 0 ((.leaf nodes, i) :: outer)) :
    Sought L root exactp key c (seekNear L db op exactp key nodes i outer c) := by
  have nonempty : nodes ≠ [] := by
    simpa using path.uniform.nodes_ne_nil
  obtain ⟨left, right, inside⟩ := sorted_around sorted path
  have fromRoot : Sought L root exactp key c (seekFromRoot L db exactp key c) :=
    seekFromRoot_sought sorted separated uniform rooted fun _ => stacked ▸ path
  have moved : ∀ j, c.setIndex j = { c with stack := (.leaf nodes, j) :: outer } := by
    intro j
    simp [Cursor.setIndex, stacked]
  obtain ⟨first, at_first⟩ : ∃ first, nodes[0]? = some first :=
    ⟨_, List.getElem?_eq_getElem (List.length_pos_iff.2 nonempty)⟩
  obtain ⟨last, at_last⟩ : ∃ last, nodes[nodes.length - 1]? = some last :=
    ⟨_, List.getElem?_eq_getElem (Nat.sub_lt (List.length_pos_iff.2 nonempty) Nat.one_pos)⟩
  -- left of a node of the page all keys are less than its own
  have before : ∀ j x, nodes[j]? = some x → ∀ y ∈ leftOf outer ++ nodes.take j, L.key y < L.key x := by
    intro j x here y front
    rcases List.mem_append.1 front with front | front
    · exact left y front x (List.mem_of_getElem? here)
    · obtain ⟨k, there⟩ := List.mem_iff_getElem?.1 front
      rw [List.getElem?_take] at there
      split at there
      · rename_i less
        obtain ⟨inside_k, rfl⟩ := List.getElem?_eq_some_iff.1 there
        obtain ⟨inside_j, rfl⟩ := List.getElem?_eq_some_iff.1 here
        exact List.pairwise_iff_getElem.1 inside k j inside_k inside_j less
      · cases there
  have upto_last : ∀ y ∈ nodes, L.key y ≤ L.key last := by
    intro y here
    have split : nodes = nodes.take (nodes.length - 1) ++ [last] := by
      obtain ⟨inside_last, rfl⟩ := List.getElem?_eq_some_iff.1 at_last
      rw [List.take_append_getElem, Nat.sub_add_cancel (List.length_pos_iff.2 nonempty), List.take_length]
    rw [split] at here
    rcases List.mem_append.1 here with here | here
    · exact (before _ last at_last y (List.mem_append_right _ here)).le
    · rw [List.mem_singleton.1 here]
  have here_eq : ∀ j x, nodes[j]? = some x → key = L.key x → ∀ c', c'.stack = (.leaf nodes, j) :: outer →
      c'.xcursor = c.xcursor → c'.del = c.del → Sought L root exactp key c (some (.inr c')) := by
    intro j x here same c' stacked' kept kept'
    have spot := Spot.on (path.at j) here
    rw [← stacked'] at spot
    refine .of_spot _ spot ?_ same.le (fun _ => same.symm) kept kept'
    intro y front
    rw [same]
    exact before j x here y front
  rw [seekNear, List.head?_eq_getElem?, List.getLast?_eq_getElem?, at_first, at_last]
  simp only
  cases compared : compare key (L.key first) with
  | eq =>
    exact here_eq 0 first at_first (compare_eq_iff_eq.1 compared) _ (by rw [moved]) (by rw [moved]) (by rw [moved])
  | lt =>
    have less := compare_lt_iff_lt.1 compared
    cases outer with
    | cons _ _ => exact fromRoot
    | nil =>
      have below : ∀ x ∈ ([] : List ν), L.key x < key := by simp
      have above : ∀ x, nodes.head? = some x → key ≤ L.key x := by
        intro x here
        rw [List.head?_eq_getElem?, at_first] at here
        cases here
        exact less.le
      have whole : root.nodes = [] ++ nodes := by
        rw [path.nodes_eq]
        simp [leftOf, rightOf]
      have from_eq : nodesFrom L key root.nodes = nodes := by
        rw [whole, nodesFrom_eq below above]
      simp only [List.isEmpty_nil, if_true, moved]
      split
      · rename_i inexact
        refine Sought.of_spot { c with stack := [(.leaf nodes, 0)] } (Spot.on (path.at 0) at_first)
          (by simp [leftOf]) less.le (fun wanted => ?_) rfl rfl
        exact absurd (inexact.2.symm.trans wanted) (by decide)
      · rename_i exact_
        refine .missing (fun _ => path.at 0) rfl (fun inexact => absurd ⟨range inexact, inexact⟩ exact_) ?_
        intro _ x here
        rw [from_eq, List.head?_eq_getElem?, at_first] at here
        cases here
        exact less.ne'
  | gt =>
    have greater := compare_gt_iff_gt.1 compared
    simp only
    split
    · rename_i same
      exact here_eq _ last at_last (compare_eq_iff_eq.1 same.2) _ (by rw [moved]) (by rw [moved]) (by rw [moved])
    split
    · rename_i inner
      split
      · rename_i current
        obtain ⟨x, here, same⟩ : ∃ x, nodes[i]? = some x ∧ key = L.key x := by
          simpa [Option.any_eq_true] using current
        exact here_eq i x here same c stacked rfl rfl
      · refine (seekOnPage_sought (c := { c with eof := false }) sorted stacked path ⟨?_, ?_⟩).congr rfl rfl
        · intro x before
          exact (left x before first (List.mem_of_getElem? at_first)).trans greater
        · intro x after
          exact (compare_lt_iff_lt.1 inner.2).trans (right last (List.mem_of_getElem? at_last) x after)
    · rename_i notEqual notLess
      have beyond : L.key last < key := by
        rcases Nat.lt_or_ge 1 nodes.length with more | one
        · rcases lt_trichotomy key (L.key last) with less | same | beyond
          · exact absurd ⟨more, compare_lt_iff_lt.2 less⟩ notLess
          · exact absurd ⟨more, compare_eq_iff_eq.2 same⟩ notEqual
          · exact beyond
        · rw [show nodes.length - 1 = 0 by omega, at_first] at at_last
          cases at_last
          exact greater
      split
      · rename_i lastParents
        have nothing := rightOf_eq_nil lastParents
        have below : ∀ x ∈ leftOf outer ++ nodes, L.key x < key := by
          intro x here
          rcases List.mem_append.1 here with here | here
          · exact (left x here last (List.mem_of_getElem? at_last)).trans beyond
          · exact (upto_last x here).trans_lt beyond
        have from_eq : nodesFrom L key root.nodes = [] := by
          rw [path.nodes_eq, Page.nodes_leaf, nothing]
          exact nodesFrom_eq below (by simp)
        rw [moved]
        refine .missing (fun _ => path.at nodes.length) rfl (fun _ => ⟨from_eq, ?_⟩) (fun _ => by simp [from_eq])
        exact fun _ => ⟨nodes, nodes.length, outer, rfl, Nat.le_refl _⟩
      · exact fromRoot

variable (key exactp) in
theorem seek_sought {db : Db κ ν} {n : ℕ} (op : SetOp) (sorted : root.nodes.Pairwise fun x y => L.key x < L.key y)
    (separated : root.Separated L.key) (uniform : root.Uniform n) (rooted : db.root = some root)
    (range : exactp = false → op = .setRange) (ready : c.initialized = true → Path root 0 c.stack) :
    Sought L root exactp key c (seek L db op exactp key c) := by
  cases positioned : c.initialized with
  | false =>
    simp only [seek, positioned, Bool.false_eq_true, if_false]
    exact seekFromRoot_sought sorted separated uniform rooted ready
  | true =>
    have path := ready positioned
    rw [seek, if_pos positioned]
    generalize stacked : c.stack = stack at path
    obtain ⟨page, i, outer, rfl⟩ : ∃ page i outer, stack = (page, i) :: outer := by
      cases path <;> exact ⟨_, _, _, rfl⟩
    cases path.uniform with
    | leaf _ => exact seekNear_sought sorted separated uniform rooted range stacked path

end Sought

namespace Level.Meaning

variable {L : Level κ δ ν ξ} {M : L.Meaning} (lawful : M.Lawful) {db : Db κ ν} {root : Page κ ν}
  {c : Cursor κ ν ξ} {key : κ} {op : SetOp} {exactp : Bool}
include lawful

/-- `*key`, which `MDB_SET` leaves alone. -/
def setKey (L : Level κ δ ν ξ) (op : SetOp) (x : ν) : Option κ :=
  if op = .setRange ∨ op = .setKey then some (L.key x) else none

/-- `set1`: the first value of the node. -/
theorem Lawful.settle_located (tree : M.Tree root) {front back : List ν} {x : ν}
    (spot : Spot root c.stack front x back) (notBoth : ¬(op = .getBoth ∨ op = .getBothRange)) :
    ∃ c' v post, settle L op none c = some ⟨0, setKey L op x, L.shown v, c'⟩ ∧ M.values x = v :: post ∧
      M.Located root c' front x back [] v post ∧ c'.del = c.del := by
  have wf : M.WellFormed x := tree.nodes x (by rw [spot.nodes_eq]; simp)
  obtain ⟨v, post, values⟩ := List.exists_cons_of_ne_nil (lawful.nonempty x wf)
  rw [settle, nodeptr_of_spot spot]
  cases dup : L.dupdata x with
  | true =>
    have reads := lawful.readsData x wf dup
    obtain ⟨ξ', answer, on⟩ := lawful.first x c.xcursor v post wf dup values
    refine ⟨{ c with initialized := true, eof := false, xcursor := ξ' }, v, post, ?_, values,
      ⟨rfl, spot, by simp [Onto, dup, on, values], by simp⟩, rfl⟩
    simp [settleOn, lawful.plain reads, dup, reads, notBoth, answer, setKey, shown]
  | false =>
    obtain ⟨w, single, read⟩ := lawful.single x wf dup
    cases values.symm.trans single
    cases reads : L.readsData with
    | false =>
      refine ⟨{ c with initialized := true, eof := false }, v, [], ?_, values,
        ⟨rfl, spot, by simp [Onto, dup, values], by simp⟩, rfl⟩
      cases leaf2 : L.leaf2 <;> simp [settleOn, leaf2, dup, reads, setKey, shown]
    | true =>
      refine ⟨L.clearXcursor { c with initialized := true, eof := false }, v, [], ?_, values,
        ⟨by simp, by simpa using spot, by simp [Onto, dup, values], by simp⟩, by simp⟩
      simp [settleOn, lawful.plain reads, dup, reads, notBoth, read reads, setKey, shown]

variable (op exactp) in
/-- The key, or the next one, is there. -/
theorem Lawful.set_found (tree : M.Tree root) (rooted : db.root = some root)
    (ready : c.initialized = true → Path root 0 c.stack) (sized : L.keySize key ≠ 0)
    (notBoth : ¬(op = .getBoth ∨ op = .getBothRange)) (range : exactp = false → op = .setRange) {x : ν}
    {rest : List ν} (from_eq : nodesFrom L key root.nodes = x :: rest) (exact_ : exactp = true → L.key x = key) :
    ∃ c' v post, mdbCursorSet L db op exactp key none c = some ⟨0, setKey L op x, L.shown v, c'⟩ ∧
      M.values x = v :: post ∧ M.Located root c' (nodesBelow L key root.nodes) x rest [] v post ∧
        c'.del = c.del := by
  obtain ⟨n, uniform⟩ := tree.uniform
  have sought := seek_sought (c := L.clearXcursor c) exactp key op tree.sorted tree.separated uniform rooted range
    (by simpa using ready)
  rw [mdbCursorSet, if_neg sized]
  generalize seek L db op exactp key (L.clearXcursor c) = answer at sought
  cases sought with
  | found from_eq' _ spot kept kept' =>
    cases from_eq.symm.trans from_eq'
    obtain ⟨c', v, post, answer, values, located, del⟩ := lawful.settle_located tree spot notBoth
    exact ⟨c', v, post, answer, values, located, del.trans (kept'.trans (L.clearXcursor_del c))⟩
  | missing _ _ empty absent =>
    cases exactp with
    | false => exact absurd (from_eq.symm.trans (empty rfl).1) (by simp)
    | true => exact absurd (exact_ rfl) (absent rfl x (by rw [from_eq]; rfl))

variable (M op exactp) in
omit lawful in
/-- It is not, and the cursor can still be used. -/
theorem set_missing (tree : M.Tree root) (rooted : db.root = some root)
    (ready : c.initialized = true → Path root 0 c.stack) (sized : L.keySize key ≠ 0)
    (range : exactp = false → op = .setRange)
    (absent : ∀ x, (nodesFrom L key root.nodes).head? = some x → exactp = true ∧ L.key x ≠ key) :
    ∃ c', mdbCursorSet L db op exactp key none c = some (.fail mdbNotfound c') ∧
      (c'.initialized = true → Path root 0 c'.stack) ∧ c'.del = c.del ∧ (exactp = false → Past c') := by
  obtain ⟨n, uniform⟩ := tree.uniform
  have sought := seek_sought (c := L.clearXcursor c) exactp key op tree.sorted tree.separated uniform rooted range
    (by simpa using ready)
  rw [mdbCursorSet, if_neg sized]
  generalize seek L db op exactp key (L.clearXcursor c) = answer at sought
  cases sought with
  | @found c' x rest from_eq exact_ _ _ _ =>
    have ⟨wanted, differs⟩ := absent x (by rw [from_eq]; rfl)
    exact absurd (exact_ wanted) differs
  | missing ready' kept' empty _ =>
    exact ⟨_, rfl, ready', kept'.trans (L.clearXcursor_del c), fun range => (empty range).2⟩

omit lawful in
theorem set_empty (rooted : db.root = none) (fresh : c.initialized = false) (sized : L.keySize key ≠ 0) :
    mdbCursorSet L db op exactp key none c = some (.fail mdbNotfound (L.clearXcursor c)) := by
  rw [mdbCursorSet, if_neg sized]
  simp [seek, fresh, seekFromRoot, mdbPageSearch, rooted]

end Level.Meaning

end SamLmdb
