import SamLmdb.Pages.Midl

/-! `mdb_midl_sort` of midl.c, a quicksort in place with an explicit stack. -/

namespace SamLmdb

open Cells

def small : ℕ := 8

def istackLen : ℕ := 4 * 8 * 2

/-- The inner loop of the insertion sort, from the address `i` down, and the store of `a` after it. -/
def insertionShift (a : ℕ) : ℕ → MdbIdl → MdbIdl
  | 0, ids => store ids 1 a
  | i + 1, ids =>
    if a ≤ ids (i + 1) then store ids (i + 2) a
    else insertionShift a i (store ids (i + 2) (ids (i + 1)))

def insertionSort (l : ℕ) : ℕ → MdbIdl → MdbIdl
  | 0, ids => ids
  | rounds + 1, ids =>
    let ids := insertionSort l rounds ids
    insertionShift (ids (l + 1 + rounds)) (l + rounds) ids

/-- The four `MIDL_SWAP`s that choose the median of left, center and right. -/
def medianOfThree (l ir : ℕ) (ids : MdbIdl) : MdbIdl :=
  let ids := exchange ids ((l + ir) >>> 1) (l + 1)
  let ids := if ids l < ids ir then exchange ids l ir else ids
  let ids := if ids (l + 1) < ids ir then exchange ids (l + 1) ir else ids
  if ids l < ids (l + 1) then exchange ids l (l + 1) else ids

/-- `do i++; while(ids[i] > a);`, with so many cells of the list after `i`. -/
def scanUp (ids : MdbIdl) (a : ℕ) : ℕ → ℕ → Option ℕ
  | 0, _ => none -- reads past the last cell
  | room + 1, i => if ids (i + 1) > a then scanUp ids a room (i + 1) else some (i + 1)

/-- `do j--; while(ids[j] < a);` -/
def scanDown (ids : MdbIdl) (a : ℕ) : ℕ → Option ℕ
  | j + 2 => if ids (j + 1) < a then scanDown ids a (j + 1) else some (j + 1)
  | _ => none -- reads the count, or below it

def crossing (a : ℕ) : ℕ → MdbIdl → ℕ → ℕ → Option (MdbIdl × ℕ × ℕ)
  | 0, _, _, _ => none
  | fuel + 1, ids, i, j => do
    let i ← scanUp ids a (ids 0 - i) i
    let j ← scanDown ids a j
    if j < i then some (ids, i, j) else crossing a fuel (exchange ids i j) i j

/-- One round of the quicksort: the cells, `i` and `j` when it is over. -/
def quicksortRound (l ir : ℕ) (ids : MdbIdl) : Option (MdbIdl × ℕ × ℕ) := do
  let ids := medianOfThree l ir ids
  let a := ids (l + 1)
  let (ids, i, j) ← crossing a (ids 0) ids (l + 1) ir
  some (store (store ids (l + 1) (ids j)) j a, i, j)

/-- The outer loop, with the segment in work before the ones on `istack`. It ends in
`none` where the source leaves an array or an `int` overflows. -/
def sortLoop : ℕ → List (ℕ × ℕ) → MdbIdl → Option MdbIdl
  | 0, _, _ => none
  | _, [], ids => some ids
  | fuel + 1, (l, ir) :: istack, ids =>
    if (ir - l : ℤ) < small then sortLoop fuel istack (insertionSort l (ir - l) ids)
    else if 2 ^ 31 ≤ l + ir then none
    else do
      let (ids, i, j) ← quicksortRound l ir ids
      -- `jstack += 2`, and the last cell written is `istack[jstack]`
      if istackLen ≤ 2 * (istack.length + 1) then none
      else if (ir - i + 1 : ℤ) ≥ j - l then sortLoop fuel ((l, j - 1) :: (i, ir) :: istack) ids
      else sortLoop fuel ((i, ir) :: (l, j - 1) :: istack) ids

def mdbMidlSort (ids : MdbIdl) : Option MdbIdl := sortLoop (2 * ids 0 + 2) [(1, ids 0)] ids

section Insertion

variable {l n : ℕ} {ids : MdbIdl}

/-- The hole at `i + 1` moves down by exchanges. -/
theorem insertionShift_rearranged (a i : ℕ) (ids : MdbIdl) (stop : 2 ≤ l → a ≤ ids (l - 1))
    (above : l ≤ i + 1) :
    Rearranged l (i + 1) (store ids (i + 1) a) (insertionShift a i ids) := by
  induction i generalizing ids with
  | zero =>
    rw [insertionShift]
    exact .refl _ _ _
  | succ i ih =>
    rw [insertionShift]
    split
    · exact .refl _ _ _
    · rename_i greater
      have inside : l ≤ i + 1 := by
        by_contra below
        have here : l - 1 = i + 1 := by omega
        exact greater (here ▸ stop (by omega))
      have moved := ih (store ids (i + 2) (ids (i + 1))) (by
        intro two_le
        rw [store_of_ne (by omega)]
        exact stop two_le) inside
      refine .trans (b := store (store ids (i + 2) (ids (i + 1))) (i + 1) a) ?_
        (moved.widen (Nat.le_refl l) (by omega))
      have same : store (store ids (i + 2) (ids (i + 1))) (i + 1) a =
          exchange (store ids (i + 2) a) (i + 1) (i + 2) := by
        ext k
        by_cases lower : k = i + 1
        · rw [lower, store_self, exchange_left, store_self]
        · by_cases upper : k = i + 2
          · rw [upper, exchange_right, store_of_ne (by omega), store_self, store_of_ne (by omega)]
          · rw [exchange_of_ne lower upper, store_of_ne lower, store_of_ne upper, store_of_ne upper]
      rw [same]
      exact .exchange (by omega) (by omega)

theorem descending_fill {a h j : ℕ}
    (sorted : ∀ p q, l ≤ p → p ≤ q → q ≤ j → p ≠ h → q ≠ h → ids q ≤ ids p)
    (after : ∀ q, h < q → q ≤ j → ids q ≤ a) (before : ∀ p, l ≤ p → p < h → a ≤ ids p) :
    Descending l j (store ids h a) := by
  intro p q p_ge le q_le
  by_cases p_hole : p = h
  · by_cases q_hole : q = h
    · rw [p_hole, q_hole]
    · rw [p_hole, store_self, store_of_ne q_hole]
      exact after q (by omega) q_le
  · by_cases q_hole : q = h
    · rw [q_hole, store_self, store_of_ne p_hole]
      exact before p p_ge (by omega)
    · rw [store_of_ne p_hole, store_of_ne q_hole]
      exact sorted p q p_ge le q_le p_hole q_hole

theorem insertionShift_descending (a i j : ℕ) (ids : MdbIdl) (one_le : 1 ≤ l) (stop : 2 ≤ l → a ≤ ids (l - 1))
    (above : l ≤ i + 1) (to_j : i + 1 ≤ j)
    (sorted : ∀ p q, l ≤ p → p ≤ q → q ≤ j → p ≠ i + 1 → q ≠ i + 1 → ids q ≤ ids p)
    (after : ∀ q, i + 1 < q → q ≤ j → ids q ≤ a) : Descending l j (insertionShift a i ids) := by
  induction i generalizing ids with
  | zero =>
    rw [insertionShift]
    exact descending_fill sorted after (by omega)
  | succ i ih =>
    rw [insertionShift]
    split
    · rename_i fits
      refine descending_fill sorted after fun p p_ge before => ?_
      exact Nat.le_trans fits (sorted p (i + 1) p_ge (by omega) (by omega) (by omega) (by omega))
    · rename_i greater
      have inside : l ≤ i + 1 := by
        by_contra below
        have here : l - 1 = i + 1 := by omega
        exact greater (here ▸ stop (by omega))
      refine ih _ ?_ inside (by omega) ?_ ?_
      · intro two_le
        rw [store_of_ne (by omega)]
        exact stop two_le
      · intro p q p_ge le q_le p_hole q_hole
        by_cases p_moved : p = i + 2
        · by_cases q_moved : q = i + 2
          · rw [p_moved, q_moved]
          · rw [p_moved, store_self, store_of_ne q_moved]
            exact sorted (i + 1) q inside (by omega) q_le (by omega) q_moved
        · by_cases q_moved : q = i + 2
          · rw [q_moved, store_self, store_of_ne p_moved]
            exact sorted p (i + 1) p_ge (by omega) (by omega) p_moved (by omega)
          · rw [store_of_ne p_moved, store_of_ne q_moved]
            exact sorted p q p_ge le q_le p_moved q_moved
      · intro q q_gt q_le
        by_cases q_moved : q = i + 2
        · rw [q_moved, store_self]
          omega
        · rw [store_of_ne q_moved]
          exact after q (by omega) q_le

/-- The rounds of the insertion sort from `l` on, where nothing before `l` is smaller than what follows. -/
theorem insertionSort_sorts (rounds : ℕ) (one_le : 1 ≤ l) (inside : l + rounds ≤ n) (cut : Cut n (l - 1) ids) :
    Rearranged l (l + rounds) ids (insertionSort l rounds ids) ∧ Descending l (l + rounds)
      (insertionSort l rounds ids) := by
  induction rounds with
  | zero =>
    refine ⟨.refl _ _ _, fun p q p_ge le q_le => ?_⟩
    have same : p = q := by omega
    rw [same]
  | succ rounds ih =>
    have ⟨moved, sorted⟩ := ih (by omega)
    rw [insertionSort]
    generalize insertionSort l rounds ids = before at moved sorted
    have next : before (l + 1 + rounds) = ids (l + 1 + rounds) := moved.outside (by omega)
    have stop : 2 ≤ l → before (l + 1 + rounds) ≤ before (l - 1) := by
      intro two_le
      rw [next, moved.outside (k := l - 1) (by omega)]
      exact cut (l - 1) (l + 1 + rounds) (by omega) (Nat.le_refl _) (by omega) (by omega)
    constructor
    · refine moved.widen (Nat.le_refl l) (by omega) |>.trans ?_
      have shifted := insertionShift_rearranged (before (l + 1 + rounds)) (l + rounds) before stop (by omega)
      have same : store before (l + rounds + 1) (before (l + 1 + rounds)) = before := by
        rw [Nat.add_right_comm l rounds 1]
        exact store_same
      rwa [same] at shifted
    · refine insertionShift_descending _ _ _ _ one_le stop (by omega) (by omega) ?_ (by omega)
      intro p q p_ge le q_le p_hole q_hole
      exact sorted p q p_ge le (by omega)

end Insertion

section Partition

variable {ids : MdbIdl} {a l ir : ℕ}

theorem scanUp_stops {room i stop : ℕ} (after : i < stop) (within : stop ≤ i + room)
    (not_greater : ids stop ≤ a) :
    ∃ i', scanUp ids a room i = some i' ∧ i < i' ∧ i' ≤ stop ∧ ids i' ≤ a ∧ ∀ p, i < p → p < i' →
      a ≤ ids p := by
  induction room generalizing i with
  | zero => omega
  | succ room ih =>
    rw [scanUp]
    split
    · rename_i greater
      have further : i + 1 ≠ stop := by
        rintro rfl
        omega
      obtain ⟨i', found, above, to_stop, small, between⟩ := ih (by omega : i + 1 < stop) (by omega)
      refine ⟨i', found, by omega, to_stop, small, fun p p_gt p_lt => ?_⟩
      by_cases first : p = i + 1
      · subst first
        omega
      · exact between p (by omega) p_lt
    · exact ⟨i + 1, rfl, by omega, after, by omega, by omega⟩

theorem scanDown_stops {j stop : ℕ} (one_le : 1 ≤ stop) (before : stop < j) (not_smaller : a ≤ ids stop) :
    ∃ j', scanDown ids a j = some j' ∧ j' < j ∧ stop ≤ j' ∧ a ≤ ids j' ∧ ∀ q, j' < q → q < j →
      ids q ≤ a := by
  induction j with
  | zero => omega
  | succ j ih =>
    obtain ⟨j, rfl⟩ : ∃ k, j = k + 1 := ⟨j - 1, by omega⟩
    rw [scanDown]
    split
    · rename_i smaller
      have further : stop ≠ j + 1 := by
        rintro rfl
        omega
      obtain ⟨j', found, below, from_stop, great, between⟩ := ih (by omega)
      refine ⟨j', found, by omega, from_stop, great, fun q q_gt q_lt => ?_⟩
      by_cases last : q = j + 1
      · subst last
        omega
      · exact between q q_gt (by omega)
    · exact ⟨j + 1, rfl, by omega, by omega, by omega, by omega⟩

/-- What the cells are like each time the two scans start over. -/
structure Crossing (l ir a : ℕ) (ids : MdbIdl) (i j : ℕ) : Prop where
  left : l + 1 ≤ i
  met : i ≤ j
  right : j ≤ ir
  great : ∀ p, l ≤ p → p ≤ i → a ≤ ids p
  small : ∀ q, j ≤ q → q ≤ ir → ids q ≤ a
  pivot : ids (l + 1) = a
  together : i = j → l + 2 ≤ i ∧ j + 1 ≤ ir

structure Crossed (l ir a : ℕ) (ids : MdbIdl) (i j : ℕ) : Prop where
  left : l + 1 ≤ j
  crossed : j < i
  right : i ≤ ir
  great : ∀ p, l ≤ p → p < i → a ≤ ids p
  small : ∀ q, j < q → q ≤ ir → ids q ≤ a
  pivot : ids (l + 1) = a

theorem crossing_crosses (fuel : ℕ) {i j : ℕ} (state : Crossing l ir a ids i j) (within : ir ≤ ids 0)
    (one_le : 1 ≤ l) (enough : j < i + fuel) :
    ∃ ids' i' j', crossing a fuel ids i j = some (ids', i', j') ∧
      Rearranged l ir ids ids' ∧ Crossed l ir a ids' i' j' := by
  induction fuel generalizing ids i j with
  | zero => have := state.met; omega
  | succ fuel ih =>
    have ⟨left, met, right, great, small, pivot, together⟩ := state
    have spread : i < j ∨ l + 2 ≤ i ∧ i = j ∧ j + 1 ≤ ir := by
      rcases Nat.eq_or_lt_of_le met with same | before
      · exact .inr ⟨(together same).1, same, (together same).2⟩
      · exact .inl before
    -- where one scan stops at the latest: at the other, or one cell on when they have met
    obtain ⟨i', up, i_lt, i_le, i_small, i_between⟩ : ∃ i', scanUp ids a (ids 0 - i) i = some i' ∧ i < i' ∧
        i' ≤ max j (i + 1) ∧ ids i' ≤ a ∧ ∀ p, i < p → p < i' → a ≤ ids p := by
      exact scanUp_stops (by omega) (by omega) (small _ (by omega) (by omega))
    obtain ⟨j', down, j_lt, j_ge, j_great, j_between⟩ : ∃ j', scanDown ids a j = some j' ∧ j' < j ∧
        min i (j - 1) ≤ j' ∧ a ≤ ids j' ∧ ∀ q, j' < q → q < j → ids q ≤ a := by
      exact scanDown_stops (by omega) (by omega) (great _ (by omega) (by omega))
    have i_right : i' ≤ ir := by omega
    have j_left : l + 1 ≤ j' := by omega
    rw [crossing, up]
    simp only [Option.bind_eq_bind, Option.bind_some, down]
    split
    · rename_i passed
      refine ⟨ids, i', j', rfl, .refl _ _ _, j_left, passed, i_right, ?_, ?_, pivot⟩
      · intro p p_ge p_lt
        by_cases below : p ≤ i
        · exact great p p_ge below
        · exact i_between p (by omega) p_lt
      · intro q q_gt q_le
        by_cases above : j ≤ q
        · exact small q above q_le
        · exact j_between q q_gt (by omega)
    · rename_i not_passed
      have next : Crossing l ir a (exchange ids i' j') i' j' := by
        refine ⟨by omega, by omega, by omega, ?_, ?_, ?_, by omega⟩
        · intro p p_ge p_le
          by_cases last : p = i'
          · rw [last, exchange_left]
            exact j_great
          · rw [exchange_of_ne last (by omega)]
            by_cases below : p ≤ i
            · exact great p p_ge below
            · exact i_between p (by omega) (by omega)
        · intro q q_ge q_le
          by_cases first : q = j'
          · rw [first, exchange_right]
            exact i_small
          · rw [exchange_of_ne (by omega) first]
            by_cases above : j ≤ q
            · exact small q above q_le
            · exact j_between q (by omega) (by omega)
        · rw [exchange_of_ne (by omega) (by omega), pivot]
      obtain ⟨ids', i'', j'', done, moved, crossed⟩ :=
        ih next (by rwa [exchange_of_ne (by omega) (by omega)]) (by omega)
      exact ⟨ids', i'', j'', done, .trans (.exchange (by omega) (by omega)) moved, crossed⟩

/-- After the swaps the pivot stands at `l + 1`, between a greater and a smaller cell. -/
theorem medianOfThree_spec (ids : MdbIdl) (wide : l + 2 ≤ ir) : Rearranged l ir ids (medianOfThree l ir ids) ∧
    medianOfThree l ir ids (l + 1) ≤ medianOfThree l ir ids l ∧
    medianOfThree l ir ids ir ≤ medianOfThree l ir ids (l + 1) := by
  have center : l ≤ (l + ir) >>> 1 ∧ (l + ir) >>> 1 ≤ ir := by
    rw [Nat.shiftRight_succ, Nat.shiftRight_zero]
    omega
  rw [medianOfThree]
  have moved : Rearranged l ir ids (exchange ids ((l + ir) >>> 1) (l + 1)) := .exchange center (by omega)
  generalize exchange ids ((l + ir) >>> 1) (l + 1) = first at moved
  -- first the cells at `l` and `ir` are put in order
  obtain ⟨second, second_eq, moved', ordered⟩ : ∃ second,
    (if first l < first ir then exchange first l ir else first) =
      second ∧ Rearranged l ir ids second ∧ second ir ≤ second l := by
    refine ⟨_, rfl, ?_⟩
    split
    · refine ⟨moved.trans (.exchange (by omega) (by omega)), ?_⟩
      rw [exchange_left, exchange_right]
      omega
    · exact ⟨moved, by omega⟩
  -- then the one at `ir` is the least of the three
  obtain ⟨third, third_eq, moved'', least, least'⟩ : ∃ third, (if second (l + 1) < second ir then
      exchange second (l + 1) ir else second) = third ∧ Rearranged l ir ids third ∧ third ir ≤ third (l + 1) ∧
      third ir ≤ third l := by
    refine ⟨_, rfl, ?_⟩
    split
    · refine ⟨moved'.trans (.exchange (by omega) (by omega)), ?_⟩
      rw [exchange_left, exchange_right, exchange_of_ne (by omega) (by omega)]
      omega
    · exact ⟨moved', by omega, ordered⟩
  simp only [second_eq, third_eq]
  split
  · refine ⟨moved''.trans (.exchange (by omega) (by omega)), ?_⟩
    rw [exchange_left, exchange_right, exchange_of_ne (by omega) (by omega)]
    omega
  · exact ⟨moved'', by omega, least⟩

/-- A round leaves nothing smaller before `j` nor greater after `i`, and what is between is in order. -/
theorem quicksortRound_parts (one_le : 1 ≤ l) (wide : l + 2 ≤ ir) (within : ir ≤ ids 0) :
    ∃ ids' i j, quicksortRound l ir ids = some (ids', i, j) ∧ Rearranged l ir ids ids' ∧ l + 1 ≤ j ∧
      j < i ∧ i ≤ ir ∧
      ∀ k p q, j ≤ k + 1 → k < i → l ≤ p → p ≤ k → k < q → q ≤ ir → ids' q ≤ ids' p := by
  obtain ⟨chosen, upper, lower⟩ := medianOfThree_spec ids wide
  rw [quicksortRound]
  generalize medianOfThree l ir ids = ids₁ at chosen upper lower
  have count : ids₁ 0 = ids 0 := chosen.outside (by omega)
  have start : Crossing l ir (ids₁ (l + 1)) ids₁ (l + 1) ir := by
    refine ⟨Nat.le_refl _, by omega, Nat.le_refl _, ?_, ?_, rfl, by omega⟩
    · intro p p_ge p_le
      by_cases first : p = l
      · rw [first]
        exact upper
      · have second : p = l + 1 := by omega
        rw [second]
    · intro q q_ge q_le
      have last : q = ir := by omega
      rw [last]
      exact lower
  obtain ⟨ids₂, i, j, done, moved, crossed⟩ := crossing_crosses (ids₁ 0) start (by omega) one_le (by omega)
  have ⟨left, passed, right, great, small, pivot⟩ := crossed
  have swapped : store (store ids₂ (l + 1) (ids₂ j)) j (ids₁ (l + 1)) = exchange ids₂ (l + 1) j := by
    rw [exchange, pivot]
  refine ⟨exchange ids₂ (l + 1) j, i, j, ?_, ?_, left, passed, right, ?_⟩
  · simp only [done, Option.bind_eq_bind, Option.bind_some, swapped]
  · exact (chosen.trans moved).trans (.exchange (by omega) (by omega))
  · -- all that is at `k` or before is at least the pivot, all that follows at most the pivot
    have great' : ∀ p, l ≤ p → p < i → ids₁ (l + 1) ≤ exchange ids₂ (l + 1) j p := by
      intro p p_ge p_lt
      by_cases second : p = l + 1
      · rw [second, exchange_left]
        exact great j (by omega) passed
      · by_cases middle : p = j
        · rw [middle, exchange_right, pivot]
        · rw [exchange_of_ne second middle]
          exact great p p_ge p_lt
    have small' : ∀ q, j ≤ q → q ≤ ir → exchange ids₂ (l + 1) j q ≤ ids₁ (l + 1) := by
      intro q q_ge q_le
      by_cases middle : q = j
      · rw [middle, exchange_right, pivot]
      · rw [exchange_of_ne (by omega) middle]
        exact small q (by omega) q_le
    intro k p q from_j to_i p_ge p_le q_gt q_le
    exact Nat.le_trans (small' q (by omega) q_le) (great' p p_ge (by omega))

end Partition

section Whole

/-- The stack has room for another segment: each below it has twice the cells of the next. -/
theorem istack_room {n : ℕ} {s : ℕ × ℕ} {istack : List (ℕ × ℕ)} (halved : Halved n (s :: istack))
    (bound : n ≤ 2 ^ 30) (wide : 1 ≤ extent s) :
    2 * (istack.length + 1) < istackLen := by
  have few : istack.length ≤ 30 := by
    refine (Nat.pow_le_pow_iff_right (Nat.lt_succ_self 1)).1 ?_
    calc 2 ^ istack.length ≤ extent s * 2 ^ istack.length := Nat.le_mul_of_pos_left _ wide
      _ ≤ n := halved.1
      _ ≤ 2 ^ 30 := bound
  rw [istackLen]
  omega

theorem sortLoop_sorts {n fuel : ℕ} {work : List (ℕ × ℕ)} {ids : MdbIdl} (count : ids 0 = n)
    (bound : n ≤ 2 ^ 30) (divided : Divided n work ids) (halved : Halved n work) (enough : effort work < fuel) :
    ∃ ids', sortLoop fuel work ids = some ids' ∧ Rearranged 1 n ids ids' ∧ Descending 1 n ids' := by
  induction fuel generalizing work ids with
  | zero => omega
  | succ fuel ih =>
    cases work with
    | nil =>
      rw [sortLoop]
      · exact ⟨ids, rfl, .refl _ _ _, divided.done⟩
      · simp
    | cons s istack =>
      obtain ⟨l, ir⟩ := s
      have ⟨one_le, ordered, within⟩ : 1 ≤ l ∧ l ≤ ir + 1 ∧ ir ≤ n := divided.within (l, ir) (by simp)
      rw [sortLoop]
      split
      · -- a short segment is put in order and leaves the list
        by_cases empty : ir < l
        · have none_left : ir - l = 0 := by omega
          rw [none_left, insertionSort]
          refine ih count (divided.finish (.refl _ _ _) ?_) halved.2 (by simp only [effort] at enough; omega)
          intro p q p_ge le q_le
          simp only at p_ge q_le
          omega
        · have end_eq : l + (ir - l) = ir := by omega
          have sorts := insertionSort_sorts (ir - l) one_le (by omega) (divided.ends (l, ir) (by simp)).1
          rw [end_eq] at sorts
          obtain ⟨moved, sorted⟩ := sorts
          obtain ⟨ids', done, moved', sorted'⟩ := ih (by rw [moved.outside (by omega), count])
            (divided.finish moved sorted) halved.2 (by simp only [effort] at enough; omega)
          exact ⟨ids', done, (moved.widen one_le within).trans moved', sorted'⟩
      · rename_i long
        have wide : l + 8 ≤ ir := by
          simp only [small] at long
          omega
        rw [if_neg (show ¬ 2 ^ 31 ≤ l + ir by omega)]
        obtain ⟨ids₁, i, j, round, moved, left, passed, right, here⟩ :=
          quicksortRound_parts one_le (show l + 2 ≤ ir by omega) (show ir ≤ ids 0 by omega)
        have parts := divided.divide moved (by omega : l ≤ j) passed right here
        have room := istack_room halved bound (by simp only [extent]; omega)
        have count₁ : ids₁ 0 = n := by rw [moved.outside (by omega), count]
        simp only [round, Option.bind_eq_bind, Option.bind_some]
        rw [if_neg (show ¬ istackLen ≤ 2 * (istack.length + 1) by omega)]
        have rest : ∀ work', Divided n work' ids₁ → Halved n work' →
          effort work' < effort ((l, ir) :: istack) →
            ∃ ids', sortLoop fuel work' ids₁ = some ids' ∧ Rearranged 1 n ids ids' ∧ Descending 1 n ids' := by
          intro work' divided' halved' less
          obtain ⟨ids', done, moved', sorted'⟩ := ih count₁ divided' halved' (by omega)
          exact ⟨ids', done, (moved.widen one_le within).trans moved', sorted'⟩
        split
        · refine rest _ parts (halved.divide ?_ ?_) (effort_divide ?_)
          all_goals simp only [extent]; omega
        · refine rest _ (parts.perm (.swap _ _ _)) (halved.divide ?_ ?_) (effort_divide ?_)
          all_goals simp only [extent]; omega

/-- `mdb_midl_sort` sorts every list of up to 2^30 IDs, within the list and with room on its stack. -/
theorem mdbMidlSort_sorts (ids : MdbIdl) (bound : ids 0 ≤ 2 ^ 30) : ∃ ids', mdbMidlSort ids = some ids' ∧
    (window ids' 1 (ids 0)).Perm (window ids 1 (ids 0)) ∧ (window ids' 1 (ids 0)).Pairwise (· ≥ ·) ∧
    ∀ k, k = 0 ∨ ids 0 < k → ids' k = ids k := by
  obtain ⟨ids', done, moved, sorted⟩ := sortLoop_sorts rfl bound (.whole (ids 0) ids)
    ⟨by simp [extent], trivial⟩ (show _ < 2 * ids 0 + 2 by simp [effort, extent])
  exact ⟨ids', done, moved.window_perm, sorted.window_pairwise, fun k out => moved.outside (by omega)⟩

/-- What comes of it is the sorted list, and no other cell changes. -/
theorem mdbMidlSort_midlSort (ids : MdbIdl) (bound : ids 0 ≤ 2 ^ 30) : ∃ ids', mdbMidlSort ids = some ids' ∧
    window ids' 1 (ids 0) = midlSort (window ids 1 (ids 0)) ∧ ∀ k, k = 0 ∨ ids 0 < k → ids' k = ids k := by
  obtain ⟨ids', done, same, descending, outside⟩ := mdbMidlSort_sorts ids bound
  exact ⟨ids', done, eq_of_descending (same.trans (midlSort_perm _).symm) descending (midlSort_sorted _), outside⟩

theorem mdbMidlSort_midlSort_twelve : ∃ ids',
    mdbMidlSort (mdbIdl [4, 9, 2, 7, 7, 1, 12, 3, 8, 5, 11, 6]) = some ids' ∧
    window ids' 1 12 = midlSort [4, 9, 2, 7, 7, 1, 12, 3, 8, 5, 11, 6] ∧
    ∀ k, k = 0 ∨ 12 < k → ids' k = mdbIdl [4, 9, 2, 7, 7, 1, 12, 3, 8, 5, 11, 6] k :=
  mdbMidlSort_midlSort (mdbIdl [4, 9, 2, 7, 7, 1, 12, 3, 8, 5, 11, 6]) (by decide)

end Whole

end SamLmdb
