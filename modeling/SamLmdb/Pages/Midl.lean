import Mathlib.Data.List.GetD
import Mathlib.Order.Lattice
import Mathlib.Order.Compare
import SamLmdb.Lib.Cells
import SamLmdb.Pages.Alloc

/-!
Searching and merging the ID lists of midl.c.

An ID list is an array of cells; cell 0 holds the number of IDs and they stand in the
cells from 1 on, in descending order. The dirty list of a transaction is one of pairs of
an ID and a pointer, in ascending order.
-/

namespace SamLmdb

open Cells

abbrev MdbIdl := Memory ℕ

def mdbIdl (xs : List ℕ) : MdbIdl := ⟨fun k => (xs.length :: xs).getD k 0⟩

theorem descending_mdbIdl {xs : List ℕ} (sorted : xs.Pairwise (· ≥ ·)) : Descending 1 (mdbIdl xs 0)
    (mdbIdl xs) := by
  intro p q p_ge le q_le
  have length : mdbIdl xs 0 = xs.length := rfl
  obtain ⟨k, rfl⟩ := Nat.exists_eq_add_of_le' p_ge
  obtain ⟨l, rfl⟩ := Nat.exists_eq_add_of_le' (Nat.le_trans p_ge le)
  show xs.getD l 0 ≤ xs.getD k 0
  rw [List.getD_eq_getElem _ _ (by omega), List.getD_eq_getElem _ _ (by omega)]
  by_cases same : k = l
  · simp [same]
  · exact List.pairwise_iff_getElem.1 sorted k l (by omega) (by omega) (by omega)

section Search

/-- The loop that `mdb_midl_search` and `mdb_mid2l_search` share; `cmp` is how the sought
ID compares, `.lt` for one that has to stand before the cell. -/
def idlSearchLoop (cmp : ℕ → Ordering) : ℕ → ℕ → ℕ → ℕ → Ordering → ℕ
  | 0, _, _, cursor, val => if val = .gt then cursor + 1 else cursor
  | fuel + 1, base, n, cursor, val =>
    if 0 < n then
      let pivot := n >>> 1
      let cursor := base + pivot + 1
      match cmp cursor with
      | .lt => idlSearchLoop cmp fuel base pivot cursor .lt
      | .gt => idlSearchLoop cmp fuel cursor (n - (pivot + 1)) cursor .gt
      | .eq => cursor
    else if val = .gt then cursor + 1 else cursor

/-- `val` is `CMP(ids[cursor], id)`, the other way around than in `mdb_mid2l_search`. -/
def mdbMidlSearch (ids : MdbIdl) (id : ℕ) : ℕ :=
  let n := ids 0 % 2 ^ 32
  idlSearchLoop (fun cursor => compare (ids cursor) id) n 0 n 1 .eq

structure Halving (cmp : ℕ → Ordering) (len base n cursor : ℕ) (val : Ordering) : Prop where
  within : base + n ≤ len
  before : ∀ p, 1 ≤ p → p ≤ base → cmp p = .gt
  after : ∀ p, base + n < p → p ≤ len → cmp p = .lt
  greater : val = .gt → cursor = base
  less : val = .lt → cursor = base + n + 1
  first : val = .eq → cursor = base + 1

/-- Where an ID stands, or else where it would have to stand. -/
def Located (cmp : ℕ → Ordering) (len x : ℕ) : Prop :=
  1 ≤ x ∧ x ≤ len + 1 ∧ (x ≤ len ∧ cmp x = .eq ∨
    (∀ p, 1 ≤ p → p < x → cmp p = .gt) ∧ ∀ p, x ≤ p → p ≤ len → cmp p = .lt)

theorem Halving.located {cmp : ℕ → Ordering} {len base cursor : ℕ} {val : Ordering}
    (halving : Halving cmp len base 0 cursor val) : Located cmp len (if val = .gt then cursor + 1 else cursor) := by
  have ⟨within, before, after, greater, less, first⟩ := halving
  have here : (if val = .gt then cursor + 1 else cursor) = base + 1 := by
    cases val with
    | lt => exact less rfl
    | eq => exact first rfl
    | gt => exact congrArg (· + 1) (greater rfl)
  rw [here]
  exact ⟨by omega, by omega, .inr ⟨fun p one_le lt => before p one_le (by omega),
    fun p ge => after p (by omega)⟩⟩

theorem idlSearchLoop_located {cmp : ℕ → Ordering} {len fuel base n cursor : ℕ} {val : Ordering}
    (lower : ∀ p q, cmp p = .lt → 1 ≤ p → p ≤ q → q ≤ len → cmp q = .lt)
    (upper : ∀ p q, cmp q = .gt → 1 ≤ p → p ≤ q → q ≤ len → cmp p = .gt)
    (halving : Halving cmp len base n cursor val) (enough : n ≤ fuel) :
    Located cmp len (idlSearchLoop cmp fuel base n cursor val) := by
  induction fuel generalizing base n cursor val with
  | zero =>
    obtain rfl : n = 0 := by omega
    rw [idlSearchLoop]
    exact halving.located
  | succ fuel ih =>
    have ⟨within, before, after, greater, less, first⟩ := halving
    rw [idlSearchLoop]
    split
    · have middle : n >>> 1 < n := by
        rw [Nat.shiftRight_succ, Nat.shiftRight_zero]
        omega
      generalize n >>> 1 = pivot at middle
      simp only
      cases compared : cmp (base + pivot + 1) with
      | lt =>
        refine ih ⟨by omega, before, ?_, by simp, by simp, by simp⟩ (by omega)
        intro p p_gt p_le
        exact lower _ p compared (by omega) (by omega) p_le
      | gt =>
        refine ih ⟨by omega, ?_, ?_, by simp, by simp, by simp⟩ (by omega)
        · intro p one_le p_le
          exact upper p _ compared one_le (by omega) (by omega)
        · intro p p_gt p_le
          exact after p (by omega) p_le
      | eq =>
        show Located cmp len (base + pivot + 1)
        exact ⟨by omega, by omega, .inl ⟨by omega, compared⟩⟩
    · obtain rfl : n = 0 := by omega
      exact halving.located

/-- In a descending list the search finds the ID, or else where the smaller ones begin. -/
theorem mdbMidlSearch_located {ids : MdbIdl} (id : ℕ) (count : ids 0 < 2 ^ 32) (sorted : Descending 1 (ids 0) ids) :
    1 ≤ mdbMidlSearch ids id ∧ mdbMidlSearch ids id ≤ ids 0 + 1 ∧
      (mdbMidlSearch ids id ≤ ids 0 ∧ ids (mdbMidlSearch ids id) = id ∨
        (∀ p, 1 ≤ p → p < mdbMidlSearch ids id → id < ids p) ∧
          ∀ p, mdbMidlSearch ids id ≤ p → p ≤ ids 0 → ids p < id) := by
  have located : Located (fun cursor => compare (ids cursor) id) (ids 0) (mdbMidlSearch ids id) := by
    rw [mdbMidlSearch, Nat.mod_eq_of_lt count]
    refine idlSearchLoop_located ?_ ?_ ⟨by omega, by omega, by omega, by simp, by simp, by simp⟩ (Nat.le_refl _)
    · intro p q less one_le le q_le
      rw [compare_lt_iff_lt] at less ⊢
      exact Nat.lt_of_le_of_lt (sorted p q one_le le q_le) less
    · intro p q greater one_le le q_le
      rw [compare_gt_iff_gt] at greater ⊢
      exact Nat.lt_of_lt_of_le greater (sorted p q one_le le q_le)
  simp only [Located, compare_eq_iff_eq, compare_lt_iff_lt, compare_gt_iff_gt] at located
  exact located

theorem mdbMidlSearch_located_absent : 1 ≤ mdbMidlSearch (mdbIdl [9, 5, 2]) 4 ∧
    mdbMidlSearch (mdbIdl [9, 5, 2]) 4 ≤ 3 + 1 ∧
    (mdbMidlSearch (mdbIdl [9, 5, 2]) 4 ≤ 3 ∧ mdbIdl [9, 5, 2] (mdbMidlSearch (mdbIdl [9, 5, 2]) 4) = 4 ∨
      (∀ p, 1 ≤ p → p < mdbMidlSearch (mdbIdl [9, 5, 2]) 4 → 4 < mdbIdl [9, 5, 2] p) ∧
        ∀ p, mdbMidlSearch (mdbIdl [9, 5, 2]) 4 ≤ p → p ≤ 3 → mdbIdl [9, 5, 2] p < 4) :=
  mdbMidlSearch_located 4 (show 3 < 2 ^ 32 by decide) (descending_mdbIdl (by decide))

end Search

section Merge

/-- The inner loop of `mdb_midl_xmerge`, at `j`, `old_id` and `k`: these and the list after it. -/
def xmergeScan (merge_id : ℕ) : ℕ → ℕ → ℕ → MdbIdl → Option (ℕ × ℕ × ℕ × MdbIdl)
  | 0, old_id, k, idl => if old_id < merge_id then none else some (0, old_id, k, idl)
  | j + 1, old_id, k, idl =>
    if old_id < merge_id then
      let idl := store idl k old_id
      xmergeScan merge_id j (idl j) (k - 1) idl
    else some (j + 1, old_id, k, idl)

def xmergeLoop (merge : MdbIdl) : ℕ → ℕ → ℕ → ℕ → MdbIdl → Option MdbIdl
  | 0, _, _, _, idl => some idl
  | i + 1, j, old_id, k, idl => do
    let merge_id := merge (i + 1)
    let (j, old_id, k, idl) ← xmergeScan merge_id j old_id k idl
    xmergeLoop merge i j old_id (k - 1) (store idl k merge_id)

/-- `none` when the scan leaves the list. -/
def mdbMidlXmerge (idl merge : MdbIdl) : Option MdbIdl := do
  let i := merge 0
  let j := idl 0
  let total := i + j
  let idl := store idl 0 (2 ^ 64 - 1) -- `(MDB_ID)-1`, the delimiter
  let idl ← xmergeLoop merge i j (idl j) total idl
  some (store idl 0 total)

/-- The first `j` cells and `i` IDs of `merge` are still to be put, and the rest is in place. -/
structure Merging (idl merge : MdbIdl) (now : MdbIdl) (i j k : ℕ) : Prop where
  at_k : k = i + j
  inner : j ≤ idl 0
  outer : i ≤ merge 0
  delimiter : now 0 = 2 ^ 64 - 1
  kept : ∀ p, 1 ≤ p → p ≤ j ∨ merge 0 + idl 0 < p → now p = idl p
  placed : (window now (k + 1) (merge 0 + idl 0 - k)).Perm
    (window idl (j + 1) (idl 0 - j) ++ window merge (i + 1) (merge 0 - i))
  sorted : (window now (k + 1) (merge 0 + idl 0 - k)).Pairwise (· ≥ ·)
  least : ∀ x ∈ window now (k + 1) (merge 0 + idl 0 - k), (1 ≤ j → x ≤ idl j) ∧ (1 ≤ i → x ≤ merge i)

variable {idl merge now : MdbIdl} {i j k : ℕ}

theorem Merging.start (idl merge : MdbIdl) :
    Merging idl merge (store idl 0 (2 ^ 64 - 1)) (merge 0) (idl 0) (merge 0 + idl 0) where
  at_k := rfl
  inner := Nat.le_refl _
  outer := Nat.le_refl _
  delimiter := store_self
  kept := fun p one_le _ => store_of_ne (by omega)
  placed := by simp [window]
  sorted := by simp [window]
  least := by simp [window]

theorem Merging.take_old (merging : Merging idl merge now i (j + 1) k) (sorted : Descending 1 (idl 0) idl)
    (some_left : 1 ≤ i) (less : idl (j + 1) ≤ merge i) :
    Merging idl merge (store now k (idl (j + 1))) i j (k - 1) := by
  have ⟨at_k, inner, outer, delimiter, kept, placed, ordered, least⟩ := merging
  have one_more : merge 0 + idl 0 - (k - 1) = merge 0 + idl 0 - k + 1 := by omega
  have here : k - 1 + 1 = k := by omega
  have shown : window (store now k (idl (j + 1))) (k - 1 + 1) (merge 0 + idl 0 - (k - 1)) =
      idl (j + 1) :: window now (k + 1) (merge 0 + idl 0 - k) := by
    rw [one_more, here, window_store_cons]
  refine ⟨by omega, by omega, outer, ?_, ?_, ?_, ?_, ?_⟩
  · rw [store_of_ne (by omega), delimiter]
  · intro p one_le out
    rw [store_of_ne (by omega)]
    exact kept p one_le (by omega)
  · have left : window idl (j + 1) (idl 0 - j) = idl (j + 1) :: window idl (j + 1 + 1) (idl 0 - (j + 1)) := by
      have more : idl 0 - j = 1 + (idl 0 - (j + 1)) := by omega
      rw [more, window_append]
      rfl
    rw [shown, left]
    exact placed.cons _
  · rw [shown]
    exact .cons (fun x member => (least x member).1 (by omega)) ordered
  · rw [shown]
    intro x member
    rcases List.mem_cons.1 member with rfl | member
    · exact ⟨fun one_le => sorted j (j + 1) one_le (by omega) inner, fun _ => less⟩
    · have ⟨below_idl, below_merge⟩ := least x member
      refine ⟨fun one_le => ?_, below_merge⟩
      exact Nat.le_trans (below_idl (by omega)) (sorted j (j + 1) one_le (by omega) inner)

theorem Merging.take_merge (merging : Merging idl merge now (i + 1) j k) (sorted : Descending 1 (merge 0) merge)
    (fits : 1 ≤ j → merge (i + 1) ≤ idl j) : Merging idl merge (store now k (merge (i + 1))) i j (k - 1) := by
  have ⟨at_k, inner, outer, delimiter, kept, placed, ordered, least⟩ := merging
  have one_more : merge 0 + idl 0 - (k - 1) = merge 0 + idl 0 - k + 1 := by omega
  have here : k - 1 + 1 = k := by omega
  have shown : window (store now k (merge (i + 1))) (k - 1 + 1) (merge 0 + idl 0 - (k - 1)) =
      merge (i + 1) :: window now (k + 1) (merge 0 + idl 0 - k) := by
    rw [one_more, here, window_store_cons]
  refine ⟨by omega, inner, by omega, ?_, ?_, ?_, ?_, ?_⟩
  · rw [store_of_ne (by omega), delimiter]
  · intro p one_le out
    rw [store_of_ne (by omega)]
    exact kept p one_le out
  · have right : window merge (i + 1) (merge 0 - i) = merge (i + 1) :: window merge (i + 1 + 1)
      (merge 0 - (i + 1)) := by
      have more : merge 0 - i = 1 + (merge 0 - (i + 1)) := by omega
      rw [more, window_append]
      rfl
    rw [shown, right]
    exact (placed.cons _).trans List.perm_middle.symm
  · rw [shown]
    exact .cons (fun x member => (least x member).2 (by omega)) ordered
  · rw [shown]
    intro x member
    rcases List.mem_cons.1 member with rfl | member
    · exact ⟨fits, fun one_le => sorted i (i + 1) one_le (by omega) outer⟩
    · have ⟨below_idl, below_merge⟩ := least x member
      refine ⟨below_idl, fun one_le => ?_⟩
      exact Nat.le_trans (below_merge (by omega)) (sorted i (i + 1) one_le (by omega) outer)

theorem xmergeScan_merging (merging : Merging idl merge now (i + 1) j k) (sorted : Descending 1 (idl 0) idl)
    (word : merge (i + 1) < 2 ^ 64) : ∃ j' k' now',
      xmergeScan (merge (i + 1)) j (now j) k now = some (j', now' j', k', now') ∧
      Merging idl merge now' (i + 1) j' k' ∧ (1 ≤ j' → merge (i + 1) ≤ idl j') := by
  induction j generalizing k now with
  | zero =>
    -- the delimiter is no less than any ID
    rw [xmergeScan, if_neg (by rw [merging.delimiter]; omega)]
    exact ⟨0, k, now, rfl, merging, by omega⟩
  | succ j ih =>
    have last : now (j + 1) = idl (j + 1) := merging.kept _ (by omega) (.inl (Nat.le_refl _))
    rw [xmergeScan]
    split
    · rename_i less
      rw [last]
      have next := merging.take_old sorted (by omega) (by omega)
      exact ih next
    · exact ⟨j + 1, k, now, rfl, merging, by omega⟩

theorem xmergeLoop_merging (merging : Merging idl merge now i j k) (sorted : Descending 1 (idl 0) idl)
    (sorted' : Descending 1 (merge 0) merge) (words : ∀ p, 1 ≤ p → p ≤ merge 0 → merge p < 2 ^ 64) :
    ∃ j' now', xmergeLoop merge i j (now j) k now = some now' ∧ Merging idl merge now' 0 j' j' := by
  induction i generalizing j k now with
  | zero =>
    have at_k := merging.at_k
    exact ⟨j, now, rfl, by simpa [at_k] using merging⟩
  | succ i ih =>
    obtain ⟨j', k', now', scanned, merging', fits⟩ := xmergeScan_merging merging sorted
      (words (i + 1) (by omega) merging.outer)
    have next := merging'.take_merge sorted' fits
    have same : store now' k' (merge (i + 1)) j' = now' j' := by
      rw [store_of_ne]
      have := merging'.at_k
      omega
    obtain ⟨j'', now'', done, last⟩ := ih next
    rw [same] at done
    refine ⟨j'', now'', ?_, last⟩
    simp only [xmergeLoop, scanned, Option.bind_eq_bind, Option.bind_some]
    exact done

theorem mdbMidlXmerge_merges (idl merge : MdbIdl) (sorted : Descending 1 (idl 0) idl)
    (sorted' : Descending 1 (merge 0) merge) (words : ∀ p, 1 ≤ p → p ≤ merge 0 → merge p < 2 ^ 64) :
    ∃ merged, mdbMidlXmerge idl merge = some merged ∧ merged 0 = merge 0 + idl 0 ∧
      (window merged 1 (merge 0 + idl 0)).Perm (window idl 1 (idl 0) ++ window merge 1 (merge 0)) ∧
      (window merged 1 (merge 0 + idl 0)).Pairwise (· ≥ ·) ∧
      ∀ p, merge 0 + idl 0 < p → merged p = idl p := by
  obtain ⟨j, now, done, last⟩ := xmergeLoop_merging (.start idl merge) sorted sorted' words
  have ⟨at_k, inner, outer, delimiter, kept, placed, ordered, least⟩ := last
  have below : window (store now 0 (merge 0 + idl 0)) 1 (merge 0 + idl 0) =
      window idl 1 j ++ window now (j + 1) (merge 0 + idl 0 - j) := by
    have parts : merge 0 + idl 0 = j + (merge 0 + idl 0 - j) := by omega
    rw [window_congr (b := now) (fun k k_ge _ => store_of_ne (by omega)), parts, window_append, Nat.add_comm 1 j,
      ← parts, window_congr (b := idl) (fun k k_ge k_lt => kept k k_ge (.inl (by omega)))]
  refine ⟨store now 0 (merge 0 + idl 0), ?_, store_self, ?_, ?_, ?_⟩
  · simp only [mdbMidlXmerge, Option.bind_eq_bind, Option.bind_some, done]
  · have whole : window idl 1 (idl 0) = window idl 1 j ++ window idl (j + 1) (idl 0 - j) := by
      have parts : idl 0 = j + (idl 0 - j) := by omega
      rw [parts, window_append, Nat.add_comm 1 j, ← parts]
    rw [below, whole, List.append_assoc]
    exact placed.append_left _
  · rw [below, List.pairwise_append]
    have first : Descending 1 j idl := fun p q p_ge le q_le => sorted p q p_ge le (by omega)
    refine ⟨first.window_pairwise, ordered, fun x x_in y y_in => ?_⟩
    rw [window, List.mem_map] at x_in
    obtain ⟨p, p_in, rfl⟩ := x_in
    rw [List.mem_range'_1] at p_in
    exact Nat.le_trans ((least y y_in).1 (by omega)) (sorted p j (by omega) (by omega) inner)
  · intro p p_gt
    rw [store_of_ne (by omega)]
    exact kept p (by omega) (.inr p_gt)

/-- What comes of it is the merged list, and the cells after it are as they were. -/
theorem mdbMidlXmerge_xmerge (idl merge : MdbIdl) (sorted : Descending 1 (idl 0) idl)
    (sorted' : Descending 1 (merge 0) merge) (words : ∀ p, 1 ≤ p → p ≤ merge 0 → merge p < 2 ^ 64) :
    ∃ merged, mdbMidlXmerge idl merge = some merged ∧ merged 0 = merge 0 + idl 0 ∧
      window merged 1 (merged 0) = xmerge (window idl 1 (idl 0)) (window merge 1 (merge 0)) ∧
      ∀ p, merged 0 < p → merged p = idl p := by
  obtain ⟨merged, done, count, same, descending, after⟩ := mdbMidlXmerge_merges idl merge sorted sorted' words
  refine ⟨merged, done, count, ?_, count ▸ after⟩
  rw [count]
  exact eq_of_descending (same.trans (xmerge_perm _ _).symm) descending
    (xmerge_sorted sorted.window_pairwise sorted'.window_pairwise)

theorem mdbMidlXmerge_xmerge_five : ∃ merged, mdbMidlXmerge (mdbIdl [9, 5, 2])
    (mdbIdl [7, 5]) = some merged ∧ merged 0 = 5 ∧
    window merged 1 (merged 0) = xmerge [9, 5, 2] [7, 5] ∧ ∀ p, merged 0 < p → merged p = mdbIdl [9, 5, 2] p := by
  refine mdbMidlXmerge_xmerge (mdbIdl [9, 5, 2]) (mdbIdl [7, 5]) (descending_mdbIdl (by decide))
    (descending_mdbIdl (by decide)) ?_
  intro p p_ge p_le
  have count : p ≤ 2 := p_le
  obtain rfl | rfl : p = 1 ∨ p = 2 := by omega
  all_goals decide

end Merge

end SamLmdb
