import Mathlib.Data.List.TakeWhile
import SamLmdb.Cursor.Seek

/-!
What a search that fails leaves behind: a cursor on a page of the tree, or behind the last
node of it, and `C_EOF` as it may have been before.
-/

namespace SamLmdb

open PageTree

variable {κ δ ν ξ : Type}

theorem eof_of_atEof {c : Cursor κ ν ξ} (ended : atEof c = true) : c.eof = true := by
  unfold atEof at ended
  split at ended
  · simp only [Bool.and_eq_true] at ended
    exact ended.1.1
  · cases ended

/-- No parent of the page has a child to the right. -/
def Cursor.onLastPage (c : Cursor κ ν ξ) : Bool := c.stack.tail.all fun (page, i) => page.numkeys ≤ i + 1

/-- A search that fails has left the cursor. `C_EOF` is right where it is believed. -/
structure Missed (root : Page κ ν) (c c' : Cursor κ ν ξ) : Prop where
  initialized : c'.initialized = true
  xcursor : c'.xcursor = c.xcursor
  del : c'.del = c.del
  gap : ∃ front back, Gap root c'.stack front back
  ended : atEof c' = true → ahead c'.stack = []
  flag : c'.eof = true → c.eof = true ∨ ahead c'.stack = []

structure MissedAll (c c' : Cursor κ ν ξ) : Prop where
  past : Level.nodeptr c' = none
  nothing : ahead c'.stack = []
  /-- without the end flag, if the cursor has been there without it -/
  flag : atEof c' = false ↔ c.initialized = true ∧ c.onLastPage = true ∧ c.eof = false

section Missed

variable [LinearOrder κ] {L : Level κ δ ν ξ} {db : Db κ ν} {root : Page κ ν} {exactp : Bool} {key : κ}
    {c : Cursor κ ν ξ}
  {nodes : List ν} {i : ℕ} {outer : Stack κ ν} {a : Answer κ δ (Cursor κ ν ξ)}

omit [LinearOrder κ] in
theorem Missed.setIndex (stacked : c.stack = (.leaf nodes, i) :: outer) (initialized : c.initialized = true)
    (path : Path root 0 ((.leaf nodes, i) :: outer)) {m : ℕ} (upTo : m ≤ nodes.length)
    (ended : c.eof = true → nodes.length ≤ m + 1 → ahead ((.leaf nodes, m) :: outer) = []) :
    Missed root c (c.setIndex m) := by
  have moved : c.setIndex m = { c with stack := (.leaf nodes, m) :: outer } := by
    simp [Cursor.setIndex, stacked]
  rw [moved]
  refine ⟨initialized, rfl, rfl, ⟨_, _, .on (path.at m) upTo⟩, ?_, .inl⟩
  intro believed
  simp only [atEof, Bool.and_eq_true, Page.numkeys_leaf] at believed
  exact ended believed.1.1 (of_decide_eq_true believed.2)

omit [LinearOrder κ] in
theorem Missed.of_flagless {c₀ c' : Cursor κ ν ξ} (missed : Missed root c₀ c') (flagless : c₀.eof = false)
    (xcursor : c₀.xcursor = c.xcursor) (del : c₀.del = c.del) : Missed root c c' := by
  refine ⟨missed.initialized, missed.xcursor.trans xcursor, missed.del.trans del, missed.gap, missed.ended, ?_⟩
  intro flagged
  rcases missed.flag flagged with before | nothing
  · exact absurd (flagless.symm.trans before) (by decide)
  · exact .inr nothing

theorem Sought.all_less (sought : Sought L root false key c (some (.inl a))) : ∀ x ∈ root.nodes, L.key x < key := by
  cases sought with
  | missing _ _ range _ =>
    have nothing := (range rfl).1
    rw [nodesFrom, List.dropWhile_eq_nil_iff] at nothing
    intro x here
    exact of_decide_eq_true (nothing x here)

theorem seekOnPage_missed (sorted : root.nodes.Pairwise fun x y => L.key x < L.key y)
    (stacked : c.stack = (.leaf nodes, i) :: outer) (initialized : c.initialized = true) (flagless : c.eof = false)
    (path : Path root 0 ((.leaf nodes, i) :: outer)) (answer : seekOnPage L exactp key c = some (.inl a)) :
    ∃ c', a = .fail mdbNotfound c' ∧ Missed root c c' ∧
      (exactp = false → Level.nodeptr c' = none ∧ atEof c' = true) := by
  have nonempty : nodes ≠ [] := by
    simpa using path.uniform.nodes_ne_nil
  obtain ⟨m, upTo, _, _, found⟩ := leafSearch key (sorted_around sorted path).2.2 nonempty
  simp only [seekOnPage, stacked, found] at answer
  split at answer
  · rename_i inexact
    cases answer
    refine ⟨_, rfl, Missed.setIndex stacked initialized path upTo ?_, ?_⟩
    · intro flagged
      exact absurd (flagless.symm.trans flagged) (by decide)
    · intro range
      simp [range] at inexact
  · split at answer
    · cases answer
    · rename_i past
      have last : m = nodes.length := by omega
      subst last
      rcases mdbCursorSibling_right (path.at nodes.length) with ⟨stays, nothing⟩ | ⟨_, _, moves, _⟩
      · rw [stays] at answer
        cases answer
        have moved : { c.setIndex nodes.length with eof := true } =
            { c with stack := (.leaf nodes, nodes.length) :: outer, eof := true } := by
          simp [Cursor.setIndex, stacked]
        have nobody : ahead ((.leaf nodes, nodes.length) :: outer) = [] := by
          simp [ahead, nothing]
        rw [moved]
        refine ⟨_, rfl, ⟨initialized, rfl, rfl, ⟨_, _, .on (path.at _) (Nat.le_refl _)⟩, fun _ => nobody,
          fun _ => .inr nobody⟩, ?_⟩
        intro _
        simp [Level.nodeptr, atEof, List.length_pos_iff.2 nonempty]
      · rw [moves] at answer
        cases answer

theorem seekFromRoot_missed {n : ℕ} (sorted : root.nodes.Pairwise fun x y => L.key x < L.key y)
    (separated : root.Separated L.key) (uniform : root.Uniform n) (rooted : db.root = some root)
    (ready : c.initialized = true → Path root 0 c.stack) (answer : seekFromRoot L db exactp key c = some (.inl a)) :
    ∃ c', a = .fail mdbNotfound c' ∧ Missed root c c' ∧
      (exactp = false → Level.nodeptr c' = none ∧ atEof c' = true) := by
  obtain ⟨nodes, i, outer, searched, path, _⟩ := mdbPageSearch_toward rooted uniform separated ready (.key key)
  rw [seekFromRoot, searched] at answer
  obtain ⟨c', rfl, missed, range⟩ := seekOnPage_missed (c := { c with
    stack := (.leaf nodes, i) :: outer, initialized := true, eof := false }) sorted rfl rfl rfl path answer
  exact ⟨c', rfl, missed.of_flagless rfl rfl rfl, range⟩

theorem seekNear_missed {n : ℕ} {op : SetOp} (sorted : root.nodes.Pairwise fun x y => L.key x < L.key y)
    (separated : root.Separated L.key) (uniform : root.Uniform n) (rooted : db.root = some root)
    (range : exactp = false → op = .setRange) (stacked : c.stack = (.leaf nodes, i) :: outer)
    (initialized : c.initialized = true) (path : Path root 0 ((.leaf nodes, i) :: outer))
    (answer : seekNear L db op exactp key nodes i outer c = some (.inl a)) :
    ∃ c', a = .fail mdbNotfound c' ∧ Missed root c c' ∧ (exactp = false → MissedAll c c') := by
  have nonempty : nodes ≠ [] := by
    simpa using path.uniform.nodes_ne_nil
  have onLastPage : c.onLastPage = outer.all fun (page, i) => page.numkeys ≤ i + 1 := by
    rw [Cursor.onLastPage, stacked, List.tail_cons]
  have sought : Sought L root exactp key c (seekNear L db op exactp key nodes i outer c) :=
    seekNear_sought sorted separated uniform rooted range stacked path
  rw [answer] at sought
  have less (inexact : exactp = false) : ∀ x ∈ nodes, L.key x < key := by
    subst inexact
    intro x here
    refine sought.all_less x ?_
    rw [path.nodes_eq, Page.nodes_leaf]
    simp [here]
  -- the search from the root sets the flag
  have fromRoot (elsewhere : exactp = false → c.onLastPage = false)
      (answer : seekFromRoot L db exactp key c = some (.inl a)) :
      ∃ c', a = .fail mdbNotfound c' ∧ Missed root c c' ∧ (exactp = false → MissedAll c c') := by
    obtain ⟨c', rfl, missed, ranged⟩ := seekFromRoot_missed sorted separated uniform rooted
      (fun _ => stacked ▸ path) answer
    refine ⟨c', rfl, missed, fun inexact => ⟨(ranged inexact).1, missed.ended (ranged inexact).2, ?_⟩⟩
    simp [(ranged inexact).2, elsewhere inexact]
  obtain ⟨first, last, at_first, at_last⟩ : ∃ first last, nodes.head? = some first ∧
    nodes.getLast? = some last :=
    ⟨_, _, List.head?_eq_some_head nonempty, List.getLast?_eq_some_getLast nonempty⟩
  rw [seekNear, at_first, at_last] at answer
  simp only at answer
  split at answer
  · cases answer
  · split at answer
    · cases answer
    · split at answer
      · rename_i inner
        split at answer
        · cases answer
        · obtain ⟨c', rfl, missed, ranged⟩ :=
            seekOnPage_missed (c := { c with eof := false }) sorted stacked initialized rfl path answer
          refine ⟨c', rfl, missed.of_flagless rfl rfl rfl, ?_⟩
          intro inexact
          exact absurd (compare_lt_iff_lt.1 inner.2) (less inexact last (List.mem_of_getLast? at_last)).not_gt
      · split at answer
        · rename_i lastParents
          cases answer
          have nothing := rightOf_eq_nil lastParents
          refine ⟨_, rfl, Missed.setIndex stacked initialized path (Nat.le_refl _) ?_, fun _ => ⟨?_, ?_, ?_⟩⟩
          · intro _ _
            simp [ahead, nothing]
          · simp [Cursor.setIndex, stacked, Level.nodeptr]
          · simp [Cursor.setIndex, stacked, ahead, nothing]
          · simp [Cursor.setIndex, stacked, atEof, initialized, onLastPage, lastParents,
              List.length_pos_iff.2 nonempty]
        · rename_i notLast
          exact fromRoot (fun _ => by simpa [onLastPage] using notLast) answer
  · rename_i before
    split at answer
    · rename_i single
      split at answer
      · cases answer
      · rename_i inexact
        cases answer
        refine ⟨_, rfl, Missed.setIndex stacked initialized path (Nat.zero_le _) ?_, ?_⟩
        · intro _ short
          cases outer with
          | nil => simp [ahead, rightOf, List.drop_eq_nil_of_le short]
          | cons _ _ => cases single
        · intro exact_
          exact absurd ⟨range exact_, exact_⟩ inexact
    · refine fromRoot (fun inexact => ?_) answer
      exact absurd (compare_lt_iff_lt.1 before) (less inexact first (List.mem_of_head? at_first)).not_gt

/-- `mdb_cursor_set` up to `set1`, where it fails. -/
theorem seek_missed {n : ℕ} {op : SetOp} (sorted : root.nodes.Pairwise fun x y => L.key x < L.key y)
    (separated : root.Separated L.key) (uniform : root.Uniform n) (rooted : db.root = some root)
    (range : exactp = false → op = .setRange) (ready : c.initialized = true → Path root 0 c.stack)
    (answer : seek L db op exactp key c = some (.inl a)) :
    ∃ c', a = .fail mdbNotfound c' ∧ Missed root c c' ∧ (exactp = false → MissedAll c c') := by
  cases positioned : c.initialized with
  | false =>
    simp only [seek, positioned, Bool.false_eq_true, if_false] at answer
    obtain ⟨c', rfl, missed, ranged⟩ := seekFromRoot_missed sorted separated uniform rooted ready answer
    refine ⟨c', rfl, missed, fun inexact => ⟨(ranged inexact).1, missed.ended (ranged inexact).2, ?_⟩⟩
    simp [(ranged inexact).2, positioned]
  | true =>
    have path := ready positioned
    rw [seek, if_pos positioned] at answer
    obtain ⟨nodes, i, outer, stacked⟩ := path.leaf
    rw [stacked] at path answer
    exact seekNear_missed sorted separated uniform rooted range stacked positioned path answer

end Missed

end SamLmdb
