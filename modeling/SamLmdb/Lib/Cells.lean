import Mathlib.Data.List.FinRange
import Mathlib.Logic.Equiv.Basic

/-!
# Cells of memory in another order

Memory maps addresses to cells. A program that sorts in place only exchanges cells
between two addresses; whatever holds of all cells there before holds of them afterwards,
and the cells outside are not touched.
-/

namespace Cells

variable {α : Type*}

@[ext] structure Memory (α : Type*) where
  cell : ℕ → α

/-- `mem k` reads the cell at the address `k`. -/
instance readCell : CoeFun (Memory α) fun _ => ℕ → α := ⟨Memory.cell⟩

def window (mem : Memory α) (l n : ℕ) : List α := (List.range' l n).map mem.cell

@[simp] theorem window_length (mem : Memory α) (l n : ℕ) : (window mem l n).length = n := by
  simp [window]

theorem window_congr {a b : Memory α} {l n : ℕ} (same : ∀ k, l ≤ k → k < l + n → a k = b k) :
    window a l n = window b l n := by
  refine List.map_congr_left fun k member => ?_
  obtain ⟨j, inside, rfl⟩ := List.mem_range'.1 member
  exact same _ (by omega) (by omega)

theorem window_append (mem : Memory α) (l m n : ℕ) :
    window mem l (m + n) = window mem l m ++ window mem (l + m) n := by
  rw [window, window, window, ← List.map_append, List.range'_append_1]

section Update

variable {a : Memory α} {i j : ℕ}

def store (a : Memory α) (i : ℕ) (x : α) : Memory α := ⟨Function.update a.cell i x⟩

@[simp] theorem store_self {x : α} : store a i x i = x := Function.update_self ..

theorem store_of_ne {k : ℕ} {x : α} (other : k ≠ i) : store a i x k = a k := Function.update_of_ne other ..

@[simp] theorem store_same : store a i (a i) = a := by
  ext k
  simp [store]

theorem window_store_cons (mem : Memory α) (k n : ℕ) (x : α) :
    window (store mem k x) k (n + 1) = x :: window mem (k + 1) n := by
  rw [Nat.add_comm, window_append, window_congr (b := mem) (l := k + 1)]
  · simp [window]
  · intro p p_gt _
    exact store_of_ne (by omega)

def exchange (a : Memory α) (i j : ℕ) : Memory α := store (store a i (a j)) j (a i)

@[simp] theorem exchange_left : exchange a i j i = a j := by
  by_cases same : i = j
  · subst same
    rw [exchange, store_self]
  · rw [exchange, store_of_ne same, store_self]

@[simp] theorem exchange_right : exchange a i j j = a i := by
  rw [exchange, store_self]

theorem exchange_of_ne {k : ℕ} (left : k ≠ i) (right : k ≠ j) : exchange a i j k = a k := by
  rw [exchange, store_of_ne right, store_of_ne left]

theorem exchange_apply (k : ℕ) : exchange a i j k = a (Equiv.swap i j k) := by
  by_cases left : k = i
  · subst left
    simp
  · by_cases right : k = j
    · subst right
      simp
    · rw [exchange_of_ne left right, Equiv.swap_apply_of_ne_of_ne left right]

end Update

/-- `b` is `a` with the cells from `l` to `r` in another order. -/
def Rearranged (l r : ℕ) (a b : Memory α) : Prop :=
  ∃ σ : Equiv.Perm ℕ, (∀ k, k < l ∨ r < k → σ k = k) ∧ ∀ k, b k = a (σ k)

namespace Rearranged

variable {l r : ℕ} {a b c : Memory α}

theorem refl (l r : ℕ) (a : Memory α) : Rearranged l r a a :=
  ⟨Equiv.refl ℕ, fun _ _ => rfl, fun _ => rfl⟩

theorem trans (first : Rearranged l r a b) (second : Rearranged l r b c) : Rearranged l r a c := by
  obtain ⟨σ, fixed, moved⟩ := first
  obtain ⟨τ, fixed', moved'⟩ := second
  refine ⟨τ.trans σ, fun k outside => ?_, fun k => ?_⟩
  · rw [Equiv.trans_apply, fixed' k outside, fixed k outside]
  · rw [moved', moved, Equiv.trans_apply]

theorem widen {l' r' : ℕ} (inner : Rearranged l r a b) (left : l' ≤ l)
    (right : r ≤ r') : Rearranged l' r' a b := by
  obtain ⟨σ, fixed, moved⟩ := inner
  exact ⟨σ, fun k outside => fixed k (by omega), moved⟩

theorem outside (inner : Rearranged l r a b) {k : ℕ} (out : k < l ∨ r < k) : b k = a k := by
  obtain ⟨σ, fixed, moved⟩ := inner
  rw [moved, fixed k out]

theorem inside (inner : Rearranged l r a b) {P : α → Prop} (all : ∀ k, l ≤ k → k ≤ r → P (a k)) {k : ℕ}
    (left : l ≤ k) (right : k ≤ r) : P (b k) := by
  obtain ⟨σ, fixed, moved⟩ := inner
  rw [moved]
  by_cases out : σ k < l ∨ r < σ k
  · -- an address outside stays, so nothing else gets there
    have stays : σ k = k := σ.injective (fixed (σ k) out)
    omega
  · exact all _ (by omega) (by omega)

theorem exchange {i j : ℕ} (i_inside : l ≤ i ∧ i ≤ r) (j_inside : l ≤ j ∧ j ≤ r) :
    Rearranged l r a (exchange a i j) := by
  refine ⟨Equiv.swap i j, fun k out => ?_, exchange_apply⟩
  exact Equiv.swap_apply_of_ne_of_ne (by omega) (by omega)

theorem window_perm {n : ℕ} (inner : Rearranged 1 n a b) : (window b 1 n).Perm (window a 1 n) := by
  obtain ⟨σ, fixed, moved⟩ := inner
  have shown : (List.range' 1 n).map σ |>.Perm (List.range' 1 n) := by
    refine (List.perm_ext_iff_of_nodup ((List.nodup_range').map σ.injective) List.nodup_range').2 fun k => ?_
    have stays : ∀ k, (1 ≤ σ k ∧ σ k < 1 + n) ↔ 1 ≤ k ∧ k < 1 + n := by
      intro k
      by_cases out : k < 1 ∨ n < k
      · rw [fixed k out]
      · by_cases out' : σ k < 1 ∨ n < σ k
        · have : σ k = k := σ.injective (fixed (σ k) out')
          omega
        · omega
    simp only [List.mem_map, List.mem_range'_1]
    constructor
    · rintro ⟨j, inside, rfl⟩
      exact (stays j).2 inside
    · intro inside
      refine ⟨σ.symm k, ?_, σ.apply_symm_apply k⟩
      exact (stays _).1 (by rwa [σ.apply_symm_apply])
  have same : window b 1 n = ((List.range' 1 n).map σ).map a.cell := by
    rw [window, List.map_map]
    exact List.map_congr_left fun k _ => moved k
  rw [same]
  exact shown.map a.cell

end Rearranged

section Order

variable [Preorder α] {a b : Memory α} {l r n : ℕ}

def Descending (l r : ℕ) (a : Memory α) : Prop := ∀ p q, l ≤ p → p ≤ q → q ≤ r → a q ≤ a p

/-- Of the first `n` cells, none after `k` is greater than one up to `k`. -/
def Cut (n k : ℕ) (a : Memory α) : Prop := ∀ p q, 1 ≤ p → p ≤ k → k < q → q ≤ n → a q ≤ a p

theorem Descending.window_pairwise (sorted : Descending 1 n a) : (window a 1 n).Pairwise (fun x y => y ≤ x) := by
  rw [window, List.pairwise_map]
  refine List.Pairwise.imp_of_mem ?_ List.pairwise_lt_range'
  intro p q p_in q_in before
  rw [List.mem_range'_1] at p_in q_in
  exact sorted p q (by omega) (by omega) (by omega)

theorem Rearranged.cut (inner : Rearranged l r a b) {k : ℕ} (cut : Cut n k a) (beyond : k < l ∨ r ≤ k)
    (first : 1 ≤ l) (last : r ≤ n) : Cut n k b := by
  intro p q one_le p_le k_lt q_le
  rcases beyond with below | above
  · rw [inner.outside (k := p) (by omega)]
    by_cases out : q < l ∨ r < q
    · rw [inner.outside out]
      exact cut p q one_le p_le k_lt q_le
    · exact inner.inside (P := fun x => x ≤ a p) (fun q' left right => cut p q' one_le p_le (by omega) (by omega))
        (by omega) (by omega)
  · rw [inner.outside (k := q) (by omega)]
    by_cases out : p < l ∨ r < p
    · rw [inner.outside out]
      exact cut p q one_le p_le k_lt q_le
    · exact inner.inside (P := fun x => a q ≤ x) (fun p' left right => cut p' q (by omega) (by omega) k_lt q_le)
        (by omega) (by omega)

theorem Cut.between (before : Cut n (l - 1) a) (after : Cut n r a) {k : ℕ} (left : l ≤ k + 1) (right : k ≤ r)
    (here : ∀ p q, l ≤ p → p ≤ k → k < q → q ≤ r → a q ≤ a p) : Cut n k a := by
  intro p q one_le p_le k_lt q_le
  rcases Nat.lt_or_ge p l with p_before | p_inside
  · exact before p q one_le (by omega) (by omega) q_le
  · rcases Nat.lt_or_ge r q with q_after | q_inside
    · exact after p q one_le (by omega) q_after q_le
    · exact here p q p_inside p_le k_lt q_inside

/-- The first `n` cells are in order but for the segments on a list of work, each of
which can be put in order on its own. -/
structure Divided (n : ℕ) (work : List (ℕ × ℕ)) (a : Memory α) : Prop where
  cut : ∀ k, 1 ≤ k → k < n → (∃ s ∈ work, s.1 ≤ k ∧ k < s.2) ∨ Cut n k a
  within : ∀ s ∈ work, 1 ≤ s.1 ∧ s.1 ≤ s.2 + 1 ∧ s.2 ≤ n
  ends : ∀ s ∈ work, Cut n (s.1 - 1) a ∧ Cut n s.2 a
  apart : work.Pairwise fun s t => s.2 < t.1 ∨ t.2 < s.1

namespace Divided

variable {work : List (ℕ × ℕ)} {s : ℕ × ℕ}

theorem whole (n : ℕ) (a : Memory α) : Divided n [(1, n)] a where
  cut := fun k one_le lt => .inl ⟨(1, n), by simp, one_le, lt⟩
  within := by simp
  ends := by
    simp only [List.mem_singleton, forall_eq]
    constructor <;> intro p q <;> omega
  apart := List.pairwise_singleton _ _

theorem done (divided : Divided n [] a) : Descending 1 n a := by
  intro p q one_le le q_le
  rcases Nat.eq_or_lt_of_le le with same | before
  · rw [same]
  · rcases divided.cut p one_le (by omega) with ⟨s, member, _⟩ | cut
    · cases member
    · exact cut p q one_le (Nat.le_refl p) before q_le

theorem kept (divided : Divided n (s :: work) a) (inner : Rearranged s.1 s.2 a b) :
    ∀ t ∈ work, Cut n (t.1 - 1) b ∧ Cut n t.2 b := by
  intro t member
  have within := divided.within s (by simp)
  have other := divided.within t (by simp [member])
  have apart : s.2 < t.1 ∨ t.2 < s.1 := List.rel_of_pairwise_cons divided.apart member
  have ends := divided.ends t (by simp [member])
  constructor
  · exact inner.cut ends.1 (by omega) within.1 within.2.2
  · by_cases inside : s.1 ≤ t.2 ∧ t.2 < s.2
    · -- then `t` is empty and ends where it begins
      have same : t.1 - 1 = t.2 := by omega
      exact inner.cut ends.2 (by omega) within.1 within.2.2
    · exact inner.cut ends.2 (by omega) within.1 within.2.2

theorem finish (divided : Divided n (s :: work) a) (inner : Rearranged s.1 s.2 a b)
    (sorted : Descending s.1 s.2 b) : Divided n work b where
  cut := by
    intro k one_le lt
    have within := divided.within s (by simp)
    have ends := divided.ends s (by simp)
    have here : s.1 ≤ k → k < s.2 → Cut n k b := fun left right =>
      (inner.cut ends.1 (by omega) within.1 within.2.2).between (inner.cut ends.2 (by omega) within.1 within.2.2)
        (by omega) (by omega) fun p q p_ge p_le q_gt q_le => sorted p q p_ge (by omega) q_le
    rcases divided.cut k one_le lt with ⟨t, member, inside⟩ | cut
    · rcases List.mem_cons.1 member with rfl | other
      · exact .inr (here inside.1 inside.2)
      · exact .inl ⟨t, other, inside⟩
    · by_cases inside : s.1 ≤ k ∧ k < s.2
      · exact .inr (here inside.1 inside.2)
      · exact .inr (inner.cut cut (by omega) within.1 within.2.2)
  within := fun t member => divided.within t (by simp [member])
  ends := divided.kept inner
  apart := divided.apart.of_cons

/-- The first segment is cut everywhere from `j - 1` to `i - 1`, and two smaller ones take its place. -/
theorem divide (divided : Divided n ((l, r) :: work) a) (inner : Rearranged l r a b) {i j : ℕ} (left : l ≤ j)
    (crossed : j < i) (right : i ≤ r)
    (here : ∀ k p q, j ≤ k + 1 → k < i → l ≤ p → p ≤ k → k < q → q ≤ r → b q ≤ b p) :
    Divided n ((l, j - 1) :: (i, r) :: work) b := by
  have within : 1 ≤ l ∧ l ≤ r + 1 ∧ r ≤ n := divided.within (l, r) (by simp)
  have ends : Cut n (l - 1) a ∧ Cut n r a := divided.ends (l, r) (by simp)
  have before : Cut n (l - 1) b := inner.cut ends.1 (by omega) within.1 within.2.2
  have after : Cut n r b := inner.cut ends.2 (by omega) within.1 within.2.2
  have middle : ∀ k, j ≤ k + 1 → k < i → Cut n k b := fun k from_j to_i =>
    before.between after (by omega) (by omega) fun p q => here k p q from_j to_i
  constructor
  · intro k one_le lt
    rcases divided.cut k one_le lt with ⟨s, member, inside⟩ | cut
    · rcases List.mem_cons.1 member with rfl | other
      · by_cases lower : k < j - 1
        · exact .inl ⟨(l, j - 1), by simp, inside.1, lower⟩
        · by_cases upper : i ≤ k
          · exact .inl ⟨(i, r), by simp, upper, inside.2⟩
          · exact .inr (middle k (by omega) (by omega))
      · exact .inl ⟨s, by simp [other], inside⟩
    · by_cases inside : l ≤ k ∧ k < r
      · by_cases lower : k < j - 1
        · exact .inl ⟨(l, j - 1), by simp, inside.1, lower⟩
        · by_cases upper : i ≤ k
          · exact .inl ⟨(i, r), by simp, upper, inside.2⟩
          · exact .inr (middle k (by omega) (by omega))
      · exact .inr (inner.cut cut (by omega) within.1 within.2.2)
  · intro s member
    simp only [List.mem_cons] at member
    rcases member with rfl | rfl | member
    · exact ⟨within.1, by simp only; omega, by simp only; omega⟩
    · exact ⟨by simp only; omega, by simp only; omega, within.2.2⟩
    · exact divided.within s (by simp [member])
  · intro s member
    simp only [List.mem_cons] at member
    rcases member with rfl | rfl | member
    · exact ⟨before, middle (j - 1) (by omega) (by omega)⟩
    · exact ⟨middle (i - 1) (by omega) (by omega), after⟩
    · exact divided.kept inner s member
  · have others : ∀ t ∈ work, r < t.1 ∨ t.2 < l := fun t member => List.rel_of_pairwise_cons divided.apart member
    refine .cons ?_ (.cons ?_ divided.apart.of_cons)
    · intro t member
      rcases List.mem_cons.1 member with rfl | member
      · exact .inl (by simp only; omega)
      · have := others t member
        simp only
        omega
    · intro t member
      have := others t member
      simp only
      omega

theorem perm {work' : List (ℕ × ℕ)} (divided : Divided n work a) (same : work.Perm work') : Divided n work' a where
  cut := fun k one_le lt => (divided.cut k one_le lt).imp_left
    fun ⟨s, member, inside⟩ => ⟨s, same.mem_iff.1 member, inside⟩
  within := fun s member => divided.within s (same.mem_iff.2 member)
  ends := fun s member => divided.ends s (same.mem_iff.2 member)
  apart := (same.pairwise_iff fun {_ _} => Or.symm).1 divided.apart

end Divided

end Order

section Work

def extent (s : ℕ × ℕ) : ℕ := s.2 + 1 - s.1

/-- A bound on the steps that a list of work still takes. -/
def effort : List (ℕ × ℕ) → ℕ
  | [] => 0
  | s :: work => 2 * extent s + 1 + effort work

/-- Every segment had half the cells of the one below it when it came on the list. -/
def Halved (n : ℕ) : List (ℕ × ℕ) → Prop
  | [] => True
  | s :: work => extent s * 2 ^ work.length ≤ n ∧ Halved n work

variable {n : ℕ} {s t u : ℕ × ℕ} {work : List (ℕ × ℕ)}

/-- Work on the smaller part first and the list stays short. -/
theorem Halved.divide (halved : Halved n (s :: work)) (small : 2 * extent t ≤ extent s)
    (large : extent u ≤ extent s) :
    Halved n (t :: u :: work) := by
  refine ⟨?_, ?_, halved.2⟩
  · calc extent t * 2 ^ (u :: work).length = 2 * extent t * 2 ^ work.length := by
          rw [List.length_cons, Nat.pow_succ, Nat.mul_comm 2 (extent t), Nat.mul_assoc, Nat.mul_comm 2]
      _ ≤ extent s * 2 ^ work.length := Nat.mul_le_mul_right _ small
      _ ≤ n := halved.1
  · exact Nat.le_trans (Nat.mul_le_mul_right _ large) halved.1

theorem effort_divide (parts : extent t + extent u + 1 ≤ extent s) :
    effort (t :: u :: work) < effort (s :: work) := by
  simp only [effort]
  omega

end Work

end Cells
