import Mathlib.Algebra.BigOperators.Group.Finset.Basic
import Mathlib.Algebra.Order.BigOperators.Group.Finset
import Mathlib.Data.Fintype.Basic
import Mathlib.Data.Nat.ModEq

/-!
# Threads interleaved over one shared state

A thread is given by a local step relation: one atomic action reads and writes
the shared state and the thread's own state. A configuration holds the shared
state and every thread, and a run takes one local step of one thread at a time,
in any order. The rules below turn facts about one local step into facts about
every configuration a run reaches: an inductive invariant, a ledger that equates
a shared counter with what the threads hold, and mutual exclusion from it.
-/

namespace Interleaving

variable {ι σ τ ℓ : Type*}

abbrev LocalStep (σ τ ℓ : Type*) := σ → τ → ℓ → σ → τ → Prop

def ofFun (f : σ → τ → ℓ → Option (σ × τ)) : LocalStep σ τ ℓ :=
    fun s t a s' t' => f s t a = some (s', t')

structure Config (ι σ τ : Type*) where
  shared : σ
  threads : ι → τ

/-- Thread `i` takes one local step and no other thread moves. -/
structure Step (L : LocalStep σ τ ℓ) (c : Config ι σ τ) (i : ι) (a : ℓ) (d : Config ι σ τ) : Prop where
  moves : L c.shared (c.threads i) a d.shared (d.threads i)
  others : ∀ j, j ≠ i → d.threads j = c.threads j

/-- A restriction on the steps of a run: configuration before, thread and label. -/
abbrev Guard (ι σ τ ℓ : Type*) := Config ι σ τ → ι → ℓ → Prop

/-- Finite runs all of whose steps meet the guard. -/
inductive Run (L : LocalStep σ τ ℓ) (P : Guard ι σ τ ℓ) : Config ι σ τ → Config ι σ τ → Prop
  | refl (c) : Run L P c c
  | tail {c d e i a} : Run L P c d → Step L d i a e → P d i a → Run L P c e

variable {L : LocalStep σ τ ℓ} {P Q : Guard ι σ τ ℓ}

theorem Run.trans {c d e : Config ι σ τ} (first : Run L P c d) (second : Run L P d e) :
    Run L P c e := by
  induction second with
  | refl => exact first
  | tail _ step meets ih => exact ih.tail step meets

theorem Run.weaken {c d : Config ι σ τ} (run : Run L P c d)
    (weaker : ∀ c i a, P c i a → Q c i a) : Run L Q c d := by
  induction run with
  | refl => exact .refl _
  | tail _ step meets ih => exact ih.tail step (weaker _ _ _ meets)

/-- What holds first and is kept by every step that meets the guard holds after every run. -/
theorem Run.invariant {I : Config ι σ τ → Prop} {c d : Config ι σ τ} (run : Run L P c d)
    (base : I c) (keeps : ∀ {c d i a}, P c i a → I c → Step L c i a d → I d) : I d := by
  induction run with
  | refl => exact base
  | tail _ step meets ih => exact keeps meets ih step

/-- A property of one thread and the shared state that every step keeps, both for
the thread that moves and for a thread that watches, holds of every thread. -/
theorem Run.forall_threads {I : σ → τ → Prop} {c d : Config ι σ τ} (run : Run L P c d)
    (base : ∀ i, I c.shared (c.threads i))
    (own : ∀ {c i a s t}, P c i a → I c.shared (c.threads i) → L c.shared (c.threads i) a s t → I s t)
    (watch : ∀ {s t a s' t' u}, L s t a s' t' → I s u → I s' u) :
    ∀ i, I d.shared (d.threads i) := by
  refine run.invariant (I := fun c => ∀ i, I c.shared (c.threads i)) base ?_
  intro c d i a meets before step j
  by_cases same : j = i
  · subst same
    exact own meets (before j) step.moves
  · rw [step.others j same]
    exact watch step.moves (before j)

section Scripts

variable [DecidableEq ι] (f : σ → τ → ℓ → Option (σ × τ)) (P : Guard ι σ τ ℓ)
    [∀ c i a, Decidable (P c i a)]

/-- Run a list of steps of a step function, each of which has to meet the guard. -/
def exec : List (ι × ℓ) → Config ι σ τ → Option (Config ι σ τ)
  | [], c => some c
  | (i, a) :: script, c =>
    if P c i a then
      match f c.shared (c.threads i) a with
      | some (s, t) => exec script ⟨s, Function.update c.threads i t⟩
      | none => none
    else none

/-- Scripts of two threads name them by numerals. -/
instance neZeroTwo : NeZero 2 := ⟨by decide⟩

variable {f P}

theorem step_update {c : Config ι σ τ} {i : ι} {a : ℓ} {s : σ} {t : τ}
    (moved : L c.shared (c.threads i) a s t) : Step L c i a ⟨s, Function.update c.threads i t⟩ where
  moves := by simpa using moved
  others := fun _ differ => Function.update_of_ne differ _ _

theorem exec_run {script : List (ι × ℓ)} {c d : Config ι σ τ} (executed : exec f P script c = some d) :
    Run (ofFun f) P c d := by
  induction script generalizing c with
  | nil =>
      cases executed
      exact .refl _
  | cons move script ih =>
      simp only [exec] at executed
      split at executed
      · rename_i meets
        split at executed
        · rename_i s t moved
          exact ((Run.refl c).tail (step_update moved) meets).trans (ih executed)
        · cases executed
      · cases executed

end Scripts

section History

variable {η θ : Type*}

/-- A step function that also keeps a history, of the shared state and of each thread. -/
def withHistory (f : σ → τ → ℓ → Option (σ × τ)) (note : σ → τ → σ → τ → η →
    θ → η × θ)
    (s : σ × η) (t : τ × θ) (a : ℓ) : Option ((σ × η) × (τ × θ)) :=
  (f s.1 t.1 a).map fun (s', t') => ((s', (note s.1 t.1 s' t' s.2 t.2).1), (t', (note s.1 t.1 s' t' s.2 t.2).2))

def Config.forget (c : Config ι (σ × η) (τ × θ)) : Config ι σ τ := ⟨c.shared.1, fun i => (c.threads i).1⟩

variable {f : σ → τ → ℓ → Option (σ × τ)} {note : σ → τ → σ → τ → η → θ → η × θ}
    {R : Guard ι (σ × η) (τ × θ) ℓ}

theorem withHistory_eq {s s' : σ × η} {t t' : τ × θ} {a : ℓ}
    (moved : withHistory f note s t a = some (s', t')) :
    f s.1 t.1 a = some (s'.1, t'.1) ∧ (s'.2, t'.2) = note s.1 t.1 s'.1 t'.1 s.2 t.2 := by
  obtain ⟨⟨after, thread⟩, stepped, same⟩ := Option.map_eq_some_iff.1 moved
  cases same
  exact ⟨stepped, rfl⟩

theorem Step.forget {c d : Config ι (σ × η) (τ × θ)} {i : ι} {a : ℓ}
    (step : Step (ofFun (withHistory f note)) c i a d) :
    Step (ofFun f) c.forget i a d.forget where
  moves := (withHistory_eq step.moves).1
  others j differ := congrArg Prod.fst (step.others j differ)

/-- A history is kept along a run and decides nothing in it: `withHistory` takes
exactly the steps of `f`. -/
theorem Run.forget {c d : Config ι (σ × η) (τ × θ)} (run : Run (ofFun (withHistory f note)) R c d) :
    Run (ofFun f) (fun _ _ _ => True) c.forget d.forget := by
  induction run with
  | refl => exact .refl _
  | tail _ step _ ih => exact ih.tail step.forget trivial

end History

section Ledger

variable [Fintype ι]

def total (w : τ → Nat) (c : Config ι σ τ) : Nat := ∑ i, w (c.threads i)

theorem le_total (w : τ → Nat) (c : Config ι σ τ) (i : ι) : w (c.threads i) ≤ total w c :=
  Finset.single_le_sum (f := fun i => w (c.threads i)) (fun _ _ => Nat.zero_le _) (Finset.mem_univ i)

theorem total_eq_zero {w : τ → Nat} {c : Config ι σ τ} :
    total w c = 0 ↔ ∀ i, w (c.threads i) = 0 := by
  simp [total]

theorem total_add (v w : τ → Nat) (c : Config ι σ τ) :
    total (fun t => v t + w t) c = total v c + total w c :=
  Finset.sum_add_distrib

variable [DecidableEq ι]

/-- One step changes the total by what the moving thread gains or gives up. -/
theorem Step.total {c d : Config ι σ τ} {i : ι} {a : ℓ} (step : Step L c i a d) (w : τ → Nat) :
    total w d + w (c.threads i) = total w c + w (d.threads i) := by
  have rest : ∑ j ∈ Finset.univ.erase i, w (d.threads j) = ∑ j ∈ Finset.univ.erase i, w (c.threads j) := by
    refine Finset.sum_congr rfl fun j member => ?_
    rw [step.others j (Finset.ne_of_mem_erase member)]
  have before := Finset.add_sum_erase Finset.univ (fun j => w (c.threads j)) (Finset.mem_univ i)
  have after := Finset.add_sum_erase Finset.univ (fun j => w (d.threads j)) (Finset.mem_univ i)
  simp only [Interleaving.total] at *
  omega

/-- A shared counter agrees, modulo `m`, with what the threads hold, when every
local step moves both by the same amount. Modulus 0 means equality. -/
theorem Run.ledger {m : Nat} {read : σ → Nat} {w : τ → Nat} {c d : Config ι σ τ} (run : Run L P c d)
    (base : read c.shared ≡ total w c [MOD m])
    (books : ∀ {s t a s' t'}, L s t a s' t' → read s' + w t ≡ read s + w t' [MOD m]) :
    read d.shared ≡ total w d [MOD m] := by
  refine run.invariant (I := fun c => read c.shared ≡ total w c [MOD m]) base ?_
  intro c d i a _ before step
  have moved := (books step.moves).trans (before.add_right (w (d.threads i)))
  rw [← step.total w] at moved
  exact Nat.ModEq.add_right_cancel' _ moved

/-- When all threads together hold at most one, two holders are the same thread. -/
theorem holder_unique {w : τ → Nat} {c : Config ι σ τ} (one : total w c ≤ 1) {i j : ι}
    (hi : 0 < w (c.threads i)) (hj : 0 < w (c.threads j)) : i = j := by
  by_contra differ
  have pair := Finset.sum_le_sum_of_subset (f := fun k => w (c.threads k)) (Finset.subset_univ {i, j})
  rw [Finset.sum_pair differ] at pair
  unfold total at one
  omega

end Ledger

end Interleaving
