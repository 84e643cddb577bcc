import SamLmdb.Env.Ledger

/-!
What `tx_count` and `tx_blocker_count` count. The resize lock has one holder, so
there is at most one blocker, and both counters are exact as long as fewer than
2^32 contributions exist at once.
-/

namespace SamLmdb

open Interleaving

def Thread.values (t : Thread) : ℕ := t.held (Resource.only .value)

def Thread.handles (t : Thread) : ℕ := t.held (Resource.only .handle)

/-- A begin or a renew in progress holds a guard outside of any transaction value. -/
def Point.HoldsGuard : Point → Bool
  | .roBegin _ | .roFailed _ | .renewing _ | .renewFailed _ | .renewAborted _ => true
  | _ => false

/-- Between the `fetch_add` and the exit or back-out of `TransactionGuard::new`. -/
def Point.InGuardNew : Point → Bool
  | .guardCheck _ | .guardBackOut _ => true
  | _ => false

def Point.InSetMapSizeLocked : Point → Bool
  | .drain _ _ | .remap _ _ | .blockerDrop _ _ => true
  | _ => false

theorem Kont.held_value (k : Kont x) : k.held (Meter.unit .txCount) = k.held (Resource.only .value) := by
  induction k with
  | rwReturn txn k ih => cases txn <;> simp [Kont.held, Txn.held, Meter.unit, Resource.only, ih]
  | _ => simp_all [Kont.held, Txn.held, Meter.unit, Resource.only]

theorem Thread.weight_txCount (t : Thread) :
    Meter.weight .txCount t = t.values + t.point.HoldsGuard.toNat + t.point.InGuardNew.toNat := by
  obtain ⟨txns, point⟩ := t
  have owned : (txns.map (Txn.held (Meter.unit .txCount))).sum = (txns.map (Txn.held (Resource.only .value))).sum := by
    congr 2
  simp only [Meter.weight, Thread.values, Thread.held_mk, owned]
  cases point with
  | ending h k =>
      cases h <;> simp [Point.held, Handle.held, Point.HoldsGuard, Point.InGuardNew, Kont.held_value, Meter.unit,
        Resource.only]
  | _ =>
      simp [Point.held, Point.HoldsGuard, Point.InGuardNew, Kont.held_value, Txn.held, Meter.unit, Resource.only,
        Nat.add_assoc, Nat.add_comm]

theorem Kont.held_blocker (k : Kont x) : k.held (Meter.unit .txBlockerCount) = 0 := by
  induction k with
  | rwReturn txn k ih => cases txn <;> simp [Kont.held, Txn.held, Meter.unit, ih]
  | _ => simp_all [Kont.held, Txn.held, Meter.unit]

theorem Thread.weight_txBlockerCount (t : Thread) :
    Meter.weight .txBlockerCount t = t.point.InSetMapSizeLocked.toNat := by
  obtain ⟨txns, point⟩ := t
  have owned : (txns.map (Txn.held (Meter.unit .txBlockerCount))).sum = 0 := by
    refine List.sum_eq_zero fun n member => ?_
    obtain ⟨t, _, rfl⟩ := List.mem_map.1 member
    cases t <;> simp [Txn.held, Meter.unit]
  simp only [Meter.weight, Thread.held_mk, owned]
  cases point with
  | ending h k => cases h <;> simp [Point.held, Handle.held, Point.InSetMapSizeLocked, Kont.held_blocker, Meter.unit]
  | _ => simp [Point.held, Point.InSetMapSizeLocked, Kont.held_blocker, Txn.held, Meter.unit]

theorem Kont.lock_resized (k : Kont .resized) : 0 < k.held (Meter.unit .dbResizeLock) := by
  cases k <;> simp [Kont.held, Meter.unit]

theorem Kont.lock_mapped (k : Kont .mapped) : 0 < k.held (Meter.unit .dbResizeLock) := by
  cases k with
  | setMapSize k => simp [Kont.held, Meter.unit]
  | doResizeLocked info k => exact k.lock_resized

theorem Kont.lock_unlocked (k : Kont .unlocked) : 0 < k.held (Meter.unit .dbResizeLock) := by
  cases k with
  | resizeReturn k => simp [Kont.held, Meter.unit]
  | rwReturn txn k => cases txn <;> simp [Kont.held, Meter.unit]

theorem Thread.lock_of_blocker {t : Thread} (inside : t.point.InSetMapSizeLocked) :
    0 < Meter.weight .dbResizeLock t := by
  obtain ⟨txns, point⟩ := t
  cases point with
  | drain size k | remap stage k | blockerDrop rc k =>
      have lock := k.lock_mapped
      simp only [Meter.weight, Thread.held_mk, Point.held]
      omega
  | _ => simp [Point.InSetMapSizeLocked] at inside

def Shared.InRange (s : Shared) : Prop := s.txCount < u32Bound ∧ s.txBlockerCount < u32Bound

theorem Shared.apply_inRange {s s' : Shared} {a : Action} (applied : s.apply a = some s') (before : s.InRange) :
    s'.InRange := by
  obtain ⟨small, few⟩ := before
  cases a with
  | fetchAddTx | backOutTx | dropGuard | fetchAddBlocker | fetchSubBlocker =>
      cases applied
      simp only [Shared.InRange, u32Add_lt, u32Sub_lt, small, few, and_self]
  | mdbTxnEndRw committed =>
      cases committed <;> simp only [Shared.apply] at applied <;> split at applied <;> cases applied <;>
        exact ⟨small, few⟩
  | call | tau | callbackReturn | callbackPanic | osError | freeSpace =>
      cases applied
      exact ⟨small, few⟩
  | _ =>
      simp only [Shared.apply] at applied
      split at applied <;> cases applied
      exact ⟨small, few⟩

section Runs

variable {ι : Type*} {cfg : EnvConfig} {P : Guard ι Shared Thread Action} {c d : Config ι Shared Thread}

theorem counters_lt (run : Run cfg.steps P c d) (started : Started c) : d.shared.InRange := by
  refine run.invariant (I := fun c => c.shared.InRange) ?_ ?_
  · simp [Shared.InRange, started.no_txns, started.no_blockers, u32Bound]
  · intro c d i a _ before step
    exact Shared.apply_inRange (Thread.step_eq.1 step.moves).2.1 before

variable [Fintype ι]

/-- The simultaneous contributions to `tx_count`. -/
def contributions (c : Config ι Shared Thread) : ℕ :=
  total Thread.values c + total (fun t => t.point.HoldsGuard.toNat) c + total (fun t => t.point.InGuardNew.toNat) c

def blockers (c : Config ι Shared Thread) : ℕ := total (fun t => t.point.InSetMapSizeLocked.toNat) c

theorem total_txCount (c : Config ι Shared Thread) : total (Meter.weight .txCount) c = contributions c := by
  rw [show Meter.weight .txCount = fun t => _ from funext Thread.weight_txCount]
  simp only [total_add, contributions]

theorem total_txBlockerCount (c : Config ι Shared Thread) : total (Meter.weight .txBlockerCount) c = blockers c := by
  rw [show Meter.weight .txBlockerCount = fun t => _ from funext Thread.weight_txBlockerCount]
  rfl

/-- Every decrement gives back something that its thread holds. -/
theorem decrement_counted {d e : Config ι Shared Thread} {i : ι} {a : Action} (step : Step cfg.steps d i a e)
    (μ : Meter) (gives : 0 < a.gives μ.unit) (neutral : a.gains μ.unit = 0) :
    0 < total μ.weight d := by
  obtain ⟨_, _, next⟩ := Thread.step_eq.1 step.moves
  have holdings : μ.weight (e.threads i) + a.gives μ.unit = μ.weight (d.threads i) + a.gains μ.unit :=
    Thread.next_held (by cases μ <;> rfl) (by cases μ <;> rfl) next
  have mine := le_total μ.weight d i
  omega

variable [DecidableEq ι]

/-- `db_resize_lock` is held by at most one thread, and exactly while it is taken. -/
theorem lock_total (run : Run cfg.steps P c d) (started : Started c) :
    total (Meter.weight .dbResizeLock) d = d.shared.dbResizeLock.toNat :=
  (Nat.modEq_zero_iff.1 (ledger run started .dbResizeLock)).symm

theorem lock_unique (run : Run cfg.steps P c d) (started : Started c) {i j : ι}
    (hi : 0 < Meter.weight .dbResizeLock (d.threads i)) (hj : 0 < Meter.weight .dbResizeLock (d.threads j)) :
    i = j := by
  refine holder_unique ?_ hi hj
  rw [lock_total run started]
  exact Bool.toNat_le _

theorem blockers_le_one (run : Run cfg.steps P c d) (started : Started c) : blockers d ≤ 1 := by
  have locked : blockers d ≤ total (Meter.weight .dbResizeLock) d := by
    refine Finset.sum_le_sum fun i _ => ?_
    by_cases inside : (d.threads i).point.InSetMapSizeLocked
    · have held := Thread.lock_of_blocker inside
      simp only [inside, Bool.toNat_true]
      omega
    · simp [inside]
  have taken := Bool.toNat_le d.shared.dbResizeLock
  rw [lock_total run started] at locked
  omega

/-- `tx_blocker_count` never wraps, since there is at most one blocker. -/
theorem blocker_exact (run : Run cfg.steps P c d) (started : Started c) : d.shared.txBlockerCount = blockers d := by
  have books := ledger run started .txBlockerCount
  rw [total_txBlockerCount] at books
  refine Nat.ModEq.eq_of_lt_of_lt books (counters_lt run started).2 ?_
  exact lt_of_le_of_lt (blockers_le_one run started) (by decide)

theorem txCount_exact (run : Run cfg.steps P c d) (started : Started c) (few : contributions d < u32Bound) :
    d.shared.txCount = contributions d := by
  have books := ledger run started .txCount
  rw [total_txCount] at books
  exact Nat.ModEq.eq_of_lt_of_lt books (counters_lt run started).1 few

/-- The books of both counters in one state, and for every step out of it. -/
structure CountersAgree (cfg : EnvConfig) (d : Config ι Shared Thread) : Prop where
  tx_count : d.shared.txCount = contributions d
  tx_blocker_count : d.shared.txBlockerCount = blockers d
  one_blocker : blockers d ≤ 1
  no_underflow : ∀ {i a e}, Step cfg.steps d i a e →
    (a = .backOutTx ∨ a = .dropGuard → 0 < d.shared.txCount) ∧
      (a = .fetchSubBlocker → 0 < d.shared.txBlockerCount)
  unused : (∀ i, (d.threads i).values = 0 ∧ ¬(d.threads i).point.HoldsGuard ∧
    ¬(d.threads i).point.InGuardNew) →
    d.shared.txCount = 0

/-- With fewer than 2^32 simultaneous contributions `tx_count` counts the
transaction values, the guards of begins and renews in progress and the threads
inside `TransactionGuard::new`; `tx_blocker_count` counts the threads inside
`set_map_size_locked`; and neither is decremented at zero. -/
theorem counters_agree (run : Run cfg.steps P c d) (started : Started c) (few : contributions d < u32Bound) :
    CountersAgree cfg d := by
  have txs := txCount_exact run started few
  have blocks := blocker_exact run started
  refine ⟨txs, blocks, blockers_le_one run started, ?_, ?_⟩
  · intro i a e step
    constructor
    · intro decrements
      rw [txs, ← total_txCount]
      rcases decrements with rfl | rfl <;> exact decrement_counted step .txCount (by decide) rfl
    · rintro rfl
      rw [blocks, ← total_txBlockerCount]
      exact decrement_counted step .txBlockerCount (by decide) rfl
  · intro none_left
    have nothing : contributions d = 0 := by
      rw [← total_txCount, total_eq_zero]
      intro i
      obtain ⟨noValue, noGuard, notInside⟩ := none_left i
      simp [Thread.weight_txCount, noValue, noGuard, notInside]
    rw [txs, nothing]

end Runs

def readerThenResizer : List (Fin 2 × Action) :=
  [(0, .call .beginRoTxn), (0, .fetchAddTx), (0, .checkBlocker 0), (0, .mdbTxnBeginRo),
    (1, .call (.setMapSize (2 ^ 21))), (1, .lockResize), (1, .fetchAddBlocker), (1, .loadTx 1)]

theorem counters_agree_reader_resizer :
    ∃ d, plainConfig.exec unguarded readerThenResizer (freshStart (Fin 2)) = some d ∧
      CountersAgree plainConfig d ∧ d.shared.txCount = 1 ∧ d.shared.txBlockerCount = 1 := by
  refine ⟨_, rfl, ?_, rfl, rfl⟩
  have run := EnvConfig.exec_run (rfl : plainConfig.exec unguarded readerThenResizer (freshStart (Fin 2)) = some _)
  exact counters_agree run (freshStart_started _) (by decide)

end SamLmdb
