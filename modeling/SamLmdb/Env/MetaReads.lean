import SamLmdb.Env.Interlock

/-!
`stat`, `info` and `sync` take neither a guard nor `db_resize_lock`, so they can
read the meta pages while another thread has them unmapped. They cannot do so
where the caller brings its own protection.
-/

namespace SamLmdb

open Interleaving

def Point.ReadsMeta : Point → Bool
  | .metaPick _ | .metaRead _ => true
  | _ => false

def Point.InWindow : Point → Prop
  | .remap stage _ => stage.InWindow
  | _ => False

theorem Point.InWindow.drained {p : Point} (window : p.InWindow) : p.Drained := by
  cases p <;> simp_all [Point.InWindow, Point.Drained]

section Runs

variable {ι : Type*} {cfg : EnvConfig} {c d : Config ι Shared Thread}

/-- No step of `stat`, `info` or `sync` that the guard admits in this state reads
meta pages that another thread has unmapped. -/
def MetaReadsMapped (cfg : EnvConfig) (P : Guard ι Shared Thread Action) (d : Config ι Shared Thread) : Prop :=
  ∀ i a e, Step cfg.steps d i a e → P d i a → (d.threads i).point.ReadsMeta →
    ∀ j, j ≠ i → ¬(d.threads j).point.InWindow

/-- The caller owns a live or inactive transaction, or runs in a resize callback
under `db_resize_lock`, or no resize is under way. -/
abbrev Protected (c : Config ι Shared Thread) (i : ι) : Prop :=
  0 < (c.threads i).values ∨ 0 < Meter.weight .dbResizeLock (c.threads i) ∨ c.shared.txBlockerCount = 0

/-- Every meta read of `stat`, `info` and `sync` is protected, and fewer than 2^32
contributions to `tx_count` exist. -/
abbrev protectedReads [Fintype ι] : Guard ι Shared Thread Action := fun c i _ =>
  contributions c < u32Bound ∧ ((c.threads i).point.ReadsMeta = true → Protected c i)

theorem Thread.values_le (t : Thread) : t.values ≤ t.guards :=
  Thread.held_le (fun r => by cases r <;> simp [Resource.only, Resource.guards]) t

/-- A run whose meta reads are all protected never reads an unmapped meta page. -/
theorem protected_reads_mapped [Fintype ι] [DecidableEq ι] (run : Run cfg.steps protectedReads c d)
    (started : Started c) : MetaReadsMapped cfg protectedReads d := by
  intro i a e _ guarded reads j other window
  have drained := window.drained
  have few : Run cfg.steps fewContributions c d := run.weaken fun _ _ _ guard => guard.1
  rcases guarded.2 reads with owns | locked | quiet
  · have owned := (d.threads i).values_le
    have none_left := settled few started j drained i
    omega
  · exact other (lock_unique run started (Thread.lock_of_blocker drained.locked) locked)
  · have blocked := blocked_of_drained run started drained
    omega

end Runs

def infoInsideTxn : List (Fin 2 × Action) :=
  [(0, .call .beginRoTxn), (0, .fetchAddTx), (0, .checkBlocker 0), (0, .mdbTxnBeginRo),
    (1, .call (.setMapSize (2 ^ 21))), (1, .lockResize), (1, .fetchAddBlocker), (0, .call .info)]

theorem protected_reads_mapped_info :
    ∃ d, plainConfig.exec protectedReads infoInsideTxn (freshStart (Fin 2)) = some d ∧
      (d.threads 0).point.ReadsMeta ∧ MetaReadsMapped plainConfig protectedReads d := by
  refine ⟨_, rfl, rfl, ?_⟩
  have run := EnvConfig.exec_run
    (rfl : plainConfig.exec protectedReads infoInsideTxn (freshStart (Fin 2)) = some _)
  exact protected_reads_mapped run (freshStart_started _)

/-- One thread is between `munmap` and `mmap` when another calls `info`. -/
def infoInsideRemap : List (Fin 2 × Action) :=
  [(1, .call (.setMapSize (2 ^ 21))), (1, .lockResize), (1, .fetchAddBlocker), (1, .loadTx 0),
    (1, .remap grantedMap (.enter (2 ^ 21)) (.unmap (2 ^ 21))),
      (1, .remap grantedMap (.unmap (2 ^ 21)) (.map (2 ^ 21))),
    (0, .call .info)]

/-- `info` then dereferences a meta pointer into the old map, and the process faults. -/
theorem info_reads_unmapped :
    ¬∀ (cfg : EnvConfig) (c d : Config (Fin 2) Shared Thread), Run cfg.steps unguarded c d → Started c →
      MetaReadsMapped cfg unguarded d := by
  intro claimed
  have run := EnvConfig.exec_run
    (rfl : plainConfig.exec unguarded infoInsideRemap (freshStart (Fin 2)) = some _)
  exact claimed _ _ _ run (freshStart_started _) 0 (.fault false) _ (step_update rfl) trivial rfl 1 (by decide) trivial

end SamLmdb
