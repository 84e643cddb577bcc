import SamLmdb.Env.Counters

/-!
The interlock between transactions and the replacement of the map. Once a
resizer has drained `tx_count`, no thread gets a guard before the blocker drops;
write handles that have no guard yet live under `db_resize_lock`.
-/

namespace SamLmdb

open Interleaving

def Point.InSetMapsize : Point → Prop
  | .remap _ _ => True
  | _ => False

def Point.Drained : Point → Prop
  | .remap _ _ | .blockerDrop _ _ => True
  | _ => False

theorem Point.InSetMapsize.drained {p : Point} (inside : p.InSetMapsize) : p.Drained := by
  cases p <;> simp_all [Point.InSetMapsize, Point.Drained]

theorem Point.Drained.locked {p : Point} (drained : p.Drained) : p.InSetMapSizeLocked := by
  cases p <;> simp_all [Point.Drained, Point.InSetMapSizeLocked]

/-- Guards in use: those of transaction values, of begins and of renews. -/
def Resource.guards : Resource → ℕ
  | .value | .localGuard => 1
  | _ => 0

def Thread.guards (t : Thread) : ℕ := t.held Resource.guards

theorem Thread.guards_le (t : Thread) : t.guards ≤ Meter.weight .txCount t :=
  Thread.held_le (fun r => by cases r <;> simp [Resource.guards, Meter.unit]) t

section Handles

theorem Kont.handles_le (k : Kont x) :
    k.held (Resource.only .handle) ≤ 2 * k.held Resource.guards + k.held (Meter.unit .dbResizeLock) := by
  induction k with
  | rwReturn txn k ih =>
      cases txn <;> simp [Kont.held, Txn.held, Resource.only, Resource.guards, Meter.unit] <;> omega
  | _ => simp_all [Kont.held, Txn.held, Resource.only, Resource.guards, Meter.unit] <;> omega

theorem Kont.mapped_handles_lt (k : Kont .mapped) :
    k.held (Resource.only .handle) < 2 * k.held Resource.guards + k.held (Meter.unit .dbResizeLock) := by
  have resized (k : Kont .resized) :
      k.held (Resource.only .handle) < 2 * k.held Resource.guards + k.held (Meter.unit .dbResizeLock) := by
    cases k with
    | doResize k | resizeDbIfNecessary _ _ _ k =>
        have inner := k.handles_le
        simp only [Kont.held, Resource.only, Resource.guards, Meter.unit] at *
        simp at *
        omega
  cases k with
  | setMapSize k =>
      have inner := k.handles_le
      simp only [Kont.held, Resource.only, Resource.guards, Meter.unit] at *
      simp at *
      omega
  | doResizeLocked info k => exact resized k

theorem txns_handles (txns : List Txn) :
    (txns.map (Txn.held (Resource.only .handle))).sum = (txns.map (Txn.held Resource.guards)).sum := by
  congr 2

/-- A handle has a guard, or it is a write handle whose begin holds the resize lock. -/
theorem Thread.handles_le (t : Thread) : t.handles ≤ 2 * t.guards + Meter.weight .dbResizeLock t := by
  obtain ⟨txns, point⟩ := t
  simp only [Thread.handles, Thread.guards, Meter.weight, Thread.held_mk, txns_handles]
  cases point with
  | ending h k =>
      have inner := k.handles_le
      cases h <;> simp [Point.held, Handle.held, Resource.only, Resource.guards, Meter.unit] at * <;> omega
  | _ =>
      rename_i k
      have inner := k.handles_le
      simp [Point.held, Txn.held, Resource.only, Resource.guards, Meter.unit] at *
      omega

theorem Thread.handles_lt {t : Thread} (drained : t.point.Drained) :
    t.handles < 2 * t.guards + Meter.weight .dbResizeLock t := by
  obtain ⟨txns, point⟩ := t
  simp only [Thread.handles, Thread.guards, Meter.weight, Thread.held_mk, txns_handles]
  cases point with
  | remap stage k | blockerDrop rc k =>
      have inner := k.mapped_handles_lt
      simp [Point.held, Resource.only, Resource.guards, Meter.unit] at *
      omega
  | _ => simp [Point.Drained] at drained

end Handles

/-- Where calls return to, which is never inside the remap. -/
def Point.Landing : Point → Prop
  | .code _ | .dbiUnlock _ | .ending _ _ | .unlock _ _ | .rwBegin _ _ | .needsResize _ _ _ _ | .roBegin _ => True
  | _ => False

theorem Point.Landing.not_drained {p : Point} (landing : p.Landing) : ¬p.Drained := by
  cases p <;> simp_all [Point.Landing, Point.Drained]

section Landing

variable (cfg : EnvConfig) (txns : List Txn)

theorem Kont.roStarted_landing (k : Kont .roTxn) : (k.roStarted txns).point.Landing := by cases k <;> trivial
theorem Kont.roRefused_landing (k : Kont .roTxn) : k.roRefused.Landing := by cases k <;> trivial
theorem Kont.rwStarted_landing (k : Kont .rwTxn) : (k.rwStarted txns).point.Landing := by cases k <;> trivial
theorem Kont.rwRefused_landing (k : Kont .rwTxn) : k.rwRefused.Landing := by cases k <;> trivial
theorem Kont.guarded_landing (k : Kont .guarded) : (k.guarded txns).point.Landing := by cases k <;> trivial
theorem Kont.dropped_landing (k : Kont .dropped) : k.dropped.Landing := by cases k <;> trivial
theorem Kont.unwind_landing (k : Kont .resized) : k.unwind.Landing := by cases k <;> trivial

theorem Kont.unlocked_landing (k : Kont .unlocked) : (k.unlocked txns).point.Landing := by
  cases k with
  | resizeReturn k => trivial
  | rwReturn txn k =>
      cases txn with
      | none => exact k.rwRefused_landing
      | some => exact k.rwStarted_landing txns

theorem Kont.resized_landing (result : Option ℕ) (k : Kont .resized) : (k.resized result).Landing := by
  cases k with
  | doResize k => trivial
  | resizeDbIfNecessary headroom requiredSpace initialMapSize k =>
      simp only [Kont.resized]
      split
      · trivial
      · split
        · trivial
        · split <;> trivial

theorem Kont.mapped_landing (rc : ℤ) (k : Kont .mapped) : (k.mapped cfg rc).Landing := by
  cases k with
  | setMapSize k => trivial
  | doResizeLocked info k =>
      simp only [Kont.mapped]
      split
      · split
        · trivial
        · exact k.resized_landing _
      · exact k.resized_landing _

end Landing

theorem Call.start_not_drained {txns : List Txn} {k : Kont .code} {c : Call} {t : Thread}
    (started : c.start txns k = some t) : ¬t.point.Drained := by
  cases c with
  | reset i | renew i | beginNestedTxn i | endTxn i =>
    simp only [Call.start] at started
    split at started <;> cases started <;> exact id
  | _ =>
    cases started
    exact id

theorem Thread.next_drained {cfg : EnvConfig} {t t' : Thread} {a : Action} (next : t.next cfg a = some t')
    (drained : t'.point.Drained) : t.point.Drained ∨ a = .loadTx 0 := by
  obtain ⟨txns, point⟩ := t
  cases point with
  | remap | blockerDrop => exact .inl trivial
  | code k =>
    simp only [Thread.next] at next
    split at next
    · exact absurd drained (Call.start_not_drained next)
    · cases next
      exact absurd drained (Kont.resized_landing (some _) _).not_drained
    · cases next
      exact absurd drained (Kont.unwind_landing _).not_drained
    · cases next
  | drain size k =>
    simp only [Thread.next] at next
    split at next <;> cases next
    rename_i n
    cases n with
    | zero => exact .inr rfl
    | succ n => exact absurd drained id
  | guardCheck k =>
    simp only [Thread.next] at next
    split at next <;> cases next
    split at drained
    · exact absurd drained (k.guarded_landing txns).not_drained
    · exact absurd drained id
  | guardWait k =>
    simp only [Thread.next] at next
    split at next <;> cases next
    split at drained <;> exact absurd drained id
  | unlock poison k =>
    simp only [Thread.next] at next
    split at next <;> try contradiction
    split at next <;> cases next
    exact absurd drained (k.unlocked_landing txns).not_drained
  | roBegin k =>
    simp only [Thread.next] at next
    split at next <;> cases next
    · exact absurd drained (k.roStarted_landing txns).not_drained
    · exact absurd drained id
    · exact absurd drained id
  | roFailed k =>
    simp only [Thread.next] at next
    split at next <;> cases next
    exact absurd drained k.roRefused_landing.not_drained
  | txnEnded k =>
    simp only [Thread.next] at next
    split at next <;> cases next
    exact absurd drained k.dropped_landing.not_drained
  | rwLock headroom k =>
    simp only [Thread.next] at next
    split at next <;> cases next
    · exact absurd drained id
    · exact absurd drained k.rwRefused_landing.not_drained
  | resizeRead increaseSize k =>
    simp only [Thread.next] at next
    split at next <;> try contradiction
    · split at next <;> cases next
      · exact absurd drained id
      · exact absurd drained k.unwind_landing.not_drained
    · cases next
      exact absurd drained id
  | resizeSpace info k =>
    simp only [Thread.next] at next
    split at next <;> try contradiction
    split at next <;> cases next
    · exact absurd drained id
    · exact absurd drained (k.resized_landing none).not_drained
  | resizeInfo | needsResize | rwBegin =>
    simp only [Thread.next] at next
    split at next <;> (try split at next) <;> cases next <;> exact absurd drained id
  | _ =>
    simp only [Thread.next] at next
    split at next <;> cases next <;> exact absurd drained id

section Runs

variable {ι : Type*} {cfg : EnvConfig} {P : Guard ι Shared Thread Action} {c d e : Config ι Shared Thread}

theorem step_guards_le {i : ι} {a : Action} (step : Step cfg.steps d i a e) (blocked : 0 < d.shared.txBlockerCount)
    (j : ι) : (e.threads j).guards ≤ (d.threads j).guards := by
  rcases eq_or_ne j i with same | same
  · subst same
    obtain ⟨_, applied, next⟩ := Thread.step_eq.1 step.moves
    have holdings : (e.threads j).guards + a.gives Resource.guards = (d.threads j).guards + a.gains Resource.guards :=
      Thread.next_held rfl rfl next
    have neutral : a.gains Resource.guards = 0 := by
      cases a with
      | checkBlocker n =>
          simp only [Shared.apply] at applied
          split at applied
          · rename_i reads
            cases n with
            | zero => omega
            | succ n => rfl
          · cases applied
      | _ => rfl
    omega
  · rw [step.others j same]

variable [Fintype ι]

abbrev fewContributions : Guard ι Shared Thread Action := fun c _ _ => contributions c < u32Bound

/-- While a resizer is between its drain and the drop of its blocker, nobody has a guard. -/
def Settled (c : Config ι Shared Thread) : Prop :=
  ∀ i, (c.threads i).point.Drained → ∀ j, (c.threads j).guards = 0

variable [DecidableEq ι]

theorem blocked_of_drained (run : Run cfg.steps P c d) (started : Started c) {i : ι}
    (drained : (d.threads i).point.Drained) : 0 < d.shared.txBlockerCount := by
  have counted := le_total (fun t : Thread => t.point.InSetMapSizeLocked.toNat) d i
  have inside : (d.threads i).point.InSetMapSizeLocked = true := drained.locked
  simp only [inside, Bool.toNat_true] at counted
  rw [blocker_exact run started]
  exact counted

theorem settled (run : Run cfg.steps fewContributions c d) (started : Started c) : Settled d := by
  induction run with
  | refl =>
      intro i drained
      rw [started.idle i] at drained
      exact absurd drained id
  | @tail d e i a before step few ih =>
      intro r drained j
      have watched (x : ι) (drained : (d.threads x).point.Drained) : (e.threads j).guards = 0 := by
        have less := step_guards_le step (blocked_of_drained before started drained) j
        rw [ih x drained j] at less
        omega
      by_cases same : r = i
      · subst same
        obtain ⟨_, applied, next⟩ := Thread.step_eq.1 step.moves
        rcases Thread.next_drained next drained with earlier | rfl
        · exact watched r earlier
        · simp only [Shared.apply] at applied
          split at applied
          · rename_i empty
            rw [txCount_exact before started few, ← total_txCount] at empty
            have none_here := total_eq_zero.1 empty j
            have unchanged : (e.threads j).guards ≤ (d.threads j).guards := by
              by_cases mine : j = r
              · subst mine
                have holdings : (e.threads j).guards + 0 = (d.threads j).guards + 0 := Thread.next_held rfl rfl next
                omega
              · rw [step.others j mine]
            have bounded := (d.threads j).guards_le
            omega
          · cases applied
      · rw [step.others r same] at drained
        exact watched r drained

/-- No handle is left while a thread is inside `mdb_env_set_mapsize`, and no
second thread is inside. -/
def MapExclusive (c : Config ι Shared Thread) : Prop :=
  ∀ i, (c.threads i).point.InSetMapsize →
    (∀ j, (c.threads j).handles = 0) ∧ ∀ j, (c.threads j).point.InSetMapsize → j = i

/-- In every run with fewer than 2^32 contributions to `tx_count` at a time, a thread
that replaces the map is alone with it. -/
theorem map_exclusive (run : Run cfg.steps fewContributions c d) (started : Started c) : MapExclusive d := by
  intro i inside
  have locked := Thread.lock_of_blocker inside.drained.locked
  refine ⟨fun j => ?_, fun j other =>
    lock_unique run started (Thread.lock_of_blocker other.drained.locked) locked⟩
  have unguarded := settled run started i inside.drained j
  by_cases same : j = i
  · subst same
    have one := lock_total run started ▸ le_total (Meter.weight .dbResizeLock) d j
    have taken := Bool.toNat_le d.shared.dbResizeLock
    have fewer := Thread.handles_lt inside.drained
    omega
  · have free : Meter.weight .dbResizeLock (d.threads j) = 0 := by
      by_contra held
      exact same (lock_unique run started (Nat.pos_of_ne_zero held) locked)
    have bound := (d.threads j).handles_le
    omega

end Runs

/-- A thread begins and commits a read transaction, then another replaces the map. -/
def readThenRemap : List (Fin 2 × Action) :=
  [(0, .call .beginRoTxn), (0, .fetchAddTx), (0, .checkBlocker 0), (0, .mdbTxnBeginRo), (0, .call (.endTxn 0)),
    (1, .call (.setMapSize (2 ^ 21))), (1, .lockResize), (1, .fetchAddBlocker), (1, .loadTx 1), (0, .tau),
    (0, .dropGuard), (1, .loadTx 0)]

theorem map_exclusive_read_then_remap :
    ∃ d, plainConfig.exec fewContributions readThenRemap (freshStart (Fin 2)) = some d ∧
      (d.threads 1).point.InSetMapsize ∧ MapExclusive d := by
  refine ⟨_, rfl, trivial, ?_⟩
  have run := EnvConfig.exec_run
    (rfl : plainConfig.exec fewContributions readThenRemap (freshStart (Fin 2)) = some _)
  exact map_exclusive run (freshStart_started _)

/-- The state after one thread began `n` read transactions and keeps them. -/
def manyReaders (n : ℕ) : Config (Fin 2) Shared Thread where
  shared := { (freshStart (Fin 2)).shared with txCount := n % u32Bound }
  threads := Function.update (freshStart (Fin 2)).threads 0 ⟨List.replicate n .ro, .code .thread⟩

theorem u32Add_mod (n : ℕ) : u32Add (n % u32Bound) = (n + 1) % u32Bound := by
  have small : n % u32Bound < u32Bound := Nat.mod_lt _ (by decide)
  exact Nat.ModEq.eq_of_lt_of_lt ((u32Add_modEq _).trans ((Nat.mod_modEq n _).add_right 1)|>.trans
    (Nat.mod_modEq _ _).symm)
    (u32Add_lt small) (Nat.mod_lt _ (by decide))

def beginReader : List (Fin 2 × Action) :=
  [(0, .call .beginRoTxn), (0, .fetchAddTx), (0, .checkBlocker 0), (0, .mdbTxnBeginRo)]

theorem manyReaders_succ (n : ℕ) :
    plainConfig.exec unguarded beginReader (manyReaders n) = some (manyReaders (n + 1)) := by
  have readable : (freshEnv 65536 4096 (2 ^ 20)).MetasReadable := by decide
  simp only [EnvConfig.exec, Interleaving.exec, beginReader, manyReaders, Thread.step, Function.update_self, freshStart,
    Shared.apply, Thread.next, Call.start, Function.update_idem, Kont.guarded, Kont.roStarted, u32Add_mod, readable,
      if_true,
    Bool.false_eq_true, if_false, Option.bind_eq_bind, Option.bind_some, List.replicate_succ]

theorem manyReaders_reached (n : ℕ) : Run plainConfig.steps unguarded (manyReaders 0) (manyReaders n) := by
  induction n with
  | zero => exact .refl _
  | succ n ih => exact ih.trans (EnvConfig.exec_run (manyReaders_succ n))

theorem manyReaders_started : Started (manyReaders 0) where
  idle := fun
    | 0 => rfl
    | 1 => rfl
  no_txns := rfl
  no_blockers := rfl
  resize_free := rfl
  dbi_free := rfl
  writer_free := rfl
  opened := freshEnv_opened (by decide) (by decide)

def resizerEnters : List (Fin 2 × Action) :=
  [(1, .call (.setMapSize (2 ^ 21))), (1, .lockResize), (1, .fetchAddBlocker), (1, .loadTx 0)]

theorem resizer_enters {n : ℕ} (wraps : n % u32Bound = 0) :
    ∃ d, plainConfig.exec unguarded resizerEnters (manyReaders n) = some d ∧
      d.threads 0 = ⟨List.replicate n .ro, .code .thread⟩ ∧ (d.threads 1).point.InSetMapsize := by
  have apart : (1 : Fin 2) ≠ 0 := by decide
  simp only [EnvConfig.exec, Interleaving.exec, resizerEnters, manyReaders, Thread.step, Function.update_self,
    freshStart,
    Shared.apply, Thread.next, Call.start, Function.update_idem, wraps, if_true, Function.update_of_ne apart,
    Bool.false_eq_true, if_false, Option.bind_eq_bind, Option.bind_some, Bool.not_false, Bool.and_self, u32Add]
  exact ⟨_, rfl, by simp, by simp [Point.InSetMapsize]⟩

theorem replicate_handles (n : ℕ) : (⟨List.replicate n .ro, .code .thread⟩ : Thread).handles = n := by
  simp [Thread.handles, Thread.held, Point.held, Kont.held, Txn.held, Resource.only]

/-- With 2^32 live read transactions `tx_count` reads 0 again, and `set_map_size`
replaces the map under all of them. -/
theorem map_exclusive_wraps :
    ¬∀ (cfg : EnvConfig) (c d : Config (Fin 2) Shared Thread), Run cfg.steps unguarded c d → Started c →
      MapExclusive d := by
  intro claimed
  obtain ⟨d, executed, readers, inside⟩ := resizer_enters (Nat.mod_self u32Bound)
  have run := (manyReaders_reached u32Bound).trans (EnvConfig.exec_run executed)
  have none_left := (claimed _ _ _ run manyReaders_started 1 inside).1 0
  rw [readers, replicate_handles] at none_left
  exact absurd none_left (by decide)

end SamLmdb
