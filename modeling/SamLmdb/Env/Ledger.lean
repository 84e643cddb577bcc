import Mathlib.Algebra.Order.BigOperators.Group.List
import Mathlib.Tactic.Ring
import SamLmdb.Lib.Interleaving
import SamLmdb.Env.Thread

/-!
What each thread holds, and the books of the five shared counters and mutexes:
every action moves the shared reading and the holdings of its thread by the same
amount, so over any run each reading agrees with what all threads hold.
-/

namespace SamLmdb

open Interleaving

inductive Resource where
  /-- an existing transaction value, guard included -/
  | value
  /-- a guard that a begin or a renew in progress holds -/
  | localGuard
  /-- a thread between the `fetch_add` and the exit or back-out of `TransactionGuard::new` -/
  | inGuardNew
  /-- an `MDB_txn` handle that is not committed or aborted yet -/
  | handle
  | blocker
  | resizeLock
  | dbiMutex
  | writer
  deriving DecidableEq, Repr

def Resource.only (ρ : Resource) : Resource → ℕ := fun r => if r = ρ then 1 else 0

def Txn.held (w : Resource → ℕ) : Txn → ℕ
  | .ro | .inactive => w .value + w .handle
  | .rw nested => (nested + 1) * (w .value + w .handle) + w .writer

def Handle.held (w : Resource → ℕ) : Handle → ℕ
  | .write => w .handle + w .writer
  | .read | .nested => w .handle

/-- What the frames of a call stack hold, each resource weighed by `w`. -/
def Kont.held (w : Resource → ℕ) : Kont a → ℕ
  | .thread => 0
  | .resizeCallback _ k | .beginRoTxn k | .getDbFlags k | .freelist k | .beginRwTxn k | .doResizeLocked _ k
  | .roTransactionNew k | .endUser k => k.held w
  | .openDb k | .createDb k | .endDbi k => w .dbiMutex + k.held w
  | .doResize k | .resizeDbIfNecessary _ _ _ k | .setMapSize k | .resizeReturn k | .rwReturn none k =>
    w .resizeLock + k.held w
  | .rwTransactionNew _ _ k =>
    w .resizeLock + w .handle + w .writer + k.held w
  | .beginNestedTxn nested k => Txn.held w (.rw nested) + w .handle + k.held w
  | .rwReturn (some _) k => w .resizeLock + Txn.held w (.rw 0) + k.held w

def Point.held (w : Resource → ℕ) : Point → ℕ
  | .code k | .guardAdd k | .guardWait k | .rwLock _ k | .setMapSizeLock _ k | .doResizeLock _ k | .resizeRead _ k
  | .resizeSpace _ k | .blockerNew _ k | .unlock _ k | .dbiLock _ k | .metaPick k | .metaRead k => k.held w
  | .guardCheck k | .guardBackOut k => w .inGuardNew + k.held w
  | .roBegin k | .roFailed k | .renewAborted k => w .localGuard + k.held w
  | .ending h k => w .value + h.held w + k.held w
  | .txnEnded k => w .value + k.held w
  | .renewing k | .renewFailed k => w .localGuard + w .handle + k.held w
  | .nestedBegin nested k => Txn.held w (.rw nested) + k.held w
  | .resizeInfo _ k | .needsResize _ _ _ k | .rwBegin _ k => w .resizeLock + k.held w
  | .drain _ k | .remap _ k | .blockerDrop _ k => w .blocker + k.held w
  | .dbiUnlock k => w .dbiMutex + k.held w

def Thread.held (w : Resource → ℕ) (t : Thread) : ℕ := (t.txns.map (Txn.held w)).sum + t.point.held w

theorem held_eraseIdx {txns : List Txn} {i : ℕ} {t : Txn} (w : Resource → ℕ) (found : txns[i]? = some t) :
    Txn.held w t + ((txns.eraseIdx i).map (Txn.held w)).sum = (txns.map (Txn.held w)).sum := by
  induction txns generalizing i with
  | nil => simp at found
  | cons head tail ih =>
      cases i with
      | zero => simp_all
      | succ i =>
          have := ih (by simpa using found)
          simp only [List.eraseIdx_cons_succ, List.map_cons, List.sum_cons]
          omega

section Holdings

variable {w v : Resource → ℕ}

theorem Txn.held_le (less : ∀ r, w r ≤ v r) (t : Txn) : t.held w ≤ t.held v := by
  cases t with
  | ro | inactive => exact Nat.add_le_add (less _) (less _)
  | rw nested =>
      exact Nat.add_le_add (Nat.mul_le_mul_left _ (Nat.add_le_add (less _) (less _))) (less _)

theorem Kont.held_le (less : ∀ r, w r ≤ v r) (k : Kont x) : k.held w ≤ k.held v := by
  induction k with
  | thread => exact le_refl _
  | rwReturn txn k ih =>
      have started := Txn.held_le less (.rw 0)
      have lock := less .resizeLock
      cases txn <;> simp only [Kont.held] <;> omega
  | beginNestedTxn nested k ih =>
      have parent := Txn.held_le less (.rw nested)
      have handle := less .handle
      simp only [Kont.held]
      omega
  | _ =>
      have dbi := less .dbiMutex
      have lock := less .resizeLock
      have handle := less .handle
      have writer := less .writer
      simp only [Kont.held]
      omega

theorem Thread.held_le (less : ∀ r, w r ≤ v r) (t : Thread) : t.held w ≤ t.held v := by
  obtain ⟨txns, point⟩ := t
  have owned : (txns.map (Txn.held w)).sum ≤ (txns.map (Txn.held v)).sum :=
    List.sum_le_sum fun t _ => Txn.held_le less t
  refine Nat.add_le_add owned ?_
  have value := less .value
  have localGuard := less .localGuard
  have inGuardNew := less .inGuardNew
  have handle := less .handle
  have blocker := less .blocker
  have lock := less .resizeLock
  have dbi := less .dbiMutex
  have writer := less .writer
  cases point with
  | ending h k =>
      have frames := k.held_le less
      cases h <;> simp only [Point.held, Handle.held] <;> omega
  | nestedBegin nested k => exact Nat.add_le_add (Txn.held_le less _) (k.held_le less)
  | _ =>
      rename_i k
      have frames := k.held_le less
      simp only [Point.held]
      omega

end Holdings

/-- The shared counters and mutexes whose books are kept. -/
inductive Meter where
  | txCount
  | txBlockerCount
  | dbResizeLock
  | dbiOpenMutex
  | meWmutex
  deriving DecidableEq, Repr

namespace Meter

def unit : Meter → Resource → ℕ
  | .txCount, .value | .txCount, .localGuard | .txCount, .inGuardNew | .txBlockerCount, .blocker
  | .dbResizeLock, .resizeLock | .dbiOpenMutex, .dbiMutex | .meWmutex, .writer => 1
  | _, _ => 0

def weight (μ : Meter) (t : Thread) : ℕ := t.held μ.unit

def reading : Meter → Shared → ℕ
  | .txCount, s => s.txCount
  | .txBlockerCount, s => s.txBlockerCount
  | .dbResizeLock, s => s.dbResizeLock.toNat
  | .dbiOpenMutex, s => s.dbiOpenMutex.toNat
  | .meWmutex, s => s.meWmutex.toNat

/-- Counters wrap; mutexes are exact. -/
def modulus : Meter → ℕ
  | .txCount | .txBlockerCount => u32Bound
  | _ => 0

end Meter

/-- What an action adds to the holdings of its thread. -/
def Action.gains (w : Resource → ℕ) : Action → ℕ
  | .fetchAddTx => w .inGuardNew
  | .checkBlocker 0 => w .value
  | .fetchAddBlocker => w .blocker
  | .lockResize => w .resizeLock
  | .lockDbi => w .dbiMutex
  | .mdbTxnBeginRw _ => w .writer
  | _ => 0

/-- What an action takes from the holdings of its thread. -/
def Action.gives (w : Resource → ℕ) : Action → ℕ
  | .backOutTx | .checkBlocker 0 => w .inGuardNew
  | .dropGuard => w .value
  | .fetchSubBlocker => w .blocker
  | .unlockResize _ => w .resizeLock
  | .unlockDbi => w .dbiMutex
  | .mdbTxnEndRw _ => w .writer
  | _ => 0

section Books

variable {w : Resource → ℕ} {cfg : EnvConfig} {s s' : Shared} {t t' : Thread} {a : Action} {txns : List Txn}

theorem Kont.roStarted_held (k : Kont .roTxn) :
    (k.roStarted txns).held w = (txns.map (Txn.held w)).sum + (w .value + w .handle) + k.held w := by
  cases k <;> simp [Kont.roStarted, Thread.held, Point.held, Kont.held, Txn.held, Handle.held] <;> omega

theorem Kont.roRefused_held (k : Kont .roTxn) : k.roRefused.held w = k.held w := by
  cases k <;> simp [Kont.roRefused, Point.held, Kont.held]

theorem Kont.rwStarted_held (k : Kont .rwTxn) :
    (k.rwStarted txns).held w = (txns.map (Txn.held w)).sum + Txn.held w (.rw 0) + k.held w := by
  cases k <;> simp [Kont.rwStarted, Thread.held, Point.held, Kont.held, Txn.held, Handle.held] <;> omega

theorem Kont.rwRefused_held (k : Kont .rwTxn) : k.rwRefused.held w = k.held w := by
  cases k <;> simp [Kont.rwRefused, Point.held, Kont.held]

theorem Kont.dropped_held (k : Kont .dropped) : k.dropped.held w = k.held w := by
  cases k <;> simp [Kont.dropped, Point.held, Kont.held]

theorem Kont.guarded_held (k : Kont .guarded) (guards : w .localGuard = w .value) :
    (k.guarded txns).held w = (txns.map (Txn.held w)).sum + (w .value + k.held w) := by
  cases k <;> simp [Kont.guarded, Thread.held, Point.held, Kont.held, Txn.held, guards] <;> ring

theorem Kont.unlocked_held (k : Kont .unlocked) :
    (k.unlocked txns).held w + w .resizeLock = (txns.map (Txn.held w)).sum + k.held w := by
  cases k with
  | resizeReturn k =>
      simp only [Kont.unlocked, Thread.held, Point.held, Kont.held]
      omega
  | rwReturn txn k =>
      cases txn with
      | none =>
          simp only [Kont.unlocked, Thread.held, Kont.held, k.rwRefused_held]
          omega
      | some =>
          simp only [Kont.unlocked, Kont.held, k.rwStarted_held]
          omega

theorem Kont.resized_held (result : Option ℕ) (k : Kont .resized) : (k.resized result).held w = k.held w := by
  cases k with
  | doResize k => simp [Kont.resized, Point.held, Kont.held]
  | resizeDbIfNecessary headroom requiredSpace initialMapSize k =>
      simp only [Kont.resized]
      split
      · simp [Point.held, Kont.held]
      · split
        · simp [Point.held, Kont.held]
        · split <;> simp [Point.held, Kont.held]

theorem Kont.unwind_held (k : Kont .resized) : k.unwind.held w = k.held w := by
  cases k <;> simp [Kont.unwind, Point.held, Kont.held]

theorem Kont.mapped_held (rc : ℤ) (k : Kont .mapped) : (k.mapped cfg rc).held w = k.held w := by
  cases k with
  | setMapSize k => simp [Kont.mapped, Point.held, Kont.held]
  | doResizeLocked info k =>
      simp only [Kont.mapped]
      split
      · split
        · simp [Point.held, Kont.held]
        · simp [Kont.held, k.resized_held]
      · simp [Kont.held, k.resized_held]

theorem Call.start_held {k : Kont .code} {c : Call} (guards : w .localGuard = w .value)
    (started : c.start txns k = some t) : t.held w = (txns.map (Txn.held w)).sum + k.held w := by
  cases c with
  | reset i | renew i | beginNestedTxn i | endTxn i =>
    simp only [Call.start] at started
    split at started <;> try contradiction
    all_goals
      rename_i found
      have moved := held_eraseIdx w found
      simp only [Option.some.injEq] at started
      subst started
      simp only [Thread.held, Point.held, Kont.held, Txn.held, Handle.held, List.map_cons, List.sum_cons] at moved ⊢
      grind
  | _ =>
    cases started
    simp [Thread.held, Point.held, Kont.held]

theorem Thread.held_mk (p : Point) : (⟨txns, p⟩ : Thread).held w = (txns.map (Txn.held w)).sum + p.held w := rfl

/-- What a thread holds moves by what the action gains and gives. -/
theorem Thread.next_held (guards : w .localGuard = w .value) (handles : w .handle = 0)
    (next : t.next cfg a = some t') : t'.held w + a.gives w = t.held w + a.gains w := by
  obtain ⟨txns, point⟩ := t
  cases point with
  | code k =>
    simp only [Thread.next] at next
    split at next
    · rw [Call.start_held guards next]
      rfl
    · cases next
      simp only [Thread.held_mk, Kont.resized_held]
      rfl
    · cases next
      simp only [Thread.held_mk, Kont.unwind_held]
      rfl
    · cases next
  | guardCheck k =>
    simp only [Thread.next] at next
    split at next <;> cases next
    rename_i n
    cases n with
    | zero =>
      simp only [Kont.guarded_held k guards, if_true, Thread.held_mk, Point.held, Action.gives, Action.gains]
      omega
    | succ n => simp [Thread.held_mk, Point.held, Action.gives, Action.gains]
  | guardWait k | drain size k =>
    simp only [Thread.next] at next
    split at next <;> cases next
    split <;> simp [Thread.held_mk, Point.held, Action.gives, Action.gains]
  | unlock poison k =>
    simp only [Thread.next] at next
    split at next <;> try contradiction
    split at next <;> cases next
    simp [Kont.unlocked_held, Thread.held_mk, Point.held, Action.gives, Action.gains]
  | rwBegin headroom k =>
    simp only [Thread.next] at next
    split at next <;> (try split at next) <;> cases next <;>
      (simp [Thread.held_mk, Point.held, Kont.held, handles, Action.gives, Action.gains]; try omega)
  | remap stage k =>
    simp only [Thread.next] at next
    split at next <;> (try split at next) <;> cases next <;>
      simp [Thread.held_mk, Point.held, Action.gives, Action.gains]
  | resizeInfo headroom k | needsResize headroom requiredSpace initialMapSize k | resizeRead increaseSize k
  | resizeSpace info k =>
    simp only [Thread.next] at next
    split at next <;> try contradiction
    all_goals (try split at next) <;> cases next <;>
      simp only [Thread.held_mk, Kont.resized_held, Kont.unwind_held, Action.gives, Action.gains] <;>
      simp [Point.held, Kont.held]
  | _ =>
    simp only [Thread.next] at next
    split at next <;> cases next <;>
      simp only [Thread.held_mk, Kont.roStarted_held, Kont.roRefused_held, Kont.dropped_held, Kont.rwRefused_held,
        Kont.mapped_held, Action.gives, Action.gains] <;>
      simp [Point.held, Kont.held, Handle.held, Txn.held, guards, handles] <;> omega

/-- The shared reading moves by the same amount. -/
theorem Shared.apply_books (μ : Meter) (applied : s.apply a = some s') :
    μ.reading s' + a.gives μ.unit ≡ μ.reading s + a.gains μ.unit [MOD μ.modulus] := by
  cases a with
  | fetchAddTx | fetchAddBlocker | backOutTx | dropGuard | fetchSubBlocker =>
    cases applied
    cases μ <;>
      simp only [Meter.reading, Meter.modulus, Meter.unit, Action.gives, Action.gains, Nat.add_zero,
        Nat.ModEq.refl, u32Add_modEq, u32Sub_modEq]
  | checkBlocker n =>
    simp only [Shared.apply] at applied
    split at applied <;> cases applied
    cases n <;> cases μ <;> exact Nat.ModEq.refl _
  | call | tau | callbackReturn | callbackPanic | osError | freeSpace =>
    cases applied
    cases μ <;> exact Nat.ModEq.refl _
  | lockResize | unlockResize | lockDbi | unlockDbi | mdbTxnBeginRw =>
    simp only [Shared.apply] at applied
    split at applied <;> cases applied
    rename_i guard
    cases μ <;> simp_all [Meter.reading, Meter.modulus, Meter.unit, Action.gives, Action.gains, Nat.ModEq]
  | mdbTxnEndRw committed =>
    cases committed <;>
    · simp only [Shared.apply] at applied
      split at applied <;> cases applied
      rename_i guard
      cases μ <;> simp_all [Meter.reading, Meter.modulus, Meter.unit, Action.gives, Action.gains, Nat.ModEq]
  | _ =>
    simp only [Shared.apply] at applied
    split at applied <;> cases applied
    cases μ <;> exact Nat.ModEq.refl _

end Books

/-- The interleaved steps of the threads of one environment. -/
def EnvConfig.steps (cfg : EnvConfig) : LocalStep Shared Thread Action := ofFun fun s t a => t.step cfg s a

def EnvConfig.exec [DecidableEq ι] (cfg : EnvConfig) (P : Guard ι Shared Thread Action)
    [∀ c i a, Decidable (P c i a)] (script : List (ι × Action)) (c : Config ι Shared Thread) :
    Option (Config ι Shared Thread) :=
  Interleaving.exec (fun s t a => t.step cfg s a) P script c

theorem EnvConfig.exec_run [DecidableEq ι] {cfg : EnvConfig} {P : Guard ι Shared Thread Action}
    [∀ c i a, Decidable (P c i a)] {script : List (ι × Action)} {c d : Config ι Shared Thread}
    (executed : cfg.exec P script c = some d) : Run cfg.steps P c d :=
  Interleaving.exec_run executed

abbrev unguarded : Guard ι Shared Thread Action := fun _ _ _ => True

/-- An opened environment that no thread has used yet. -/
structure Started (c : Config ι Shared Thread) : Prop where
  idle : ∀ i, c.threads i = ⟨[], .code .thread⟩
  no_txns : c.shared.txCount = 0
  no_blockers : c.shared.txBlockerCount = 0
  resize_free : c.shared.dbResizeLock = false
  dbi_free : c.shared.dbiOpenMutex = false
  writer_free : c.shared.meWmutex = false
  opened : c.shared.env.Opened

/-- No resize callback, the default settings, and a map that never crosses the trigger. -/
def plainConfig : EnvConfig where
  settings := defaultResizeSettings fun _ _ => false
  resizeCallback := false
  rdonly := false

def grantedMap : OsMap where
  ftruncate := none
  mmap := .ok 131072

def freshStart (ι : Type) : Config ι Shared Thread where
  shared :=
    { txCount := 0, txBlockerCount := 0, dbResizeLock := false, resizePoisoned := false, dbiOpenMutex := false,
      meWmutex := false, env := freshEnv 65536 4096 (2 ^ 20), crashed := false }
  threads := fun _ => ⟨[], .code .thread⟩

theorem freshStart_started (ι : Type) : Started (freshStart ι) where
  idle := fun _ => rfl
  no_txns := rfl
  no_blockers := rfl
  resize_free := rfl
  dbi_free := rfl
  writer_free := rfl
  opened := freshEnv_opened (by decide) (by decide)

section Runs

variable {cfg : EnvConfig} {P : Guard ι Shared Thread Action} {c d : Config ι Shared Thread}

theorem Started.weight_zero (started : Started c) (w : Resource → ℕ) (i : ι) : (c.threads i).held w = 0 := by
  rw [started.idle i]
  rfl

/-- In every reachable state each counter and mutex reads what all threads hold. -/
theorem ledger [Fintype ι] [DecidableEq ι] (run : Run cfg.steps P c d) (started : Started c) (μ : Meter) :
    μ.reading d.shared ≡ total μ.weight d [MOD μ.modulus] := by
  refine run.ledger ?_ ?_
  · have nothing : total μ.weight c = 0 := total_eq_zero.2 fun i => started.weight_zero μ.unit i
    have unread : μ.reading c.shared = 0 := by
      cases μ <;> simp [Meter.reading, started.no_txns, started.no_blockers, started.resize_free,
        started.dbi_free, started.writer_free]
    rw [nothing, unread]
  · intro s t a s' t' step
    obtain ⟨_, applied, next⟩ := Thread.step_eq.1 step
    have holdings : μ.weight t' + a.gives μ.unit = μ.weight t + a.gains μ.unit :=
      Thread.next_held (by cases μ <;> rfl) (by cases μ <;> rfl) next
    have shared := (Shared.apply_books μ applied).add_right (μ.weight t)
    refine Nat.ModEq.add_right_cancel' (a.gives μ.unit) ?_
    calc μ.reading s' + μ.weight t + a.gives μ.unit
        = μ.reading s' + a.gives μ.unit + μ.weight t := by ring
      _ ≡ μ.reading s + a.gains μ.unit + μ.weight t [MOD μ.modulus] := shared
      _ = μ.reading s + μ.weight t' + a.gives μ.unit := by omega

end Runs

end SamLmdb
