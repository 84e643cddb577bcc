import SamLmdb.Env.Counters

/-!
The calling rules that the crate documents, and what they say about a thread at
every point: a call that can block is made without transactions, and a resize
callback makes no call that takes `db_resize_lock`.
-/

namespace SamLmdb

open Interleaving

/-- Calls that open a transaction, open or create a database, or resize. -/
def Call.Opens : Call → Bool
  | .beginRoTxn | .beginRwTxn _ | .dbi _ | .getDbFlags | .freelist | .setMapSize _ | .doResize _
  | .beginNestedTxn _ => true
  | _ => false

/-- Calls that take `db_resize_lock`. -/
def Call.TakesResizeLock : Call → Bool
  | .beginRwTxn _ | .dbi .createDb | .setMapSize _ | .doResize _ => true
  | _ => false

def Kont.InCallback : Kont x → Bool
  | .thread => false
  | .resizeCallback _ _ => true
  | .beginRoTxn k | .openDb k | .getDbFlags k | .freelist k | .beginRwTxn k | .createDb k | .doResize k
  | .resizeDbIfNecessary _ _ _ k | .setMapSize k | .doResizeLocked _ k | .roTransactionNew k
  | .rwTransactionNew _ _ k | .beginNestedTxn _ k | .endUser k | .endDbi k | .resizeReturn k
  | .rwReturn _ k => k.InCallback

def Point.UserInCallback : Point → Bool
  | .code k => k.InCallback
  | _ => false

/-- The two ways to keep `dbi_open_mutex` out of a wait cycle with `db_resize_lock`. -/
inductive DbiRule where
  | noOpenDbInCallback
  | noCreateDb
  deriving DecidableEq, Repr

/-- A thread opens nothing while it owns a transaction; a callback makes no call
that takes `db_resize_lock` and ends the transactions it opens. -/
def Thread.Documented (t : Thread) : Action → Prop
  | .call f => (f.Opens → t.txns = []) ∧ (t.point.UserInCallback → ¬f.TakesResizeLock)
  | .callbackReturn | .callbackPanic => t.txns = []
  | _ => True

def Thread.KeepsDbiRule (rule : DbiRule) (t : Thread) : Action → Prop
  | .call (.dbi .openDb) => rule = .noOpenDbInCallback → ¬t.point.UserInCallback
  | .call (.dbi .createDb) => rule ≠ .noCreateDb
  | _ => True

instance (t : Thread) (a : Action) : Decidable (t.Documented a) := by
  unfold Thread.Documented
  split <;> infer_instance

instance (rule : DbiRule) (t : Thread) (a : Action) : Decidable (t.KeepsDbiRule rule a) := by
  unfold Thread.KeepsDbiRule
  split <;> infer_instance

def Kont.Orderly (rule : DbiRule) : Kont x → Prop
  | .thread => True
  | .resizeCallback _ k | .beginRoTxn k | .openDb k | .getDbFlags k | .freelist k | .resizeDbIfNecessary _ _ _ k
  | .doResizeLocked _ k | .roTransactionNew k | .rwTransactionNew _ _ k | .endUser k | .endDbi k
  | .resizeReturn k | .rwReturn _ k => k.Orderly rule
  | .beginRwTxn k | .doResize k | .setMapSize k => k.InCallback = false ∧ k.Orderly rule
  | .createDb k => rule ≠ .noCreateDb ∧ k.InCallback = false ∧ k.Orderly rule
  | .beginNestedTxn _ _ => False

def Thread.Orderly (rule : DbiRule) (t : Thread) : Prop :=
  match t.point with
  | .code k | .dbiUnlock k | .renewing k | .renewFailed k | .renewAborted k | .metaPick k | .metaRead k =>
    k.Orderly rule
  | .ending _ k | .txnEnded k => k.Orderly rule
  | .nestedBegin _ _ => False
  | .guardAdd k | .guardCheck k | .guardBackOut k | .guardWait k => t.txns = [] ∧ k.Orderly rule
  | .roBegin k | .roFailed k => t.txns = [] ∧ k.Orderly rule
  | .rwLock _ k | .resizeInfo _ k | .needsResize _ _ _ k | .rwBegin _ k => t.txns = [] ∧ k.Orderly rule
  | .setMapSizeLock _ k | .doResizeLock _ k => t.txns = [] ∧ k.InCallback = false ∧ k.Orderly rule
  | .resizeRead _ k | .resizeSpace _ k => t.txns = [] ∧ k.Orderly rule
  | .blockerNew _ k | .drain _ k | .remap _ k | .blockerDrop _ k => t.txns = [] ∧ k.Orderly rule
  | .unlock _ k => t.txns = [] ∧ k.Orderly rule
  | .dbiLock .openDb k => t.txns = [] ∧ (rule = .noOpenDbInCallback → k.InCallback = false) ∧ k.Orderly rule
  | .dbiLock .createDb k => t.txns = [] ∧ rule ≠ .noCreateDb ∧ k.InCallback = false ∧ k.Orderly rule

section Returns

variable {rule : DbiRule} {cfg : EnvConfig} {txns : List Txn}

theorem Kont.roStarted_orderly {k : Kont .roTxn} (orderly : k.Orderly rule) : (k.roStarted txns).Orderly rule := by
  cases k <;> exact orderly

theorem Kont.rwStarted_orderly {k : Kont .rwTxn} (orderly : k.Orderly rule) : (k.rwStarted txns).Orderly rule := by
  cases k with
  | beginRwTxn k => exact orderly.2
  | createDb k => exact orderly.2.2

theorem Kont.roRefused_orderly {k : Kont .roTxn} (orderly : k.Orderly rule) :
    Thread.Orderly rule ⟨txns, k.roRefused⟩ := by
  cases k <;> exact orderly

theorem Kont.rwRefused_orderly {k : Kont .rwTxn} (orderly : k.Orderly rule) :
    Thread.Orderly rule ⟨txns, k.rwRefused⟩ := by
  cases k with
  | beginRwTxn k => exact orderly.2
  | createDb k => exact orderly.2.2

theorem Kont.guarded_orderly {k : Kont .guarded} (orderly : k.Orderly rule) : (k.guarded []).Orderly rule := by
  cases k with
  | roTransactionNew k | rwTransactionNew _ _ k => exact ⟨rfl, orderly⟩
  | beginNestedTxn nested k => exact orderly.elim

theorem Kont.dropped_orderly {k : Kont .dropped} (orderly : k.Orderly rule) :
    Thread.Orderly rule ⟨txns, k.dropped⟩ := by
  cases k <;> exact orderly

theorem Kont.unlocked_orderly {k : Kont .unlocked} (orderly : k.Orderly rule) : (k.unlocked txns).Orderly rule := by
  cases k with
  | resizeReturn k => exact orderly
  | rwReturn txn k =>
      cases txn with
      | none => exact Kont.rwRefused_orderly (k := k) orderly
      | some => exact Kont.rwStarted_orderly (k := k) orderly

theorem Kont.resized_orderly {k : Kont .resized} (result : Option ℕ) (orderly : k.Orderly rule) :
    Thread.Orderly rule ⟨[], k.resized result⟩ := by
  cases k with
  | doResize k => exact ⟨rfl, orderly.2⟩
  | resizeDbIfNecessary headroom requiredSpace initialMapSize k =>
      simp only [Kont.resized]
      split
      · exact ⟨rfl, orderly⟩
      · split
        · exact ⟨rfl, orderly⟩
        · split <;> exact ⟨rfl, orderly⟩

theorem Kont.unwind_orderly {k : Kont .resized} (orderly : k.Orderly rule) :
    Thread.Orderly rule ⟨[], k.unwind⟩ := by
  cases k with
  | doResize k => exact ⟨rfl, orderly.2⟩
  | resizeDbIfNecessary => exact ⟨rfl, orderly⟩

theorem Kont.mapped_orderly {k : Kont .mapped} (rc : ℤ) (orderly : k.Orderly rule) :
    Thread.Orderly rule ⟨[], k.mapped cfg rc⟩ := by
  cases k with
  | setMapSize k => exact ⟨rfl, orderly.2⟩
  | doResizeLocked info k =>
      simp only [Kont.mapped]
      split
      · split
        · exact orderly
        · exact Kont.resized_orderly _ orderly
      · exact Kont.resized_orderly _ orderly

end Returns

theorem Call.start_orderly {rule : DbiRule} {txns : List Txn} {k : Kont .code} {f : Call} {t : Thread}
    (orderly : k.Orderly rule) (documented : (⟨txns, .code k⟩ : Thread).Documented (.call f))
    (keeps : (⟨txns, .code k⟩ : Thread).KeepsDbiRule rule (.call f)) (started : f.start txns k = some t) :
    t.Orderly rule := by
  obtain ⟨opens, inCallback⟩ := documented
  have outside (takes : f.TakesResizeLock) : k.InCallback = false := by
    by_contra inside
    exact inCallback (by simpa [Point.UserInCallback] using inside) takes
  cases f with
  | beginRoTxn | getDbFlags | freelist =>
    cases started
    exact ⟨opens rfl, orderly⟩
  | beginRwTxn headroom | setMapSize size | doResize increaseSize =>
    cases started
    exact ⟨opens rfl, outside rfl, orderly⟩
  | dbi f =>
    cases started
    cases f with
    | openDb =>
      exact ⟨opens rfl, fun rule => by simpa [Point.UserInCallback] using keeps rule, orderly⟩
    | createDb => exact ⟨opens rfl, keeps, outside rfl, orderly⟩
  | beginNestedTxn i =>
    have none_owned : txns = [] := opens rfl
    simp [Call.start, none_owned] at started
  | stat | info | sync =>
    cases started
    exact orderly
  | reset i | renew i | endTxn i =>
    simp only [Call.start] at started
    split at started <;> cases started <;> exact orderly

/-- A thread that keeps the rules stays orderly. -/
theorem Thread.next_orderly {rule : DbiRule} {cfg : EnvConfig} {t t' : Thread} {a : Action} (orderly : t.Orderly rule)
    (documented : t.Documented a) (keeps : t.KeepsDbiRule rule a) (next : t.next cfg a = some t') :
    t'.Orderly rule := by
  obtain ⟨txns, point⟩ := t
  cases point with
  | code k =>
    simp only [Thread.next] at next
    split at next
    · exact Call.start_orderly orderly documented keeps next
    · cases next
      rw [show txns = [] from documented]
      exact Kont.resized_orderly _ orderly
    · cases next
      rw [show txns = [] from documented]
      exact Kont.unwind_orderly orderly
    · cases next
  | guardCheck k =>
    obtain ⟨rfl, orderly⟩ := orderly
    simp only [Thread.next] at next
    split at next <;> cases next
    split
    · exact Kont.guarded_orderly orderly
    · exact ⟨rfl, orderly⟩
  | guardWait k | drain size k =>
    obtain ⟨rfl, orderly⟩ := orderly
    simp only [Thread.next] at next
    split at next <;> cases next
    split <;> exact ⟨rfl, orderly⟩
  | roBegin k =>
    obtain ⟨rfl, orderly⟩ := orderly
    simp only [Thread.next] at next
    split at next <;> cases next
    · exact Kont.roStarted_orderly orderly
    · exact ⟨rfl, orderly⟩
    · exact ⟨rfl, orderly⟩
  | roFailed k =>
    simp only [Thread.next] at next
    split at next <;> cases next
    exact Kont.roRefused_orderly orderly.2
  | txnEnded k =>
    simp only [Thread.next] at next
    split at next <;> cases next
    exact Kont.dropped_orderly orderly
  | nestedBegin => exact orderly.elim
  | rwLock headroom k =>
    simp only [Thread.next] at next
    split at next <;> cases next
    · exact orderly
    · exact Kont.rwRefused_orderly orderly.2
  | resizeInfo | needsResize | rwBegin =>
    simp only [Thread.next] at next
    split at next <;> (try split at next) <;> cases next <;> exact orderly
  | setMapSizeLock size k | doResizeLock increaseSize k =>
    simp only [Thread.next] at next
    split at next <;> cases next
    · exact orderly
    · exact orderly.2.2
  | resizeRead increaseSize k =>
    obtain ⟨rfl, orderly⟩ := orderly
    simp only [Thread.next] at next
    split at next <;> try contradiction
    · split at next <;> cases next
      · exact ⟨rfl, orderly⟩
      · exact Kont.unwind_orderly orderly
    · cases next
      exact ⟨rfl, orderly⟩
  | resizeSpace info k =>
    obtain ⟨rfl, orderly⟩ := orderly
    simp only [Thread.next] at next
    split at next <;> try contradiction
    split at next <;> cases next
    · exact ⟨rfl, orderly⟩
    · exact Kont.resized_orderly _ orderly
  | remap stage k =>
    simp only [Thread.next] at next
    split at next <;> (try split at next) <;> cases next <;> exact orderly
  | blockerDrop rc k =>
    obtain ⟨rfl, orderly⟩ := orderly
    simp only [Thread.next] at next
    split at next <;> cases next
    exact Kont.mapped_orderly rc orderly
  | unlock poison k =>
    simp only [Thread.next] at next
    split at next <;> try contradiction
    split at next <;> cases next
    exact Kont.unlocked_orderly orderly.2
  | dbiLock f k =>
    simp only [Thread.next] at next
    split at next <;> cases next
    · exact ⟨orderly.1, orderly.2.2⟩
    · exact orderly
  | _ =>
    simp only [Thread.next] at next
    split at next <;> cases next <;> exact orderly

/-- Every thread keeps the documented rules and the one about `dbi_open_mutex`. -/
abbrev disciplined (rule : DbiRule) : Guard ι Shared Thread Action := fun c i a =>
  (c.threads i).Documented a ∧ (c.threads i).KeepsDbiRule rule a

theorem orderly_threads {rule : DbiRule} {cfg : EnvConfig} {c d : Config ι Shared Thread}
    (run : Run cfg.steps (disciplined rule) c d) (started : Started c) (i : ι) : (d.threads i).Orderly rule := by
  refine run.forall_threads (I := fun _ t => t.Orderly rule) ?_ ?_ ?_ i
  · intro i
    rw [started.idle i]
    trivial
  · intro c i a s t kept before step
    exact Thread.next_orderly before kept.1 kept.2 (Thread.step_eq.1 step).2.2
  · intro s t a s' t' u _ before
    exact before

end SamLmdb
