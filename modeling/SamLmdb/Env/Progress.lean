import SamLmdb.Env.Discipline

/-!
Who waits for whom. The waits for `tx_count`, `tx_blocker_count`, LMDB's writer
mutex and `db_resize_lock` end in a thread that can move, provided that
`dbi_open_mutex` is not awaited under `db_resize_lock` while `create_db` awaits
`db_resize_lock` under `dbi_open_mutex`.
-/

namespace SamLmdb

open Interleaving

/-- The thread waits for one of the five blocking resources. -/
def Thread.Blocked (cfg : EnvConfig) (s : Shared) (t : Thread) : Prop :=
  match t.point with
  | .guardWait _ => s.txBlockerCount ≠ 0
  | .drain _ _ => s.txCount ≠ 0
  | .rwLock _ _ | .setMapSizeLock _ _ | .doResizeLock _ _ => s.dbResizeLock = true
  | .rwBegin _ _ => cfg.rdonly = false ∧ s.meWmutex = true
  | .dbiLock _ _ => s.dbiOpenMutex = true
  | _ => False

def Thread.Unfinished (t : Thread) : Prop :=
  match t.point with
  | .code .thread => t.txns ≠ []
  | _ => True

/-- Neither a turn of a spin loop nor a failure that the operating system has to supply. -/
def Action.Advances : Action → Prop
  | .osError => False
  | .pollBlocker n | .loadTx n => n = 0
  | _ => True

theorem eq_true_of_toNat_pos {b : Bool} (positive : 0 < b.toNat) : b = true := by
  cases b
  · simp at positive
  · rfl

section Advance

variable {cfg : EnvConfig} {s : Shared} {t : Thread} {rule : DbiRule} {txns : List Txn}

/-- The thread has a step other than spinning, within the rules. -/
def Thread.CanAdvance (cfg : EnvConfig) (rule : DbiRule) (s : Shared) (t : Thread) : Prop :=
  ∃ a s' t', t.step cfg s a = some (s', t') ∧ a.Advances ∧ t.Documented a ∧ t.KeepsDbiRule rule a

theorem canAdvance_of {a : Action} (alive : s.crashed = false) (next : (t.next cfg a).isSome)
    (applies : (s.apply a).isSome) (advances : a.Advances) (documented : t.Documented a)
    (keeps : t.KeepsDbiRule rule a) :
    t.CanAdvance cfg rule s := by
  obtain ⟨t', next⟩ := Option.isSome_iff_exists.1 next
  obtain ⟨s', applied⟩ := Option.isSome_iff_exists.1 applies
  exact ⟨a, s', t', Thread.step_eq.2 ⟨alive, applied, next⟩, advances, documented, keeps⟩

theorem canAdvance_meta {a : Action} (alive : s.crashed = false) (next : (t.next cfg a).isSome)
    (faults : (t.next cfg (.fault false)).isSome) (applies : s.env.MetasReadable → (s.apply a).isSome)
    (advances : a.Advances) (documented : t.Documented a) (keeps : t.KeepsDbiRule rule a) :
    t.CanAdvance cfg rule s := by
  by_cases readable : s.env.MetasReadable
  · exact canAdvance_of alive next (applies readable) advances documented keeps
  · exact canAdvance_of alive faults (by simp [Shared.apply, Shared.MayFault, readable]) trivial trivial trivial

theorem canAdvance_code {k : Kont .code} (alive : s.crashed = false)
    (unfinished : (⟨txns, .code k⟩ : Thread).Unfinished) :
    (⟨txns, .code k⟩ : Thread).CanAdvance cfg rule s := by
  cases txns with
  | nil =>
      cases k with
      | thread => exact absurd rfl unfinished
      | resizeCallback info k => exact canAdvance_of (a := .callbackReturn) alive rfl rfl trivial rfl trivial
  | cons first rest =>
      refine canAdvance_of (a := .call (.endTxn 0)) alive ?_ rfl trivial ⟨by simp [Call.Opens],
        by simp [Call.TakesResizeLock]⟩ trivial
      cases first with
      | ro | inactive => rfl
      | rw nested => cases nested <;> rfl

def generousMap : OsMap where
  ftruncate := none
  mmap := .ok 0

theorem canAdvance_remap_step {stage : Remap} {k : Kont .mapped} (alive : s.crashed = false)
    (takes : ∀ os after, ((⟨txns, .remap stage k⟩ : Thread).next cfg (.remap os stage after)).isSome)
    (readable : stage.ReadsMetas s.meWmutex s.env → s.env.MetasReadable)
    (keeps : ¬(remapStep generousMap s.meWmutex s.env stage).2.Cuts s.env) :
    (⟨txns, .remap stage k⟩ : Thread).CanAdvance cfg rule s := by
  refine canAdvance_of (a := .remap generousMap stage (remapStep generousMap s.meWmutex s.env stage).2) alive
    (takes _ _) ?_ trivial trivial trivial
  rw [Shared.apply, if_pos ⟨readable, rfl, keeps⟩]
  rfl

theorem canAdvance_remap {stage : Remap} {k : Kont .mapped} (alive : s.crashed = false) :
    (⟨txns, .remap stage k⟩ : Thread).CanAdvance cfg rule s := by
  cases stage with
  | done rc => exact canAdvance_of (a := .tau) alive rfl rfl trivial trivial trivial
  | enter size =>
      by_cases placed : s.env.MetasPlaced
      · exact canAdvance_remap_step alive (fun _ _ => by simp [Thread.next]) (fun _ => .inl placed)
          (placed.not_cuts _ _ _)
      · by_cases reads : (Remap.enter size).ReadsMetas s.meWmutex s.env
        · refine canAdvance_of (a := .fault true) alive rfl ?_ trivial trivial trivial
          have mapped : s.env.meMap.isSome ∧ !s.meWmutex := Bool.and_eq_true_iff.1 reads
          simp [Shared.apply, Shared.MayFault, placed, mapped]
        · refine canAdvance_remap_step alive (fun _ _ => by simp [Thread.next]) (fun reads' => absurd reads' reads) ?_
          simp only [Remap.ReadsMetas, Bool.and_eq_true, Option.isSome_iff_ne_none] at reads
          simp only [remapStep]
          split
          · exact id
          · rename_i present
            have writing : s.meWmutex = true := by simpa [present] using reads
            rw [if_pos writing]
            exact id
  | unmap size | map size | install size =>
      refine canAdvance_remap_step alive (fun _ _ => by simp [Thread.next]) (by simp [Remap.ReadsMetas]) ?_
      simp only [remapStep]
      repeat' split
      all_goals exact id

/-- A thread that is under way and waits for nothing can advance. -/
theorem canAdvance (rule : DbiRule) (alive : s.crashed = false) (unfinished : t.Unfinished) (free : ¬t.Blocked cfg s)
    (held : ∀ μ : Meter, μ.modulus = 0 → 0 < μ.weight t → 0 < μ.reading s) : t.CanAdvance cfg rule s := by
  obtain ⟨txns, point⟩ := t
  cases point with
  | code k => exact canAdvance_code alive unfinished
  | guardAdd k => exact canAdvance_of (a := .fetchAddTx) alive rfl rfl trivial trivial trivial
  | guardCheck k =>
      exact canAdvance_of (a := .checkBlocker s.txBlockerCount) alive rfl (by simp [Shared.apply]) trivial
        trivial trivial
  | guardBackOut k => exact canAdvance_of (a := .backOutTx) alive rfl rfl trivial trivial trivial
  | guardWait k =>
      have none_left : s.txBlockerCount = 0 := by simpa [Thread.Blocked] using free
      exact canAdvance_of (a := .pollBlocker 0) alive rfl (by simp [Shared.apply, none_left]) rfl trivial trivial
  | roBegin k | renewing k =>
      exact canAdvance_meta (a := .mdbTxnBeginRo) alive rfl rfl (fun readable => by simp [Shared.apply, readable])
        trivial trivial trivial
  | roFailed k | txnEnded k | renewAborted k =>
      exact canAdvance_of (a := .dropGuard) alive rfl rfl trivial trivial trivial
  | ending h k =>
      cases h with
      | read | nested => exact canAdvance_of (a := .tau) alive rfl rfl trivial trivial trivial
      | write =>
          have writing : 0 < s.meWmutex.toNat := held .meWmutex rfl (by
            simp [Meter.weight, Thread.held_mk, Point.held, Handle.held, Meter.unit])
          refine canAdvance_of (a := .mdbTxnEndRw none) alive rfl ?_ trivial trivial trivial
          simp [Shared.apply, eq_true_of_toNat_pos writing]
  | renewFailed k | nestedBegin nested k => exact canAdvance_of (a := .tau) alive rfl rfl trivial trivial trivial
  | rwLock _ k | setMapSizeLock _ k | doResizeLock _ k =>
      have unlocked : s.dbResizeLock = false := by simpa [Thread.Blocked] using free
      cases poisoned : s.resizePoisoned
      · exact canAdvance_of (a := .lockResize) alive rfl (by simp [Shared.apply, unlocked, poisoned]) trivial
          trivial trivial
      · exact canAdvance_of (a := .lockResizePoisoned) alive rfl (by simp [Shared.apply, unlocked, poisoned]) trivial
          trivial trivial
  | resizeInfo headroom k =>
      refine canAdvance_meta (a := .readMeta s.env.shown.info) alive ?_ rfl
        (fun readable => by simp [Shared.apply, readable])
        trivial trivial trivial
      simp only [Thread.next]
      split <;> rfl
  | needsResize headroom requiredSpace initialMapSize k =>
      refine canAdvance_meta (a := .readMeta s.env.shown.info) alive ?_ rfl
        (fun readable => by simp [Shared.apply, readable])
        trivial trivial trivial
      simp only [Thread.next]
      split <;> rfl
  | resizeRead increaseSize k =>
      refine canAdvance_meta (a := .readMeta s.env.shown.info) alive ?_ rfl
        (fun readable => by simp [Shared.apply, readable])
        trivial trivial trivial
      simp only [Thread.next]
      split <;> rfl
  | rwBegin headroom k =>
      cases rdonly : cfg.rdonly
      · have writerFree : s.meWmutex = false := by simpa [Thread.Blocked, rdonly] using free
        exact canAdvance_meta (a := .mdbTxnBeginRw s.env.shown.info) alive (by simp [Thread.next, rdonly])
          (by simp [Thread.next, rdonly])
            (fun readable => by simp [Shared.apply, readable, writerFree]) trivial trivial trivial
      · exact canAdvance_of (a := .tau) alive (by simp [Thread.next, rdonly]) rfl trivial trivial trivial
  | resizeSpace info k =>
      refine canAdvance_of (a := .freeSpace (.ok 0)) alive ?_ rfl trivial trivial trivial
      simp only [Thread.next]
      split <;> rfl
  | blockerNew size k => exact canAdvance_of (a := .fetchAddBlocker) alive rfl rfl trivial trivial trivial
  | drain size k =>
      have drained : s.txCount = 0 := by simpa [Thread.Blocked] using free
      exact canAdvance_of (a := .loadTx 0) alive rfl (by simp [Shared.apply, drained]) rfl trivial trivial
  | remap stage k => exact canAdvance_remap alive
  | blockerDrop rc k => exact canAdvance_of (a := .fetchSubBlocker) alive rfl rfl trivial trivial trivial
  | unlock poison k =>
      have locked : 0 < s.dbResizeLock.toNat := held .dbResizeLock rfl (by
        have lock := k.lock_unlocked
        simp only [Meter.weight, Thread.held_mk, Point.held]
        omega)
      refine canAdvance_of (a := .unlockResize poison) alive (by simp [Thread.next]) ?_ trivial trivial trivial
      simp [Shared.apply, eq_true_of_toNat_pos locked]
  | dbiLock f k =>
      have unlocked : s.dbiOpenMutex = false := by simpa [Thread.Blocked] using free
      refine canAdvance_of (a := .lockDbi) alive ?_ (by simp [Shared.apply, unlocked]) trivial trivial trivial
      cases f <;> rfl
  | dbiUnlock k =>
      have locked : 0 < s.dbiOpenMutex.toNat := held .dbiOpenMutex rfl (by
        simp [Meter.weight, Thread.held_mk, Point.held, Meter.unit])
      refine canAdvance_of (a := .unlockDbi) alive rfl ?_ trivial trivial trivial
      simp [Shared.apply, eq_true_of_toNat_pos locked]
  | metaPick k | metaRead k =>
      exact canAdvance_meta (a := .readMeta s.env.shown.info) alive rfl rfl
        (fun readable => by simp [Shared.apply, readable])
        trivial trivial trivial

end Advance

section Holders

variable {w : Resource → ℕ} {rule : DbiRule}

def Await.Plain : Await → Bool
  | .code | .roTxn | .rwTxn | .resized | .mapped => true
  | _ => false

theorem Kont.held_plain (k : Kont x) (plain : x.Plain) (noDbi : w .dbiMutex = 0) (noLock : w .resizeLock = 0) :
    k.held w = 0 := by
  induction k with
  | thread => rfl
  | rwReturn | rwTransactionNew | beginNestedTxn | roTransactionNew | endUser | endDbi | resizeReturn =>
      simp [Await.Plain] at plain
  | _ => simp_all [Kont.held, Await.Plain]

theorem Kont.held_outside {k : Kont .code} (outside : k.InCallback = false) : k.held w = 0 := by
  cases k with
  | thread => rfl
  | resizeCallback => simp [Kont.InCallback] at outside

/-- Without `create_db` no callback runs under `dbi_open_mutex`. -/
theorem Kont.dbi_free {k : Kont .code} (orderly : k.Orderly .noCreateDb) :
    k.held (Meter.unit .dbiOpenMutex) = 0 := by
  cases k with
  | thread => rfl
  | resizeCallback info k =>
      cases k with
      | doResize k => simp [Kont.held, Kont.held_outside orderly.1, Meter.unit]
      | resizeDbIfNecessary headroom requiredSpace initialMapSize k =>
          cases k with
          | beginRwTxn k => simp [Kont.held, Kont.held_outside orderly.1, Meter.unit]
          | createDb k => exact absurd rfl orderly.1

end Holders

/-- Waits for `tx_blocker_count`, `tx_count` or LMDB's writer mutex. -/
def Point.AwaitsCount : Point → Bool
  | .guardWait _ | .drain _ _ | .rwBegin _ _ => true
  | _ => false

section Waits

variable {cfg : EnvConfig} {s : Shared} {t : Thread} {rule : DbiRule}

theorem Thread.Blocked.txns_nil (blocked : t.Blocked cfg s) (orderly : t.Orderly rule) : t.txns = [] := by
  obtain ⟨txns, point⟩ := t
  cases point with
  | guardWait k | drain size k | rwBegin headroom k | rwLock headroom k | setMapSizeLock size k
  | doResizeLock increaseSize k => exact orderly.1
  | dbiLock f k => cases f <;> exact orderly.1
  | _ => exact blocked.elim

/-- What a waiting thread holds besides locks is a write handle whose guard is awaited. -/
theorem Thread.Blocked.held_zero {w : Resource → ℕ} (blocked : t.Blocked cfg s) (orderly : t.Orderly rule)
    (noDbi : w .dbiMutex = 0) (noLock : w .resizeLock = 0) (noBlocker : w .blocker = 0)
    (noHandle : (∃ k, t.point = .guardWait k) → w .handle = 0 ∧ w .writer = 0) : t.held w = 0 := by
  have none_owned := blocked.txns_nil orderly
  obtain ⟨txns, point⟩ := t
  simp only at none_owned
  subst none_owned
  cases point with
  | guardWait k =>
      obtain ⟨handle, writer⟩ := noHandle ⟨k, rfl⟩
      cases k with
      | roTransactionNew k => simp [Thread.held_mk, Point.held, Kont.held, k.held_plain rfl noDbi noLock]
      | rwTransactionNew headroom snapshot k =>
          simp [Thread.held_mk, Point.held, Kont.held, k.held_plain rfl noDbi noLock, noLock, handle, writer]
      | beginNestedTxn => exact orderly.2.elim
  | drain size k | rwBegin headroom k | rwLock headroom k | setMapSizeLock size k | doResizeLock increaseSize k
  | dbiLock f k =>
      simp [Thread.held_mk, Point.held, k.held_plain rfl noDbi noLock, noLock, noBlocker]
  | _ => exact blocked.elim

theorem Thread.Blocked.no_contribution (blocked : t.Blocked cfg s) (orderly : t.Orderly rule) :
    Meter.weight .txCount t = 0 :=
  blocked.held_zero orderly rfl rfl rfl fun _ => ⟨rfl, rfl⟩

/-- A write transaction is awaited only for its guard. -/
theorem Thread.Blocked.writer_waits (blocked : t.Blocked cfg s) (orderly : t.Orderly rule)
    (writes : 0 < Meter.weight .meWmutex t) : ∃ k, t.point = .guardWait k := by
  by_contra elsewhere
  exact writes.ne' (blocked.held_zero orderly rfl rfl rfl fun waits => absurd waits elsewhere)

theorem Thread.Blocked.blocker_waits (blocked : t.Blocked cfg s) (inside : t.point.InSetMapSizeLocked) :
    ∃ size k, t.point = .drain size k := by
  obtain ⟨txns, point⟩ := t
  cases point with
  | drain size k => exact ⟨size, k, rfl⟩
  | remap | blockerDrop => exact blocked.elim
  | _ => simp [Point.InSetMapSizeLocked] at inside

/-- Whoever waits with `db_resize_lock` for something else than a count runs a
callback that opens a database. -/
theorem Thread.Blocked.lock_waits (blocked : t.Blocked cfg s) (orderly : t.Orderly rule)
    (locks : 0 < Meter.weight .dbResizeLock t) :
    t.point.AwaitsCount ∨ ∃ k, t.point = .dbiLock .openDb k ∧ rule = .noCreateDb := by
  have none_owned := blocked.txns_nil orderly
  obtain ⟨txns, point⟩ := t
  simp only at none_owned
  subst none_owned
  cases point with
  | guardWait | drain | rwBegin => exact .inl rfl
  | rwLock headroom k =>
      cases k with
      | beginRwTxn k =>
        simp [Meter.weight, Thread.held_mk, Point.held, Kont.held, Kont.held_outside orderly.2.1] at locks
      | createDb k =>
          simp [Meter.weight, Thread.held_mk, Point.held, Kont.held, Kont.held_outside orderly.2.2.1,
            Meter.unit] at locks
  | setMapSizeLock _ k | doResizeLock _ k =>
      simp [Meter.weight, Thread.held_mk, Point.held, Kont.held_outside orderly.2.1] at locks
  | dbiLock f k =>
      cases f with
      | openDb =>
          refine .inr ⟨k, rfl, ?_⟩
          cases rule with
          | noCreateDb => rfl
          | noOpenDbInCallback =>
              simp [Meter.weight, Thread.held_mk, Point.held, Kont.held_outside (orderly.2.1 rfl)] at locks
      | createDb => simp [Meter.weight, Thread.held_mk, Point.held, Kont.held_outside orderly.2.2.1] at locks
  | _ => exact blocked.elim

/-- Whoever waits with `dbi_open_mutex` for something else than a count is in
`create_db`, before it has `db_resize_lock`. -/
theorem Thread.Blocked.dbi_waits (blocked : t.Blocked cfg s) (orderly : t.Orderly rule)
    (locks : 0 < Meter.weight .dbiOpenMutex t) :
    t.point.AwaitsCount ∨ ∃ headroom k, t.point = .rwLock headroom k ∧ rule ≠ .noCreateDb := by
  have none_owned := blocked.txns_nil orderly
  obtain ⟨txns, point⟩ := t
  simp only at none_owned
  subst none_owned
  cases point with
  | guardWait | drain | rwBegin => exact .inl rfl
  | rwLock headroom k =>
      cases k with
      | beginRwTxn k =>
        simp [Meter.weight, Thread.held_mk, Point.held, Kont.held, Kont.held_outside orderly.2.1] at locks
      | createDb k => exact .inr ⟨headroom, _, rfl, orderly.2.1⟩
  | setMapSizeLock _ k | doResizeLock _ k =>
      simp [Meter.weight, Thread.held_mk, Point.held, Kont.held_outside orderly.2.1] at locks
  | dbiLock f k =>
      cases f with
      | openDb =>
          cases rule with
          | noCreateDb => simp [Meter.weight, Thread.held_mk, Point.held, Kont.dbi_free orderly.2.2] at locks
          | noOpenDbInCallback =>
              simp [Meter.weight, Thread.held_mk, Point.held, Kont.held_outside (orderly.2.1 rfl)] at locks
      | createDb => simp [Meter.weight, Thread.held_mk, Point.held, Kont.held_outside orderly.2.2.1] at locks
  | _ => exact blocked.elim

end Waits

section Runs

variable {ι : Type*} [Fintype ι] [DecidableEq ι] {cfg : EnvConfig} {P : Guard ι Shared Thread Action}
  {c d : Config ι Shared Thread} {rule : DbiRule}

/-- A mutex that is taken, or a counter that is not 0, has a holder. -/
theorem holder_exists (run : Run cfg.steps P c d) (started : Started c) {μ : Meter} (reads : 0 < μ.reading d.shared) :
    ∃ i, 0 < μ.weight (d.threads i) := by
  by_contra nobody
  have nothing : total μ.weight d = 0 := by
    rw [total_eq_zero]
    intro i
    by_contra holds
    exact nobody ⟨i, Nat.pos_of_ne_zero holds⟩
  have books := ledger run started μ
  rw [nothing] at books
  obtain ⟨small, few⟩ := counters_lt run started
  have exact_zero : μ.reading d.shared = 0 := by
    cases μ with
    | txCount => exact Nat.ModEq.eq_of_lt_of_lt books small (by decide)
    | txBlockerCount => exact Nat.ModEq.eq_of_lt_of_lt books few (by decide)
    | _ => exact Nat.modEq_zero_iff.1 books
  omega

theorem Thread.unfinished_of_weight {t : Thread} {w : Resource → ℕ} (holds : 0 < t.held w) : t.Unfinished := by
  obtain ⟨txns, point⟩ := t
  cases point with
  | code k =>
      cases k with
      | thread =>
          rintro rfl
          exact absurd holds (by simp [Thread.held_mk, Point.held, Kont.held])
      | resizeCallback => trivial
  | _ => trivial

/-- Some unfinished thread waits for nothing. -/
theorem unblocked_exists (run : Run cfg.steps (disciplined rule) c d) (started : Started c)
    (unfinished : ∃ i, (d.threads i).Unfinished) :
    ∃ i, (d.threads i).Unfinished ∧ ¬(d.threads i).Blocked cfg d.shared := by
  by_contra stuck
  have orderly := orderly_threads run started
  have blocked (i : ι) (under_way : (d.threads i).Unfinished) : (d.threads i).Blocked cfg d.shared := by
    by_contra free
    exact stuck ⟨i, under_way, free⟩
  have holder {μ : Meter} (reads : 0 < μ.reading d.shared) :
      ∃ i, (d.threads i).Blocked cfg d.shared ∧ 0 < μ.weight (d.threads i) := by
    obtain ⟨i, holds⟩ := holder_exists run started reads
    exact ⟨i, blocked i (Thread.unfinished_of_weight holds), holds⟩
  -- nobody drains: a thread that counts in `tx_count` does not wait
  have txCount : d.shared.txCount = 0 := by
    by_contra counted
    obtain ⟨i, waits, holds⟩ := holder (μ := .txCount) (Nat.pos_of_ne_zero counted)
    exact holds.ne' (waits.no_contribution (orderly i))
  -- so no resize is pending, and nobody waits for its blocker
  have txBlockerCount : d.shared.txBlockerCount = 0 := by
    by_contra counted
    obtain ⟨i, waits, holds⟩ := holder (μ := .txBlockerCount) (Nat.pos_of_ne_zero counted)
    have inside : (d.threads i).point.InSetMapSizeLocked := by
      rw [Thread.weight_txBlockerCount] at holds
      exact eq_true_of_toNat_pos holds
    obtain ⟨size, k, drains⟩ := waits.blocker_waits inside
    simp only [Thread.Blocked, drains] at waits
    exact waits txCount
  have meWmutex : d.shared.meWmutex = false := by
    by_contra taken
    obtain ⟨i, waits, holds⟩ := holder (μ := .meWmutex) (by simp [Meter.reading, taken])
    obtain ⟨k, awaits⟩ := waits.writer_waits (orderly i) holds
    simp only [Thread.Blocked, awaits] at waits
    exact waits txBlockerCount
  have no_count {i : ι} (waits : (d.threads i).Blocked cfg d.shared) : ¬(d.threads i).point.AwaitsCount := by
    intro awaits
    unfold Thread.Blocked at waits
    split at waits <;> simp_all [Point.AwaitsCount]
  -- a callback that waits in open_db waits for a create_db, which is ruled out
  have dbResizeLock : d.shared.dbResizeLock = false := by
    by_contra taken
    obtain ⟨i, waits, holds⟩ := holder (μ := .dbResizeLock) (by simp [Meter.reading, taken])
    rcases waits.lock_waits (orderly i) holds with counts | ⟨k, opens, noCreate⟩
    · exact no_count waits counts
    · simp only [Thread.Blocked, opens] at waits
      obtain ⟨j, alsoWaits, dbi⟩ := holder (μ := .dbiOpenMutex) (by simp [Meter.reading, waits])
      rcases alsoWaits.dbi_waits (orderly j) dbi with counts | ⟨_, _, _, creates⟩
      · exact no_count alsoWaits counts
      · exact creates noCreate
  have dbiOpenMutex : d.shared.dbiOpenMutex = false := by
    by_contra taken
    obtain ⟨i, waits, holds⟩ := holder (μ := .dbiOpenMutex) (by simp [Meter.reading, taken])
    rcases waits.dbi_waits (orderly i) holds with counts | ⟨headroom, k, locks, _⟩
    · exact no_count waits counts
    · simp [Thread.Blocked, locks, dbResizeLock] at waits
  obtain ⟨i, under_way⟩ := unfinished
  have waits := blocked i under_way
  unfold Thread.Blocked at waits
  split at waits <;> simp_all

/-- Some unfinished thread can take a step other than spinning, within the rules. -/
def Live (cfg : EnvConfig) (P : Guard ι Shared Thread Action) (d : Config ι Shared Thread) : Prop :=
  (∃ i, (d.threads i).Unfinished) →
    ∃ i a e, (d.threads i).Unfinished ∧ Step cfg.steps d i a e ∧ a.Advances ∧ P d i a

/-- As long as no callback opens a database, or no thread creates one, a running
environment whose threads keep the documented rules never deadlocks. -/
theorem disciplined_live (rule : DbiRule) (run : Run cfg.steps (disciplined rule) c d) (started : Started c)
    (alive : d.shared.crashed = false) : Live cfg (disciplined rule) d := by
  intro unfinished
  obtain ⟨i, under_way, free⟩ := unblocked_exists run started unfinished
  have held (μ : Meter) (isMutex : μ.modulus = 0) (holds : 0 < μ.weight (d.threads i)) :
    0 < μ.reading d.shared := by
    have books := ledger run started μ
    rw [isMutex, Nat.modEq_zero_iff] at books
    rw [books]
    exact lt_of_lt_of_le holds (le_total μ.weight d i)
  obtain ⟨a, s', t', stepped, advances, documented, keeps⟩ := canAdvance rule alive under_way free held
  exact ⟨i, a, _, under_way, step_update stepped, advances, documented, keeps⟩

end Runs

/-- A callback is installed and every fill level triggers a resize (fraction 0). -/
def callbackConfig : EnvConfig where
  settings := defaultResizeSettings fun sizeUsed _ => 0 < sizeUsed
  resizeCallback := true
  rdonly := false

def createDbToCallback : List (Fin 1 × Action) :=
  let info : MapInfo := ⟨4096, 2 ^ 20, 1⟩
  [.call (.dbi .createDb), .lockDbi, .lockResize, .readMeta info, .readMeta info, .readMeta info,
    .freeSpace (.ok (2 ^ 40)), .fetchAddBlocker, .loadTx 0,
    .remap grantedMap (.enter (2 ^ 20 + 2 ^ 28)) (.unmap (2 ^ 20 + 2 ^ 28)),
    .remap grantedMap (.unmap (2 ^ 20 + 2 ^ 28)) (.map (2 ^ 20 + 2 ^ 28)),
    .remap grantedMap (.map (2 ^ 20 + 2 ^ 28)) (.install (2 ^ 20 + 2 ^ 28)),
    .remap grantedMap (.install (2 ^ 20 + 2 ^ 28)) (.done 0), .tau, .fetchSubBlocker].map (0, ·)

theorem disciplined_live_create_db :
    ∃ d, callbackConfig.exec (disciplined .noOpenDbInCallback) createDbToCallback (freshStart (Fin 1)) = some d ∧
      (d.threads 0).point.UserInCallback ∧ Live callbackConfig (disciplined .noOpenDbInCallback) d := by
  refine ⟨_, rfl, rfl, ?_⟩
  have run := EnvConfig.exec_run
    (rfl : callbackConfig.exec (disciplined .noOpenDbInCallback) createDbToCallback (freshStart (Fin 1)) = some _)
  exact disciplined_live _ run (freshStart_started _) rfl

abbrev documented : Guard ι Shared Thread Action := fun c i a => (c.threads i).Documented a

theorem open_db_waits {cfg : EnvConfig} {s : Shared} {t : Thread} {k : Kont .code}
    (opens : t.point = .dbiLock .openDb k) (taken : s.dbiOpenMutex = true) (a : Action) :
    t.step cfg s a = none := by
  by_contra moves
  obtain ⟨⟨s', t'⟩, stepped⟩ := Option.ne_none_iff_exists'.1 moves
  obtain ⟨_, applied, next⟩ := Thread.step_eq.1 stepped
  simp only [Thread.next, opens] at next
  split at next
  · simp [Shared.apply, taken] at applied
  · rename_i other
    cases other
  · cases next

/-- The callback of a resize that `create_db` drives calls `open_db`. -/
theorem open_db_in_callback_reached :
    ∃ d, callbackConfig.exec documented (createDbToCallback ++ [(0, .call (.dbi .openDb))])
      (freshStart (Fin 1)) = some d ∧
      (∃ k, (d.threads 0).point = .dbiLock .openDb k) ∧ d.shared.dbiOpenMutex = true ∧ d.shared.crashed = false :=
  ⟨_, rfl, ⟨_, rfl⟩, rfl, rfl⟩

/-- There the only thread waits for the mutex that it holds. -/
theorem open_db_in_callback_deadlocks :
    ¬∀ (cfg : EnvConfig) (c d : Config (Fin 1) Shared Thread), Run cfg.steps documented c d → Started c →
      d.shared.crashed = false → Live cfg documented d := by
  intro claimed
  obtain ⟨d, executed, ⟨k, opens⟩, taken, alive⟩ := open_db_in_callback_reached
  have under_way : (d.threads 0).Unfinished := by
    unfold Thread.Unfinished
    rw [opens]
    trivial
  obtain ⟨i, a, e, _, step, _⟩ :=
    claimed _ _ _ (EnvConfig.exec_run executed) (freshStart_started _) alive ⟨0, under_way⟩
  have only : i = 0 := Subsingleton.elim _ _
  subst only
  have moved := step.moves
  simp only [EnvConfig.steps, ofFun, open_db_waits opens taken a] at moved
  cases moved

end SamLmdb
