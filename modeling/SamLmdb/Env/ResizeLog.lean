import SamLmdb.Lib.Monitor
import SamLmdb.Env.Interlock
import SamLmdb.Env.Headroom

/-!
What the resize callback is told. The log of a run records every return from
`mdb_env_set_mapsize` and every call of the callback; `db_resize_lock` makes it the
trace of one sequential resizer, whoever drives each step.
-/

namespace SamLmdb

open Interleaving

inductive ResizeEvent where
  /-- back in `do_resize_locked`, with the map size in force before the call and after it -/
  | resized (before after : ℕ) (rc : ℤ)
  /-- back in `set_map_size` -/
  | mapSizeSet (rc : ℤ)
  | callback (info : DatabaseResizeInfo)
  deriving DecidableEq, Repr

def Remap.sizeAtCall (s : Shared) (before : ℕ) : Remap → ℕ
  | .enter _ => s.env.meMapsize
  | _ => before

def Thread.sizeAtCall (s : Shared) (t : Thread) (before : ℕ) : ℕ :=
  match t.point with
  | .remap stage _ => stage.sizeAtCall s before
  | _ => before

/-- What a step of `t` to `t'` adds to the log. -/
def resizeEvents (s : Shared) (t t' : Thread) (before : ℕ) : List ResizeEvent :=
  match t.point, t'.point with
  | .remap (.done rc) (.doResizeLocked _ _), _ => [.resized before s.env.meMapsize rc]
  | .remap (.done rc) (.setMapSize _), _ => [.mapSizeSet rc]
  | .blockerDrop _ _, .code (.resizeCallback info _) => [.callback info]
  | _, _ => []

def EnvConfig.loggedStep (cfg : EnvConfig) :
    Shared × List ResizeEvent → Thread × ℕ → Action → Option
      ((Shared × List ResizeEvent) × (Thread × ℕ)) :=
  withHistory (fun s t a => t.step cfg s a) fun s t _ t' log before =>
    (log ++ resizeEvents s t t' before, t.sizeAtCall s before)

abbrev LoggedConfig (ι : Type*) := Config ι (Shared × List ResizeEvent) (Thread × ℕ)

def Kont.callbacks : Kont x → ℕ
  | .thread => 0
  | .resizeCallback _ k => k.callbacks + 1
  | .beginRoTxn k | .openDb k | .getDbFlags k | .freelist k | .beginRwTxn k | .createDb k | .doResize k
  | .resizeDbIfNecessary _ _ _ k | .setMapSize k | .doResizeLocked _ k | .roTransactionNew k
  | .rwTransactionNew _ _ k | .beginNestedTxn _ k | .endUser k | .endDbi k | .resizeReturn k | .rwReturn _ k =>
    k.callbacks

def Point.callbacks : Point → ℕ
  | .code k | .guardAdd k | .guardCheck k | .guardBackOut k | .guardWait k | .roBegin k | .roFailed k | .ending _ k
  | .txnEnded k | .renewing k | .renewFailed k | .renewAborted k | .nestedBegin _ k | .rwLock _ k
  | .resizeInfo _ k | .needsResize _ _ _ k | .rwBegin _ k | .setMapSizeLock _ k | .doResizeLock _ k
  | .resizeRead _ k | .resizeSpace _ k | .blockerNew _ k | .drain _ k | .remap _ k | .blockerDrop _ k
  | .unlock _ k | .dbiLock _ k | .dbiUnlock k | .metaPick k | .metaRead k => k.callbacks

/-- Back from a remap that has succeeded, and about to call the callback. -/
def Thread.Reports (t : Thread) (before after : ℕ) : Prop :=
  ∃ info k, t.point = .blockerDrop mdbSuccess (.doResizeLocked info k) ∧ info.oldSize = before ∧
    info.newSize = after

/-- The log of a run and the callbacks in progress. -/
structure ResizeLogged [Fintype ι] (d : LoggedConfig ι) : Prop where
  entry_of_resize : ∀ front before after back, d.shared.2 = front ++ .resized before after mdbSuccess :: back →
    (∃ info rest, back = .callback info :: rest ∧ info.oldSize = before ∧ info.newSize = after) ∨
      (back = [] ∧ ∃ i, (d.threads i).1.Reports before after)
  resize_of_entry : ∀ front info back, d.shared.2 = front ++ .callback info :: back →
    ∃ front', front = front' ++ [.resized info.oldSize info.newSize mdbSuccess]
  grows : ∀ info, .callback info ∈ d.shared.2 → info.oldSize < info.newSize
  chained : ∀ front a between b back, d.shared.2 = front ++ .callback a :: (between ++ .callback b :: back) →
    (∀ e ∈ between, ∃ before after, e = .resized before after mdbSuccess) → a.newSize = b.oldSize
  apart : total (fun t => t.1.point.callbacks) d ≤ 1

/-- The sequential resizer: the size in force, where it is known, and the remap that
the callback has not been told yet. -/
structure ResizeLogState where
  inForce : Option ℕ
  pending : Option (ℕ × ℕ)
  deriving DecidableEq

namespace ResizeLogState

def start : ResizeLogState := ⟨none, none⟩

def step (m : ResizeLogState) : ResizeEvent → Option ResizeLogState
  | .resized before after rc =>
    if m.pending = none ∧ (m.inForce = none ∨ m.inForce = some before) then
      if rc = mdbSuccess then if before < after then some ⟨some after, some (before, after)⟩ else none
      else some start
    else none
  | .mapSizeSet _ => if m.pending = none then some start else none
  | .callback info => if m.pending = some (info.oldSize, info.newSize) then some { m with pending := none } else none

section Accepted

variable {m : ResizeLogState} {log front back between : List ResizeEvent} {before after : ℕ}
    {a b info : DatabaseResizeInfo}

theorem pending_last (accepted : Monitor.run step start log = some m) (pending : m.pending = some (before, after)) :
    (∃ front, log = front ++ [.resized before after mdbSuccess]) ∧ m.inForce = some after ∧ before < after := by
  rcases List.eq_nil_or_concat log with rfl | ⟨front, e, rfl⟩
  · cases accepted
    cases pending
  · rw [List.concat_eq_append] at accepted ⊢
    obtain ⟨m₀, m₁, _, moved, rest⟩ := Monitor.run_split accepted
    cases rest
    cases e with
    | resized old new rc =>
      simp only [step] at moved
      split at moved
      · split at moved
        · split at moved <;> cases moved
          rename_i success grown
          cases pending
          exact ⟨⟨front, by rw [success]⟩, rfl, grown⟩
        · cases moved
          cases pending
      · cases moved
    | mapSizeSet rc =>
      simp only [step] at moved
      split at moved <;> cases moved
      cases pending
    | callback info =>
      simp only [step] at moved
      split at moved <;> cases moved
      cases pending

theorem resize_of_entry (accepted : Monitor.run step start (front ++ .callback info :: back) = some m) :
    (∃ front', front = front' ++ [.resized info.oldSize info.newSize mdbSuccess]) ∧ info.oldSize < info.newSize ∧
      ∃ m₁, Monitor.run step start (front ++ [.callback info]) = some m₁ ∧
        m₁.inForce = some info.newSize := by
  obtain ⟨m₀, m₁, ran, moved, rest⟩ := Monitor.run_split accepted
  have told := moved
  simp only [step] at moved
  split at moved <;> cases moved
  rename_i pending
  obtain ⟨last, known, grown⟩ := pending_last ran pending
  refine ⟨last, grown, { m₀ with pending := none }, ?_, known⟩
  rw [Monitor.run_append, ran]
  simp only [Option.bind_some, Monitor.run, told]

theorem entry_of_resize
    (accepted : Monitor.run step start (front ++ .resized before after mdbSuccess :: back) = some m) :
    (∃ info rest, back = .callback info :: rest ∧ info.oldSize = before ∧ info.newSize = after) ∨
      (back = [] ∧ m.pending = some (before, after)) := by
  obtain ⟨m₀, m₁, ran, moved, rest⟩ := Monitor.run_split accepted
  simp only [step, if_true] at moved
  split at moved
  · split at moved <;> cases moved
    cases back with
    | nil =>
      cases rest
      exact .inr ⟨rfl, rfl⟩
    | cons e back =>
      left
      obtain ⟨m₂, moved, _⟩ := Option.bind_eq_some_iff.1 rest
      cases e with
      | resized | mapSizeSet => simp [step] at moved
      | callback info =>
        simp only [step, Option.some.injEq, Prod.mk.injEq] at moved
        split at moved
        · rename_i same
          exact ⟨info, back, rfl, same.1.symm, same.2.symm⟩
        · cases moved
  · cases moved

theorem chained (accepted : Monitor.run step start (front ++ .callback a :: (between ++ .callback b :: back)) = some m)
    (quiet : ∀ e ∈ between, ∃ before after, e = .resized before after mdbSuccess) : a.newSize = b.oldSize := by
  obtain ⟨_, _, m₁, told, known⟩ := resize_of_entry accepted
  have later := accepted
  rw [List.append_cons front, ← List.append_assoc] at later
  obtain ⟨⟨front', ends⟩, _⟩ := resize_of_entry later
  -- the one event between the two entries is the second remap
  have only : between = [.resized b.oldSize b.newSize mdbSuccess] := by
    cases between with
    | nil => simp at ends
    | cons e rest =>
      obtain ⟨before, after, rfl⟩ := quiet e (by simp)
      have resized := accepted
      rw [List.append_cons front, List.cons_append] at resized
      rcases entry_of_resize resized with ⟨info, rest', same, _⟩ | ⟨same, _⟩
      · cases rest with
        | nil =>
          simp only [List.append_assoc, List.singleton_append] at ends
          have last := congrArg List.getLast? ends
          simpa using last
        | cons e rest =>
          obtain ⟨before', after', rfl⟩ := quiet e (by simp)
          cases same
      · simp at same
  subst only
  have resized := accepted
  rw [List.append_cons front, List.cons_append] at resized
  obtain ⟨m₂, m₃, ran, moved, _⟩ := Monitor.run_split resized
  rw [told] at ran
  cases ran
  simp only [step] at moved
  split at moved
  · rename_i allowed
    simpa [known] using allowed.2
  · cases moved

end Accepted

end ResizeLogState

section Callbacks

/-- Whoever waits for `do_resize_locked` has one lock to spare. -/
def Await.slack : Await → ℕ
  | .resized => 1
  | _ => 0

theorem Kont.callbacks_le {x : Await} (k : Kont x) : k.callbacks + x.slack ≤ k.held (Meter.unit .dbResizeLock) := by
  induction k with
  | rwReturn txn k ih =>
    cases txn <;> simp [Kont.callbacks, Kont.held, Txn.held, Meter.unit, Await.slack] at * <;> omega
  | _ => simp [Kont.callbacks, Kont.held, Txn.held, Meter.unit, Await.slack] at * <;> omega

theorem Thread.callbacks_le (t : Thread) : t.point.callbacks ≤ Meter.weight .dbResizeLock t := by
  obtain ⟨txns, point⟩ := t
  simp only [Meter.weight, Thread.held_mk]
  cases point with
  | ending h k =>
    have frames := k.callbacks_le
    cases h <;> simp only [Point.callbacks, Point.held, Handle.held] <;> omega
  | _ =>
    rename_i k
    have frames := k.callbacks_le
    simp only [Point.callbacks, Point.held]
    omega

end Callbacks

/-- What a `do_resize` step reports if the map grows from `before` to `size`. -/
def Kont.Grows (before size : ℕ) : Kont .mapped → Prop
  | .setMapSize _ => True
  | .doResizeLocked info _ => info.oldSize = before ∧ info.newSize = size ∧ before < size

structure Shared.Settles (s : Shared) (size : ℕ) : Prop where
  no_writer : s.meWmutex = false
  fits : s.env.mePsize * (s.env.mmLastPg + 1) ≤ size

namespace ResizeLogState

def Allows (m : ResizeLogState) (before : ℕ) : Prop := m.inForce = none ∨ m.inForce = some before

end ResizeLogState

def Remap.Knows (s : Shared) (m : ResizeLogState) (before : ℕ) (k : Kont .mapped) : Remap → Prop
  | .enter size => k.Grows s.env.meMapsize size
  | .unmap size => m.Allows before ∧ k.Grows before size ∧ s.Settles size
  | .map size =>
    m.Allows before ∧ k.Grows before size ∧ s.Settles size ∧ s.env.meMapsize = size ∧ s.env.mapping = none
  | .install size => m.Allows before ∧ k.Grows before size ∧ s.Settles size ∧ s.env.meMapsize = size
  | .done rc => m.Allows before ∧ ∃ size, k.Grows before size ∧ (rc = mdbSuccess → s.env.meMapsize = size)

/-- What a thread inside a resize step knows about the size in force and the log. -/
def Point.Knows (s : Shared) (m : ResizeLogState) (before : ℕ) : Point → Prop
  | .resizeSpace info _ => info.oldSize = s.env.meMapsize ∧ info.oldSize < info.newSize
  | .blockerNew size k | .drain size k => k.Grows s.env.meMapsize size
  | .remap stage k => stage.Knows s m before k
  | .blockerDrop rc (.doResizeLocked info _) => rc = mdbSuccess → m.pending = some (info.oldSize, info.newSize)
  | _ => True

def Remap.Entering : Remap → Prop
  | .enter _ => True
  | _ => False

def Point.Remapping : Point → Prop
  | .remap stage _ => ¬stage.Entering
  | _ => False

theorem Point.Remapping.drained {p : Point} (remapping : p.Remapping) : p.Drained := by
  cases p <;> simp_all [Point.Remapping, Point.Drained]

theorem Thread.Reports.drained {t : Thread} {before after : ℕ}
    (reports : t.Reports before after) : t.point.Drained := by
  obtain ⟨info, k, here, _⟩ := reports
  rw [here]
  trivial

section Knowledge

variable {s s' : Shared} {m m' : ResizeLogState} {before before' : ℕ} {t t' : Thread} {a : Action} {cfg : EnvConfig}

theorem Point.Landing.knows {p : Point} (landing : p.Landing) : p.Knows s m before := by
  cases p <;> trivial

theorem Remap.Knows.quiet {stage : Remap} {k : Kont .mapped} (calm : s.Quiet s') (knows : stage.Knows s m before k) :
    stage.Knows s' m before k := by
  have settles {size : ℕ} (settled : s.Settles size) : s'.Settles size := by
    refine ⟨calm.writer settled.no_writer, ?_⟩
    rw [calm.psize, calm.last settled.no_writer]
    exact settled.fits
  cases stage with
  | enter size =>
    simp only [Remap.Knows, calm.size]
    exact knows
  | unmap size => exact ⟨knows.1, knows.2.1, settles knows.2.2⟩
  | map size =>
    obtain ⟨allows, grows, settled, sized, unmapped⟩ := knows
    exact ⟨allows, grows, settles settled, calm.size.trans sized, calm.mapping.trans unmapped⟩
  | install size =>
    obtain ⟨allows, grows, settled, sized⟩ := knows
    exact ⟨allows, grows, settles settled, calm.size.trans sized⟩
  | done rc =>
    obtain ⟨allows, size, grows, sized⟩ := knows
    exact ⟨allows, size, grows, fun success => calm.size.trans (sized success)⟩

theorem Point.Knows.quiet {p : Point} (calm : s.Quiet s') (knows : p.Knows s m before) : p.Knows s' m before := by
  cases p with
  | remap stage k => exact Remap.Knows.quiet calm knows
  | resizeSpace | blockerNew | drain =>
    simp only [Point.Knows, calm.size]
    exact knows
  | blockerDrop rc k => cases k <;> exact knows
  | _ => exact knows

theorem Thread.knows_unlocked (unlocked : Meter.weight .dbResizeLock t = 0) : t.point.Knows s m before := by
  obtain ⟨txns, point⟩ := t
  simp only [Meter.weight, Thread.held_mk, Nat.add_eq_zero_iff] at unlocked
  obtain ⟨_, unlocked⟩ := unlocked
  cases point with
  | resizeSpace _ k => exact absurd unlocked k.lock_resized.ne'
  | blockerNew size k => exact absurd unlocked k.lock_mapped.ne'
  | drain size k | remap stage k | blockerDrop rc k =>
    have locked := k.lock_mapped
    simp [Point.held] at unlocked
    omega
  | _ => trivial

theorem Shared.apply_size (applied : s.apply a = some s') (noRemap : ∀ os stage after, a ≠ .remap os stage after) :
    s'.env.meMapsize = s.env.meMapsize := by
  by_cases begins : ∃ snapshot, a = .mdbTxnBeginRw snapshot
  · obtain ⟨snapshot, rfl⟩ := begins
    simp only [Shared.apply] at applied
    split at applied <;> cases applied
    rfl
  · exact (Shared.apply_quiet applied noRemap (by simpa using begins)).size

/-- Outside the remap a step leaves the log and the size alone. -/
theorem Thread.next_outside (s : Shared) (before : ℕ) (outside : ¬t.point.Drained) (next : t.next cfg a = some t') :
    resizeEvents s t t' before = [] ∧ t.sizeAtCall s before = before := by
  obtain ⟨txns, point⟩ := t
  cases point with
  | remap | blockerDrop => exact absurd trivial outside
  | _ => exact ⟨rfl, rfl⟩

theorem Thread.next_remap {os : OsMap} {stage after : Remap} (next : t.next cfg (.remap os stage after) = some t') :
    t.point.Drained := by
  obtain ⟨txns, point⟩ := t
  cases point with
  | remap | blockerDrop => trivial
  | _ => simp [Thread.next] at next

theorem Thread.next_knows (outside : ¬t.point.Drained) (applied : s.apply a = some s') (next : t.next cfg a = some t')
    (knows : t.point.Knows s m before) : t'.point.Knows s' m before' := by
  have noRemap : ∀ os stage after, a ≠ .remap os stage after := by
    rintro os stage after rfl
    exact outside (Thread.next_remap next)
  have sized := Shared.apply_size applied noRemap
  obtain ⟨txns, point⟩ := t
  cases point with
  | remap | blockerDrop => exact absurd trivial outside
  | code k =>
    simp only [Thread.next] at next
    split at next
    · rename_i c
      cases c with
      | reset i | renew i | beginNestedTxn i | endTxn i =>
        simp only [Call.start] at next
        split at next <;> cases next <;> trivial
      | _ =>
        cases next
        trivial
    · cases next
      exact (Kont.resized_landing (some _) _).knows
    · cases next
      exact (Kont.unwind_landing _).knows
    · cases next
  | guardCheck k =>
    simp only [Thread.next] at next
    split at next <;> cases next
    split
    · exact (k.guarded_landing txns).knows
    · trivial
  | guardWait k =>
    simp only [Thread.next] at next
    split at next <;> cases next
    split <;> trivial
  | unlock poison k =>
    simp only [Thread.next] at next
    split at next <;> try contradiction
    split at next <;> cases next
    exact (k.unlocked_landing txns).knows
  | roBegin k =>
    simp only [Thread.next] at next
    split at next <;> cases next
    · exact (k.roStarted_landing txns).knows
    · trivial
    · trivial
  | roFailed k =>
    simp only [Thread.next] at next
    split at next <;> cases next
    exact k.roRefused_landing.knows
  | txnEnded k =>
    simp only [Thread.next] at next
    split at next <;> cases next
    exact k.dropped_landing.knows
  | rwLock headroom k =>
    simp only [Thread.next] at next
    split at next <;> cases next
    · trivial
    · exact k.rwRefused_landing.knows
  | resizeRead increaseSize k =>
    simp only [Thread.next] at next
    split at next <;> try contradiction
    · rename_i info
      split at next <;> cases next
      · rename_i size settled
        simp only [Shared.apply] at applied
        split at applied <;> cases applied
        rename_i seen
        have read : s.env.shown.meMapsize = info.mapSize := congrArg MapInfo.mapSize seen.2
        exact ⟨read.symm.trans s.env.shown_meMapsize, (newMapSize_grows settled).1⟩
      · exact k.unwind_landing.knows
    · cases next
      trivial
  | resizeSpace info k =>
    simp only [Thread.next] at next
    split at next <;> try contradiction
    split at next <;> cases next
    · exact ⟨knows.1.trans sized.symm, rfl, by rw [sized, ← knows.1]; exact knows.2⟩
    · exact (k.resized_landing none).knows
  | blockerNew size k =>
    simp only [Thread.next] at next
    split at next <;> cases next
    simpa only [Point.Knows, sized] using knows
  | drain size k =>
    simp only [Thread.next] at next
    split at next <;> cases next
    split
    all_goals simpa only [Point.Knows, Remap.Knows, sized] using knows
  | setMapSizeLock size k =>
    simp only [Thread.next] at next
    split at next <;> cases next <;> trivial
  | resizeInfo | needsResize | rwBegin =>
    simp only [Thread.next] at next
    split at next <;> (try split at next) <;> cases next <;> trivial
  | _ =>
    simp only [Thread.next] at next
    split at next <;> cases next <;> trivial

theorem Remap.step_knows (os : OsMap) {stage : Remap} {k : Kont .mapped} (unfinished : ∀ rc, stage ≠ .done rc)
    (mapFits : s.env.MapFits) (allows : stage.Entering → m.Allows s.env.meMapsize) (knows : stage.Knows s m before k)
    (readable : stage.ReadsMetas s.meWmutex s.env → s.env.MetasReadable)
    (keeps : ¬(remapStep os s.meWmutex s.env stage).2.Cuts s.env)
    (taken : s' = { s with env := (remapStep os s.meWmutex s.env stage).1 }) :
    s'.env.MapFits ∧ (remapStep os s.meWmutex s.env stage).2.Knows s' m (stage.sizeAtCall s before) k ∧
      ¬(remapStep os s.meWmutex s.env stage).2.Entering := by
  subst taken
  cases stage with
  | done rc => exact absurd rfl (unfinished rc)
  | enter size =>
    have allowed := allows trivial
    rcases present : s.env.meMap with _ | old
    · have unmapped := mapFits.1 present
      simp only [remapStep, present]
      exact ⟨⟨fun _ => unmapped, .inl unmapped⟩, ⟨allowed, size, knows, fun _ => rfl⟩, id⟩
    · by_cases writing : s.meWmutex = true
      · have refused : remapStep os s.meWmutex s.env (.enter size) = (s.env, .done einval) := by
          simp [remapStep, present, writing]
        rw [refused]
        exact ⟨mapFits, ⟨allowed, size, knows, fun success => absurd success (by decide)⟩, id⟩
      · have fits := mapFits.fits (readable (by simp [Remap.ReadsMetas, present, writing]))
        have rounded : remapStep os s.meWmutex s.env (.enter size) =
            (s.env, .unmap (roundUpToUsed s.env.shown size)) := by
          simp [remapStep, present, writing]
        rw [rounded] at keeps ⊢
        refine ⟨mapFits, ⟨allowed, ?_, eq_false_of_ne_true writing, Nat.le_of_not_lt keeps⟩, id⟩
        cases k with
        | setMapSize => trivial
        | doResizeLocked info k =>
          obtain ⟨old_eq, new_eq, grows⟩ := knows
          -- a larger size covers the used pages and is not rounded
          have exact_ : roundUpToUsed s.env.shown size = size := by
            have positive : size ≠ 0 := by omega
            have seen : (s.env.shown.mmLastPg + 1) * s.env.mePsize ≤ (s.env.mmLastPg + 1) * s.env.mePsize :=
              Nat.mul_le_mul_right _ (Nat.succ_le_succ s.env.shown_mmLastPg_le)
            rw [Nat.mul_comm] at fits
            simp only [roundUpToUsed, if_neg positive, MdbEnv.shown_mePsize]
            omega
          exact ⟨old_eq, new_eq.trans exact_.symm, by rwa [exact_]⟩
  | unmap size =>
    obtain ⟨allowed, grows, settled⟩ := knows
    exact ⟨⟨fun _ => rfl, .inl rfl⟩, ⟨allowed, grows, ⟨settled.no_writer, settled.fits⟩, rfl, rfl⟩, id⟩
  | map size =>
    obtain ⟨allowed, grows, settled, sized, unmapped⟩ := knows
    have fits : s.env.mePsize * (s.env.mmLastPg + 1) ≤ s.env.meMapsize := sized ▸ settled.fits
    simp only [remapStep]
    split
    · exact ⟨mapFits, ⟨allowed, size, grows, fun _ => sized⟩, id⟩
    · exact ⟨⟨fun _ => unmapped, .inl unmapped⟩, ⟨allowed, size, grows, fun _ => sized⟩, id⟩
    · split
      · exact ⟨⟨fun absent => by simp at absent, .inr fits⟩, ⟨allowed, size, grows, fun _ => sized⟩, id⟩
      · exact ⟨⟨fun absent => by simp at absent, .inr fits⟩,
          ⟨allowed, grows, ⟨settled.no_writer, settled.fits⟩, sized⟩, id⟩
  | install size =>
    obtain ⟨allowed, grows, settled, sized⟩ := knows
    simp only [remapStep]
    exact ⟨⟨mapFits.1, .inr settled.fits⟩, ⟨allowed, size, grows, fun _ => rfl⟩, id⟩

/-- What a step from inside the remap leaves: the log goes on as that of a sequential resizer. -/
structure Continues (s s' : Shared) (m : ResizeLogState) (t t' : Thread) (before : ℕ)
    (m' : ResizeLogState) : Prop where
  accepted : Monitor.run ResizeLogState.step m (resizeEvents s t t' before) = some m'
  mapFits : s'.env.MapFits
  knows : t'.point.Knows s' m' (t.sizeAtCall s before)
  allows : ¬t'.point.Remapping → m'.Allows s'.env.meMapsize
  reports : ∀ old new, m'.pending = some (old, new) → t'.Reports old new

theorem Continues.of_remap {txns : List Txn} {os : OsMap} {stage after : Remap} {k : Kont .mapped}
    (mapFits : s.env.MapFits) (knows : stage.Knows s m before k)
    (allows : stage.Entering → m.Allows s.env.meMapsize) (idle : m.pending = none)
    (unfinished : ∀ rc, stage ≠ .done rc) (applied : s.apply (.remap os stage after) = some s') :
    Continues s s' m ⟨txns, .remap stage k⟩ ⟨txns, .remap after k⟩ before m := by
  simp only [Shared.apply] at applied
  split at applied <;> cases applied
  rename_i allowed
  obtain ⟨readable, goes, keeps⟩ := allowed
  obtain ⟨fits, knows', entered⟩ :=
    Remap.step_knows os unfinished mapFits allows knows readable (by rwa [goes]) rfl
  rw [goes] at knows' entered
  refine ⟨?_, fits, knows', fun left => absurd entered left, ?_⟩
  · cases stage with
    | done rc => exact absurd rfl (unfinished rc)
    | _ => rfl
  · intro old new pending
    rw [idle] at pending
    cases pending

/-- `mdb_env_set_mapsize` has returned. -/
theorem Continues.of_return {txns : List Txn} {rc : ℤ} {k : Kont .mapped} (mapFits : s.env.MapFits)
    (knows : (Remap.done rc).Knows s m before k) (idle : m.pending = none) :
    ∃ m', Continues s s m ⟨txns, .remap (.done rc) k⟩ ⟨txns, .blockerDrop rc k⟩ before m' := by
  obtain ⟨allowed, size, grows, sized⟩ := knows
  have forget : ResizeLogState.start.Allows s.env.meMapsize := .inl rfl
  cases k with
  | setMapSize k =>
    have accepted : Monitor.run ResizeLogState.step m [.mapSizeSet rc] = some .start := by
      simp [Monitor.run, ResizeLogState.step, idle]
    exact ⟨.start, accepted, mapFits, trivial, fun _ => forget, fun _ _ pending => by cases pending⟩
  | doResizeLocked info k =>
    obtain ⟨old_eq, new_eq, grown⟩ := grows
    have ready : m.pending = none ∧ (m.inForce = none ∨ m.inForce = some before) := ⟨idle, allowed⟩
    by_cases success : rc = mdbSuccess
    · have reached := sized success
      have accepted : Monitor.run ResizeLogState.step m [.resized before s.env.meMapsize rc] =
          some ⟨some s.env.meMapsize, some (before, s.env.meMapsize)⟩ := by
        have grown' : before < s.env.meMapsize := reached ▸ grown
        simp only [Monitor.run, ResizeLogState.step, if_pos ready, if_pos success, if_pos grown',
          Option.bind_some]
      refine ⟨_, accepted, mapFits, fun _ => ?_, fun _ => .inr rfl, ?_⟩
      · rw [old_eq, new_eq, reached]
      · rintro old new pending
        cases pending
        exact ⟨info, k, by rw [success], old_eq, new_eq.trans reached.symm⟩
    · have accepted : Monitor.run ResizeLogState.step m [.resized before s.env.meMapsize rc] = some .start := by
        simp only [Monitor.run, ResizeLogState.step, if_pos ready, if_neg success, Option.bind_some]
      exact ⟨.start, accepted, mapFits, fun rc_eq => absurd rc_eq success, fun _ => forget,
        fun _ _ pending => by cases pending⟩

/-- The blocker has dropped, and the callback is called if the remap succeeded. -/
theorem Continues.of_drop {txns : List Txn} {rc : ℤ} {k : Kont .mapped} (installed : cfg.resizeCallback = true)
    (same : s'.env = s.env) (mapFits : s.env.MapFits) (knows : (Point.blockerDrop rc k).Knows s m before)
    (allows : m.Allows s.env.meMapsize)
    (reports : ∀ old new, m.pending = some (old, new) → Thread.Reports ⟨txns, .blockerDrop rc k⟩ old new) :
    ∃ m', Continues s s' m ⟨txns, .blockerDrop rc k⟩ ⟨txns, k.mapped cfg rc⟩ before m' := by
  have told : (k.mapped cfg rc).Knows s' m before := (k.mapped_landing cfg rc).knows
  have idle (quiet : ∀ info k', rc = mdbSuccess → k ≠ .doResizeLocked info k') : m.pending = none := by
    rcases pending : m.pending with _ | ⟨old, new⟩
    · rfl
    · obtain ⟨info, k', here, _⟩ := reports old new pending
      cases here
      exact absurd rfl (quiet info k' rfl)
  cases k with
  | setMapSize k =>
    have none_ := idle (by simp)
    refine ⟨m, rfl, same ▸ mapFits, told, fun _ => same ▸ allows, fun old new pending => ?_⟩
    rw [none_] at pending
    cases pending
  | doResizeLocked info k =>
    by_cases success : rc = mdbSuccess
    · have called : Kont.mapped cfg rc (.doResizeLocked info k) = .code (.resizeCallback info k) := by
        simp [Kont.mapped, success, installed]
      have accepted : Monitor.run ResizeLogState.step m [.callback info] = some { m with pending := none } := by
        simp only [Monitor.run, ResizeLogState.step, if_pos (knows success), Option.bind_some]
      rw [called]
      exact ⟨{ m with pending := none }, accepted, same ▸ mapFits, trivial, fun _ => same ▸ allows,
        fun _ _ pending => by cases pending⟩
    · have failed : Kont.mapped cfg rc (.doResizeLocked info k) = k.resized none := by
        simp [Kont.mapped, success]
      have none_ := idle fun _ _ rc_eq => absurd rc_eq success
      rw [failed] at told ⊢
      refine ⟨m, ?_, same ▸ mapFits, told, fun _ => same ▸ allows, fun old new pending => ?_⟩
      · cases k <;> rfl
      · rw [none_] at pending
        cases pending

theorem Thread.next_inside (installed : cfg.resizeCallback = true) (inside : t.point.Drained) (mapFits : s.env.MapFits)
    (knows : t.point.Knows s m before) (allows : ¬t.point.Remapping → m.Allows s.env.meMapsize)
    (reports : ∀ old new, m.pending = some (old, new) → t.Reports old new)
    (applied : s.apply a = some s') (next : t.next cfg a = some t') : ∃ m', Continues s s' m t t' before m' := by
  obtain ⟨txns, point⟩ := t
  cases point with
  | remap stage k =>
    have idle : m.pending = none := by
      rcases pending : m.pending with _ | ⟨old, new⟩
      · rfl
      · obtain ⟨info, k', here, _⟩ := reports old new pending
        cases here
    have entering : stage.Entering → m.Allows s.env.meMapsize := fun enters => allows fun left => left enters
    simp only [Thread.next] at next
    split at next
    · cases next
      cases applied
      exact Continues.of_return mapFits knows idle
    · cases next
    · cases next
      simp only [Shared.apply] at applied
      split at applied <;> cases applied
      exact ⟨m, rfl, mapFits, knows, fun _ => entering trivial, fun old new pending => by
        rw [idle] at pending
        cases pending⟩
    · rename_i unfinished
      split at next <;> cases next
      rename_i same
      subst same
      exact ⟨m, Continues.of_remap mapFits knows entering idle (fun rc done => unfinished rc done) applied⟩
    · cases next
  | blockerDrop rc k =>
    simp only [Thread.next] at next
    split at next <;> cases next
    cases applied
    exact Continues.of_drop installed rfl mapFits knows (allows id) reports
  | _ => exact absurd inside id

end Knowledge

section Runs

variable {ι : Type*} {cfg : EnvConfig} {P : Guard ι (Shared × List ResizeEvent) (Thread × ℕ) Action}
  {c d : LoggedConfig ι}

/-- The log of a run is that of a sequential resizer, whose state the holder of
`db_resize_lock` carries on. -/
structure LogSound (d : LoggedConfig ι) (m : ResizeLogState) : Prop where
  accepted : Monitor.run ResizeLogState.step .start d.shared.2 = some m
  mapFits : d.shared.1.env.MapFits
  knows : ∀ i, (d.threads i).1.point.Knows d.shared.1 m (d.threads i).2
  allows : (∀ i, ¬(d.threads i).1.point.Remapping) → m.Allows d.shared.1.env.meMapsize
  reports : ∀ old new, m.pending = some (old, new) → ∃ i, (d.threads i).1.Reports old new

theorem log_sound [Fintype ι] [DecidableEq ι] (installed : cfg.resizeCallback = true)
    (run : Run (ofFun cfg.loggedStep) P c d) (started : Started c.forget) (empty : c.shared.2 = []) :
    ∃ m, LogSound d m := by
  induction run with
  | refl =>
    obtain ⟨_, _, fits, _, mapped, present, _⟩ := started.opened
    have idle (i : ι) : (c.threads i).1 = ⟨[], .code .thread⟩ := started.idle i
    refine ⟨.start, by rw [empty]; rfl, ⟨fun absent => ?_, .inr fits⟩, fun i => ?_, fun _ => .inl rfl, ?_⟩
    · have absent' : c.forget.shared.env.meMap = none := absent
      simp [absent'] at present
    · rw [idle i]
      trivial
    · rintro old new ⟨⟩
  | @tail d e i a before step _ ih =>
    obtain ⟨m, accepted, mapFits, knows, allows, reports⟩ := ih
    obtain ⟨moved, noted⟩ := withHistory_eq step.moves
    obtain ⟨_, applied, next⟩ := Thread.step_eq.1 moved
    obtain ⟨log_eq, size_eq⟩ := Prod.mk.inj noted
    have plain := before.forget
    have locked_of_inside {j : ι} (inside : (d.threads j).1.point.Drained) :
        0 < Meter.weight .dbResizeLock (d.forget.threads j) := Thread.lock_of_blocker inside.locked
    have alone {j : ι} (mine : 0 < Meter.weight .dbResizeLock (d.forget.threads i)) (differ : j ≠ i) :
        Meter.weight .dbResizeLock (d.forget.threads j) = 0 := by
      by_contra held
      exact differ (lock_unique plain started (Nat.pos_of_ne_zero held) mine)
    by_cases inside : (d.threads i).1.point.Drained
    · -- the mover holds the lock, so nobody else is in a resize step
      have mine := locked_of_inside inside
      have others {j : ι} (differ : j ≠ i) : ¬(d.threads j).1.point.Drained := fun there => by
        have locked := locked_of_inside there
        rw [alone mine differ] at locked
        exact absurd locked (Nat.lt_irrefl 0)
      obtain ⟨m', goes⟩ := Thread.next_inside installed inside mapFits (knows i)
        (fun left => allows fun j => by
          by_cases same : j = i
          · rwa [same]
          · exact fun there => others same there.drained)
        (fun old new pending => by
          obtain ⟨j, there⟩ := reports old new pending
          by_cases same : j = i
          · rwa [← same]
          · exact absurd there.drained (others same))
        applied next
      refine ⟨m', ?_, goes.mapFits, fun j => ?_, fun left => goes.allows (left i),
        fun old new pending => ⟨i, goes.reports old new pending⟩⟩
      · rw [log_eq, Monitor.run_append, accepted]
        exact goes.accepted
      · by_cases same : j = i
        · rw [same, size_eq]
          exact goes.knows
        · rw [step.others j same]
          exact Thread.knows_unlocked (alone mine same)
    · obtain ⟨quiet, kept⟩ := Thread.next_outside d.shared.1 (d.threads i).2 inside next
      have noRemap : ∀ os stage after, a ≠ .remap os stage after := by
        rintro os stage after rfl
        exact inside (Thread.next_remap next)
      have sized := Shared.apply_size applied noRemap
      refine ⟨m, ?_, Shared.apply_mapFits applied noRemap mapFits, fun j => ?_,
        fun left => ?_, fun old new pending => ?_⟩
      · rw [log_eq, quiet, List.append_nil]
        exact accepted
      · by_cases same : j = i
        · rw [same]
          exact Thread.next_knows inside applied next (knows i)
        · rw [step.others j same]
          by_cases begins : ∃ snapshot, a = .mdbTxnBeginRw snapshot
          · exact Thread.knows_unlocked (alone (Thread.next_locked next (.inr begins)) same)
          · exact Point.Knows.quiet (Shared.apply_quiet applied noRemap (by simpa using begins)) (knows j)
      · rw [sized]
        refine allows fun j there => ?_
        by_cases same : j = i
        · exact inside (same ▸ there.drained)
        · exact left j (by rwa [step.others j same])
      · obtain ⟨j, there⟩ := reports old new pending
        refine ⟨j, ?_⟩
        have differ : j ≠ i := by
          rintro rfl
          exact inside there.drained
        rwa [step.others j differ]

end Runs

def resizeActions (info : MapInfo) (remaps : List Action) : List Action :=
  [.call (.doResize none), .lockResize, .readMeta info, .freeSpace (.ok (2 ^ 40)), .fetchAddBlocker, .loadTx 0] ++
    remaps ++ [.tau, .fetchSubBlocker]

def remapTo (p size : ℕ) : List Action :=
  let os : OsMap := ⟨none, .ok p⟩
  [.remap os (.enter size) (.unmap size), .remap os (.unmap size) (.map size), .remap os (.map size) (.install size),
    .remap os (.install size) (.done mdbSuccess)]

def remapMoved (p size : ℕ) : List Action :=
  let os : OsMap := ⟨none, .ok p⟩
  [.remap os (.enter size) (.unmap size), .remap os (.unmap size) (.map size), .remap os (.map size) (.done ebusy)]

def loggedConfig : EnvConfig := { plainConfig with resizeCallback := true }

/-- A fresh environment with a fixed map that it writes through, and one idle thread. -/
def fixedStart : LoggedConfig (Fin 1) where
  shared :=
    ({ (freshStart (Fin 1)).shared with
        env := { freshEnv (2 ^ 40) 4096 (2 ^ 20) with fixedmap := true, writemap := true } }, [])
  threads := fun _ => (⟨[], .code .thread⟩, 0)

theorem fixedStart_started : Started fixedStart.forget where
  idle := fun _ => rfl
  no_txns := rfl
  no_blockers := rfl
  resize_free := rfl
  dbi_free := rfl
  writer_free := rfl
  opened := by
    obtain ⟨header, metas, fits, m, mapped, backed⟩ : (freshEnv (2 ^ 40) 4096 (2 ^ 20)).Opened :=
      freshEnv_opened (by decide) (by decide)
    exact ⟨header, metas, fits, m, mapped, backed⟩

def firstSize : ℕ := 2 ^ 20 + 2 ^ 28

def firstResize : List Action :=
  resizeActions ⟨4096, 2 ^ 20, 1⟩ (remapTo (2 ^ 40) firstSize) ++ [.callbackReturn, .unlockResize false]

/-- The second resize fails: its new map lands elsewhere, and the meta pointers are left
over zeros behind the two used pages. The third one reads them and succeeds. -/
def resizeMoved : List Action :=
  firstResize ++
    resizeActions ⟨4096, firstSize, 1⟩ (remapMoved (2 ^ 40 - 2 ^ 29) (2 * firstSize)) ++ [.unlockResize false] ++
      resizeActions ⟨4096, 2 * firstSize, 0⟩ (remapTo (2 ^ 40 - 2 ^ 29) (4 * firstSize))

theorem resize_moved_log :
    ∃ d, exec loggedConfig.loggedStep (fun _ _ _ => True) (resizeMoved.map ((0 : Fin 1), ·)) fixedStart = some d ∧
      d.shared.2 =
        [.resized (2 ^ 20) firstSize mdbSuccess] ++ .callback ⟨2 ^ 20, firstSize, 4096⟩ ::
          ([.resized firstSize (2 * firstSize) ebusy, .resized (2 * firstSize) (4 * firstSize) mdbSuccess] ++
            .callback ⟨2 * firstSize, 4 * firstSize, 0⟩ :: []) :=
  ⟨_, rfl, by rfl⟩

/-- Consecutive entries without a `set_map_size` in between always fit together. -/
def ChainedUnlessSet (log : List ResizeEvent) : Prop :=
  ∀ front a between b back, log = front ++ .callback a :: (between ++ .callback b :: back) →
    (∀ e ∈ between, ∃ before after rc, e = .resized before after rc) → a.newSize = b.oldSize

end SamLmdb
