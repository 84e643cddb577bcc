import SamLmdb.Env.Counters

/-!
The headroom that `begin_rw_txn` promises. The check runs under `db_resize_lock`,
and a resize leaves no write transaction alive, but a check that finds enough room
says nothing about a write transaction that is still open and commits before the
new one gets LMDB's writer mutex.
-/

namespace SamLmdb

open Interleaving

/-- No map without `me_map`, and the pages of the last commit fit a map that exists. -/
def MdbEnv.MapFits (env : MdbEnv) : Prop :=
  (env.meMap = none → env.mapping = none) ∧
    (env.mapping = none ∨ env.mePsize * (env.mmLastPg + 1) ≤ env.meMapsize)

theorem MdbEnv.MapFits.fits {env : MdbEnv} (mapFits : env.MapFits) (readable : env.MetasReadable) :
    env.mePsize * (env.mmLastPg + 1) ≤ env.meMapsize := by
  obtain ⟨m, mapped⟩ := readable.mapped
  rcases mapFits.2 with unmapped | fits
  · simp [unmapped] at mapped
  · exact fits

/-- What the loop of `resize_db_if_necessary` knows: either no resize has happened
in it yet, or no write transaction is left and the used pages fit the initial map. -/
def LoopKnows (s : Shared) (headroom : Option ℕ) (requiredSpace initialMapSize : ℕ) : Prop :=
  (∀ given, headroom = some given → requiredSpace = given) ∧
    (s.env.mapping = none ∨ s.env.meMapsize = initialMapSize ∨
      (s.meWmutex = false ∧ s.env.mePsize * s.env.mmLastPg ≤ initialMapSize))

def ResizedTo (s : Shared) (newMapSize : ℕ) : Prop :=
  s.env.mapping = none ∨ (s.meWmutex = false ∧ newMapSize ≤ s.env.meMapsize)

def HeadroomReady (s : Shared) (headroom : Option ℕ) : Prop :=
  ∀ given, headroom = some given → s.env.mapping = none ∨
    (s.meWmutex = false ∧ s.env.mePsize * s.env.shown.mmLastPg + given ≤ s.env.meMapsize)

def MapInfo.Offers (snapshot : MapInfo) (headroom : Option ℕ) : Prop :=
  ∀ given, headroom = some given → snapshot.pageSize * snapshot.lastPgno + given ≤ snapshot.mapSize

def Kont.Sound (s : Shared) : Kont x → Prop
  | .thread => True
  | .resizeCallback info k => ResizedTo s info.newSize ∧ k.Sound s
  | .resizeDbIfNecessary headroom requiredSpace initialMapSize k =>
    LoopKnows s headroom requiredSpace initialMapSize ∧ k.Sound s
  | .rwTransactionNew headroom snapshot k => snapshot.Offers headroom ∧ k.Sound s
  | .rwReturn (some (headroom, snapshot)) k => snapshot.Offers headroom ∧ k.Sound s
  | .beginRoTxn k | .openDb k | .getDbFlags k | .freelist k | .beginRwTxn k | .createDb k | .doResize k
  | .setMapSize k | .doResizeLocked _ k | .roTransactionNew k | .beginNestedTxn _ k | .endUser k | .endDbi k
  | .resizeReturn k | .rwReturn none k => k.Sound s

/-- The size asked for is at least what `do_resize_locked` will report. -/
def Kont.Asks (size : ℕ) : Kont .mapped → Prop
  | .setMapSize _ => True
  | .doResizeLocked info _ => info.newSize ≤ size

def Kont.Granted (s : Shared) : Kont .mapped → Prop
  | .setMapSize _ => True
  | .doResizeLocked info _ => ResizedTo s info.newSize

/-- The used pages fit the initial map of the loop that asked for the resize. -/
def Kont.LoopFits (s : Shared) : Kont .mapped → Prop
  | .doResizeLocked _ (.resizeDbIfNecessary _ _ initialMapSize _) => s.env.mePsize * s.env.mmLastPg ≤ initialMapSize
  | _ => True

structure Replacing (s : Shared) (k : Kont .mapped) (size : ℕ) : Prop where
  asked : k.Asks size
  no_writer : s.meWmutex = false
  fits : s.env.mePsize * (s.env.mmLastPg + 1) ≤ size
  loop : k.LoopFits s

def StageSound (s : Shared) (k : Kont .mapped) : Remap → Prop
  | .enter size => k.Asks size
  | .unmap size => Replacing s k size
  | .map size => Replacing s k size ∧ s.env.meMapsize = size ∧ s.env.mapping = none
  | .install size => Replacing s k size ∧ s.env.meMapsize = size
  | .done rc => rc = mdbSuccess → k.Granted s

def Thread.Sound (s : Shared) (t : Thread) : Prop :=
  match t.point with
  | .needsResize headroom requiredSpace initialMapSize k =>
    LoopKnows s headroom requiredSpace initialMapSize ∧ k.Sound s
  | .rwBegin headroom k => HeadroomReady s headroom ∧ k.Sound s
  | .blockerNew size k | .drain size k => k.Asks size ∧ k.Sound s
  | .remap stage k => StageSound s k stage ∧ k.Sound s
  | .blockerDrop rc k => (rc = mdbSuccess → k.Granted s) ∧ k.Sound s
  | .code k | .dbiUnlock k | .renewing k | .renewFailed k | .renewAborted k | .metaPick k | .metaRead k => k.Sound s
  | .ending _ k | .txnEnded k => k.Sound s
  | .nestedBegin _ k | .setMapSizeLock _ k | .doResizeLock _ k | .dbiLock _ k => k.Sound s
  | .guardAdd k | .guardCheck k | .guardBackOut k | .guardWait k => k.Sound s
  | .roBegin k | .roFailed k => k.Sound s
  | .rwLock _ k | .resizeInfo _ k => k.Sound s
  | .resizeRead _ k | .resizeSpace _ k => k.Sound s
  | .unlock _ k => k.Sound s

/-- What other threads can do to the map of a thread that holds `db_resize_lock`:
end write transactions, and commit those that are open. -/
structure Shared.Quiet (s s' : Shared) : Prop where
  writer : s.meWmutex = false → s'.meWmutex = false
  last : s.meWmutex = false → s'.env.mmLastPg = s.env.mmLastPg
  shown : s.meWmutex = false → s'.env.shown.mmLastPg = s.env.shown.mmLastPg
  mapping : s'.env.mapping = s.env.mapping
  size : s'.env.meMapsize = s.env.meMapsize
  psize : s'.env.mePsize = s.env.mePsize

section Stability

variable {s s' : Shared} {a : Action}

/-- Only the remap and a new write transaction are not quiet. -/
theorem Shared.apply_quiet (applied : s.apply a = some s') (noRemap : ∀ os stage after, a ≠ .remap os stage after)
    (noWriter : ∀ snapshot, a ≠ .mdbTxnBeginRw snapshot) : s.Quiet s' := by
  cases a with
  | remap os stage after => exact absurd rfl (noRemap _ _ _)
  | mdbTxnBeginRw snapshot => exact absurd rfl (noWriter _)
  | mdbTxnEndRw committed =>
      cases committed with
      | none =>
          simp only [Shared.apply] at applied
          split at applied <;> cases applied
          exact ⟨fun _ => rfl, fun _ => rfl, fun _ => rfl, rfl, rfl, rfl⟩
      | some lastPg =>
          simp only [Shared.apply] at applied
          split at applied <;> cases applied
          rename_i open_
          have no_writer (closed : s.meWmutex = false) : False := by simp [closed] at open_
          exact ⟨fun _ => rfl, fun closed => absurd closed no_writer,
            fun closed => absurd closed no_writer, rfl, rfl, rfl⟩
  | call | tau | callbackReturn | callbackPanic | osError | freeSpace | fetchAddTx | backOutTx | dropGuard
  | fetchAddBlocker | fetchSubBlocker =>
      cases applied
      exact ⟨id, fun _ => rfl, fun _ => rfl, rfl, rfl, rfl⟩
  | _ =>
      simp only [Shared.apply] at applied
      split at applied <;> cases applied
      exact ⟨id, fun _ => rfl, fun _ => rfl, rfl, rfl, rfl⟩

variable (calm : s.Quiet s')
include calm

theorem LoopKnows.quiet {headroom : Option ℕ} {requiredSpace initialMapSize : ℕ}
    (knows : LoopKnows s headroom requiredSpace initialMapSize) :
    LoopKnows s' headroom requiredSpace initialMapSize := by
  refine ⟨knows.1, ?_⟩
  rw [calm.mapping, calm.size, calm.psize]
  rcases knows.2 with unmapped | unresized | ⟨closed, fits⟩
  · exact .inl unmapped
  · exact .inr (.inl unresized)
  · exact .inr (.inr ⟨calm.writer closed, by rwa [calm.last closed]⟩)

theorem ResizedTo.quiet {size : ℕ} (resized : ResizedTo s size) : ResizedTo s' size := by
  unfold ResizedTo
  rw [calm.mapping, calm.size]
  exact resized.imp_right fun ⟨closed, fits⟩ => ⟨calm.writer closed, fits⟩

theorem HeadroomReady.quiet {headroom : Option ℕ} (ready : HeadroomReady s headroom) : HeadroomReady s' headroom := by
  intro given asked
  rw [calm.mapping, calm.size, calm.psize]
  exact (ready given asked).imp_right fun ⟨closed, fits⟩ => ⟨calm.writer closed, by rwa [calm.shown closed]⟩

theorem Kont.Sound.quiet {k : Kont x} (sound : k.Sound s) : k.Sound s' := by
  induction k with
  | thread => trivial
  | resizeCallback info k ih => exact ⟨sound.1.quiet calm, ih sound.2⟩
  | resizeDbIfNecessary headroom requiredSpace initialMapSize k ih => exact ⟨sound.1.quiet calm, ih sound.2⟩
  | rwTransactionNew headroom snapshot k ih => exact ⟨sound.1, ih sound.2⟩
  | rwReturn txn k ih =>
      cases txn with
      | none => exact ih sound
      | some => exact ⟨sound.1, ih sound.2⟩
  | _ => exact ‹_ → _› sound

theorem Kont.Granted.quiet {k : Kont .mapped} (granted : k.Granted s) : k.Granted s' := by
  cases k with
  | setMapSize => trivial
  | doResizeLocked info k => exact ResizedTo.quiet calm granted

theorem Replacing.quiet {k : Kont .mapped} {size : ℕ} (replacing : Replacing s k size) : Replacing s' k size := by
  obtain ⟨asked, closed, fits, loop⟩ := replacing
  have last := calm.last closed
  refine ⟨asked, calm.writer closed, by rwa [calm.psize, last], ?_⟩
  cases k with
  | setMapSize => trivial
  | doResizeLocked info k =>
      cases k with
      | doResize => trivial
      | resizeDbIfNecessary headroom requiredSpace initialMapSize k =>
          simp only [Kont.LoopFits] at *
          rwa [calm.psize, last]

theorem StageSound.quiet {k : Kont .mapped} {stage : Remap} (sound : StageSound s k stage) : StageSound s' k stage := by
  cases stage with
  | enter => exact sound
  | unmap size => exact Replacing.quiet calm sound
  | map size => exact ⟨sound.1.quiet calm, calm.size.trans sound.2.1, calm.mapping.trans sound.2.2⟩
  | install size => exact ⟨sound.1.quiet calm, calm.size.trans sound.2⟩
  | done rc => exact fun success => (sound success).quiet calm

theorem Thread.Sound.quiet {t : Thread} (sound : t.Sound s) : t.Sound s' := by
  obtain ⟨txns, point⟩ := t
  cases point with
  | needsResize | rwBegin => exact ⟨sound.1.quiet calm, sound.2.quiet calm⟩
  | blockerNew | drain => exact ⟨sound.1, sound.2.quiet calm⟩
  | remap => exact ⟨sound.1.quiet calm, sound.2.quiet calm⟩
  | blockerDrop => exact ⟨fun success => (sound.1 success).quiet calm, sound.2.quiet calm⟩
  | _ => exact Kont.Sound.quiet calm sound

end Stability

section Holder

variable {s s' : Shared} {t t' : Thread} {a : Action} {cfg : EnvConfig} {txns : List Txn}

theorem Kont.sound_unlocked {k : Kont x} (unlocked : k.held (Meter.unit .dbResizeLock) = 0) (sound : k.Sound s) :
    k.Sound s' := by
  induction k with
  | thread => trivial
  | resizeCallback info k ih => exact absurd unlocked k.lock_resized.ne'
  | resizeDbIfNecessary | rwTransactionNew | setMapSize | doResize | resizeReturn =>
      simp [Kont.held, Meter.unit] at unlocked
  | rwReturn txn k ih => cases txn <;> simp [Kont.held, Meter.unit] at unlocked
  | openDb k ih | createDb k ih | endDbi k ih | beginNestedTxn nested k ih =>
      simp [Kont.held, Meter.unit] at unlocked
      exact ih (by simp_all) sound
  | doResizeLocked info k ih => exact absurd unlocked k.lock_resized.ne'
  | _ => exact ‹_ → _ → _› unlocked sound

/-- A thread without `db_resize_lock` knows nothing about the map. -/
theorem Thread.sound_unlocked (unlocked : Meter.weight .dbResizeLock t = 0) (sound : t.Sound s) : t.Sound s' := by
  obtain ⟨txns, point⟩ := t
  simp only [Meter.weight, Thread.held_mk, Nat.add_eq_zero_iff] at unlocked
  obtain ⟨_, unlocked⟩ := unlocked
  cases point with
  | needsResize | rwBegin | resizeInfo => simp [Point.held, Meter.unit] at unlocked
  | blockerNew size k => exact absurd unlocked k.lock_mapped.ne'
  | drain size k | remap stage k | blockerDrop rc k =>
      have locked := k.lock_mapped
      simp [Point.held] at unlocked
      omega
  | resizeRead _ k | resizeSpace _ k => exact absurd unlocked k.lock_resized.ne'
  | unlock _ k => exact absurd unlocked k.lock_unlocked.ne'
  | guardCheck k | guardBackOut k | roBegin k | roFailed k | renewAborted k | ending h k | txnEnded k
  | renewing k | renewFailed k | nestedBegin nested k | dbiUnlock k =>
      simp only [Point.held, Nat.add_eq_zero_iff] at unlocked
      exact Kont.sound_unlocked (by simp_all) sound
  | _ => exact Kont.sound_unlocked unlocked sound

theorem Thread.next_locked (next : t.next cfg a = some t')
    (moves : (∃ os stage after, a = .remap os stage after) ∨ ∃ snapshot, a = .mdbTxnBeginRw snapshot) :
    0 < Meter.weight .dbResizeLock t := by
  obtain ⟨txns, point⟩ := t
  have not_ours {p : Point} (locked : 0 < p.held (Meter.unit .dbResizeLock)) :
      0 < Meter.weight .dbResizeLock ⟨txns, p⟩ := by
    simp only [Meter.weight, Thread.held_mk]
    omega
  cases point with
  | remap stage k =>
      refine not_ours ?_
      have locked := k.lock_mapped
      simp only [Point.held]
      omega
  | rwBegin headroom k => exact not_ours (by simp [Point.held, Meter.unit])
  | _ =>
      rcases moves with ⟨os, stage, after, rfl⟩ | ⟨snapshot, rfl⟩ <;> simp [Thread.next] at next

theorem Kont.roStarted_sound {k : Kont .roTxn} (sound : k.Sound s) : (k.roStarted txns).Sound s := by
  cases k <;> exact sound

theorem Kont.roRefused_sound {k : Kont .roTxn} (sound : k.Sound s) : Thread.Sound s ⟨txns, k.roRefused⟩ := by
  cases k <;> exact sound

theorem Kont.rwStarted_sound {k : Kont .rwTxn} (sound : k.Sound s) : (k.rwStarted txns).Sound s := by
  cases k <;> exact sound

theorem Kont.rwRefused_sound {k : Kont .rwTxn} (sound : k.Sound s) : Thread.Sound s ⟨txns, k.rwRefused⟩ := by
  cases k <;> exact sound

theorem Kont.guarded_sound {k : Kont .guarded} (sound : k.Sound s) : (k.guarded txns).Sound s := by
  cases k <;> exact sound

theorem Kont.dropped_sound {k : Kont .dropped} (sound : k.Sound s) : Thread.Sound s ⟨txns, k.dropped⟩ := by
  cases k <;> exact sound

theorem Kont.unlocked_sound {k : Kont .unlocked} (sound : k.Sound s) : (k.unlocked txns).Sound s := by
  cases k with
  | resizeReturn k => exact sound
  | rwReturn txn k =>
      cases txn with
      | none => exact Kont.rwRefused_sound (k := k) sound
      | some => exact Kont.rwStarted_sound (k := k) sound.2

theorem Kont.unwind_sound {k : Kont .resized} (sound : k.Sound s) : Thread.Sound s ⟨txns, k.unwind⟩ := by
  cases k with
  | doResize k => exact sound
  | resizeDbIfNecessary => exact sound.2

theorem LoopKnows.ready {headroom : Option ℕ} {requiredSpace initialMapSize newMapSize enough : ℕ}
    (mapFits : s.env.MapFits) (knows : LoopKnows s headroom requiredSpace initialMapSize)
    (resized : ResizedTo s newMapSize) (sum : checkedAdd requiredSpace initialMapSize = some enough)
    (reached : enough ≤ newMapSize) : HeadroomReady s headroom := by
  rintro given asked
  have required := knows.1 given asked
  have total := checkedAdd_eq sum
  have seen : s.env.mePsize * s.env.shown.mmLastPg ≤ s.env.mePsize * s.env.mmLastPg :=
    Nat.mul_le_mul_left _ s.env.shown_mmLastPg_le
  rcases resized with unmapped | ⟨closed, grown⟩
  · exact .inl unmapped
  · rcases knows.2 with unmapped | unresized | ⟨_, used⟩
    · exact .inl unmapped
    · rcases mapFits.2 with unmapped | fits
      · exact .inl unmapped
      · refine .inr ⟨closed, ?_⟩
        rw [Nat.mul_add] at fits
        omega
    · exact .inr ⟨closed, by omega⟩

theorem Kont.resized_sound {k : Kont .resized} (mapFits : s.env.MapFits) (result : Option ℕ) (sound : k.Sound s)
    (resized : ∀ newMapSize, result = some newMapSize → ResizedTo s newMapSize) :
    Thread.Sound s ⟨txns, k.resized result⟩ := by
  cases k with
  | doResize k => exact sound
  | resizeDbIfNecessary headroom requiredSpace initialMapSize k =>
      obtain ⟨knows, sound⟩ := sound
      cases result with
      | none => exact sound
      | some newMapSize =>
          simp only [Kont.resized]
          split
          · exact sound
          · rename_i enough sum
            split
            · rename_i reached
              exact ⟨knows.ready mapFits (resized _ rfl) sum reached, sound⟩
            · exact ⟨knows, sound⟩

theorem Kont.mapped_sound {k : Kont .mapped} {rc : ℤ} (mapFits : s.env.MapFits) (sound : k.Sound s)
    (granted : rc = mdbSuccess → k.Granted s) : Thread.Sound s ⟨txns, k.mapped cfg rc⟩ := by
  cases k with
  | setMapSize k => exact sound
  | doResizeLocked info k =>
      simp only [Kont.mapped]
      split
      · rename_i success
        split
        · exact ⟨granted success, sound⟩
        · refine Kont.resized_sound mapFits _ sound fun newMapSize reports => ?_
          cases reports
          exact granted success
      · exact Kont.resized_sound mapFits _ sound (by simp)

theorem Call.start_sound {k : Kont .code} {c : Call} (sound : k.Sound s) (started : c.start txns k = some t) :
    t.Sound s := by
  cases c with
  | reset i | renew i | beginNestedTxn i | endTxn i =>
    simp only [Call.start] at started
    split at started <;> cases started <;> exact sound
  | _ =>
    cases started
    exact sound

/-- The answer of `needs_resize` by which a call with a headroom goes on to begin. -/
def Thread.PassesCheck (cfg : EnvConfig) (t : Thread) (a : Action) : Bool :=
  match t.point, a with
  | .needsResize (some given) _ _ _, .readMeta info => needsResize cfg.settings info (some given) == some false
  | _, _ => false

/-- What an own step that leaves the map alone makes of what the thread knows. -/
theorem Thread.next_sound (mapFits : s.env.MapFits) (sound : t.Sound s)
    (learned : ∀ info, a = .readMeta info → s.env.shown.info = info)
    (alone : t.PassesCheck cfg a → s.meWmutex = false) (noRemap : ∀ os stage after, a ≠ .remap os stage after)
    (noWriter : ∀ snapshot, a ≠ .mdbTxnBeginRw snapshot) (next : t.next cfg a = some t') :
    t'.Sound s := by
  obtain ⟨txns, point⟩ := t
  cases point with
  | code k =>
    simp only [Thread.next] at next
    split at next
    · exact Call.start_sound sound next
    · cases next
      refine Kont.resized_sound mapFits _ sound.2 fun newMapSize reports => ?_
      cases reports
      exact sound.1
    · cases next
      exact Kont.unwind_sound sound.2
    · cases next
  | guardCheck k =>
    simp only [Thread.next] at next
    split at next <;> cases next
    split
    · exact Kont.guarded_sound sound
    · exact sound
  | guardWait k | drain size k =>
    simp only [Thread.next] at next
    split at next <;> cases next
    split <;> exact sound
  | roBegin k =>
    simp only [Thread.next] at next
    split at next <;> cases next
    · exact Kont.roStarted_sound sound
    · exact sound
    · exact sound
  | roFailed k =>
    simp only [Thread.next] at next
    split at next <;> cases next
    exact Kont.roRefused_sound sound
  | txnEnded k =>
    simp only [Thread.next] at next
    split at next <;> cases next
    exact Kont.dropped_sound sound
  | rwLock headroom k =>
    simp only [Thread.next] at next
    split at next <;> cases next
    · exact sound
    · exact Kont.rwRefused_sound sound
  | resizeInfo headroom k =>
    simp only [Thread.next] at next
    split at next <;> try contradiction
    · rename_i info
      split at next <;> cases next
      · rename_i required
        refine ⟨⟨?_, .inr (.inl (s.env.shown_meMapsize.symm.trans
          (congrArg MapInfo.mapSize (learned info rfl))))⟩, sound⟩
        rintro given rfl
        simpa [givenOrRatio] using required.symm
      · exact sound
    · cases next
      exact sound
  | needsResize headroom requiredSpace initialMapSize k =>
    simp only [Thread.next] at next
    split at next <;> try contradiction
    · rename_i info
      split at next <;> cases next
      · exact sound
      · rename_i verdict
        refine ⟨?_, sound.2⟩
        rintro given rfl
        have room := needsResize_false verdict
        rw [← learned info rfl] at room
        simp only [MdbEnv.info, MdbEnv.shown_mePsize, MdbEnv.shown_meMapsize] at room
        exact .inr ⟨alone (by simp [Thread.PassesCheck, verdict]), room⟩
      · exact sound.2
    · cases next
      exact sound
  | rwBegin headroom k =>
    simp only [Thread.next] at next
    split at next <;> (try split at next) <;> cases next
    · exact sound.2
    · exact absurd rfl (noWriter _)
    · exact sound.2
    · exact sound
  | setMapSizeLock size k | doResizeLock increaseSize k =>
    simp only [Thread.next] at next
    split at next <;> cases next
    · first | exact ⟨trivial, sound⟩ | exact sound
    · exact sound
  | resizeRead increaseSize k =>
    simp only [Thread.next] at next
    split at next <;> try contradiction
    · split at next <;> cases next
      · exact sound
      · exact Kont.unwind_sound sound
    · cases next
      exact sound
  | resizeSpace info k =>
    simp only [Thread.next] at next
    split at next <;> try contradiction
    split at next <;> cases next
    · exact ⟨le_refl info.newSize, sound⟩
    · exact Kont.resized_sound mapFits _ sound (by simp)
  | remap stage k =>
    simp only [Thread.next] at next
    split at next
    · cases next
      exact sound
    · cases next
    · cases next
      exact sound
    · exact absurd rfl (noRemap _ _ _)
    · cases next
  | blockerDrop rc k =>
    simp only [Thread.next] at next
    split at next <;> cases next
    exact Kont.mapped_sound mapFits sound.2 sound.1
  | unlock poison k =>
    simp only [Thread.next] at next
    split at next <;> try contradiction
    split at next <;> cases next
    exact Kont.unlocked_sound sound
  | _ =>
    simp only [Thread.next] at next
    split at next <;> cases next <;> exact sound

end Holder

section Remapping

variable {s s' : Shared} {k : Kont .mapped}

/-- The frames of the one holder of `db_resize_lock` depend on the map only
through the loop that asked for the resize. -/
theorem Kont.mapped_replaced (single : k.held (Meter.unit .dbResizeLock) ≤ 1) (sound : k.Sound s)
    (known : s'.env.mapping = none ∨ (s'.meWmutex = false ∧ k.LoopFits s')) : k.Sound s' := by
  cases k with
  | setMapSize k =>
      simp [Kont.held, Meter.unit] at single
      exact Kont.sound_unlocked (k := k) single sound
  | doResizeLocked info k =>
      cases k with
      | doResize k =>
          simp [Kont.held, Meter.unit] at single
          exact Kont.sound_unlocked (k := k) single sound
      | resizeDbIfNecessary headroom requiredSpace initialMapSize k =>
          simp [Kont.held, Meter.unit] at single
          obtain ⟨knows, sound⟩ := sound
          refine ⟨⟨knows.1, ?_⟩, Kont.sound_unlocked (k := k) single sound⟩
          exact known.imp_right .inr

/-- At the beginning of the remap the loop's initial map still holds the used pages. -/
theorem Kont.loopFits_of_sound (mapFits : s.env.MapFits) (readable : s.env.MetasReadable) (sound : k.Sound s) :
    k.LoopFits s := by
  have fits := mapFits.fits readable
  obtain ⟨m, mapped⟩ := readable.mapped
  cases k with
  | setMapSize => trivial
  | doResizeLocked info k =>
      cases k with
      | doResize => trivial
      | resizeDbIfNecessary headroom requiredSpace initialMapSize k =>
          rw [Nat.mul_add] at fits
          rcases sound.1.2 with unmapped | unresized | ⟨_, used⟩
          · simp [unmapped] at mapped
          · simp only [Kont.LoopFits]
            omega
          · exact used

theorem Kont.Asks.mono {size larger : ℕ} (asks : k.Asks size) (less : size ≤ larger) : k.Asks larger := by
  cases k with
  | setMapSize => trivial
  | doResizeLocked info k => exact le_trans asks less

theorem size_le_roundUpToUsed (env : MdbEnv) (size : ℕ) : size ≤ roundUpToUsed env size := by
  unfold roundUpToUsed
  split <;> omega

theorem remap_sound (os : OsMap) {stage : Remap} (unfinished : ∀ rc, stage ≠ .done rc)
    (single : k.held (Meter.unit .dbResizeLock) ≤ 1) (mapFits : s.env.MapFits) (stageSound : StageSound s k stage)
    (sound : k.Sound s) (readable : stage.ReadsMetas s.meWmutex s.env → s.env.MetasReadable)
    (keeps : ¬(remapStep os s.meWmutex s.env stage).2.Cuts s.env)
    (taken : s' = { s with env := (remapStep os s.meWmutex s.env stage).1 }) :
    s'.env.MapFits ∧ StageSound s' k (remapStep os s.meWmutex s.env stage).2 ∧ k.Sound s' := by
  subst taken
  cases stage with
  | done rc => exact absurd rfl (unfinished rc)
  | enter size =>
      rcases present : s.env.meMap with _ | old
      · have unmapped := mapFits.1 present
        simp only [remapStep, present]
        refine ⟨⟨fun _ => unmapped, .inl unmapped⟩, fun _ => ?_, k.mapped_replaced single sound (.inl unmapped)⟩
        cases k with
        | setMapSize => trivial
        | doResizeLocked => exact .inl unmapped
      · by_cases writing : s.meWmutex = true
        · have refused : remapStep os s.meWmutex s.env (.enter size) = (s.env, .done einval) := by
            simp [remapStep, present, writing]
          rw [refused]
          exact ⟨mapFits, fun success => absurd success (by decide), sound⟩
        · have seen := readable (by simp [Remap.ReadsMetas, present, writing])
          have rounded : remapStep os s.meWmutex s.env (.enter size) =
              (s.env, .unmap (roundUpToUsed s.env.shown size)) := by
            simp [remapStep, present, writing]
          rw [rounded] at keeps ⊢
          refine ⟨mapFits, ⟨?_, eq_false_of_ne_true writing, Nat.le_of_not_lt keeps, ?_⟩, sound⟩
          · exact Kont.Asks.mono stageSound (size_le_roundUpToUsed _ _)
          · exact k.loopFits_of_sound mapFits seen sound
  | unmap size =>
      obtain ⟨asked, closed, fits, loop⟩ := stageSound
      exact ⟨⟨fun _ => rfl, .inl rfl⟩, ⟨⟨asked, closed, fits, loop⟩, rfl, rfl⟩,
        k.mapped_replaced single sound (.inl rfl)⟩
  | map size =>
      obtain ⟨⟨asked, closed, fits, loop⟩, sized, unmapped⟩ := stageSound
      simp only [remapStep]
      split
      · exact ⟨mapFits, fun success => absurd success (errno_ne_success _), sound⟩
      · exact ⟨⟨fun _ => unmapped, .inl unmapped⟩, fun success => absurd success (errno_ne_success _),
          k.mapped_replaced single sound (.inl unmapped)⟩
      · have fits' : s.env.mePsize * (s.env.mmLastPg + 1) ≤ s.env.meMapsize := by rwa [sized]
        split
        · exact ⟨⟨fun absent => by simp at absent, .inr fits'⟩, fun success => absurd success (by decide),
            k.mapped_replaced single sound (.inr ⟨closed, loop⟩)⟩
        · exact ⟨⟨fun absent => by simp at absent, .inr fits'⟩, ⟨⟨asked, closed, fits, loop⟩, sized⟩,
            k.mapped_replaced single sound (.inr ⟨closed, loop⟩)⟩
  | install size =>
      obtain ⟨⟨asked, closed, fits, loop⟩, sized⟩ := stageSound
      simp only [remapStep]
      refine ⟨⟨mapFits.1, .inr fits⟩, fun _ => ?_, k.mapped_replaced single sound (.inr ⟨closed, loop⟩)⟩
      cases k with
      | setMapSize => trivial
      | doResizeLocked => exact .inr ⟨closed, asked⟩

end Remapping

section Runs

theorem Shared.apply_mapFits {s s' : Shared} {a : Action} (applied : s.apply a = some s')
    (noRemap : ∀ os stage after, a ≠ .remap os stage after) (mapFits : s.env.MapFits) : s'.env.MapFits := by
  cases a with
  | remap os stage after => exact absurd rfl (noRemap _ _ _)
  | mdbTxnEndRw committed =>
      cases committed <;> simp only [Shared.apply] at applied <;> split at applied <;> cases applied
      · exact mapFits
      · rename_i committed
        refine ⟨mapFits.1, ?_⟩
        rcases committed.2.2 with same | ⟨_, fits⟩
        · rw [same]
          exact mapFits.2
        · right
          exact le_trans (Nat.mul_le_mul_left _ (Nat.le_succ _)) fits
  | call | tau | callbackReturn | callbackPanic | osError | freeSpace | fetchAddTx | backOutTx | dropGuard
  | fetchAddBlocker | fetchSubBlocker =>
      cases applied
      exact mapFits
  | _ =>
      simp only [Shared.apply] at applied
      split at applied <;> cases applied
      exact mapFits

/-- The remap of the one holder of `db_resize_lock`. -/
theorem Thread.remap_step {cfg : EnvConfig} {s s' : Shared} {t t' : Thread} {os : OsMap} {stage after : Remap}
    (single : Meter.weight .dbResizeLock t ≤ 1) (mapFits : s.env.MapFits) (sound : t.Sound s)
    (applied : s.apply (.remap os stage after) = some s') (next : t.next cfg (.remap os stage after) = some t') :
    s'.env.MapFits ∧ t'.Sound s' := by
  obtain ⟨txns, point⟩ := t
  simp only [Shared.apply] at applied
  split at applied <;> cases applied
  rename_i allowed
  cases point with
  | remap at_ k =>
      simp only [Meter.weight, Thread.held_mk, Point.held] at single
      simp only [Thread.next] at next
      split at next
      · rename_i other
        cases other
      · cases next
      · rename_i other
        cases other
      · rename_i same unfinished
        cases same
        split at next <;> cases next
        rename_i same
        subst same
        have keeps := allowed.2.2
        rw [← allowed.2.1] at keeps
        have kept := remap_sound os (fun rc done => unfinished rc done) (by omega) mapFits sound.1 sound.2
          allowed.1 keeps rfl
        rw [allowed.2.1] at kept
        exact ⟨kept.1, kept.2⟩
      · cases next
  | _ => simp [Thread.next] at next

/-- A write transaction begins with the headroom that was made ready. -/
theorem Thread.begin_step {cfg : EnvConfig} {s s' : Shared} {t t' : Thread} {snapshot : MapInfo}
    (single : Meter.weight .dbResizeLock t ≤ 1) (sound : t.Sound s)
    (applied : s.apply (.mdbTxnBeginRw snapshot) = some s') (next : t.next cfg (.mdbTxnBeginRw snapshot) = some t') :
    t'.Sound s' := by
  obtain ⟨txns, point⟩ := t
  simp only [Shared.apply] at applied
  split at applied <;> cases applied
  rename_i begun
  obtain ⟨_, readable, rfl⟩ := begun
  obtain ⟨m, mapped⟩ := readable.mapped
  cases point with
  | rwBegin headroom k =>
      simp only [Meter.weight, Thread.held_mk, Point.held, Meter.unit] at single
      simp only [Thread.next] at next
      split at next <;> cases next
      refine ⟨?_, Kont.sound_unlocked (k := k) (by omega) sound.2⟩
      rintro given asked
      rcases sound.1 given asked with unmapped | ⟨_, fits⟩
      · simp [unmapped] at mapped
      · simpa [MdbEnv.info] using fits
  | remap stage k => cases stage <;> simp [Thread.next] at next
  | _ => simp [Thread.next] at next

variable {ι : Type*} {cfg : EnvConfig} {c d : Config ι Shared Thread}

abbrev checkedAlone (cfg : EnvConfig) : Guard ι Shared Thread Action := fun c i a =>
  (c.threads i).PassesCheck cfg a = true → c.shared.meWmutex = false

theorem sound_threads [Fintype ι] [DecidableEq ι] (run : Run cfg.steps (checkedAlone cfg) c d) (started : Started c) :
    d.shared.env.MapFits ∧ ∀ i, (d.threads i).Sound d.shared := by
  induction run with
  | refl =>
      obtain ⟨_, _, fits, m, mapped, present, _⟩ := started.opened
      refine ⟨⟨fun absent => by simp [absent] at present, .inr fits⟩, fun i => ?_⟩
      rw [started.idle i]
      trivial
  | @tail d e i a before step guarded ih =>
      obtain ⟨mapFits, sound⟩ := ih
      obtain ⟨_, applied, next⟩ := Thread.step_eq.1 step.moves
      have single : Meter.weight .dbResizeLock (d.threads i) ≤ 1 := by
        have mine := lock_total before started ▸ le_total (Meter.weight .dbResizeLock) d i
        exact le_trans mine (Bool.toNat_le _)
      -- the map of a thread that holds the lock changes only by its own hand
      have others (locked : 0 < Meter.weight .dbResizeLock (d.threads i)) (j : ι) (differ : j ≠ i) :
          (e.threads j).Sound e.shared := by
        rw [step.others j differ]
        refine Thread.sound_unlocked ?_ (sound j)
        by_contra held
        exact differ (lock_unique before started (Nat.pos_of_ne_zero held) locked)
      have everyone (own : (e.threads i).Sound e.shared) (rest : ∀ j, j ≠ i →
        (e.threads j).Sound e.shared) (j : ι) :
          (e.threads j).Sound e.shared := by
        rcases eq_or_ne j i with rfl | differ
        · exact own
        · exact rest j differ
      by_cases remaps : ∃ os stage after, a = .remap os stage after
      · have locked := Thread.next_locked next (.inl remaps)
        obtain ⟨os, stage, after, rfl⟩ := remaps
        obtain ⟨fits, own⟩ := Thread.remap_step single mapFits (sound i) applied next
        exact ⟨fits, everyone own (others locked)⟩
      · have noRemap : ∀ os stage after, a ≠ .remap os stage after := by simpa using remaps
        refine ⟨Shared.apply_mapFits applied noRemap mapFits, ?_⟩
        by_cases begins : ∃ snapshot, a = .mdbTxnBeginRw snapshot
        · have locked := Thread.next_locked next (.inr begins)
          obtain ⟨snapshot, rfl⟩ := begins
          exact everyone (Thread.begin_step single (sound i) applied next) (others locked)
        · have noWriter : ∀ snapshot, a ≠ .mdbTxnBeginRw snapshot := by simpa using begins
          have calm := Shared.apply_quiet applied noRemap noWriter
          have learned (info : MapInfo) (reads : a = .readMeta info) : d.shared.env.shown.info = info := by
            subst reads
            simp only [Shared.apply] at applied
            split at applied
            · rename_i seen
              exact seen.2
            · cases applied
          refine everyone ?_ fun j differ => ?_
          · exact (Thread.next_sound mapFits (sound i) learned guarded noRemap noWriter next).quiet calm
          · rw [step.others j differ]
            exact (sound j).quiet calm

/-- The next action of the thread returns `Ok` from `begin_rw_txn(Some(given))`,
with a transaction that started from `snapshot`. -/
def Thread.ReturnsRwTxn (t : Thread) (given : ℕ) (snapshot : MapInfo) : Prop :=
  ∃ k, t.point = .unlock false (.rwReturn (some (some given, snapshot)) (.beginRwTxn k))

/-- Every write transaction about to be returned has the headroom it was asked for. -/
def HeadroomGranted (d : Config ι Shared Thread) : Prop :=
  ∀ i given snapshot, (d.threads i).ReturnsRwTxn given snapshot →
    snapshot.pageSize * snapshot.lastPgno + given ≤ snapshot.mapSize

/-- In a run where no headroom check passes beside an open write transaction,
`begin_rw_txn` keeps its promise. -/
theorem headroom_granted [Fintype ι] [DecidableEq ι] (run : Run cfg.steps (checkedAlone cfg) c d)
    (started : Started c) :
    HeadroomGranted d := by
  rintro i given snapshot ⟨k, returns⟩
  have sound := (sound_threads run started).2 i
  simp only [Thread.Sound, returns] at sound
  exact sound.1 given rfl

end Runs

def beginAlone : List (Fin 2 × Action) :=
  let info : MapInfo := ⟨4096, 2 ^ 20, 1⟩
  [.call (.beginRwTxn (some 1044480)), .lockResize, .readMeta info, .readMeta info, .mdbTxnBeginRw info, .fetchAddTx,
    .checkBlocker 0].map (0, ·)

theorem headroom_granted_alone :
    ∃ d, plainConfig.exec (checkedAlone plainConfig) beginAlone (freshStart (Fin 2)) = some d ∧
      (d.threads 0).ReturnsRwTxn 1044480 ⟨4096, 2 ^ 20, 1⟩ ∧ HeadroomGranted d := by
  refine ⟨_, rfl, ⟨_, rfl⟩, ?_⟩
  have run := EnvConfig.exec_run
    (rfl : plainConfig.exec (checkedAlone plainConfig) beginAlone (freshStart (Fin 2)) = some _)
  exact headroom_granted run (freshStart_started _)

/-- The same call, checked while another thread has a write transaction open that
then commits all the new pages that it can get. -/
def commitAfterCheck : List (Fin 2 × Action) :=
  let info : MapInfo := ⟨4096, 2 ^ 20, 1⟩
  [(1, .call (.beginRwTxn none)), (1, .lockResize), (1, .readMeta info), (1, .readMeta info), (1, .mdbTxnBeginRw info),
    (1, .fetchAddTx), (1, .checkBlocker 0), (1, .unlockResize false),
    (0, .call (.beginRwTxn (some 1044480))), (0, .lockResize), (0, .readMeta info), (0, .readMeta info),
    (1, .call (.endTxn 0)), (1, .mdbTxnEndRw (some 254)), (1, .dropGuard),
    (0, .mdbTxnBeginRw ⟨4096, 2 ^ 20, 254⟩), (0, .fetchAddTx), (0, .checkBlocker 0)]

theorem commit_after_check_reached :
    ∃ d, plainConfig.exec unguarded commitAfterCheck (freshStart (Fin 2)) = some d ∧
      (d.threads 0).ReturnsRwTxn 1044480 ⟨4096, 2 ^ 20, 254⟩ :=
  ⟨_, rfl, ⟨_, rfl⟩⟩

/-- The returned transaction cannot add a page. -/
theorem commit_after_check_takes_headroom :
    ¬∀ (cfg : EnvConfig) (c d : Config (Fin 2) Shared Thread), Run cfg.steps unguarded c d → Started c →
      HeadroomGranted d := by
  intro claimed
  obtain ⟨d, executed, returns⟩ := commit_after_check_reached
  have granted := claimed _ _ _ (EnvConfig.exec_run executed) (freshStart_started _) 0 _ _ returns
  exact absurd granted (by decide)

end SamLmdb
