import SamLmdb.Pages.Isolation

/-!
Every step of every transaction keeps what `SharedInv` and `VersionInv` say, and so do runs.
-/

namespace SamLmdb

open Interleaving

variable {ι β : Type}

/-- What an actor's step keeps: its own version, the shared invariant and the versions of all
who watch. -/
structure Keeps (s : TxnInfo ι β) (a : Actor ι β) (s' : TxnInfo ι β) (a' : Actor ι β) : Prop where
  shared : SharedInv s'
  own : VersionInv s' a'
  watch : ∀ u : Actor ι β, u.id ≠ a.id → u.pid ≠ 0 → TableInv s u → VersionInv s u → VersionInv s' u

section Steps

variable {s s' : TxnInfo ι β} {a a' : Actor ι β} {limits : Limits} {point : TxnPoint β}

theorem Keeps.stays (inv : SharedInv s) (own : VersionInv s a') : Keeps s a s a' :=
  ⟨inv, own, fun _ _ _ _ before => before⟩

theorem Keeps.table {readers : ℕ → MdbReader ι} {numreaders : ℕ} {rmutex : Option ι} (inv : SharedInv s)
    (own : VersionInv { s with mtiReaders := readers, mtiNumreaders := numreaders, rmutex := rmutex } a') :
    Keeps s a { s with mtiReaders := readers, mtiNumreaders := numreaders, rmutex := rmutex } a' where
  shared := inv.table readers numreaders rmutex
  own := own
  watch := fun _ _ _ _ before => before.table

theorem Keeps.setReader (inv : SharedInv s) {i : ℕ} {r : MdbReader ι} (own : VersionInv (s.setReader i r) a') :
    Keeps s a (s.setReader i r) a' := .table inv own

/-- A transaction that has seen its own ID published cannot be passed over by a look at the readers. -/
theorem SharedInv.guarded (inv : SharedInv s) (i : ℕ) : Guarded s i s.mtiTxnid where
  oldest := inv.oldest
  pages := fun w txn => (inv.writer w txn).oldest
  search := fun w search txn sought => .inl ((inv.writer w txn).search search sought).1

theorem TxnInfo.mtiTxnid_le (s : TxnInfo ι β) : s.mtiTxnid ≤ s.newest := by
  rw [TxnInfo.newest]
  split
  · omega
  · cases s.txn with
    | none => exact Nat.le_refl _
    | some w =>
      simp only
      split <;> omega

/-- A published version has not been overwritten by one that is older. -/
theorem SharedInv.le_metas (inv : SharedInv s) {txnid : ℕ}
    (le : txnid ≤ s.mtiTxnid) : txnid ≤ (s.metas (toggle txnid)).txnid := by
  have published := s.mtiTxnid_le
  by_cases same : toggle txnid = toggle s.newest
  · rw [same, inv.entered.top]
    omega
  · rw [Bool.eq_not_of_ne same, inv.other]
    -- the parities differ
    have : txnid ≠ s.newest := fun equal => same (by rw [equal])
    omega

theorem newest_ended {w : Writer β} (txn : s.txn = some w) (ends : w.phase.ends) :
    TxnInfo.newest { s with wmutex := none, txn := none } = s.newest := by
  have phase : w.phase ≠ .written := by
    intro phase
    simp [phase, Phase.ends] at ends
  simp [TxnInfo.newest, txn, phase]

/-- `mdb_txn_renew0` of a write transaction. -/
theorem Keeps.beginWrite (inv : SharedInv s) (fine : s.metaLeft = none) (free : s.wmutex = none) {pages : TxnPages}
    (renewed : pages = txnRenew0 s.mtiTxnid (s.metas (toggle s.mtiTxnid)).toMdbMeta (s.pgoldest a.pid)) :
    Keeps s a { s with wmutex := some a.id, txn := some ⟨pages, s.map, .active, none, 0⟩ } (a.goes .writing) := by
  have base := inv.toTxnInv.beginWrite a.id renewed
  have txn : s.txn = none := by
    by_contra some_txn
    exact inv.locked some_txn free
  have newest : s.newest = s.mtiTxnid := by simp [TxnInfo.newest, txn, fine]
  generalize begun : ({ s with wmutex := some a.id, txn := some ⟨pages, s.map, .active, none, 0⟩ } : TxnInfo ι β) =
    s' at base ⊢
  have txn' : s'.txn = some ⟨pages, s.map, .active, none, 0⟩ := by rw [← begun]
  have newest' : s'.newest = s.newest := by
    rw [newest, ← begun]
    simp [TxnInfo.newest, fine]
  have next' (g : ℕ) : s'.next g = s.next g := by
    rw [TxnInfo.next, newest', ← begun]
    rfl
  have safe (m : Version β) (before : Safe s m) : Safe s' m := by
    have base := before.base (by simp [fine])
    refine ⟨fun _ => newest' ▸ before.le (by simp [fine]), ?_, fun _ => next' 0 ▸ base, fun w same => ?_⟩
    · rw [← begun]
      exact before.intact
    · cases txn'.symm.trans same
      rw [TxnInfo.next, newest] at base
      exact renewed ▸ ⟨base.last, base.pages⟩
  refine ⟨?_, ?_, fun u differ alive table before => ?_⟩
  · constructor
    case toTxnInv => exact base
    case left => simp [← begun, fine]
    case other => rw [newest', ← begun, inv.other]
    case safe =>
      intro b _
      have := safe _ (inv.safe b (.inr (by simp [fine])))
      rwa [← begun] at this ⊢
    case inMap =>
      intro w same _ p _ _
      cases txn'.symm.trans same
      rw [← begun]
    case metab =>
      intro w same written
      cases txn'.symm.trans same
      cases written
    case fatal =>
      rw [← begun]
      exact fun fatal => absurd fine fatal
  · rw [← begun]
    exact ⟨rfl, by simp⟩
  · have guarded (i txnid : ℕ) (guard : Guarded s i txnid) : Guarded s' i txnid := by
      refine ⟨?_, fun w same => ?_, fun w search same sought => ?_⟩
      · rw [← begun]
        exact guard.oldest
      · cases txn'.symm.trans same
        rw [renewed]
        exact guard.oldest a.pid
      · cases txn'.symm.trans same
        cases sought
    refine before.watch table alive (by rw [← begun]) (fun i txnid _ _ _ => guarded i txnid)
      (fun i txnid m _ _ => safe m) fun writing => ?_
    rw [VersionInv, writing] at before
    exact absurd txn before.2

/-- `mdb_txn_end` of the write transaction. -/
theorem Keeps.endWrite (inv : SharedInv s) (locked : s.wmutex = some a.id) {w : Writer β} (txn : s.txn = some w)
    (ends : w.phase.ends) : Keeps s a { s with wmutex := none, txn := none } (a.goes .outside) := by
  have newest' : TxnInfo.newest { s with wmutex := none, txn := none } = s.newest := newest_ended txn ends
  have next' (g : ℕ) : TxnInfo.next { s with wmutex := none, txn := none } g = s.next g := by
    rw [TxnInfo.next, newest']
    rfl
  have safe (m : Version β) (before : Safe s m) : Safe { s with wmutex := none, txn := none } m :=
    ⟨fun ok => newest' ▸ before.le ok, before.intact, fun ok => next' 0 ▸ before.base ok, by simp⟩
  refine ⟨?_, trivial, fun u differ alive table before => ?_⟩
  · constructor
    case toTxnInv => exact inv.toTxnInv.endWrite
    case left => exact fun left => (inv.left left).congr rfl
    case other => exact newest' ▸ inv.other
    case safe => exact fun b which => safe _ (inv.safe b (newest' ▸ which))
    case inMap | metab | fatal => simp
  · refine before.watch table alive (Nat.le_refl _)
      (fun i txnid _ _ _ guard => ⟨guard.oldest, by simp, by simp⟩) (fun i txnid m _ _ => safe m) fun writing => ?_
    rw [VersionInv, writing] at before
    exact absurd (Option.some.inj (before.1.symm.trans locked)) differ

theorem Keeps.writerStep (inv : SharedInv s) (writing : a.point = .writing) (mine : VersionInv s a)
    {action : TxnAction β} {w : Writer β} (txn : s.txn = some w)
    (moved : s.writerStep limits a.pid w action = some s') : Keeps s a s' a := by
  obtain ⟨shared, still⟩ := inv.writerStep txn moved
  rw [VersionInv, writing] at mine
  refine ⟨shared, ?_, fun u differ alive table before => ?_⟩
  · rw [VersionInv, writing]
    exact ⟨still.wmutex.trans mine.1, still.txn⟩
  · refine before.watch table alive still.mtiTxnid still.guarded still.safe fun writing' => ?_
    rw [VersionInv, writing'] at before
    exact absurd (Option.some.inj (before.1.symm.trans mine.1)) differ

/-- `mr_txnid` and `mti_txnid` agree once the first has been stored. -/
theorem Keeps.compare (inv : SharedInv s) (table : TableInv s a) {i txnid : ℕ} (point : a.point = .stored i txnid)
    (same : (s.mtiReaders i).txnid = some s.mtiTxnid) : Keeps s a s (a.goes (.settled i txnid)) := by
  rw [TableInv, point] at table
  cases table.2.symm.trans same
  exact .stays inv ⟨Nat.le_refl _, inv.guarded i⟩

/-- The meta page may have a newer version than the one in the slot, but not an older one. -/
theorem Keeps.copyMeta (inv : SharedInv s) (mine : VersionInv s a) (fine : s.metaLeft = none) {i txnid : ℕ}
    (point : a.point = .settled i txnid) : Keeps s a s (a.goes (.reading i txnid (s.metas (toggle txnid)))) := by
  rw [VersionInv, point] at mine
  obtain ⟨published, guarded⟩ := mine
  exact .stays inv ⟨inv.le_metas published, guarded, inv.safe _ (.inr (by simp [fine]))⟩

/-- One case for each step of a transaction that sees a version or takes the writers' lock. -/
theorem Actor.step_keeps (inv : SharedInv s) (table : TableInv s a) (mine : VersionInv s a) {action : TxnAction β}
    (heeds : action.begins → s.metaLeft.isSome → s.fatalError a.pid)
    (moved : a.step limits s action = some (s', a')) : Keeps s a s' a' := by
  have fine (begins : action.begins) (fatal : ¬s.fatalError a.pid) : s.metaLeft = none :=
    Option.not_isSome_iff_eq_none.1 fun left => fatal (heeds begins left)
  revert moved
  fun_cases Actor.step limits s a action <;> intro moved
  all_goals first
    | cases moved; done
    | skip
  case case17 i txnid here same =>
    cases moved
    exact .compare inv table here same
  case case20 i txnid here fatal =>
    cases moved
    exact .copyMeta inv mine (fine rfl fatal) here
  case case21 | case25 =>
    cases moved
    exact .stays inv mine
  case case22 i txnid m endSlot here =>
    cases moved
    refine .setReader inv ?_
    cases endSlot <;> trivial
  case case26 here fatal free pages =>
    cases moved
    exact .beginWrite inv (fine rfl fatal) free rfl
  case case28 here w txn ends =>
    cases moved
    rw [VersionInv, here] at mine
    exact .endWrite inv mine.1 txn ends.1
  case case31 here _ =>
    obtain ⟨w, txn, moved, rfl⟩ := writing_step moved
    exact .writerStep inv here mine txn moved
  case case3 | case4 | case5 | case13 | case14 | case15 | case18 =>
    cases moved
    exact .stays inv trivial
  case case1 | case9 | case11 | case12 =>
    cases moved
    exact .table inv trivial
  all_goals
    cases moved
    exact .setReader inv trivial

end Steps

/-- The invariants, with those of the reader table and of the write transaction. -/
structure Consistent (c : Config ι (TxnInfo ι β) (Actor ι β)) : Prop where
  shared : SharedInv c.shared
  seated : ∀ j, Seated c j
  versions : ∀ j, VersionInv c.shared (c.threads j)

section Runs

variable {c d : Config ι (TxnInfo ι β) (Actor ι β)} {limits : Limits} {s : TxnInfo ι β}

theorem SharedInv.init {map : ℕ → β} (base : TxnInv (TxnInfo.init map : TxnInfo ι β)) :
    SharedInv (TxnInfo.init map : TxnInfo ι β) where
  toTxnInv := base
  left := by simp [TxnInfo.init]
  other := rfl
  safe := fun _ _ => ⟨fun _ => Nat.le_refl _, fun _ _ => rfl, fun _ => ⟨Nat.le_refl _, by simp [TxnInfo.init]⟩,
    by simp [TxnInfo.init]⟩
  inMap := by simp [TxnInfo.init]
  metab := by simp [TxnInfo.init]
  fatal := by simp [TxnInfo.init]

theorem Created.consistent (created : Created c) : Consistent c where
  shared := by
    have base := created.txnInv
    obtain ⟨map, same⟩ := created.shared
    rw [same] at base ⊢
    exact .init base
  seated := created.seated
  versions := by
    intro j
    rw [VersionInv, (created.actors j).2.2]
    trivial

theorem Consistent.step {j : ι} {action : TxnAction β} (before : Consistent c)
    (heeds : heedsFatalError c j action) (step : Step (txnSteps limits) c j action d) : Consistent d := by
  obtain ⟨id, alive, table⟩ := before.seated j
  have keeps := Actor.step_keeps before.shared table (before.versions j) heeds step.moves
  refine ⟨keeps.shared, Seated.step before.seated step, fun k => ?_⟩
  by_cases same : k = j
  · subst same
    exact keeps.own
  · obtain ⟨id', alive', others⟩ := before.seated k
    rw [step.others k same]
    exact keeps.watch _ (by rwa [id', id]) alive' others (before.versions k)

theorem Consistent.run (run : Run (txnSteps limits) heedsFatalError c d) (before : Consistent c) : Consistent d :=
  run.invariant before fun heeds before step => before.step heeds step

/-- `mdb_env_pick_meta` finds the newest version. -/
theorem SharedInv.pickMeta (inv : SharedInv s) : s.pickMeta = s.metas (toggle s.newest) := by
  have top := inv.entered.top
  have other := inv.other
  rw [TxnInfo.pickMeta]
  congr 1
  cases same : toggle s.newest with
  | true =>
    rw [same] at top other
    have odd : s.newest % 2 = 1 := of_decide_eq_true same
    simp only [Bool.not_true] at other
    simp only [decide_eq_true_eq]
    omega
  | false =>
    rw [same] at top other
    simp only [Bool.not_false] at other
    simp only [decide_eq_false_iff_not]
    omega

section Example

def snapshotLimits : Limits := ⟨126, 1000, 400, false⟩

def snapshotStart : Config (Fin 3) (TxnInfo (Fin 3) ℕ) (Actor (Fin 3) ℕ) :=
  ⟨.init fun _ => 0, fun j => ⟨j, j.val + 1, .outside⟩⟩

def commitPage : List (TxnAction ℕ) :=
  [.beginWrite, .pageOp (.new 1), .search, .write 2 7, .save, .save, .flush ⟨2, 1⟩, .writeMeta, .publish, .endWrite]

def beginRead (slots : ℕ) : List (TxnAction ℕ) := List.flatten
  [[.lockReaders], List.replicate slots .seek, [.seek, .claim, .claim, .claim, .claim, .claim, .unlockReaders],
    [.load, .store, .compare, .copyMeta]]

def searchTwo : List (TxnAction ℕ) := List.replicate 5 .search

/-- A page for page 2, and one for the record of what has been freed. -/
def replacePage : List (TxnAction ℕ) := List.flatten
  [[.beginWrite, .pageOp (.touch ⟨2, 1⟩)], searchTwo, [.write 3 9, .save, .save, .pageOp (.new 1)], searchTwo,
    [.save, .save, .save, .flush ⟨3, 1⟩, .flush ⟨4, 1⟩]]

/-- One transaction commits page 2, two others read it, and a fourth replaces it and has yet to
write its meta page. -/
def updateWhileReading : List (Fin 3 × TxnAction ℕ) :=
  commitPage.map (0, ·) ++ (beginRead 0).map (1, ·) ++ (beginRead 1).map (2, ·) ++ replacePage.map (0, ·)

theorem snapshotStart_created : Created snapshotStart where
  shared := ⟨_, rfl⟩
  actors := fun _ => ⟨rfl, Nat.succ_ne_zero _, rfl⟩

def TxnPoint.reads {β : Type} (p : ℕ) : TxnPoint β → Option (ℕ × β)
  | .reading _ _ m => if p ∈ pagesOf m.tree then some (m.txnid, m.content p) else none
  | _ => none

theorem TxnPoint.reading_of_reads {β : Type} {p : ℕ} {point : TxnPoint β} {txnid : ℕ} {x : β}
    (reads : point.reads p = some (txnid, x)) :
    ∃ i v m, point = .reading i v m ∧ p ∈ pagesOf m.tree ∧ m.txnid = txnid ∧ m.content p = x := by
  cases point with
  | reading i v m =>
    rw [TxnPoint.reads] at reads
    split at reads
    · cases reads
      exact ⟨i, v, m, rfl, ‹_›, rfl, rfl⟩
    · cases reads
  | _ => cases reads

/-- The second commit, before its meta page is written and when it is published. -/
structure Updates (d e : Config (Fin 3) (TxnInfo (Fin 3) ℕ) (Actor (Fin 3) ℕ)) : Prop where
  run : Run (txnSteps snapshotLimits) heedsFatalError snapshotStart d
  later : Run (txnSteps snapshotLimits) heedsFatalError d e
  writer : ∃ w, d.shared.txn = some w ∧ w.phase = .saved [] ∧ w.pages.dirtyList = [⟨4, 1⟩, ⟨3, 1⟩] ∧
    w.pages.txnid = 2
  before : ∃ i v m, (d.threads 1).point = .reading i v m ∧ 2 ∈ pagesOf m.tree ∧ m.txnid = 1 ∧ m.content 2 = 7
  reader : ∃ i v m, (e.threads 1).point = .reading i v m ∧ 2 ∈ pagesOf m.tree ∧ m.txnid = 1 ∧ m.content 2 = 7
  slots : (e.threads 1).point.slot = some 0 ∧ (e.threads 2).point.slot = some 1
  rewritten : e.shared.map 3 = 9
  published : d.shared.mtiTxnid = 1 ∧ e.shared.mtiTxnid = 2
  second : e.shared.pickMeta.toMdbMeta = ⟨2, 4, [⟨2, 1, [2]⟩], [⟨4, 1⟩, ⟨3, 1⟩]⟩
  fine : e.shared.metaLeft = none

set_option synthInstance.maxSize 512 in
theorem updateWhileReading_updates : ∃ d e, Updates d e := by
  have unpublished : ((exec (Actor.step snapshotLimits) heedsFatalError updateWhileReading snapshotStart).map
    fun d =>
      (d.shared.txn.map fun w => (w.phase, w.pages.dirtyList, w.pages.txnid), (d.threads 1).point.reads 2,
        d.shared.mtiTxnid)) =
      some (some (.saved [], [⟨4, 1⟩, ⟨3, 1⟩], 2), some (1, 7), 1) := by decide +kernel
  have published : ((exec (Actor.step snapshotLimits) heedsFatalError updateWhileReading snapshotStart).bind
    fun d =>
      (exec (Actor.step snapshotLimits) heedsFatalError [(0, .writeMeta), (0, .publish)] d).map fun e =>
        ((e.threads 1).point.reads 2, (e.threads 1).point.slot, (e.threads 2).point.slot, e.shared.map 3,
          e.shared.mtiTxnid, e.shared.pickMeta.toMdbMeta, e.shared.metaLeft)) =
      some (some (1, 7), some 0, some 1, 9, 2, ⟨2, 4, [⟨2, 1, [2]⟩], [⟨4, 1⟩, ⟨3, 1⟩]⟩, none) := by decide +kernel
  obtain ⟨d, executed, unpublished⟩ := Option.map_eq_some_iff.1 unpublished
  rw [executed, Option.bind_some] at published
  obtain ⟨e, executed', published⟩ := Option.map_eq_some_iff.1 published
  simp only [Prod.mk.injEq] at unpublished published
  obtain ⟨writer, before, first⟩ := unpublished
  obtain ⟨reader, slot, slot', rewritten, last, second, fine⟩ := published
  obtain ⟨w, txn, writer⟩ := Option.map_eq_some_iff.1 writer
  simp only [Prod.mk.injEq] at writer
  exact ⟨d, e, exec_run executed, exec_run executed', ⟨w, txn, writer⟩, TxnPoint.reading_of_reads before,
    TxnPoint.reading_of_reads reader, ⟨slot, slot'⟩, rewritten, ⟨first, last⟩, second, fine⟩

theorem Updates.runs {d e : Config (Fin 3) (TxnInfo (Fin 3) ℕ) (Actor (Fin 3) ℕ)} (updates : Updates d e) :
    Run (txnSteps snapshotLimits) heedsFatalError snapshotStart e := updates.run.trans updates.later

end Example

/-- Pages that a reader reads are as they were when the version was committed. -/
theorem reading_intact (created : Created c) (run : Run (txnSteps limits) heedsFatalError c d) {j : ι}
    {i txnid : ℕ} {m : Version β} (reading : (d.threads j).point = .reading i txnid m) :
    ∀ p ∈ pagesOf m.tree, d.shared.map p = m.content p := by
  have mine := (created.consistent.run run).versions j
  rw [VersionInv, reading] at mine
  exact mine.2.2.intact

theorem reading_intact_updated : ∃ d : Config (Fin 3) (TxnInfo (Fin 3) ℕ)
    (Actor (Fin 3) ℕ), ∃ i v, ∃ m : Version ℕ,
    (d.threads 1).point = .reading i v m ∧ m.content 2 = 7 ∧ d.shared.pickMeta.txnid = 2 ∧ d.shared.map 3 = 9 ∧
      d.shared.map 2 = m.content 2 := by
  obtain ⟨d, e, updates⟩ := updateWhileReading_updates
  obtain ⟨i, v, m, reading, member, _, content⟩ := updates.reader
  exact ⟨e, i, v, m, reading, content, congrArg MdbMeta.txnid updates.second, updates.rewritten,
    reading_intact snapshotStart_created updates.runs reading 2 member⟩

/-- At any moment the meta page that would be picked has all of its pages, as the transaction wrote
them, and nothing published is missing. -/
theorem pickMeta_intact (created : Created c) (run : Run (txnSteps limits) heedsFatalError c d) :
    (∀ p ∈ pagesOf d.shared.pickMeta.tree, d.shared.map p = d.shared.pickMeta.content p) ∧
      d.shared.mtiTxnid ≤ d.shared.pickMeta.txnid := by
  have inv := (created.consistent.run run).shared
  rw [inv.pickMeta]
  refine ⟨(inv.safe _ (.inl rfl)).intact, ?_⟩
  rw [inv.entered.top]
  exact d.shared.mtiTxnid_le

theorem pickMeta_intact_updated : ∃ d : Config (Fin 3) (TxnInfo (Fin 3) ℕ) (Actor (Fin 3) ℕ),
    (∃ w, d.shared.txn = some w ∧ w.phase = .saved [] ∧ w.pages.dirtyList = [⟨4, 1⟩, ⟨3, 1⟩]) ∧
      (∀ p ∈ pagesOf d.shared.pickMeta.tree, d.shared.map p = d.shared.pickMeta.content p) ∧
        d.shared.mtiTxnid ≤ d.shared.pickMeta.txnid := by
  obtain ⟨d, e, updates⟩ := updateWhileReading_updates
  obtain ⟨w, txn, phase, dirty, _⟩ := updates.writer
  exact ⟨d, ⟨w, txn, phase, dirty⟩, pickMeta_intact snapshotStart_created updates.run⟩

/-- No page is lost, and none is in two places. -/
theorem pickMeta_pages (created : Created c) (run : Run (txnSteps limits) heedsFatalError c d) (p : ℕ) :
    (pagesOf d.shared.pickMeta.tree).count p + (d.shared.pickMeta.freeDb.flatMap (·.ids)).count p =
      if 2 ≤ p ∧ p ≤ d.shared.pickMeta.lastPg then 1 else 0 := by
  have inv := (created.consistent.run run).shared
  have accounts := inv.entered.accounts 0 (Nat.zero_le _)
  have once := accounts.once p
  have all : pendingIds (d.shared.next 0).freeDb 0 (d.shared.newest + 1) =
    (d.shared.next 0).freeDb.flatMap (·.ids) := by
    rw [pendingIds, List.filter_eq_self.2]
    intro r member
    have := accounts.positive r member
    have := inv.entered.own r member
    simp only [decide_eq_true_eq]
    omega
  rw [inv.pickMeta]
  simp only [available, TxnInfo.next, txnRenew0, List.count_nil, Option.getD_none, Nat.add_zero,
    Nat.zero_add] at once all
  rw [all, beyond] at once
  split at once <;> split at once <;> split <;> omega

theorem pickMeta_pages_updated : ∃ d : Config (Fin 3) (TxnInfo (Fin 3) ℕ) (Actor (Fin 3) ℕ),
    d.shared.pickMeta.txnid = 2 ∧ d.shared.pickMeta.freeDb = [⟨2, 1, [2]⟩] ∧
      (pagesOf d.shared.pickMeta.tree).count 2 + (d.shared.pickMeta.freeDb.flatMap (·.ids)).count 2 =
        if 2 ≤ 2 ∧ 2 ≤ d.shared.pickMeta.lastPg then 1 else 0 := by
  obtain ⟨d, e, updates⟩ := updateWhileReading_updates
  exact ⟨e, congrArg MdbMeta.txnid updates.second, congrArg MdbMeta.freeDb updates.second,
    pickMeta_pages snapshotStart_created updates.runs 2⟩

/-- Neither `mdb_page_alloc` nor `mdb_freelist_save` runs into an assertion. -/
theorem never_asserts (created : Created c) (run : Run (txnSteps limits) (fun _ _ _ => True) c d) {w : Writer β}
    (txn : d.shared.txn = some w) : w.phase ≠ .asserted := by
  intro phase
  have works := ((created.txnInv_run run).writer w txn).works
  rw [Writer.Works, phase] at works
  exact works

theorem never_asserts_updated : ∃ d : Config (Fin 3) (TxnInfo (Fin 3) ℕ) (Actor (Fin 3) ℕ), ∃ w,
    d.shared.txn = some w ∧ w.phase ≠ .asserted := by
  obtain ⟨d, e, updates⟩ := updateWhileReading_updates
  obtain ⟨w, txn, _⟩ := updates.writer
  exact ⟨d, w, txn, never_asserts snapshotStart_created (updates.run.weaken fun _ _ _ _ => trivial) txn⟩

/-- No two transactions have one slot of the reader table. -/
theorem slots_exclusive (created : Created c) (run : Run (txnSteps limits) (fun _ _ _ => True) c d) {j k : ι}
    (differ : j ≠ k) {i : ℕ} (here : (d.threads j).point.slot = some i) :
    (d.threads k).point.slot ≠ some i := by
  obtain ⟨id, alive, mine⟩ := created.seated_run run j
  obtain ⟨id', alive', others⟩ := created.seated_run run k
  exact slots_differ mine others (by rwa [id, id']) alive alive' here

theorem slots_exclusive_updated : ∃ d : Config (Fin 3) (TxnInfo (Fin 3) ℕ) (Actor (Fin 3) ℕ),
    (d.threads 1).point.slot = some 0 ∧ (d.threads 2).point.slot = some 1 ∧
      (d.threads 2).point.slot ≠ some 0 := by
  obtain ⟨d, e, updates⟩ := updateWhileReading_updates
  obtain ⟨here, there⟩ := updates.slots
  exact ⟨e, here, there,
    slots_exclusive snapshotStart_created (updates.runs.weaken fun _ _ _ _ => trivial) (by decide) here⟩

/-- The write transaction has no page to hand out or to write to that a reader still reads, unless it
is of its own version. -/
theorem reading_spared (created : Created c) (run : Run (txnSteps limits) heedsFatalError c d) {j : ι}
    {i txnid : ℕ} {m : Version β} (reading : (d.threads j).point = .reading i txnid m) {w : Writer β}
    (txn : d.shared.txn = some w) (older : m.txnid < w.pages.txnid) {p : ℕ} (member : p ∈ pagesOf m.tree) :
    ¬ Written w.pages p ∧ p ∉ w.pages.loosePgs ∧ p ∉ w.pages.pghead.getD [] ∧ p < w.pages.nextPgno := by
  have consistent := created.consistent.run run
  have mine := consistent.versions j
  rw [VersionInv, reading] at mine
  have keeps := mine.2.2.writer w txn
  have works := (consistent.shared.writer w txn).works
  have spares : Spares w.pages m.toMdbMeta := by
    cases phase : w.phase with
    | active | saving _ _ | saved _ =>
      refine keeps.spares works ?_
      rw [phase]
      rfl
    | failed rc =>
      rw [Writer.Keeps, phase] at keeps
      exact keeps
    | written | published | metaFailed =>
      rw [Writer.Keeps, phase] at keeps
      exact keeps older
    | asserted =>
      rw [Writer.Works, phase] at works
      exact works.elim
  exact spares p member

theorem reading_spared_updated : ∃ d : Config (Fin 3) (TxnInfo (Fin 3) ℕ)
    (Actor (Fin 3) ℕ), ∃ w, d.shared.txn = some w ∧
    w.phase = .saved [] ∧ w.pages.dirtyList = [⟨4, 1⟩, ⟨3, 1⟩] ∧
      (¬ Written w.pages 2 ∧ 2 ∉ w.pages.loosePgs ∧ 2 ∉ w.pages.pghead.getD [] ∧ 2 < w.pages.nextPgno) := by
  obtain ⟨d, e, updates⟩ := updateWhileReading_updates
  obtain ⟨w, txn, phase, dirty, own⟩ := updates.writer
  obtain ⟨i, v, m, reading, member, txnid, _⟩ := updates.before
  exact ⟨d, w, txn, phase, dirty, reading_spared snapshotStart_created updates.run reading txn (by omega) member⟩

/-- A commit lasts: once a version has been published, its meta page is picked until another one is
written, and stays as it is until two have been written, or the second one was to be. -/
theorem commit_lasts {e : Config ι (TxnInfo ι β) (Actor ι β)} (created : Created c)
    (run : Run (txnSteps limits) (fun _ _ _ => True) c d) (later : Run (txnSteps limits) (fun _ _ _ => True) d e) :
    (d.shared.metas (toggle d.shared.mtiTxnid)).txnid = d.shared.mtiTxnid ∧
      d.shared.mtiTxnid ≤ e.shared.mtiTxnid ∧
        (e.shared.pickMeta.txnid ≤ d.shared.mtiTxnid →
          e.shared.pickMeta = d.shared.metas (toggle d.shared.mtiTxnid)) ∧
          (e.shared.pickMeta.txnid ≤ d.shared.mtiTxnid + 1 → e.shared.metaLeft ≠ some .old →
            e.shared.metas (toggle d.shared.mtiTxnid) = d.shared.metas (toggle d.shared.mtiTxnid)) := by
  have inv := created.txnInv_run run
  have last := created.txnInv_run (run.trans later)
  obtain ⟨grows, newest, former⟩ := inv.lasts_run later
  refine ⟨inv.published.top, grows, fun near => ?_, fun near fine => ?_⟩
  · have published := last.published.top
    have least := e.shared.le_pickMeta (toggle e.shared.mtiTxnid)
    have unchanged : e.shared.mtiTxnid = d.shared.mtiTxnid := by omega
    rw [last.picked (by omega), unchanged]
    exact newest unchanged
  · rcases former with same | newer | taken
    · exact same
    · omega
    · exact absurd taken fine

theorem commit_lasts_updated : ∃ d e : Config (Fin 3) (TxnInfo (Fin 3) ℕ) (Actor (Fin 3) ℕ),
    d.shared.mtiTxnid = 1 ∧ e.shared.mtiTxnid = 2 ∧
      e.shared.metas (toggle d.shared.mtiTxnid) = d.shared.metas (toggle d.shared.mtiTxnid) := by
  obtain ⟨d, e, updates⟩ := updateWhileReading_updates
  have txnid : e.shared.pickMeta.txnid = 2 := congrArg MdbMeta.txnid updates.second
  obtain ⟨_, _, _, kept⟩ := commit_lasts snapshotStart_created (updates.run.weaken fun _ _ _ _ => trivial)
    (updates.later.weaken fun _ _ _ _ => trivial)
  refine ⟨d, e, updates.published.1, updates.published.2, kept ?_ ?_⟩
  · rw [updates.published.1, txnid]
  · simp [updates.fine]

end Runs

end SamLmdb
