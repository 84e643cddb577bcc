import SamLmdb.Pages.Writer

/-!
What holds in every state that readers and writers reach: the version a reader reads stays
as it is, and so do those of both meta pages.
-/

namespace SamLmdb

open Interleaving

variable {ι β : Type}

/-- The newest version that a meta page has, published or not, and perhaps to be taken back. -/
def TxnInfo.newest (s : TxnInfo ι β) : ℕ :=
  if s.metaLeft = some .new then s.mtiTxnid + 1
  else match s.txn with
    | some w => if w.phase = .written then s.mtiTxnid + 1 else s.mtiTxnid
    | none => s.mtiTxnid

/-- The transaction that would begin on the newest version. -/
def TxnInfo.next (s : TxnInfo ι β) (pgoldest : ℕ) : TxnPages :=
  txnRenew0 s.newest (s.metas (toggle s.newest)).toMdbMeta pgoldest

/-- The write transaction keeps a version, its own one apart. -/
def Writer.Keeps (w : Writer β) (m : MdbMeta) : Prop :=
  match w.phase with
  | .active | .saving _ _ => Shields w.pages m
  | .saved _ => Shields (txnRenew0 w.pages.txnid w.pages.writeMeta 0) m ∧ Spares w.pages m
  | .failed _ => Spares w.pages m
  | .written | .published | .metaFailed => m.txnid < w.pages.txnid → Spares w.pages m
  | .asserted => True

/-- A version whose pages are as they were when it was committed, and will be. A reader may
still read one that has been taken back. -/
structure Safe (s : TxnInfo ι β) (m : Version β) : Prop where
  le : s.metaLeft ≠ some .old → m.txnid ≤ s.newest
  intact : ∀ p ∈ pagesOf m.tree, s.map p = m.content p
  base : s.metaLeft ≠ some .old → Shields (s.next 0) m.toMdbMeta
  writer : ∀ w, s.txn = some w → w.Keeps m.toMdbMeta

/-- `me_pgoldest` and what is found by looking do not get past the reader of slot `i`. -/
structure Guarded (s : TxnInfo ι β) (i txnid : ℕ) : Prop where
  oldest : ∀ pid, s.pgoldest pid ≤ txnid
  pages : ∀ w, s.txn = some w → w.pages.pgoldest ≤ txnid
  search : ∀ w search, s.txn = some w → w.search = some search → search.oldest ≤ txnid ∨ i < search.left

structure SharedInv (s : TxnInfo ι β) : Prop extends TxnInv s where
  left : s.metaLeft = some .new → Entered s (s.mtiTxnid + 1)
  other : (s.metas (!toggle s.newest)).txnid = s.newest - 1
  safe : ∀ b, b = toggle s.newest ∨ s.metaLeft ≠ some .old → Safe s (s.metas b)
  inMap : ∀ w, s.txn = some w → w.phase.flushes → InMap w.view s.map w.pages w.unflushed
  metab : ∀ w, s.txn = some w → w.phase = .written → w.metab = s.mtiTxnid - 1
  fatal : s.metaLeft ≠ none → ∀ w, s.txn = some w → w.phase = .metaFailed

/-- What holds of the version that an actor reads, or of its write transaction. -/
def VersionInv (s : TxnInfo ι β) (a : Actor ι β) : Prop :=
  match a.point with
  | .settled i txnid => txnid ≤ s.mtiTxnid ∧ Guarded s i txnid
  | .reading i txnid m => txnid ≤ m.txnid ∧ Guarded s i txnid ∧ Safe s m
  | .writing => s.wmutex = some a.id ∧ s.txn ≠ none
  | _ => True

section Writer

variable {w : Writer β} {mtiTxnid : ℕ} {m : MdbMeta} {freeDbi : Bool} {found : Option ℕ} {op : PageOp}

/-- As long as pages may be written, none of them is that of a version that is kept. -/
theorem Writer.Keeps.spares (keeps : w.Keeps m) (works : w.Works mtiTxnid) (flushes : w.phase.flushes) :
    Spares w.pages m := by
  rw [Writer.Keeps] at keeps
  rw [Writer.Works] at works
  cases phase : w.phase with
  | active =>
    rw [phase] at keeps works
    exact Shields.spares keeps works.2.1
  | saving stage v =>
    rw [phase] at keeps works
    exact Shields.spares keeps works.2.core.accounts
  | saved unflushed =>
    rw [phase] at keeps
    exact keeps.2
  | written | published | metaFailed | failed _ | asserted => simp [phase, Phase.flushes] at flushes

/-- A version that is no older than what is looked for is kept. -/
theorem Writer.Keeps.after (keeps : w.Keeps m) (maxpg nr : ℕ) (works : w.Works mtiTxnid)
    (inside : w.phase.inDb = some freeDbi) (allowed : op.Allowed w.pages) (oldest : w.pages.pgoldest ≤ m.txnid + 1)
    (looked : ∀ oldest, found = some oldest → oldest ≤ mtiTxnid ∧ oldest ≤ m.txnid + 1) :
    (w.after op nr (op.run maxpg freeDbi found w.pages)).Keeps m := by
  obtain ⟨accounts, txnid⟩ := works.accounts inside
  obtain ⟨holds, done⟩ := PageOp.run_effect found freeDbi maxpg accounts allowed
    (fun oldest seen => by have := (looked oldest seen).1; omega)
  cases result : op.run maxpg freeDbi found w.pages with
  | done t' =>
    obtain ⟨accounts', effect⟩ := done t' result
    have next (shields : Shields w.pages m) : Shields t' m :=
      shields.op effect oldest fun bound seen => (looked bound seen).2
    rcases Phase.inDb_some inside with ⟨phase, _⟩ | ⟨stage, v, phase, _⟩
    · rw [Writer.Keeps, phase] at keeps
      simp only [Writer.Keeps, Writer.after, phase]
      exact next keeps
    · rw [Writer.Keeps, phase] at keeps
      simp only [Writer.Keeps, Writer.after, phase]
      exact next keeps
  | awaitsOldest => exact keeps
  | failed rc => exact keeps.spares works (Phase.flushes_of_inDb (by simp [inside]))
  | asserts => trivial

/-- What a reader guards is guarded still: the operation has looked at its slot or is going to. -/
theorem after_guarded {i txnid nr : ℕ} (maxpg : ℕ) (works : w.Works mtiTxnid) (inside : w.phase.inDb = some freeDbi)
    (allowed : op.Allowed w.pages) (oldest : w.pages.pgoldest ≤ txnid) (slot : i < nr)
    (looked : ∀ oldest, found = some oldest → oldest ≤ mtiTxnid ∧ oldest ≤ txnid) :
    (w.after op nr (op.run maxpg freeDbi found w.pages)).pages.pgoldest ≤ txnid ∧
      ∀ search, (w.after op nr (op.run maxpg freeDbi found w.pages)).search = some search →
        search.oldest ≤ txnid ∨ i < search.left := by
  obtain ⟨accounts, own⟩ := works.accounts inside
  obtain ⟨holds, done⟩ := PageOp.run_effect found freeDbi maxpg accounts allowed
    (fun oldest seen => by have := (looked oldest seen).1; omega)
  cases result : op.run maxpg freeDbi found w.pages with
  | done t' =>
    refine ⟨?_, by simp [Writer.after]⟩
    rcases (done t' result).2.advanced.oldest with same | seen
    · simpa only [Writer.after, same] using oldest
    · exact (looked _ seen).2
  | awaitsOldest =>
    refine ⟨oldest, fun search same => ?_⟩
    cases same
    exact .inr slot
  | failed rc => exact ⟨oldest, by simp [Writer.after]⟩
  | asserts => exact ⟨oldest, by simp [Writer.after]⟩

theorem Writer.Keeps.saving (keeps : w.Keeps m) (works : w.Works mtiTxnid) (older : m.txnid ≤ mtiTxnid)
    {limits : Limits} {next : Saving} (saves : w.Saves limits next) : (w.saving next).Keeps m := by
  rcases saves with ⟨phase, rfl⟩ | ⟨stage, v, phase, rfl⟩
  · rw [Writer.Works, phase] at works
    rw [Writer.Keeps, phase] at keeps
    obtain ⟨txnid, accounts, own, consumed⟩ := works
    obtain ⟨stage, v, t', next, _⟩ := saveStart_inv accounts own consumed
    rw [next]
    exact Shields.quiet keeps (Shields.saveStart_quiet accounts next)
  · rw [Writer.Works, phase] at works
    rw [Writer.Keeps, phase] at keeps
    obtain ⟨txnid, saveInv⟩ := works
    have keeps_inv := saveStep_keeps saveInv limits.maxfree1pg
    cases next : saveStep limits.maxfree1pg v w.pages stage with
    | «at» stage' v' t' => exact Shields.quiet keeps (Shields.saveStep_quiet saveInv next)
    | saved t' =>
      rw [next] at keeps_inv
      have saved : Saved w.pages t' := keeps_inv
      have := Shields.saved keeps saveInv.core.accounts saved (by omega) 0
      simpa only [Writer.Keeps, Writer.saving, saved.txnid] using this
    | failed rc =>
      rw [next] at keeps_inv
      exact keeps_inv.elim
    | asserts =>
      rw [next] at keeps_inv
      exact keeps_inv.elim

/-- The pages that were in the map are so after a page operation, with those that it writes. -/
theorem Writer.after_inMap {map : ℕ → β} (before : InMap w.view map w.pages w.unflushed) (maxpg nr : ℕ)
    (works : w.Works mtiTxnid) (inside : w.phase.inDb = some freeDbi) (allowed : op.Allowed w.pages)
    (looked : ∀ oldest, found = some oldest → oldest ≤ mtiTxnid) {w' : Writer β}
    (result : w' = w.after op nr (op.run maxpg freeDbi found w.pages)) (flushes : w'.phase.flushes) :
    InMap w'.view (mdbPageFlush w.view map op.flushed) w'.pages w'.unflushed := by
  obtain ⟨accounts, txnid⟩ := works.accounts inside
  have dirty : ∀ w'' : Writer β, w''.phase = w.phase → w''.unflushed = w''.pages.dirtyList := by
    intro w'' same
    rcases Phase.inDb_some inside with ⟨phase, _⟩ | ⟨stage, v, phase, _⟩ <;> simp [Writer.unflushed,
      same, phase]
  subst result
  cases done : op.run maxpg freeDbi found w.pages with
  | done t' =>
    rw [dirty w rfl] at before
    rw [dirty _ (by simp [Writer.after])]
    refine before.stays (PageOp.run_staysDirty accounts allowed (fun oldest seen => ?_) done)
    have := looked oldest seen
    omega
  | awaitsOldest => exact before.mono _
  | failed rc => simp [done, Writer.after, Phase.flushes] at flushes
  | asserts => simp [done, Writer.after, Phase.flushes] at flushes

/-- `mdb_freelist_save` leaves in the map what was there. -/
theorem Writer.saving_inMap {map : ℕ → β} (before : InMap w.view map w.pages w.unflushed)
    (works : w.Works mtiTxnid) {limits : Limits} {next : Saving} (saves : w.Saves limits next)
    (flushes : (w.saving next).phase.flushes) :
    InMap (w.saving next).view map (w.saving next).pages (w.saving next).unflushed := by
  rcases saves with ⟨phase, rfl⟩ | ⟨stage, v, phase, rfl⟩
  · rw [Writer.Works, phase] at works
    simp only [Writer.unflushed, phase] at before
    cases next : saveStart w.pages with
    | «at» stage v t' =>
      have stays : StaysDirty w.pages t' [] := saveStart_staysDirty works.2.1 next
      have after := before.stays stays
      rwa [mdbPageFlush_nil] at after
    | saved t' =>
      obtain ⟨_, _, _, next', _⟩ := saveStart_inv works.2.1 works.2.2.1 works.2.2.2
      cases next.symm.trans next'
    | failed rc => simp [next, Writer.saving, Phase.flushes] at flushes
    | asserts => simp [next, Writer.saving, Phase.flushes] at flushes
  · rw [Writer.Works, phase] at works
    simp only [Writer.unflushed, phase] at before
    have keeps_inv := saveStep_keeps works.2 limits.maxfree1pg
    cases next : saveStep limits.maxfree1pg v w.pages stage with
    | «at» stage' v' t' =>
      have stays : StaysDirty w.pages t' [] := saveStep_staysDirty next
      have after := before.stays stays
      rwa [mdbPageFlush_nil] at after
    | saved t' =>
      rw [next] at keeps_inv
      exact before.saved works.2.core.accounts keeps_inv
    | failed rc => simp [next, Writer.saving, Phase.flushes] at flushes
    | asserts => simp [next, Writer.saving, Phase.flushes] at flushes

end Writer

section Shared

variable {s s' : TxnInfo ι β} {w w' : Writer β} {limits : Limits} {pid : ℕ}

theorem newest_eq (fine : s.metaLeft = none) (txn : s.txn = some w) (phase : w.phase ≠ .written) :
    s.newest = s.mtiTxnid := by
  simp [TxnInfo.newest, fine, txn, phase]

theorem newest_written (fine : s.metaLeft = none) (txn : s.txn = some w) (phase : w.phase = .written) :
    s.newest = s.mtiTxnid + 1 := by
  simp [TxnInfo.newest, fine, txn, phase]

theorem SharedInv.entered (inv : SharedInv s) : Entered s s.newest := by
  rw [TxnInfo.newest]
  split
  · exact inv.left ‹_›
  · cases txn : s.txn with
    | none => exact inv.published
    | some w =>
      simp only
      split
      · exact (inv.written w txn ‹_›).1
      · exact inv.published

theorem SharedInv.near (inv : SharedInv s) (b : Bool) : s.newest ≤ (s.metas b).txnid + 1 := by
  have top := inv.entered.top
  have other := inv.other
  cases same : toggle s.newest <;> cases b <;> rw [same] at top other <;> simp at other <;> omega

theorem SharedInv.fine (inv : SharedInv s) (txn : s.txn = some w) (phase : w.phase ≠ .metaFailed) :
    s.metaLeft = none := by
  by_contra fatal
  exact phase (inv.fatal fatal w txn)

/-- A slot is guarded as before where the writer has not looked at the readers. -/
theorem Guarded.of_same {i txnid : ℕ} (guard : Guarded s i txnid) (txn : s.txn = some w) (txn' : s'.txn = some w')
    (oldest : s'.pgoldest = s.pgoldest) (pages : w'.pages.pgoldest = w.pages.pgoldest)
    (search : ∀ search, w'.search = some search → w.search = some search) : Guarded s' i txnid where
  oldest := oldest ▸ guard.oldest
  pages := by
    intro w'' same
    cases txn'.symm.trans same
    rw [pages]
    exact guard.pages w txn
  search := by
    intro w'' search' same sought
    cases txn'.symm.trans same
    exact guard.search w search' txn (search search' sought)

/-- What a step of the writer leaves to readers. -/
structure Undisturbed (s s' : TxnInfo ι β) : Prop where
  readers : s'.mtiReaders = s.mtiReaders
  numreaders : s'.mtiNumreaders = s.mtiNumreaders
  rmutex : s'.rmutex = s.rmutex
  wmutex : s'.wmutex = s.wmutex
  mtiTxnid : s.mtiTxnid ≤ s'.mtiTxnid
  txn : s'.txn ≠ none
  guarded : ∀ i txnid, i < s.mtiNumreaders → (s.mtiReaders i).pid ≠ 0 → (s.mtiReaders i).txnid = some txnid →
    Guarded s i txnid → Guarded s' i txnid
  safe : ∀ i txnid (m : Version β), Guarded s i txnid → txnid ≤ m.txnid → Safe s m → Safe s' m

/-- A step of the writer that leaves what has been looked up as it is. -/
theorem Undisturbed.of_same (txn : s.txn = some w) (txn' : s'.txn = some w') (readers : s'.mtiReaders = s.mtiReaders)
    (numreaders : s'.mtiNumreaders = s.mtiNumreaders) (rmutex : s'.rmutex = s.rmutex) (wmutex : s'.wmutex = s.wmutex)
    (mtiTxnid : s.mtiTxnid ≤ s'.mtiTxnid) (oldest : s'.pgoldest = s.pgoldest)
    (pages : w'.pages.pgoldest = w.pages.pgoldest)
    (search : ∀ search, w'.search = some search → w.search = some search)
    (safe : ∀ m : Version β, Safe s m → Safe s' m) : Undisturbed s s' where
  readers := readers
  numreaders := numreaders
  rmutex := rmutex
  wmutex := wmutex
  mtiTxnid := mtiTxnid
  txn := by simp [txn']
  guarded := fun _ _ _ _ _ guard => guard.of_same txn txn' oldest pages search
  safe := fun _ _ m _ _ before => safe m before

/-- The writer goes on with its transaction, and changes the map where it may. -/
theorem SharedInv.goesOn (inv : SharedInv s) (base : TxnInv s') (txn : s.txn = some w) (flushes : w.phase.flushes)
    {pgoldest : ℕ → ℕ} {map : ℕ → β} (after : s' = { s with pgoldest := pgoldest, map := map, txn := some w' })
    (phase' : w'.phase ≠ .written) (unwritten : ∀ p, ¬ Written w.pages p → map p = s.map p)
    (inMap : w'.phase.flushes → InMap w'.view map w'.pages w'.unflushed)
    (keeps : ∀ b, w.Keeps (s.metas b).toMdbMeta → w'.Keeps (s.metas b).toMdbMeta) :
    SharedInv s' ∧ ∀ m : Version β, Safe s m → w'.Keeps m.toMdbMeta → Safe s' m := by
  subst after
  have fine := inv.fine txn (Phase.flushes_ne flushes).2
  have newest := newest_eq fine txn (Phase.flushes_ne flushes).1
  have newest' : TxnInfo.newest { s with pgoldest := pgoldest, map := map, txn := some w' } = s.newest :=
    (newest_eq (by exact fine) rfl phase').trans newest.symm
  have next' (g : ℕ) : TxnInfo.next { s with pgoldest := pgoldest, map := map, txn := some w' } g = s.next g := by
    rw [TxnInfo.next, newest']
    rfl
  have safe (m : Version β) (before : Safe s m) (kept : w'.Keeps m.toMdbMeta) :
      Safe { s with pgoldest := pgoldest, map := map, txn := some w' } m := by
    have spares := (before.writer w txn).spares (inv.writer w txn).works flushes
    refine ⟨fun ok => newest' ▸ before.le ok, fun p member => ?_, fun ok => next' 0 ▸ before.base ok,
      fun w'' same => ?_⟩
    · exact (unwritten p (spares p member).1).trans (before.intact p member)
    · cases same
      exact kept
  refine ⟨?_, safe⟩
  constructor
  case toTxnInv => exact base
  case left => simp [fine]
  case other => exact newest' ▸ inv.other
  case safe =>
    intro b _
    have before := inv.safe b (.inr (by simp [fine]))
    exact safe _ before (keeps b (before.writer w txn))
  case inMap =>
    intro w'' same
    cases same
    exact inMap
  case metab =>
    intro w'' same written
    cases same
    exact absurd written phase'
  case fatal => exact fun fatal => absurd fine fatal

/-- The writer takes a page operation to its end, or has to look at the readers first. -/
theorem SharedInv.pageOp (inv : SharedInv s) (base : TxnInv s') (txn : s.txn = some w) {freeDbi : Bool}
    (inside : w.phase.inDb = some freeDbi) {op : PageOp} (allowed : op.Allowed w.pages) {found : Option ℕ}
    (looked : ∀ oldest, found = some oldest → oldest ≤ s.mtiTxnid) {pgoldest : ℕ → ℕ}
    (oldest : ∀ pid, pgoldest pid = s.pgoldest pid ∨ found = some (pgoldest pid))
    (guarded : ∀ oldest i txnid, found = some oldest → Guarded s i txnid → oldest ≤ txnid)
    (result : w' = w.after op s.mtiNumreaders (op.run limits.maxpg freeDbi found w.pages))
    (after : s' = { s with pgoldest := pgoldest, map := mdbPageFlush w.view s.map op.flushed, txn := some w' }) :
    SharedInv s' ∧ Undisturbed s s' := by
  have writer := inv.writer w txn
  have flushes : w.phase.flushes := Phase.flushes_of_inDb (by simp [inside])
  have fine := inv.fine txn (Phase.flushes_ne flushes).2
  have newest := newest_eq fine txn (Phase.flushes_ne flushes).1
  have phase' : w'.phase ≠ .written := by
    rw [result]
    exact Writer.after_phase (by simp [inside]) _ _
  have kept (m : MdbMeta) (near : s.mtiTxnid ≤ m.txnid + 1) (keeps : w.Keeps m) : w'.Keeps m := by
    rw [result]
    refine keeps.after _ _ writer.works inside allowed (Nat.le_trans writer.oldest near) fun bound seen => ?_
    exact ⟨looked bound seen, Nat.le_trans (looked bound seen) near⟩
  have unwritten (p : ℕ) (not_written : ¬ Written w.pages p) : mdbPageFlush w.view s.map op.flushed p = s.map p :=
    mdbPageFlush_other fun listed => not_written (.of_dirty allowed.flushed listed)
  obtain ⟨shared, safe⟩ := inv.goesOn base txn flushes after phase' unwritten
    (Writer.after_inMap (inv.inMap w txn flushes) _ _ writer.works inside allowed looked result)
    fun b => kept _ (newest ▸ inv.near b)
  refine ⟨shared, ?_⟩
  subst after
  constructor
  case readers | numreaders | rmutex | wmutex => rfl
  case mtiTxnid => exact Nat.le_refl _
  case txn => simp
  case guarded =>
    intro i txnid inside_table _ _ guard
    obtain ⟨pages, search⟩ := after_guarded limits.maxpg writer.works inside allowed (guard.pages w txn)
      inside_table
      fun bound seen => ⟨looked bound seen, guarded bound i txnid seen guard⟩
    rw [← result] at pages search
    refine ⟨fun pid => ?_, fun w'' same => ?_, fun w'' search' same => ?_⟩
    · rcases oldest pid with same | seen
      · simp only [same]
        exact guard.oldest pid
      · exact guarded _ i txnid seen guard
    · cases same
      exact pages
    · cases same
      exact search search'
  case safe =>
    intro i txnid m guard le before
    refine safe m before ?_
    have pages := guard.pages w txn
    rw [result]
    refine (before.writer w txn).after _ _ writer.works inside allowed (by omega) fun bound seen => ?_
    have := guarded bound i txnid seen guard
    exact ⟨looked bound seen, by omega⟩

theorem SharedInv.look (inv : SharedInv s) (base : TxnInv s') (txn : s.txn = some w) {search search' : Search}
    (sought : w.search = some search)
    (passes : ∀ i txnid, (s.mtiReaders i).pid ≠ 0 → (s.mtiReaders i).txnid = some txnid →
      search.oldest ≤ txnid ∨ i < search.left → search'.oldest ≤ txnid ∨ i < search'.left)
    (after : s' = { s with txn := some { w with search := some search' } }) : SharedInv s' ∧ Undisturbed s s' := by
  have flushes := Phase.flushes_of_inDb ((inv.writer w txn).search search sought).2.2
  obtain ⟨shared, safe⟩ := inv.goesOn base txn flushes after (Phase.flushes_ne flushes).1 (fun _ _ => rfl)
    (inv.inMap w txn) fun b keeps => keeps
  refine ⟨shared, ?_⟩
  subst after
  constructor
  case readers | numreaders | rmutex | wmutex => rfl
  case mtiTxnid => exact Nat.le_refl _
  case txn => simp
  case guarded =>
    intro i txnid _ used stored guard
    refine ⟨guard.oldest, fun w' same => ?_, fun w' search'' same sought' => ?_⟩
    · cases same
      exact guard.pages w txn
    · cases same
      cases sought'
      exact passes i txnid used stored (guard.search w search txn sought)
  case safe => exact fun i txnid m _ _ before => safe m before (before.writer w txn)

/-- A step that neither looks at the readers nor takes pages: the writer writes to its own. -/
theorem SharedInv.writes (inv : SharedInv s) (base : TxnInv s') (txn : s.txn = some w) (flushes : w.phase.flushes)
    {map : ℕ → β} (after : s' = { s with map := map, txn := some w' })
    (unwritten : ∀ p, ¬ Written w.pages p → map p = s.map p) (pages : w'.pages.pgoldest = w.pages.pgoldest)
    (search : ∀ search, w'.search = some search → w.search = some search) (phase' : w'.phase ≠ .written)
    (inMap : w'.phase.flushes → InMap w'.view map w'.pages w'.unflushed)
    (keeps : ∀ m : MdbMeta, m.txnid ≤ s.mtiTxnid → w.Keeps m → w'.Keeps m) : SharedInv s' ∧ Undisturbed s s' := by
  have newest := newest_eq (inv.fine txn (Phase.flushes_ne flushes).2) txn (Phase.flushes_ne flushes).1
  have fine := inv.fine txn (Phase.flushes_ne flushes).2
  obtain ⟨shared, safe⟩ := inv.goesOn base txn flushes after phase' unwritten inMap fun b =>
    keeps _ (newest ▸ (inv.safe b (.inr (by simp [fine]))).le (by simp [fine]))
  refine ⟨shared, ?_⟩
  subst after
  refine .of_same txn rfl rfl rfl rfl rfl (Nat.le_refl _) rfl pages search fun m before => ?_
  exact safe m before (keeps _ (newest ▸ before.le (by simp [fine])) (before.writer w txn))

theorem SharedInv.write (inv : SharedInv s) (base : TxnInv s') (txn : s.txn = some w) (writes : w.phase.writes)
    {p : ℕ} (dirty : p ∈ pagesOf w.pages.dirtyList) {x : β} {writemap : Bool}
    (after : s' = { s with
      map := if writemap then Function.update s.map p x else s.map
      txn := some { w with view := Function.update w.view p x } }) : SharedInv s' ∧ Undisturbed s s' := by
  have flushes : w.phase.flushes ∧ w.unflushed = w.pages.dirtyList := by
    rw [Writer.unflushed]
    cases phase : w.phase <;> simp [phase, Phase.writes, Phase.flushes] at writes ⊢
  have elsewhere (q : ℕ) (other : q ≠ p) :
      (if writemap then Function.update s.map p x else s.map) q = s.map q := by
    split
    · exact Function.update_of_ne other _ _
    · rfl
  refine inv.writes base txn flushes.1 after (fun q unwritten => elsewhere q ?_) rfl (fun _ sought => sought)
    (Phase.flushes_ne flushes.1).1 (fun _ => ?_) fun m _ keeps => keeps
  · rintro rfl
    exact unwritten (.of_dirty (List.Subset.refl _) dirty)
  · intro q member clean
    have clean : q ∉ pagesOf w.unflushed := clean
    have other : q ≠ p := by
      rintro rfl
      exact clean (flushes.2 ▸ dirty)
    simp only [elsewhere q other, Function.update_of_ne other]
    exact inv.inMap w txn flushes.1 q member clean

theorem SharedInv.flush (inv : SharedInv s) (base : TxnInv s') (txn : s.txn = some w) {unflushed : List MdbPage}
    (phase : w.phase = .saved unflushed) {mp : MdbPage} (member : mp ∈ unflushed)
    (after : s' = { s with
      map := mdbPageFlush w.view s.map [mp]
      txn := some { w with phase := .saved (unflushed.erase mp) } }) : SharedInv s' ∧ Undisturbed s s' := by
  have works := (inv.writer w txn).works
  rw [Writer.Works, phase] at works
  have flushes : w.phase.flushes := by
    rw [phase]
    rfl
  have inMap := inv.inMap w txn flushes
  rw [Writer.unflushed, phase] at inMap
  refine inv.writes base txn flushes after (fun q unwritten => mdbPageFlush_other fun listed => unwritten ?_) rfl
    (fun _ sought => sought) (by simp) (fun _ => inMap.flush mp) fun m _ keeps => ?_
  · exact .of_dirty (List.cons_subset.2 ⟨works.2.2.1 member, List.nil_subset _⟩) listed
  · rw [Writer.Keeps, phase] at keeps
    exact keeps

theorem SharedInv.flushFails (inv : SharedInv s) (base : TxnInv s') (txn : s.txn = some w)
    (flushes : w.phase.flushes) {rc : ℤ} {image : ℕ → β}
    (after : s' = { s with map := mdbPageFlush image s.map w.unflushed, txn := some { w with phase := .failed rc } }) :
    SharedInv s' ∧ Undisturbed s s' := by
  have works := (inv.writer w txn).works
  refine inv.writes base txn flushes after (fun q unwritten => mdbPageFlush_other fun listed => unwritten ?_) rfl
    (fun _ sought => sought) (by simp) (fun flushes => by cases flushes)
    fun m _ keeps => keeps.spares works flushes
  exact .of_dirty works.unflushed listed

theorem SharedInv.save (inv : SharedInv s) (base : TxnInv s') (txn : s.txn = some w) (none_sought : w.search = none)
    {next : Saving} (saves : w.Saves limits next) (after : s' = { s with txn := some (w.saving next) }) :
    SharedInv s' ∧ Undisturbed s s' := by
  have writer := inv.writer w txn
  obtain ⟨_, oldest, search⟩ := writer.saving none_sought saves
  exact inv.writes base txn saves.flushes after (fun _ _ => rfl) oldest
    (fun _ sought => absurd sought (by simp [search])) (Writer.saving_phase _)
    (Writer.saving_inMap (inv.inMap w txn saves.flushes) writer.works saves)
    fun m older keeps => keeps.saving writer.works older saves

/-- The meta page is written: the version is there, and the one before it. -/
theorem SharedInv.writeMeta (inv : SharedInv s) (base : TxnInv s') (txn : s.txn = some w) (phase : w.phase = .saved [])
    (after : s' = { s with
      metas := Function.update s.metas (toggle w.pages.txnid) ⟨w.pages.writeMeta, w.view⟩
      txn := some { w with phase := .written, metab := (s.metas (toggle w.pages.txnid)).txnid } }) :
    SharedInv s' ∧ Undisturbed s s' := by
  have works := (inv.writer w txn).works
  rw [Writer.Works, phase] at works
  have txnid : w.pages.txnid = s.mtiTxnid + 1 := works.1
  have flushes : w.phase.flushes := by
    rw [phase]
    rfl
  have inMap := inv.inMap w txn flushes
  rw [Writer.unflushed, phase] at inMap
  have fine := inv.fine txn (by simp [phase])
  have newest := newest_eq fine txn (by simp [phase])
  have page : toggle w.pages.txnid = !toggle s.newest := by rw [txnid, toggle_succ, newest]
  have metab : (s.metas (toggle w.pages.txnid)).txnid = s.mtiTxnid - 1 := by rw [page, inv.other, newest]
  have newest' : s'.newest = w.pages.txnid := by
    rw [txnid, after]
    simp [TxnInfo.newest, fine]
  have metas : s'.metas (toggle w.pages.txnid) = ⟨w.pages.writeMeta, w.view⟩ := by
    rw [after]
    exact Function.update_self ..
  have others (b : Bool) (differ : b ≠ toggle w.pages.txnid) : s'.metas b = s.metas b := by
    rw [after]
    exact Function.update_of_ne differ ..
  have next' (g : ℕ) : s'.next g = txnRenew0 w.pages.txnid w.pages.writeMeta g := by rw [TxnInfo.next, newest', metas]
  have mapped : s'.map = s.map := by rw [after]
  have idle (w' : Writer β) (same : s'.txn = some w') :
      w' = { w with phase := .written, metab := (s.metas (toggle w.pages.txnid)).txnid } := by
    rw [after] at same
    exact (Option.some.inj same).symm
  have safe (m : Version β) (before : Safe s m) : Safe s' m := by
    have keeps := before.writer w txn
    rw [Writer.Keeps, phase] at keeps
    have le := before.le (by simp [fine])
    refine ⟨fun _ => by omega, ?_, fun _ => next' 0 ▸ keeps.1, fun w' same => ?_⟩
    · rw [mapped]
      exact before.intact
    · rw [idle w' same]
      exact fun _ => keeps.2
  constructor
  · constructor
    case toTxnInv => exact base
    case left => simp [after, fine]
    case other =>
      rw [newest', page, Bool.not_not, others _ (by rw [page]; simp), inv.entered.top]
      omega
    case safe =>
      intro b _
      by_cases same : b = toggle w.pages.txnid
      · rw [same, metas]
        refine ⟨fun _ => Nat.le_of_eq newest'.symm, fun p member => ?_, fun _ => next' 0 ▸ .itself, fun w' same => ?_⟩
        · rw [mapped]
          exact inMap p member List.not_mem_nil
        · rw [idle w' same]
          exact fun older => absurd older (Nat.lt_irrefl _)
      · rw [others b same]
        exact safe _ (inv.safe b (.inr (by simp [fine])))
    case inMap =>
      intro w' same flushes
      rw [idle w' same] at flushes
      cases flushes
    case metab =>
      intro w' same _
      rw [idle w' same, after]
      exact metab
    case fatal =>
      rw [after]
      exact fun fatal => absurd fine fatal
  · subst after
    exact .of_same txn rfl rfl rfl rfl rfl (Nat.le_refl _) rfl rfl (fun _ sought => sought) safe

/-- The new meta page stays: it is published, or `mdb_env_write_meta` fails all the same. -/
theorem SharedInv.metaStays (inv : SharedInv s) (base : TxnInv s') (txn : s.txn = some w) (phase : w.phase = .written)
    {phase' : Phase} {mtiTxnid : ℕ} {metaLeft : Option MetaLeft}
    (goes : phase' = .published ∧ mtiTxnid = w.pages.txnid ∧ metaLeft = none ∨
      phase' = .metaFailed ∧ mtiTxnid = s.mtiTxnid ∧ metaLeft = some .new)
    (after : s' = { s with mtiTxnid := mtiTxnid, metaLeft := metaLeft, txn := some { w with phase := phase' } }) :
    SharedInv s' ∧ Undisturbed s s' := by
  have works := (inv.writer w txn).works
  rw [Writer.Works, phase] at works
  have txnid : w.pages.txnid = s.mtiTxnid + 1 := works
  have fine := inv.fine txn (by simp [phase])
  have newest := newest_written fine txn phase
  have newest' : s'.newest = s.newest := by
    rw [newest, after]
    rcases goes with ⟨rfl, rfl, rfl⟩ | ⟨rfl, rfl, rfl⟩ <;> simp [TxnInfo.newest, txnid]
  have metas : s'.metas = s.metas := by rw [after]
  have next' (g : ℕ) : s'.next g = s.next g := by rw [TxnInfo.next, newest', metas, TxnInfo.next]
  have idle (w' : Writer β) (same : s'.txn = some w') : w' = { w with phase := phase' } := by
    rw [after] at same
    exact (Option.some.inj same).symm
  have left : s'.metaLeft ≠ some .old := by
    rw [after]
    rcases goes with ⟨_, _, rfl⟩ | ⟨_, _, rfl⟩ <;> simp
  have safe (m : Version β) (before : Safe s m) : Safe s' m := by
    have keeps := before.writer w txn
    rw [Writer.Keeps, phase] at keeps
    refine ⟨fun _ => newest' ▸ before.le (by simp [fine]), ?_, fun _ => next' 0 ▸ before.base (by simp [fine]),
      fun w' same => ?_⟩
    · rw [after]
      exact before.intact
    · rw [idle w' same]
      rcases goes with ⟨rfl, _⟩ | ⟨rfl, _⟩ <;> exact keeps
  constructor
  · constructor
    case toTxnInv => exact base
    case left =>
      rw [after]
      rcases goes with ⟨_, _, rfl⟩ | ⟨_, rfl, rfl⟩
      · simp
      · exact fun _ => (inv.written w txn phase).1.congr rfl
    case other => rw [newest', metas, inv.other]
    case safe =>
      intro b _
      rw [metas]
      exact safe _ (inv.safe b (.inr (by simp [fine])))
    case inMap =>
      intro w' same flushes
      rw [idle w' same] at flushes
      rcases goes with ⟨rfl, _⟩ | ⟨rfl, _⟩ <;> cases flushes
    case metab =>
      intro w' same written
      rw [idle w' same] at written
      rcases goes with ⟨rfl, _⟩ | ⟨rfl, _⟩ <;> cases written
    case fatal =>
      intro fatal w' same
      rw [idle w' same]
      rcases goes with ⟨_, _, rfl⟩ | ⟨rfl, _⟩
      · exact absurd (by rw [after]) fatal
      · rfl
  · have grows : s.mtiTxnid ≤ mtiTxnid := by
      rcases goes with ⟨_, rfl, _⟩ | ⟨_, rfl, _⟩ <;> omega
    subst after
    exact .of_same txn rfl rfl rfl rfl rfl grows rfl rfl (fun _ sought => sought) safe

/-- The new meta page is taken back: anything may be on it, with the old `mm_txnid`. -/
theorem SharedInv.metaBack (inv : SharedInv s) (base : TxnInv s') (txn : s.txn = some w) (phase : w.phase = .written)
    {m : Version β}
    (after : s' = { s with
      metas := Function.update s.metas (toggle w.pages.txnid) { m with txnid := w.metab }
      metaLeft := some .old
      txn := some { w with phase := .metaFailed } }) : SharedInv s' ∧ Undisturbed s s' := by
  have works := (inv.writer w txn).works
  rw [Writer.Works, phase] at works
  have txnid : w.pages.txnid = s.mtiTxnid + 1 := works
  have fine := inv.fine txn (by simp [phase])
  have page : toggle w.pages.txnid = !toggle s.mtiTxnid := by rw [txnid, toggle_succ]
  rw [page] at after
  have newest' : s'.newest = s.mtiTxnid := by
    rw [after]
    simp [TxnInfo.newest]
  have metas : s'.metas (toggle s.mtiTxnid) = s.metas (toggle s.mtiTxnid) := by
    rw [after]
    exact Function.update_of_ne (Bool.not_ne_self _).symm ..
  have taken : (s'.metas (!toggle s.mtiTxnid)).txnid = s.mtiTxnid - 1 := by
    rw [after]
    simp only [Function.update_self, inv.metab w txn phase]
  have left : s'.metaLeft = some .old := by rw [after]
  have idle (w' : Writer β) (same : s'.txn = some w') : w' = { w with phase := .metaFailed } := by
    rw [after] at same
    exact (Option.some.inj same).symm
  have safe (m : Version β) (before : Safe s m) : Safe s' m := by
    have keeps := before.writer w txn
    rw [Writer.Keeps, phase] at keeps
    refine ⟨fun other => absurd left other, ?_, fun other => absurd left other, fun w' same => ?_⟩
    · rw [after]
      exact before.intact
    · rw [idle w' same]
      exact keeps
  constructor
  · constructor
    case toTxnInv => exact base
    case left => simp [left]
    case other => rw [newest', taken]
    case safe =>
      intro b which
      have same : b = toggle s.mtiTxnid := (which.resolve_right fun other => other left).trans (by rw [newest'])
      rw [same, metas]
      exact safe _ (inv.safe _ (.inr (by simp [fine])))
    case inMap =>
      intro w' same flushes
      rw [idle w' same] at flushes
      cases flushes
    case metab =>
      intro w' same written
      rw [idle w' same] at written
      cases written
    case fatal => exact fun _ w' same => idle w' same ▸ rfl
  · subst after
    exact .of_same txn rfl rfl rfl rfl rfl (Nat.le_refl _) rfl rfl (fun _ sought => sought) safe

theorem SharedInv.setFatal (inv : SharedInv s) (base : TxnInv s') (txn : s.txn = some w) {fatalError : ℕ → Bool}
    (after : s' = { s with fatalError := fatalError }) : SharedInv s' ∧ Undisturbed s s' := by
  subst after
  have safe (m : Version β) (before : Safe s m) : Safe { s with fatalError := fatalError } m :=
    ⟨before.le, before.intact, before.base, before.writer⟩
  constructor
  · constructor
    case toTxnInv => exact base
    case left => exact fun left => (inv.left left).congr rfl
    case other => exact inv.other
    case safe => exact fun b which => safe _ (inv.safe b which)
    case inMap => exact inv.inMap
    case metab => exact inv.metab
    case fatal => exact inv.fatal
  · exact .of_same txn txn rfl rfl rfl rfl (Nat.le_refl _) rfl rfl (fun _ sought => sought) safe

/-- One case for each step of the write transaction. -/
theorem SharedInv.writerStep (inv : SharedInv s) (txn : s.txn = some w) {action : TxnAction β}
    (moved : s.writerStep limits pid w action = some s') : SharedInv s' ∧ Undisturbed s s' := by
  have base := inv.toTxnInv.writerStep txn moved
  revert moved
  fun_cases TxnInfo.writerStep limits s pid w action <;> intro moved <;> cases moved
  case case1 op freeDbi inside allowed =>
    exact inv.pageOp base txn inside allowed.2 (by simp) (fun _ => .inl rfl) (by simp) rfl rfl
  case case4 freeDbi op seen oldest sought inside =>
    obtain ⟨known, allowed, _⟩ := (inv.writer w txn).search _ sought
    refine inv.pageOp base txn inside allowed (fun bound same => ?_) (fun q => ?_) (fun bound i txnid same guard => ?_)
      rfl rfl
    · cases same
      exact known
    · by_cases itself : q = pid
      · right
        rw [itself, Function.update_self]
      · left
        rw [Function.update_of_ne itself]
    · cases same
      rcases guard.search w _ txn sought with looked | never
      · exact looked
      · exact absurd never (Nat.not_lt_zero i)
  case case5 op i oldest sought search =>
    refine inv.look base txn sought (fun k txnid used _ ahead => ?_) rfl
    simp only [search]
    split
    · exact ahead
    · rename_i free
      refine ahead.imp_right fun below => ?_
      -- the slot that is passed over is not in use
      have other : k ≠ i := by
        rintro rfl
        exact free used
      simp only at below ⊢
      omega
  case case6 op i oldest sought least =>
    have lower : least ≤ oldest := by
      simp only [least]
      cases (s.mtiReaders i).txnid with
      | none => exact Nat.le_refl _
      | some mr => exact Nat.min_le_left _ _
    refine inv.look base txn sought (fun k txnid _ stored ahead => ?_) rfl
    by_cases here : k = i
    · subst here
      left
      simp only [least, stored]
      exact Nat.min_le_right _ _
    · refine ahead.imp (Nat.le_trans lower) fun below => ?_
      simp only at below ⊢
      omega
  case case8 p x both => exact inv.write base txn both.1 both.2 rfl
  case case10 none_sought phase =>
    have saves : w.Saves limits (saveStart w.pages) := .inl ⟨phase, rfl⟩
    exact inv.save base txn none_sought saves rfl
  case case11 none_sought stage v phase => exact inv.save base txn none_sought (.inr ⟨stage, v, phase, rfl⟩) rfl
  case case14 mp unflushed phase member => exact inv.flush base txn phase member rfl
  case case17 rc image all => exact inv.flushFails base txn all.2.2 rfl
  case case19 phase => exact inv.writeMeta base txn phase rfl
  case case21 phase => exact inv.metaStays base txn phase (.inr ⟨rfl, rfl, rfl⟩) rfl
  case case23 m both => exact inv.metaBack base txn both.2 rfl
  case case25 phase => exact inv.setFatal base txn rfl
  case case27 phase =>
    exact inv.metaStays base txn phase (.inl ⟨rfl, rfl, inv.fine txn (by simp [phase])⟩) rfl

end Shared

section Actors

variable {s s' : TxnInfo ι β} {u : Actor ι β} {readers : ℕ → MdbReader ι} {numreaders : ℕ} {rmutex : Option ι}

theorem SharedInv.table (inv : SharedInv s) (readers : ℕ → MdbReader ι) (numreaders : ℕ) (rmutex : Option ι) :
    SharedInv { s with mtiReaders := readers, mtiNumreaders := numreaders, rmutex := rmutex } where
  toTxnInv := inv.toTxnInv.table readers numreaders rmutex
  left := fun left => (inv.left left).congr rfl
  other := inv.other
  safe := by
    intro b which
    have safe := inv.safe b which
    exact ⟨safe.le, safe.intact, safe.base, safe.writer⟩
  inMap := inv.inMap
  metab := inv.metab
  fatal := inv.fatal

theorem VersionInv.table (inv : VersionInv s u) :
    VersionInv { s with mtiReaders := readers, mtiNumreaders := numreaders, rmutex := rmutex } u := by
  rw [VersionInv] at inv ⊢
  cases point : u.point with
  | settled k txnid =>
    rw [point] at inv
    obtain ⟨le, guard⟩ := inv
    exact ⟨le, guard.oldest, guard.pages, guard.search⟩
  | reading k txnid m =>
    rw [point] at inv
    obtain ⟨le, guard, safe⟩ := inv
    exact ⟨le, ⟨guard.oldest, guard.pages, guard.search⟩, safe.le, safe.intact, safe.base, safe.writer⟩
  | writing =>
    rw [point] at inv
    exact inv
  | outside | seeking _ _ | full | claiming _ _ _ | claimed _ | parked _ | renewing _ | loaded _ _ | stored _ _
  | ended _ | badRslot _ => trivial

/-- What a reader sees of the writer. -/
theorem VersionInv.watch (inv : VersionInv s u) (table : TableInv s u) (alive : u.pid ≠ 0)
    (mtiTxnid : s.mtiTxnid ≤ s'.mtiTxnid)
    (guarded : ∀ i txnid, i < s.mtiNumreaders → (s.mtiReaders i).pid ≠ 0 →
      (s.mtiReaders i).txnid = some txnid → Guarded s i txnid → Guarded s' i txnid)
    (safe : ∀ i txnid (m : Version β), Guarded s i txnid → txnid ≤ m.txnid → Safe s m → Safe s' m)
    (writing : u.point = .writing → s'.wmutex = some u.id ∧ s'.txn ≠ none) : VersionInv s' u := by
  rw [VersionInv] at inv ⊢
  rw [TableInv] at table
  cases point : u.point with
  | settled k txnid =>
    rw [point] at inv table
    obtain ⟨mine, stored⟩ := table
    obtain ⟨le, guard⟩ := inv
    exact ⟨Nat.le_trans le mtiTxnid, guarded k txnid mine.inside (mine.pid ▸ alive) stored guard⟩
  | reading k txnid m =>
    rw [point] at inv table
    obtain ⟨mine, stored⟩ := table
    obtain ⟨le, guard, before⟩ := inv
    exact ⟨le, guarded k txnid mine.inside (mine.pid ▸ alive) stored guard, safe k txnid m guard le before⟩
  | writing => exact writing point
  | outside | seeking _ _ | full | claiming _ _ _ | claimed _ | parked _ | renewing _ | loaded _ _ | stored _ _
  | ended _ | badRslot _ => trivial

end Actors

end SamLmdb
