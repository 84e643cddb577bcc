import SamLmdb.Pages.ReaderTable

/-!
The write transaction by itself: what it works on, and the versions that it goes on from and
has written, are right whatever the readers do and whichever writes fail.
-/

namespace SamLmdb

open Interleaving

variable {ι β : Type}

/-- The write transaction by its phase. -/
def Writer.Works (mtiTxnid : ℕ) (w : Writer β) : Prop :=
  match w.phase with
  | .active =>
    w.pages.txnid = mtiTxnid + 1 ∧ Accounts w.pages ∧ (∀ r ∈ w.pages.freeDb, r.id < w.pages.txnid) ∧
      (w.pages.pglast ≠ 0 → ∃ r ∈ w.pages.freeDb, r.id = w.pages.pglast)
  | .saving stage v => w.pages.txnid = mtiTxnid + 1 ∧ SaveInv v w.pages stage
  | .saved unflushed => w.pages.txnid = mtiTxnid + 1 ∧ (∀ r ∈ w.pages.freeDb, r.id ≤ w.pages.txnid) ∧
      unflushed ⊆ w.pages.dirtyList ∧
      ∀ pgoldest, pgoldest ≤ w.pages.txnid → Accounts (txnRenew0 w.pages.txnid w.pages.writeMeta pgoldest)
  | .written => w.pages.txnid = mtiTxnid + 1
  | .published | .metaFailed | .failed _ => True
  | .asserted => False

structure WriterInv (mtiTxnid : ℕ) (w : Writer β) : Prop where
  works : w.Works mtiTxnid
  oldest : w.pages.pgoldest ≤ mtiTxnid
  search : ∀ search, w.search = some search →
    search.oldest ≤ mtiTxnid ∧ search.op.Allowed w.pages ∧ w.phase.inDb ≠ none

/-- A meta page has this version, with an account of every page. -/
structure Entered (s : TxnInfo ι β) (txnid : ℕ) : Prop where
  top : (s.metas (toggle txnid)).txnid = txnid
  accounts : ∀ pgoldest, pgoldest ≤ txnid → Accounts (txnRenew0 txnid (s.metas (toggle txnid)).toMdbMeta pgoldest)
  own : ∀ r ∈ (s.metas (toggle txnid)).freeDb, r.id ≤ txnid

/-- An `mm_txnid` is on the meta page of its parity, except in a new environment. -/
def OnPage (b : Bool) (txnid : ℕ) : Prop := txnid = 0 ∨ toggle txnid = b

structure TxnInv (s : TxnInfo ι β) : Prop where
  onPage : ∀ b, OnPage b (s.metas b).txnid
  published : Entered s s.mtiTxnid
  oldest : ∀ pid, s.pgoldest pid ≤ s.mtiTxnid
  locked : s.txn ≠ none → s.wmutex ≠ none
  writer : ∀ w, s.txn = some w → WriterInv s.mtiTxnid w
  written : ∀ w, s.txn = some w → w.phase = .written →
    Entered s (s.mtiTxnid + 1) ∧ OnPage (toggle w.pages.txnid) w.metab

section Writer

variable {w : Writer β} {mtiTxnid : ℕ} {freeDbi : Bool} {found : Option ℕ} {op : PageOp}

theorem Phase.inDb_some {phase : Phase} (inside : phase.inDb = some freeDbi) :
    phase = .active ∧ freeDbi = false ∨ ∃ stage v, phase = .saving stage v ∧ freeDbi = true := by
  cases phase with
  | active =>
    cases inside
    exact .inl ⟨rfl, rfl⟩
  | saving stage v =>
    refine .inr ⟨stage, v, rfl, ?_⟩
    cases stage <;> cases inside <;> rfl
  | saved _ | written | published | metaFailed | failed _ | asserted => cases inside

theorem SaveInv.core {v : SaveVars} {t : TxnPages} {stage : SaveStage} (inv : SaveInv v t stage) : SaveCore v t := by
  cases stage <;> exact inv.1

theorem Phase.flushes_of_inDb {phase : Phase} (inside : phase.inDb ≠ none) : phase.flushes := by
  cases phase <;> first | rfl | exact absurd rfl inside

theorem Phase.flushes_ne {phase : Phase} (flushes : phase.flushes) : phase ≠ .written ∧ phase ≠ .metaFailed := by
  constructor <;> rintro rfl <;> cases flushes

theorem Writer.Works.accounts (works : w.Works mtiTxnid) (inside : w.phase.inDb = some freeDbi) :
    Accounts w.pages ∧ w.pages.txnid = mtiTxnid + 1 := by
  rcases Phase.inDb_some inside with ⟨phase, _⟩ | ⟨stage, v, phase, _⟩
  · rw [Writer.Works, phase] at works
    exact ⟨works.2.1, works.1⟩
  · rw [Writer.Works, phase] at works
    exact ⟨works.2.core.accounts, works.1⟩

theorem Writer.Works.pageOp {t' : TxnPages} (works : w.Works mtiTxnid) (inside : w.phase.inDb = some freeDbi)
    (accounts' : Accounts t') (effect : Effect freeDbi found w.pages t') :
    Writer.Works mtiTxnid { w with pages := t', search := none } := by
  rcases Phase.inDb_some inside with ⟨phase, _⟩ | ⟨stage, v, phase, freeDb⟩
  · rw [Writer.Works, phase] at works
    simp only [Writer.Works, phase]
    obtain ⟨txnid, accounts, own, consumed⟩ := works
    refine ⟨effect.txnid.trans txnid, accounts', ?_, fun some_last => ?_⟩
    · rw [effect.freeDb, effect.txnid]
      exact own
    · rw [effect.freeDb]
      rcases effect.advanced.last with same | ⟨_, exists_record, _⟩
      · rw [same] at some_last ⊢
        exact consumed some_last
      · exact exists_record
  · subst freeDb
    rw [Writer.Works, phase] at works
    simp only [Writer.Works, phase]
    exact ⟨effect.txnid.trans works.1, works.2.op accounts' effect⟩

theorem Writer.Works.unflushed (works : w.Works mtiTxnid) : w.unflushed ⊆ w.pages.dirtyList := by
  rw [Writer.Works] at works
  cases phase : w.phase with
  | active | saving _ _ =>
    rw [Writer.unflushed, phase]
    exact List.Subset.refl _
  | saved unflushed =>
    rw [phase] at works
    rw [Writer.unflushed, phase]
    exact works.2.2.1
  | written | published | metaFailed | failed _ | asserted =>
    rw [Writer.unflushed, phase]
    exact List.nil_subset _

theorem WriterInv.not_searching (inv : WriterInv mtiTxnid w) (outside : w.phase.inDb = none) (search : Search) :
    w.search ≠ some search := fun sought => (inv.search search sought).2.2 outside

/-- A page operation of the writer, before or after the look at the readers. -/
theorem WriterInv.after (inv : WriterInv mtiTxnid w) (maxpg nr : ℕ) (inside : w.phase.inDb = some freeDbi)
    (allowed : op.Allowed w.pages) (looked : ∀ oldest, found = some oldest → oldest ≤ mtiTxnid) :
    WriterInv mtiTxnid (w.after op nr (op.run maxpg freeDbi found w.pages)) := by
  obtain ⟨accounts, txnid⟩ := inv.works.accounts inside
  obtain ⟨holds, done⟩ := PageOp.run_effect found freeDbi maxpg accounts allowed
    (fun oldest seen => by have := looked oldest seen; omega)
  cases result : op.run maxpg freeDbi found w.pages with
  | done t' =>
    obtain ⟨accounts', effect⟩ := done t' result
    refine ⟨inv.works.pageOp inside accounts' effect, ?_, by simp [Writer.after]⟩
    rcases effect.advanced.oldest with same | seen
    · simpa only [Writer.after, same] using inv.oldest
    · exact looked _ seen
  | awaitsOldest =>
    refine ⟨inv.works, inv.oldest, fun search same => ?_⟩
    cases same
    refine ⟨?_, allowed, by simp [Writer.after, inside]⟩
    simp only [txnid]
    omega
  | failed rc => exact ⟨trivial, inv.oldest, by simp [Writer.after]⟩
  | asserts => exact absurd result holds

/-- What the next step of `mdb_freelist_save` gives, the first one or another. -/
def Writer.Saves (limits : Limits) (w : Writer β) (next : Saving) : Prop :=
  w.phase = .active ∧ next = saveStart w.pages ∨
    ∃ stage v, w.phase = .saving stage v ∧ next = saveStep limits.maxfree1pg v w.pages stage

theorem Writer.Saves.flushes {limits : Limits} {next : Saving} (saves : w.Saves limits next) : w.phase.flushes := by
  rcases saves with ⟨phase, _⟩ | ⟨_, _, phase, _⟩ <;> rw [phase] <;> rfl

theorem WriterInv.saving (inv : WriterInv mtiTxnid w) (none_sought : w.search = none) {limits : Limits} {next : Saving}
    (saves : w.Saves limits next) :
    WriterInv mtiTxnid (w.saving next) ∧ (w.saving next).pages.pgoldest = w.pages.pgoldest ∧
      (w.saving next).search = none := by
  have works := inv.works
  have oldest := inv.oldest
  rcases saves with ⟨phase, rfl⟩ | ⟨stage, v, phase, rfl⟩
  · rw [Writer.Works, phase] at works
    obtain ⟨txnid, accounts, own, consumed⟩ := works
    obtain ⟨stage, v, t', next, inv'⟩ := saveStart_inv accounts own consumed
    have quiet := Shields.saveStart_quiet accounts next
    rw [next]
    refine ⟨⟨⟨quiet.txnid.trans txnid, inv'⟩, ?_, by simp [Writer.saving, none_sought]⟩, quiet.oldest, none_sought⟩
    simp only [Writer.saving, quiet.oldest]
    exact oldest
  · rw [Writer.Works, phase] at works
    obtain ⟨txnid, saveInv⟩ := works
    have keeps_inv := saveStep_keeps saveInv limits.maxfree1pg
    cases next : saveStep limits.maxfree1pg v w.pages stage with
    | «at» stage' v' t' =>
      rw [next] at keeps_inv
      have quiet := Shields.saveStep_quiet saveInv next
      refine ⟨⟨⟨quiet.txnid.trans txnid, keeps_inv⟩, ?_, by simp [Writer.saving, none_sought]⟩, quiet.oldest,
        none_sought⟩
      simp only [Writer.saving, quiet.oldest]
      exact oldest
    | saved t' =>
      rw [next] at keeps_inv
      have saved : Saved w.pages t' := keeps_inv
      have dirty : t'.unflushed w.pages.loosePgs ⊆ t'.dirtyList := List.filter_subset_self _
      refine ⟨⟨⟨saved.txnid.trans txnid, ?_, dirty, ?_⟩, ?_, by simp [Writer.saving, none_sought]⟩,
        saved.oldest, none_sought⟩
      · simp only [Writer.saving, saved.txnid]
        exact saved.own
      · simp only [Writer.saving, saved.txnid]
        exact saved.accounts
      · simp only [Writer.saving, saved.oldest]
        exact oldest
    | failed rc =>
      rw [next] at keeps_inv
      exact keeps_inv.elim
    | asserts =>
      rw [next] at keeps_inv
      exact keeps_inv.elim

theorem Writer.after_phase (inside : w.phase.inDb ≠ none) (nr : ℕ) (outcome : PageOutcome TxnPages) :
    (w.after op nr outcome).phase ≠ .written := by
  have running := (Phase.flushes_ne (Phase.flushes_of_inDb inside)).1
  cases outcome <;> simp [Writer.after, running]

theorem Writer.saving_phase (next : Saving) : (w.saving next).phase ≠ .written := by
  cases next <;> simp [Writer.saving]

end Writer

section Txn

variable {s s' : TxnInfo ι β} {w w' : Writer β} {limits : Limits} {pid : ℕ}

theorem toggle_succ (txnid : ℕ) : toggle (txnid + 1) = !toggle txnid := by
  rw [toggle, toggle, ← decide_not]
  congr 1
  simp only [eq_iff_iff]
  omega

theorem Entered.congr {txnid : ℕ} (entered : Entered s txnid)
    (metas : s'.metas (toggle txnid) = s.metas (toggle txnid)) : Entered s' txnid where
  top := metas.symm ▸ entered.top
  accounts := metas.symm ▸ entered.accounts
  own := metas.symm ▸ entered.own

/-- The writer goes on with its transaction, and leaves the meta pages alone. -/
theorem TxnInv.goesOn (inv : TxnInv s) (txn : s.txn = some w) (txn' : s'.txn = some w')
    (metas : s'.metas = s.metas) (mtiTxnid : s'.mtiTxnid = s.mtiTxnid) (wmutex : s'.wmutex = s.wmutex)
    (oldest : ∀ pid, s'.pgoldest pid ≤ s.mtiTxnid) (inv' : WriterInv s.mtiTxnid w') (phase' : w'.phase ≠ .written) :
    TxnInv s' where
  onPage := metas ▸ inv.onPage
  published := mtiTxnid ▸ inv.published.congr (by rw [metas])
  oldest := mtiTxnid.symm ▸ oldest
  locked := fun _ => wmutex ▸ inv.locked (by simp [txn])
  writer := by
    intro w'' same
    cases txn'.symm.trans same
    exact mtiTxnid.symm ▸ inv'
  written := by
    intro w'' same written
    cases txn'.symm.trans same
    exact absurd written phase'

/-- The next version's meta page is the other one. -/
theorem update_toggle {mtiTxnid txnid : ℕ} (next : txnid = mtiTxnid + 1) (metas : Bool → Version β) (m : Version β) :
    Function.update metas (toggle txnid) m (toggle mtiTxnid) = metas (toggle mtiTxnid) := by
  refine Function.update_of_ne ?_ _ _
  rw [next, toggle_succ]
  exact (Bool.not_ne_self _).symm

theorem OnPage.update {metas : Bool → Version β} (before : ∀ b, OnPage b (metas b).txnid) {page : Bool}
    {m : Version β} (on : OnPage page m.txnid) (b : Bool) : OnPage b (Function.update metas page m b).txnid := by
  by_cases same : b = page
  · rw [same, Function.update_self]
    exact on
  · rw [Function.update_of_ne same]
    exact before b

/-- A transaction that is past its work on pages goes to another phase. -/
theorem WriterInv.goesTo {mtiTxnid : ℕ} (inv : WriterInv mtiTxnid w) (idle : w.phase.inDb = none) {phase' : Phase}
    (works' : Writer.Works mtiTxnid { w with phase := phase' }) : WriterInv mtiTxnid { w with phase := phase' } :=
  ⟨works', inv.oldest, fun search sought => absurd sought (inv.not_searching idle search)⟩

theorem WriterInv.look {mtiTxnid : ℕ} (inv : WriterInv mtiTxnid w) {search search' : Search}
    (sought : w.search = some search) (op : search'.op = search.op) (oldest : search'.oldest ≤ search.oldest) :
    WriterInv mtiTxnid { w with search := some search' } := by
  obtain ⟨known, allowed, inside⟩ := inv.search search sought
  refine ⟨inv.works, inv.oldest, fun _ same => ?_⟩
  cases same
  exact ⟨Nat.le_trans oldest known, op ▸ allowed, inside⟩

theorem TxnInv.writeMeta (inv : TxnInv s) (txn : s.txn = some w) (phase : w.phase = .saved []) :
    TxnInv { s with
      metas := Function.update s.metas (toggle w.pages.txnid) ⟨w.pages.writeMeta, w.view⟩
      txn := some { w with phase := .written, metab := (s.metas (toggle w.pages.txnid)).txnid } } := by
  have writer := inv.writer w txn
  have works := writer.works
  rw [Writer.Works, phase] at works
  obtain ⟨txnid, own, _, accounts⟩ := works
  constructor
  case onPage => exact OnPage.update inv.onPage (.inr rfl)
  case published => exact inv.published.congr (update_toggle txnid _ _)
  case oldest => exact inv.oldest
  case locked => exact fun _ => inv.locked (by simp [txn])
  case writer =>
    intro w' same
    cases same
    have works' : Writer.Works s.mtiTxnid { w with phase := .written } := txnid
    obtain ⟨_, oldest, search⟩ := writer.goesTo (by rw [phase]; rfl) works'
    exact ⟨txnid, oldest, search⟩
  case written =>
    intro w' same _
    cases same
    refine ⟨?_, inv.onPage _⟩
    rw [← txnid]
    constructor
    case top =>
      simp only [Function.update_self]
      rfl
    case accounts =>
      simp only [Function.update_self]
      exact accounts
    case own =>
      simp only [Function.update_self]
      exact own

theorem TxnInv.publish (inv : TxnInv s) (txn : s.txn = some w) (phase : w.phase = .written) :
    TxnInv { s with mtiTxnid := w.pages.txnid, txn := some { w with phase := .published } } := by
  have writer := inv.writer w txn
  have works := writer.works
  rw [Writer.Works, phase] at works
  have txnid : w.pages.txnid = s.mtiTxnid + 1 := works
  constructor
  case onPage => exact inv.onPage
  case published =>
    have written := (inv.written w txn phase).1
    rw [← txnid] at written
    exact written.congr rfl
  case oldest => exact fun pid => Nat.le_trans (inv.oldest pid) (by simp only; omega)
  case locked => exact fun _ => inv.locked (by simp [txn])
  case writer =>
    intro w' same
    cases same
    have none_sought := writer.not_searching (by rw [phase]; rfl)
    exact ⟨trivial, Nat.le_trans writer.oldest (by simp only; omega),
      fun search sought => absurd sought (none_sought search)⟩
  case written =>
    intro w' same written
    cases same
    cases written

/-- The new meta page is taken back. -/
theorem TxnInv.metaBack (inv : TxnInv s) (txn : s.txn = some w) (phase : w.phase = .written) (m : Version β) :
    TxnInv { s with
      metas := Function.update s.metas (toggle w.pages.txnid) { m with txnid := w.metab }
      metaLeft := some .old
      txn := some { w with phase := .metaFailed } } := by
  have writer := inv.writer w txn
  have works := writer.works
  rw [Writer.Works, phase] at works
  have txnid : w.pages.txnid = s.mtiTxnid + 1 := works
  constructor
  case onPage => exact OnPage.update inv.onPage (inv.written w txn phase).2
  case published => exact inv.published.congr (update_toggle txnid _ _)
  case oldest => exact inv.oldest
  case locked => exact fun _ => inv.locked (by simp [txn])
  case writer =>
    intro w' same
    cases same
    exact writer.goesTo (by rw [phase]; rfl) trivial
  case written =>
    intro w' same written
    cases same
    cases written

theorem WriterInv.unwritten {mtiTxnid : ℕ} (inv : WriterInv mtiTxnid w) {search : Search}
    (sought : w.search = some search) : w.phase ≠ .written :=
  (Phase.flushes_ne (Phase.flushes_of_inDb (inv.search search sought).2.2)).1

/-- One case for each step of the write transaction. -/
theorem TxnInv.writerStep (inv : TxnInv s) (txn : s.txn = some w) {action : TxnAction β}
    (moved : s.writerStep limits pid w action = some s') : TxnInv s' := by
  have writer := inv.writer w txn
  have works := writer.works
  revert moved
  fun_cases TxnInfo.writerStep limits s pid w action <;> intro moved <;> cases moved
  case case1 op freeDbi inside allowed =>
    refine inv.goesOn txn rfl rfl rfl rfl inv.oldest ?_ (Writer.after_phase (by simp [inside]) _ _)
    exact writer.after limits.maxpg s.mtiNumreaders inside allowed.2 (by simp)
  case case4 freeDbi op seen oldest sought inside =>
    obtain ⟨known, allowed, _⟩ := writer.search _ sought
    have looked (bound : ℕ) (same : some oldest = some bound) : bound ≤ s.mtiTxnid := by
      cases same
      exact known
    refine inv.goesOn txn rfl rfl rfl rfl (fun q => ?_) ?_ (Writer.after_phase (by simp [inside]) _ _)
    · by_cases itself : q = pid
      · rw [itself]
        simpa using known
      · simpa [itself] using inv.oldest q
    · exact writer.after limits.maxpg s.mtiNumreaders inside allowed looked
  case case5 op i oldest sought search =>
    have unwritten := writer.unwritten sought
    refine inv.goesOn txn rfl rfl rfl rfl inv.oldest (writer.look sought ?_ ?_) unwritten
    · simp only [search]
      split <;> rfl
    · simp only [search]
      split <;> exact Nat.le_refl _
  case case6 op i oldest sought lower =>
    have unwritten := writer.unwritten sought
    refine inv.goesOn txn rfl rfl rfl rfl inv.oldest (writer.look sought rfl ?_) unwritten
    simp only [lower]
    cases (s.mtiReaders i).txnid with
    | none => exact Nat.le_refl _
    | some mr => exact Nat.min_le_left _ _
  case case8 p x both =>
    have unwritten : w.phase ≠ .written := by
      intro phase
      simp [phase, Phase.writes] at both
    exact inv.goesOn txn rfl rfl rfl rfl inv.oldest ⟨works, writer.oldest, writer.search⟩ unwritten
  case case10 none_sought phase =>
    have saves : w.Saves limits (saveStart w.pages) := .inl ⟨phase, rfl⟩
    exact inv.goesOn txn rfl rfl rfl rfl inv.oldest (writer.saving none_sought saves).1 (Writer.saving_phase _)
  case case11 none_sought stage v phase =>
    have saves : w.Saves limits (saveStep limits.maxfree1pg v w.pages stage) := .inr ⟨stage, v, phase, rfl⟩
    exact inv.goesOn txn rfl rfl rfl rfl inv.oldest (writer.saving none_sought saves).1 (Writer.saving_phase _)
  case case14 mp unflushed phase member =>
    rw [Writer.Works, phase] at works
    obtain ⟨txnid, own, dirty, accounts⟩ := works
    refine inv.goesOn txn rfl rfl rfl rfl inv.oldest (writer.goesTo (by rw [phase]; rfl) ?_) (by simp)
    exact ⟨txnid, own, List.Subset.trans List.erase_subset dirty, accounts⟩
  case case17 rc image all =>
    exact inv.goesOn txn rfl rfl rfl rfl inv.oldest ⟨trivial, writer.oldest, by simp [all.2.1]⟩ (by simp)
  case case19 phase => exact inv.writeMeta txn phase
  case case21 phase =>
    exact inv.goesOn txn rfl rfl rfl rfl inv.oldest (writer.goesTo (by rw [phase]; rfl) trivial) (by simp)
  case case23 m both => exact inv.metaBack txn both.2 m
  case case25 phase => exact inv.goesOn txn txn rfl rfl rfl inv.oldest writer (by simp [phase])
  case case27 phase => exact inv.publish txn phase

theorem TxnInv.table (inv : TxnInv s) (readers : ℕ → MdbReader ι) (numreaders : ℕ) (rmutex : Option ι) :
    TxnInv { s with mtiReaders := readers, mtiNumreaders := numreaders, rmutex := rmutex } where
  onPage := inv.onPage
  published := inv.published.congr rfl
  oldest := inv.oldest
  locked := inv.locked
  writer := inv.writer
  written := fun w txn written => ⟨(inv.written w txn written).1.congr rfl, (inv.written w txn written).2⟩

theorem TxnInv.setReader (inv : TxnInv s) (i : ℕ) (r : MdbReader ι) : TxnInv (s.setReader i r) := inv.table _ _ _

/-- `mdb_txn_renew0` of a write transaction. -/
theorem TxnInv.beginWrite (inv : TxnInv s) (id : ι) {pages : TxnPages}
    (renewed : pages = txnRenew0 s.mtiTxnid (s.metas (toggle s.mtiTxnid)).toMdbMeta (s.pgoldest pid)) :
    TxnInv { s with wmutex := some id, txn := some ⟨pages, s.map, .active, none, 0⟩ } := by
  have accounts := inv.published.accounts (s.pgoldest pid) (inv.oldest pid)
  constructor
  case onPage => exact inv.onPage
  case published => exact inv.published.congr rfl
  case oldest => exact inv.oldest
  case locked => simp
  case writer =>
    intro w same
    cases same
    rw [renewed]
    refine ⟨⟨rfl, accounts, fun r member => ?_, fun some_last => absurd rfl some_last⟩, inv.oldest pid, by simp⟩
    exact Nat.lt_succ_of_le (inv.published.own r member)
  case written =>
    intro w same written
    cases same
    cases written

/-- `mdb_txn_end` of the write transaction. -/
theorem TxnInv.endWrite (inv : TxnInv s) : TxnInv { s with wmutex := none, txn := none } where
  onPage := inv.onPage
  published := inv.published.congr rfl
  oldest := inv.oldest
  locked := by simp
  writer := by simp
  written := by simp

theorem Actor.step_txn {a a' : Actor ι β} (inv : TxnInv s) {action : TxnAction β}
    (moved : a.step limits s action = some (s', a')) : TxnInv s' := by
  revert moved
  fun_cases Actor.step limits s a action <;> intro moved
  all_goals first
    | cases moved; done
    | skip
  case case26 =>
    cases moved
    exact inv.beginWrite _ rfl
  case case28 =>
    cases moved
    exact inv.endWrite
  case case31 =>
    obtain ⟨w, txn, moved, rfl⟩ := writing_step moved
    exact inv.writerStep txn moved
  case case1 | case9 | case11 | case12 =>
    cases moved
    exact inv.table _ _ _
  case case6 | case7 | case8 | case10 | case16 | case19 | case22 | case23 | case24 =>
    cases moved
    exact inv.setReader _ _
  all_goals
    cases moved
    exact inv

/-- What a step does to the meta pages: the published one stays, and the other one is written
or taken back. -/
structure Commits (s s' : TxnInfo ι β) : Prop where
  grows : s.mtiTxnid ≤ s'.mtiTxnid
  published : s'.metas (toggle s.mtiTxnid) = s.metas (toggle s.mtiTxnid)
  next : s'.metas = s.metas ∧ s'.metaLeft = s.metaLeft ∨
    s.mtiTxnid + 1 ≤ (s'.metas (toggle (s.mtiTxnid + 1))).txnid ∨ s'.metaLeft = some .old

theorem Commits.same (mtiTxnid : s'.mtiTxnid = s.mtiTxnid) (metas : s'.metas = s.metas)
    (left : s'.metaLeft = s.metaLeft) : Commits s s' where
  grows := Nat.le_of_eq mtiTxnid.symm
  published := by rw [metas]
  next := .inl ⟨metas, left⟩

theorem TxnInv.writerStep_commits (inv : TxnInv s) (txn : s.txn = some w) {action : TxnAction β}
    (moved : s.writerStep limits pid w action = some s') : Commits s s' := by
  have works := (inv.writer w txn).works
  rw [Writer.Works] at works
  revert moved
  fun_cases TxnInfo.writerStep limits s pid w action <;> intro moved <;> cases moved
  case case19 phase =>
    rw [phase] at works
    have txnid : w.pages.txnid = s.mtiTxnid + 1 := works.1
    refine ⟨Nat.le_refl _, update_toggle txnid _ _, .inr (.inl ?_)⟩
    rw [← txnid]
    simp only [Function.update_self]
    exact Nat.le_refl _
  case case21 phase =>
    exact ⟨Nat.le_refl _, rfl, .inr (.inl (Nat.le_of_eq (inv.written w txn phase).1.top.symm))⟩
  case case23 m both =>
    rw [both.2] at works
    exact ⟨Nat.le_refl _, update_toggle works _ _, .inr (.inr rfl)⟩
  case case27 phase =>
    rw [phase] at works
    have txnid : w.pages.txnid = s.mtiTxnid + 1 := works
    exact ⟨by simp only; omega, rfl, .inl ⟨rfl, rfl⟩⟩
  all_goals exact .same rfl rfl rfl

theorem Actor.step_commits {a a' : Actor ι β} (inv : TxnInv s) {action : TxnAction β}
    (moved : a.step limits s action = some (s', a')) : Commits s s' := by
  revert moved
  fun_cases Actor.step limits s a action <;> intro moved
  case case31 =>
    obtain ⟨w, txn, moved, rfl⟩ := writing_step moved
    exact inv.writerStep_commits txn moved
  all_goals
    cases moved
  all_goals exact .same rfl rfl rfl

theorem TxnInfo.le_pickMeta (s : TxnInfo ι β) (b : Bool) : (s.metas b).txnid ≤ s.pickMeta.txnid := by
  rw [TxnInfo.pickMeta]
  cases newer : decide ((s.metas false).txnid < (s.metas true).txnid) <;> cases b <;>
    simp only [decide_eq_true_eq, decide_eq_false_iff_not] at newer <;> omega

/-- The published version is picked, unless there is a newer one. -/
theorem TxnInv.picked (inv : TxnInv s) (le : s.pickMeta.txnid ≤ s.mtiTxnid) :
    s.pickMeta = s.metas (toggle s.mtiTxnid) := by
  have top := inv.published.top
  have first := Nat.le_trans (s.le_pickMeta false) le
  have second := Nat.le_trans (s.le_pickMeta true) le
  rw [TxnInfo.pickMeta]
  congr 1
  cases page : toggle s.mtiTxnid with
  | true =>
    rw [page] at top
    have odd : s.mtiTxnid % 2 = 1 := of_decide_eq_true page
    have other : (s.metas false).txnid ≠ s.mtiTxnid := by
      intro same
      rcases inv.onPage false with zero | even
      · omega
      · rw [same, page] at even
        cases even
    simp only [decide_eq_true_eq]
    omega
  | false =>
    rw [page] at top
    simp only [decide_eq_false_iff_not]
    omega

/-- What is left of a published version: all of its meta page, until the second newer version is
written there or was to be. -/
structure Lasts (s s' : TxnInfo ι β) : Prop where
  grows : s.mtiTxnid ≤ s'.mtiTxnid
  newest : s'.mtiTxnid = s.mtiTxnid → s'.metas (toggle s.mtiTxnid) = s.metas (toggle s.mtiTxnid)
  former : s'.metas (toggle s.mtiTxnid) = s.metas (toggle s.mtiTxnid) ∨ s.mtiTxnid + 2 ≤ s'.pickMeta.txnid ∨
    s'.metaLeft = some .old

theorem Lasts.refl (s : TxnInfo ι β) : Lasts s s := ⟨Nat.le_refl _, fun _ => rfl, .inl rfl⟩

theorem Lasts.step {s'' : TxnInfo ι β} (lasts : Lasts s s') (commits : Commits s' s'') : Lasts s s'' := by
  have grows := lasts.grows
  have onward := commits.grows
  have newest (unchanged : s'.mtiTxnid = s.mtiTxnid) :
      s''.metas (toggle s.mtiTxnid) = s.metas (toggle s.mtiTxnid) := by
    have published := commits.published
    rw [unchanged] at published
    exact published.trans (lasts.newest unchanged)
  refine ⟨Nat.le_trans grows onward, fun unchanged => newest (by omega), ?_⟩
  rcases commits.next with ⟨metas, left⟩ | written | taken
  · rw [TxnInfo.pickMeta, metas, left]
    exact lasts.former
  · by_cases unchanged : s'.mtiTxnid = s.mtiTxnid
    · exact .inl (newest unchanged)
    · have picked := s''.le_pickMeta (toggle (s'.mtiTxnid + 1))
      exact .inr (.inl (by omega))
  · exact .inr (.inr taken)

end Txn

section Runs

variable {c d : Config ι (TxnInfo ι β) (Actor ι β)} {limits : Limits}
  {P : Guard ι (TxnInfo ι β) (Actor ι β) (TxnAction β)}

theorem Created.txnInv (created : Created c) : TxnInv c.shared := by
  obtain ⟨map, same⟩ := created.shared
  rw [same]
  constructor
  case onPage => exact fun _ => .inl rfl
  case published => exact ⟨rfl, accounts_init, by simp [TxnInfo.init]⟩
  case oldest => exact fun _ => Nat.le_refl _
  case locked => exact fun some_txn => absurd rfl some_txn
  case writer | written => simp [TxnInfo.init]

theorem Created.txnInv_run (created : Created c) (run : Run (txnSteps limits) P c d) : TxnInv d.shared :=
  run.invariant (I := fun c => TxnInv c.shared) created.txnInv fun _ before step => Actor.step_txn before step.moves

theorem TxnInv.lasts_run {d e : Config ι (TxnInfo ι β) (Actor ι β)} (inv : TxnInv d.shared)
    (later : Run (txnSteps limits) P d e) : Lasts d.shared e.shared :=
  (later.invariant (I := fun e => TxnInv e.shared ∧ Lasts d.shared e.shared) ⟨inv, .refl _⟩ fun _ before step =>
    ⟨Actor.step_txn before.1 step.moves, before.2.step (Actor.step_commits before.1 step.moves)⟩).2

end Runs

end SamLmdb
