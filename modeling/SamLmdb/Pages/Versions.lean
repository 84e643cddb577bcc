import SamLmdb.Lib.Interleaving
import SamLmdb.Pages.Flush

/-!
Readers and the writer of one environment, step by step.

An actor is a transaction with its slot, or a thread with its own where `MDB_NOTLS` is not
set: each access to the reader table, to `mti_txnid` and to a meta page is a step, and so is
each read of `mdb_find_oldest`. A version is what a meta page says, with what the transaction
that wrote it had on its pages. Nested transactions, `ENOMEM`, a copy of a meta page that is
torn, `MDB_PREVSNAPSHOT` and `MDB_NOLOCK` are left out.
-/

namespace SamLmdb

open Interleaving

/-- `MDB_reader`; the ID is `none` for `(txnid_t)-1`. -/
structure MdbReader (ι : Type) where
  pid : ℕ
  tid : Option ι
  txnid : Option ℕ

structure Version (β : Type) extends MdbMeta where
  content : ℕ → β

/-- A run of `mdb_find_oldest` for an operation: the slots left, whether the next one's
`mr_pid` has been seen, and `oldest`. -/
structure Search where
  op : PageOp
  left : ℕ
  seen : Bool
  oldest : ℕ
  deriving DecidableEq, Repr

inductive Phase where
  | active
  | saving (stage : SaveStage) (v : SaveVars)
  | saved (unflushed : List MdbPage)
  | written
  | published
  | metaFailed
  | failed (rc : ℤ)
  | asserted
  deriving DecidableEq, Repr

/-- The write transaction, with what it reads on each page: what it has written there, or
else what it found. `metab` is the `mm_txnid` that its meta page had before. -/
structure Writer (β : Type) where
  pages : TxnPages
  view : ℕ → β
  phase : Phase
  search : Option Search
  metab : ℕ

/-- The `mm_txnid` that is on a meta page after a write of it has failed. -/
inductive MetaLeft where
  | old | new
  deriving DecidableEq, Repr

/-- `MDB_txninfo`, the meta pages and the map, `me_pgoldest` and `MDB_FATAL_ERROR` of each
process, and the transaction of the one that holds `wmutex`. What a failed write of a meta
page has left there, `metaLeft`, is stored nowhere. -/
structure TxnInfo (ι β : Type) where
  mtiTxnid : ℕ
  mtiNumreaders : ℕ
  mtiReaders : ℕ → MdbReader ι
  rmutex : Option ι
  wmutex : Option ι
  pgoldest : ℕ → ℕ
  metas : Bool → Version β
  map : ℕ → β
  fatalError : ℕ → Bool
  metaLeft : Option MetaLeft
  txn : Option (Writer β)

inductive Claim where
  | clearPid | clearTxnid | setTid | countSlot | setPid
  deriving DecidableEq, Repr

inductive TxnPoint (β : Type) where
  | outside
  | seeking (i nr : ℕ)
  | claiming (next : Claim) (i nr : ℕ)
  | claimed (i : ℕ)
  | full
  | parked (i : ℕ) -- the slot is kept for the next transaction
  | renewing (i : ℕ)
  | loaded (i txnid : ℕ)
  | stored (i txnid : ℕ)
  | settled (i txnid : ℕ)
  | reading (i txnid : ℕ) (version : Version β)
  | ended (i : ℕ)
  | badRslot (i : ℕ)
  | writing

structure Actor (ι β : Type) where
  id : ι
  pid : ℕ
  point : TxnPoint β

structure Limits where
  maxreaders : ℕ
  maxpg : ℕ
  maxfree1pg : ℕ
  writemap : Bool

inductive TxnAction (β : Type) where
  | lockReaders | seek | claim | unlockReaders | renew | load | store | compare | copyMeta
  | endRead (endSlot : Bool)
  | leaveSlot
  | beginWrite
  | pageOp (op : PageOp)
  | search
  | write (p : ℕ) (x : β)
  | save
  | flush (mp : MdbPage)
  | flushFails (rc : ℤ) (image : ℕ → β)
  | writeMeta
  | metaFails (left : Option (Version β)) -- what it leaves, `none` for the new data
  | setFatal
  | publish | endWrite

/-- The steps at which a transaction takes over a version. -/
def TxnAction.begins {β : Type} : TxnAction β → Bool
  | .copyMeta | .beginWrite => true
  | _ => false

def toggle (txnid : ℕ) : Bool := txnid % 2 = 1

/-- Where the code on top works on pages, and whether it does so in `FREE_DBI`. -/
def Phase.inDb : Phase → Option Bool
  | .active => some false
  | .saving .top _ => none
  | .saving _ _ => some true
  | _ => none

/-- The dirty pages that may still be written to the map. -/
def Writer.unflushed {β : Type} (w : Writer β) : List MdbPage :=
  match w.phase with
  | .active | .saving _ _ => w.pages.dirtyList
  | .saved unflushed => unflushed
  | _ => []

/-- Whether the transaction may write to its pages. -/
def Phase.writes : Phase → Bool
  | .active | .saving _ _ => true
  | _ => false

/-- Whether `mdb_page_flush` may be called. -/
def Phase.flushes : Phase → Bool
  | .active | .saving _ _ | .saved _ => true
  | _ => false

def Phase.ends : Phase → Bool
  | .written | .asserted => false
  | _ => true

/-- The transaction after a page operation. -/
def Writer.after {β : Type} (w : Writer β) (op : PageOp) (numreaders : ℕ) : PageOutcome TxnPages → Writer β
  | .done pages => { w with pages := pages, search := none }
  | .awaitsOldest => { w with search := some ⟨op, numreaders, false, w.pages.txnid - 1⟩ }
  | .failed rc => { w with phase := .failed rc, search := none }
  | .asserts => { w with phase := .asserted, search := none }

/-- The transaction after a step of `mdb_freelist_save`. -/
def Writer.saving {β : Type} (w : Writer β) : Saving → Writer β
  | .at stage v pages => { w with pages := pages, phase := .saving stage v }
  | .saved pages => { w with pages := pages, phase := .saved (pages.unflushed w.pages.loosePgs) }
  | .failed rc => { w with phase := .failed rc }
  | .asserts => { w with phase := .asserted }

variable {ι β : Type}

namespace TxnInfo

def setReader (s : TxnInfo ι β) (i : ℕ) (r : MdbReader ι) : TxnInfo ι β :=
  { s with mtiReaders := Function.update s.mtiReaders i r }

/-- `mdb_env_pick_meta` without `MDB_PREVSNAPSHOT`. -/
def pickMeta (s : TxnInfo ι β) : Version β := s.metas ((s.metas false).txnid < (s.metas true).txnid)

/-- A step of the write transaction, other than its begin and end. -/
def writerStep (limits : Limits) (s : TxnInfo ι β) (pid : ℕ)
    (w : Writer β) : TxnAction β → Option (TxnInfo ι β)
  | .pageOp op =>
    match w.phase.inDb with
    | some freeDbi =>
      if w.search = none ∧ op.Allowed w.pages then
        some { s with
          map := mdbPageFlush w.view s.map op.flushed
          txn := some (w.after op s.mtiNumreaders (op.run limits.maxpg freeDbi none w.pages)) }
      else none
    | none => none
  | .search =>
    match w.phase.inDb, w.search with
    | some freeDbi, some ⟨op, 0, _, oldest⟩ =>
      some { s with
        pgoldest := Function.update s.pgoldest pid oldest
        map := mdbPageFlush w.view s.map op.flushed
        txn := some (w.after op s.mtiNumreaders (op.run limits.maxpg freeDbi (some oldest) w.pages)) }
    | _, some ⟨op, i + 1, false, oldest⟩ =>
      let search := if (s.mtiReaders i).pid ≠ 0 then ⟨op, i + 1, true, oldest⟩ else ⟨op, i, false, oldest⟩
      some { s with txn := some { w with search := some search } }
    | _, some ⟨op, i + 1, true, oldest⟩ =>
      let oldest := (s.mtiReaders i).txnid.elim oldest (min oldest)
      some { s with txn := some { w with search := some ⟨op, i, false, oldest⟩ } }
    | _, _ => none
  | .write p x =>
    if w.phase.writes ∧ p ∈ pagesOf w.pages.dirtyList then
      some { s with
        map := if limits.writemap then Function.update s.map p x else s.map
        txn := some { w with view := Function.update w.view p x } }
    else none
  | .save =>
    if w.search = none then
      match w.phase with
      | .active => some { s with txn := some (w.saving (saveStart w.pages)) }
      | .saving stage v => some { s with txn := some (w.saving (saveStep limits.maxfree1pg v w.pages stage)) }
      | _ => none
    else none
  | .flush mp =>
    match w.phase with
    | .saved unflushed =>
      if mp ∈ unflushed then
        some { s with
          map := mdbPageFlush w.view s.map [mp]
          txn := some { w with phase := .saved (unflushed.erase mp) } }
      else none
    | _ => none
  | .flushFails rc image =>
    -- `mdb_page_spill` and `mdb_txn_commit` come here; pages may have been written, in part too
    if limits.writemap = false ∧ w.search = none ∧ w.phase.flushes then
      some { s with
        map := mdbPageFlush image s.map w.unflushed
        txn := some { w with phase := .failed rc } }
    else none
  | .writeMeta =>
    -- the new data can be seen, also where the write is going to fail
    if w.phase = .saved [] then
      some { s with
        metas := Function.update s.metas (toggle w.pages.txnid) ⟨w.pages.writeMeta, w.view⟩
        txn := some { w with phase := .written, metab := (s.metas (toggle w.pages.txnid)).txnid } }
    else none
  | .metaFails none =>
    if w.phase = .written then
      some { s with metaLeft := some .new, txn := some { w with phase := .metaFailed } }
    else none
  | .metaFails (some m) =>
    -- the old `mm_txnid` is written back
    if limits.writemap = false ∧ w.phase = .written then
      some { s with
        metas := Function.update s.metas (toggle w.pages.txnid) { m with txnid := w.metab }
        metaLeft := some .old
        txn := some { w with phase := .metaFailed } }
    else none
  | .setFatal =>
    if w.phase = .metaFailed then some { s with fatalError := Function.update s.fatalError pid true } else none
  | .publish =>
    if w.phase = .written then
      some { s with mtiTxnid := w.pages.txnid, txn := some { w with phase := .published } }
    else none
  | _ => none

end TxnInfo

namespace Actor

def goes (a : Actor ι β) (point : TxnPoint β) : Actor ι β := { a with point := point }

def step (limits : Limits) (s : TxnInfo ι β) (a : Actor ι β)
    (action : TxnAction β) : Option (TxnInfo ι β × Actor ι β) :=
  match a.point, action with
  | .outside, .lockReaders =>
    if s.rmutex = none then some ({ s with rmutex := some a.id }, a.goes (.seeking 0 s.mtiNumreaders)) else none
  | .seeking i nr, .seek =>
    if i < nr ∧ (s.mtiReaders i).pid ≠ 0 then some (s, a.goes (.seeking (i + 1) nr))
    else if i = limits.maxreaders then some (s, a.goes .full)
    else some (s, a.goes (.claiming .clearPid i nr))
  | .claiming .clearPid i nr, .claim =>
    some (s.setReader i { s.mtiReaders i with pid := 0 }, a.goes (.claiming .clearTxnid i nr))
  | .claiming .clearTxnid i nr, .claim =>
    some (s.setReader i { s.mtiReaders i with txnid := none }, a.goes (.claiming .setTid i nr))
  | .claiming .setTid i nr, .claim =>
    some (s.setReader i { s.mtiReaders i with tid := some a.id }, a.goes (.claiming .countSlot i nr))
  | .claiming .countSlot i nr, .claim =>
    some ({ s with mtiNumreaders := if i = nr then nr + 1 else s.mtiNumreaders }, a.goes (.claiming .setPid i nr))
  | .claiming .setPid i _, .claim => some (s.setReader i { s.mtiReaders i with pid := a.pid }, a.goes (.claimed i))
  | .claimed i, .unlockReaders => some ({ s with rmutex := none }, a.goes (.renewing i))
  | .full, .unlockReaders => some ({ s with rmutex := none }, a.goes .outside)
  | .parked i, .renew =>
    if (s.mtiReaders i).pid ≠ a.pid ∨ (s.mtiReaders i).txnid ≠ none then some (s, a.goes (.badRslot i))
    else some (s, a.goes (.renewing i))
  | .renewing i, .load => some (s, a.goes (.loaded i s.mtiTxnid))
  | .loaded i txnid, .store =>
    some (s.setReader i { s.mtiReaders i with txnid := some txnid }, a.goes (.stored i txnid))
  | .stored i txnid, .compare =>
    if (s.mtiReaders i).txnid = some s.mtiTxnid then some (s, a.goes (.settled i txnid))
    else some (s, a.goes (.renewing i))
  | .settled i txnid, .copyMeta =>
    -- `MDB_PANIC`
    if s.fatalError a.pid then some (s.setReader i { s.mtiReaders i with txnid := none }, a.goes (.parked i))
    else some (s, a.goes (.reading i txnid (s.metas (toggle txnid))))
  | .reading _ _ _, .renew => some (s, a) -- `MDB_BAD_RSLOT`: the thread has one already
  | .reading i _ _, .endRead endSlot =>
    some (s.setReader i { s.mtiReaders i with txnid := none }, a.goes (if endSlot then .ended i else .parked i))
  | .ended i, .leaveSlot => some (s.setReader i { s.mtiReaders i with pid := 0 }, a.goes .outside)
  | .parked i, .leaveSlot => some (s.setReader i { s.mtiReaders i with pid := 0 }, a.goes .outside)
  | .outside, .beginWrite =>
    if s.fatalError a.pid then some (s, a) -- `MDB_PANIC`
    else if s.wmutex = none then
      let pages := txnRenew0 s.mtiTxnid (s.metas (toggle s.mtiTxnid)).toMdbMeta (s.pgoldest a.pid)
      some ({ s with wmutex := some a.id, txn := some ⟨pages, s.map, .active, none, 0⟩ }, a.goes .writing)
    else none
  | .writing, .endWrite =>
    match s.txn with
    | some w =>
      -- `mdb_env_write_meta` has set `MDB_FATAL_ERROR` before it returns
      if w.phase.ends ∧ w.search = none ∧ (w.phase = .metaFailed → s.fatalError a.pid) then
        some ({ s with wmutex := none, txn := none }, a.goes .outside)
      else none
    | none => none
  | .writing, action => s.txn.bind fun w => (s.writerStep limits a.pid w action).map fun s => (s, a)
  | _, _ => none

end Actor

def txnSteps (limits : Limits) : LocalStep (TxnInfo ι β) (Actor ι β) (TxnAction β) := ofFun (Actor.step limits)

/-- A process stops at its own `MDB_FATAL_ERROR` and cannot see another's: once the write of
a meta page has failed in one process, no transaction begins in another. -/
def heedsFatalError : Guard ι (TxnInfo ι β) (Actor ι β) (TxnAction β) := fun c j action =>
  action.begins → c.shared.metaLeft.isSome → c.shared.fatalError (c.threads j).pid

instance heedsFatalErrorDecidable (c : Config ι (TxnInfo ι β) (Actor ι β)) (j : ι) (action : TxnAction β) :
    Decidable (heedsFatalError c j action) :=
  inferInstanceAs (Decidable (_ → _ → _))

/-- A new environment: what `mdb_env_init_meta` writes, and an empty lock file. -/
def TxnInfo.init (map : ℕ → β) : TxnInfo ι β where
  mtiTxnid := 0
  mtiNumreaders := 0
  mtiReaders := fun _ => ⟨0, none, none⟩
  rmutex := none
  wmutex := none
  pgoldest := fun _ => 0
  metas := fun _ => ⟨⟨0, 1, [], []⟩, map⟩
  map := map
  fatalError := fun _ => false
  metaLeft := none
  txn := none

/-- All transactions are still to begin. -/
structure Created (c : Config ι (TxnInfo ι β) (Actor ι β)) : Prop where
  shared : ∃ map, c.shared = .init map
  actors : ∀ j, (c.threads j).id = j ∧ (c.threads j).pid ≠ 0 ∧ (c.threads j).point = .outside

end SamLmdb
