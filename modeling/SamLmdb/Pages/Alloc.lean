import Mathlib.Algebra.Group.Nat.Defs
import Mathlib.Data.List.DropRight
import Mathlib.Data.List.Sort
import SamLmdb.Error

/-!
The pages of a write transaction: where mdb.c takes them from and where it puts them.

Lists stand for the ID lists, in the order of their cells. `tree` is what the source does
not store as such, the pages that the databases of the transaction consist of; the free
records are those of `FREE_DBI` as the transaction sees it.
-/

namespace SamLmdb

def midlUmMax : ℕ := 2 ^ 17 - 1

/-- A page with the pages it runs over, more than one for an overflow page. -/
structure MdbPage where
  pgno : ℕ
  pages : ℕ
  deriving DecidableEq, Repr

/-- A record of `FREE_DBI`: its key, the IDs it has room for, and those in it. -/
structure FreeRecord where
  id : ℕ
  room : ℕ
  ids : List ℕ
  deriving DecidableEq, Repr

structure Pgstate where
  pghead : Option (List ℕ)
  pglast : ℕ
  pgoldest : ℕ
  deriving DecidableEq, Repr

structure TxnPages extends Pgstate where
  txnid : ℕ
  nextPgno : ℕ
  freePgs : List ℕ
  loosePgs : List ℕ
  dirtyList : List MdbPage
  dirtyRoom : ℕ
  spillPgs : List MdbPage
  freeDb : List FreeRecord
  tree : List MdbPage
  deriving DecidableEq, Repr

/-- How a call that may need a page ends. -/
inductive PageOutcome (α : Type) where
  | done (a : α)
  | awaitsOldest -- `mdb_find_oldest` has to look first
  | failed (rc : ℤ)
  | asserts -- `mdb_tassert` or `mdb_cassert` fails
  deriving DecidableEq, Repr

def PageOutcome.bind {α β : Type} (x : PageOutcome α) (f : α → PageOutcome β) : PageOutcome β :=
  match x with
  | .done a => f a
  | .awaitsOldest => .awaitsOldest
  | .failed rc => .failed rc
  | .asserts => .asserts

/-- What `mdb_midl_append_range` and `mdb_ovpage_free` write, the highest ID first. -/
def idRange (mp : MdbPage) : List ℕ := (List.range' mp.pgno mp.pages).reverse

def xmerge (idl merge : List ℕ) : List ℕ := idl.merge merge fun x y => decide (x ≥ y)

def midlSort (ids : List ℕ) : List ℕ := ids.mergeSort fun x y => decide (x ≥ y)

theorem xmerge_perm (idl merge : List ℕ) : (xmerge idl merge).Perm (idl ++ merge) := List.merge_perm_append _

theorem xmerge_sorted {idl merge : List ℕ} (left : idl.Pairwise (· ≥ ·)) (right : merge.Pairwise (· ≥ ·)) :
    (xmerge idl merge).Pairwise (· ≥ ·) := by
  have sorted : (xmerge idl merge).Pairwise fun x y => decide (x ≥ y) = true :=
    List.pairwise_merge (by simp; omega) (by simp; omega) idl merge (left.imp (by simp)) (right.imp (by simp))
  exact sorted.imp (by simp)

theorem midlSort_perm (ids : List ℕ) : (midlSort ids).Perm ids := List.mergeSort_perm _ _

theorem midlSort_sorted (ids : List ℕ) : (midlSort ids).Pairwise (· ≥ ·) := by
  have sorted : (midlSort ids).Pairwise fun x y => decide (x ≥ y) = true :=
    List.pairwise_mergeSort (by simp; omega) (by simp; omega) ids
  exact sorted.imp (by simp)

theorem eq_of_descending {ids ids' : List ℕ} (same : ids.Perm ids') (sorted : ids.Pairwise (· ≥ ·))
    (sorted' : ids'.Pairwise (· ≥ ·)) : ids = ids' :=
  same.eq_of_pairwise (fun _ _ _ _ ge ge' => Nat.le_antisymm ge' ge) sorted sorted'

section Alloc

/-- The search for `n2 + 1` contiguous pages, from `i` down; cell `i` is the entry `i - 1`. -/
def seekRange (mop : List ℕ) (n2 : ℕ) : ℕ → Option ℕ
  | 0 => none
  | i + 1 =>
    if n2 < i + 1 then
      if mop.getD (i - n2) 0 = mop.getD i 0 + n2 then some (i + 1) else seekRange mop n2 i
    else none

/-- `if (oldest <= last)`, with `mdb_find_oldest` in it: `me_pgoldest` after it, and whether
the record is too recent. `none` when nothing has been found yet. -/
def tooRecent (found : Option ℕ) (last pgoldest : ℕ) : Option (ℕ × Bool) :=
  if pgoldest ≤ last then found.map fun oldest => (oldest, oldest ≤ last) else some (pgoldest, false)

inductive PagesSought where
  | found (pg : Pgstate) (i : ℕ)
  | newPages (pg : Pgstate)
  | awaitsOldest
  deriving DecidableEq, Repr

/-- The loop of `mdb_page_alloc` over the records that are left. Its `last` and `oldest`
are `me_pglast` and `me_pgoldest` each time it starts over. -/
def allocLoop (num : ℕ) (found : Option ℕ) (records : List FreeRecord) (pg : Pgstate) (retry : ℤ) : PagesSought :=
  match seekRange (pg.pghead.getD []) (num - 1) (pg.pghead.getD []).length with
  | some i => .found pg i
  | none =>
    let retry := if num - 1 < (pg.pghead.getD []).length then retry - 1 else retry
    if num - 1 < (pg.pghead.getD []).length ∧ retry < 0 then .newPages pg
    else match tooRecent found (pg.pglast + 1) pg.pgoldest with
      | none => .awaitsOldest
      | some (pgoldest, true) => .newPages { pg with pgoldest := pgoldest }
      | some (pgoldest, false) =>
        match records with
        | [] => .newPages { pg with pgoldest := pgoldest }
        | record :: records =>
          match tooRecent found record.id pgoldest with
          | none => .awaitsOldest
          | some (pgoldest, true) => .newPages { pg with pgoldest := pgoldest }
          | some (pgoldest, false) =>
            allocLoop num found records ⟨some (xmerge (pg.pghead.getD []) record.ids), record.id, pgoldest⟩ retry

/-- The records the loop's cursor comes to: from the first one, or after `me_pglast`. -/
def recordsLeft (freeDb : List FreeRecord) (pglast : ℕ) : List FreeRecord :=
  if pglast = 0 then freeDb else freeDb.filter (pglast < ·.id)

def mdbPageDirty (t : TxnPages) (mp : MdbPage) : PageOutcome TxnPages :=
  if (∃ other ∈ t.dirtyList, other.pgno = mp.pgno) ∨ midlUmMax ≤ t.dirtyList.length then .asserts
  else .done { t with dirtyList := mp :: t.dirtyList, dirtyRoom := t.dirtyRoom - 1 }

def allocPages (maxpg : ℕ) (found : Option ℕ) (num : ℕ) (t : TxnPages) : PageOutcome (MdbPage × TxnPages) :=
  if t.dirtyRoom = 0 then .failed mdbTxnFull
  else match allocLoop num found (recordsLeft t.freeDb t.pglast) t.toPgstate (num * 60) with
    | .awaitsOldest => .awaitsOldest
    | .found pg i =>
      let mop := pg.pghead.getD []
      let np : MdbPage := ⟨mop.getD (i - 1) 0, num⟩
      (mdbPageDirty { t with toPgstate := { pg with pghead := some (mop.take (i - num) ++ mop.drop i) } } np).bind
        fun t => .done (np, t)
    | .newPages pg =>
      if t.nextPgno + num ≥ maxpg then .failed mdbMapFull
      else
        let np : MdbPage := ⟨t.nextPgno, num⟩
        (mdbPageDirty { t with toPgstate := pg, nextPgno := t.nextPgno + num } np).bind fun t => .done (np, t)

def mdbPageAlloc (maxpg : ℕ) (found : Option ℕ) (num : ℕ) (t : TxnPages) : PageOutcome (MdbPage × TxnPages) :=
  match t.loosePgs with
  | [] => allocPages maxpg found num t
  | np :: loose => if num = 1 then .done (⟨np, 1⟩, { t with loosePgs := loose }) else allocPages maxpg found num t

end Alloc

section Operations

def mdbPageNew (maxpg : ℕ) (found : Option ℕ) (num : ℕ) (t : TxnPages) : PageOutcome TxnPages :=
  (mdbPageAlloc maxpg found num t).bind fun (np, t) => .done { t with tree := np :: t.tree }

/-- `mdb_page_unspill`; nothing happens to a page that is not on the spill list. -/
def mdbPageUnspill (mp : MdbPage) (t : TxnPages) : PageOutcome TxnPages :=
  if mp ∈ t.spillPgs then
    if t.dirtyRoom = 0 then .failed mdbTxnFull
    else mdbPageDirty { t with spillPgs := t.spillPgs.erase mp } mp
  else .done t

def mdbPageTouch (maxpg : ℕ) (found : Option ℕ) (mp : MdbPage) (t : TxnPages) : PageOutcome TxnPages :=
  if mp ∈ t.dirtyList then .done t
  else if mp ∈ t.spillPgs then mdbPageUnspill mp t
  else (mdbPageAlloc maxpg found 1 t).bind fun (np, t) =>
    if mp.pgno = np.pgno then .asserts
    else .done { t with freePgs := t.freePgs ++ [mp.pgno], tree := np :: t.tree.erase mp }

/-- `mdb_page_loose` of a page that its tree no longer has. -/
def mdbPageLoose (freeDbi : Bool) (mp : MdbPage) (t : TxnPages) : TxnPages :=
  let t := { t with tree := t.tree.erase mp }
  if mp ∈ t.dirtyList ∧ ¬ freeDbi then { t with loosePgs := mp.pgno :: t.loosePgs }
  else { t with freePgs := t.freePgs ++ [mp.pgno] }

/-- A page that `mdb_drop0` or `mdb_rebalance` puts on `mt_free_pgs` as it is. -/
def dropPage (mp : MdbPage) (t : TxnPages) : TxnPages :=
  { t with tree := t.tree.erase mp, freePgs := t.freePgs ++ idRange mp }

/-- The pages of `mp` inserted in `me_pghead`. -/
def insertRange (mop : List ℕ) (mp : MdbPage) : List ℕ :=
  mop.rdropWhile (· < mp.pgno) ++ idRange mp ++ mop.rtakeWhile (· < mp.pgno)

def mdbOvpageFree (mp : MdbPage) (t : TxnPages) : TxnPages :=
  let t := { t with tree := t.tree.erase mp }
  match t.pghead with
  | none => { t with freePgs := t.freePgs ++ idRange mp }
  | some mop =>
    if mp ∈ t.dirtyList then
      { t with dirtyList := t.dirtyList.erase mp, dirtyRoom := t.dirtyRoom + 1, pghead := some (insertRange mop mp) }
    else if mp ∈ t.spillPgs then
      { t with spillPgs := t.spillPgs.erase mp, pghead := some (insertRange mop mp) }
    else { t with freePgs := t.freePgs ++ idRange mp }

/-- What `mdb_page_spill` and `mdb_page_flush` do to the lists for the pages they choose. -/
def mdbPageSpill (mps : List MdbPage) (t : TxnPages) : TxnPages :=
  { t with
    dirtyList := t.dirtyList.filter (· ∉ mps)
    dirtyRoom := t.dirtyRoom + mps.length
    spillPgs := mps ++ t.spillPgs }

/-- What the code on top does with pages. -/
inductive PageOp where
  | new (num : ℕ)
  | touch (mp : MdbPage)
  | unspill (mp : MdbPage)
  | loose (mp : MdbPage)
  | drop (mp : MdbPage)
  | ovpageFree (mp : MdbPage)
  | spill (mps : List MdbPage)
  deriving DecidableEq, Repr

/-- The pages it hands in are the transaction's own; spilled ones are dirty and not loose. -/
def PageOp.Allowed (t : TxnPages) : PageOp → Prop
  | .new num => 1 ≤ num
  | .touch mp => mp ∈ t.tree ∧ mp.pages = 1
  | .unspill mp => mp ∈ t.tree
  | .loose mp => mp ∈ t.tree ∧ mp.pages = 1
  | .drop mp => mp ∈ t.tree
  | .ovpageFree mp => mp ∈ t.tree
  | .spill mps => mps.Nodup ∧ ∀ mp ∈ mps, mp ∈ t.dirtyList ∧ mp.pgno ∉ t.loosePgs

instance pageOpAllowed (t : TxnPages) (op : PageOp) : Decidable (op.Allowed t) := by
  cases op <;> unfold PageOp.Allowed <;> infer_instance

/-- An operation in `FREE_DBI` or another database, after `mdb_find_oldest` or before. -/
def PageOp.run (maxpg : ℕ) (freeDbi : Bool) (found : Option ℕ) (t : TxnPages) : PageOp → PageOutcome TxnPages
  | .new num => mdbPageNew maxpg found num t
  | .touch mp => mdbPageTouch maxpg found mp t
  | .unspill mp => mdbPageUnspill mp t
  | .loose mp => .done (mdbPageLoose freeDbi mp t)
  | .drop mp => .done (dropPage mp t)
  | .ovpageFree mp => .done (mdbOvpageFree mp t)
  | .spill mps => .done (mdbPageSpill mps t)

end Operations

/-- What a meta page says of a version of the databases: the pages they and the free records consist of. -/
structure MdbMeta where
  txnid : ℕ
  lastPg : ℕ
  freeDb : List FreeRecord
  tree : List MdbPage
  deriving DecidableEq, Repr

def TxnPages.writeMeta (t : TxnPages) : MdbMeta := ⟨t.txnid, t.nextPgno - 1, t.freeDb, t.tree⟩

/-- The write transaction that `mdb_txn_renew0` sets up on a version, with `mti_txnid` as it is then. -/
def txnRenew0 (mtiTxnid : ℕ) (m : MdbMeta) (pgoldest : ℕ) : TxnPages where
  pghead := none
  pglast := 0
  pgoldest := pgoldest
  txnid := mtiTxnid + 1
  nextPgno := m.lastPg + 1
  freePgs := []
  loosePgs := []
  dirtyList := []
  dirtyRoom := midlUmMax
  spillPgs := []
  freeDb := m.freeDb
  tree := m.tree

end SamLmdb
