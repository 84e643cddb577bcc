import Mathlib.Data.Int.Order.Basic
import SamLmdb.Pages.Effect

/-!
`mdb_freelist_save` writes the free pages to records of `FREE_DBI`, which takes pages and
frees others while it does so. A stage is a place in its body; where one is within a cursor
call, the call's page operations come before it moves on.
-/

namespace SamLmdb

section Records

def putRecord (record : FreeRecord) : List FreeRecord → List FreeRecord
  | [] => [record]
  | first :: others =>
    if record.id < first.id then record :: first :: others
    else if record.id = first.id then record :: others
    else first :: putRecord record others

/-- The last loop, over the records from the first on, with the IDs that are still to be filled in. -/
def fillRecords (pglast : ℕ) : List FreeRecord → List ℕ → PageOutcome (List FreeRecord)
  | records, [] => .done records
  | [], _ :: _ => .failed mdbNotfound
  | record :: records, id :: ids =>
    let mop := id :: ids
    if record.id ≤ pglast then
      let len := min record.room mop.length
      (fillRecords pglast records (mop.take (mop.length - len))).bind fun records =>
        .done ({ record with room := len, ids := mop.drop (mop.length - len) } :: records)
    else .asserts

end Records

structure SaveVars where
  pglast : ℕ
  headId : ℕ
  freecnt : ℕ
  headRoom : ℤ
  totalRoom : ℤ
  more : ℤ
  deriving DecidableEq, Repr

inductive SaveStage where
  | touchFirst -- in the first `mdb_page_search`
  | top -- where the loop starts over
  | deleting -- in `mdb_cursor_del`
  | touchLast -- in the other `mdb_page_search`
  | puttingFree -- in the `mdb_cursor_put` of `mt_free_pgs`
  | puttingHead -- in the `mdb_cursor_put` of a record for `me_pghead`
  deriving DecidableEq, Repr

inductive Saving where
  | at (stage : SaveStage) (v : SaveVars) (t : TxnPages)
  | saved (t : TxnPages)
  | failed (rc : ℤ)
  | asserts
  deriving DecidableEq, Repr

/-- Loose pages go to `mt_free_pgs` when there is no `me_pghead` to return them to. -/
def looseToFree (t : TxnPages) : PageOutcome TxnPages :=
  if t.pghead = none ∧ t.loosePgs ≠ [] then
    if ∀ p ∈ t.loosePgs, p ∈ t.dirtyList.map (·.pgno) then
      .done { t with
        freePgs := t.freePgs ++ t.loosePgs
        dirtyList := t.dirtyList.filter (·.pgno ∉ t.loosePgs)
        loosePgs := [] }
    else .asserts
  else .done t

/-- After the loop: loose pages return to `me_pghead` and the reserved records are filled in. -/
def saveFinish (t : TxnPages) : Saving :=
  if t.pghead = none ∧ t.loosePgs ≠ [] then .asserts -- there would be no list to return them to
  else
    let mop := if t.loosePgs = [] then t.pghead.getD [] else xmerge (t.pghead.getD []) (midlSort t.loosePgs)
    match fillRecords t.pglast t.freeDb mop with
    | .done freeDb => .saved { t with loosePgs := [], freeDb := freeDb }
    | .failed rc => .failed rc
    | _ => .asserts

/-- `head_room` of the next record, when there are so many IDs without a place. -/
def headRoomFor (maxfree1pg : ℕ) (headId : ℕ) (headRoom : ℤ) : ℤ :=
  if headRoom > maxfree1pg ∧ headId > 1 then headRoom / headId + (maxfree1pg - headRoom / headId % (maxfree1pg + 1))
  else if headRoom < 0 then 0
  else headRoom

/-- The record `head_id` is to be written again, with another room. -/
def saveReserve (maxfree1pg : ℕ) (mopLen : ℤ) (v : SaveVars) (t : TxnPages) : Saving :=
  let totalRoom := v.totalRoom - v.headRoom
  .at .puttingHead { v with totalRoom := totalRoom, headRoom := headRoomFor maxfree1pg v.headId (mopLen - totalRoom) } t

def saveTop (maxfree1pg : ℕ) (v : SaveVars) (t : TxnPages) : Saving :=
  if v.pglast < t.pglast then
    match t.freeDb with
    | [] => .failed mdbNotfound
    | first :: _ =>
      if first.id ≤ t.pglast then
        .at .deleting { v with pglast := first.id, headId := first.id, totalRoom := 0, headRoom := 0 } t
      else .asserts
  else if v.freecnt < t.freePgs.length then
    if v.freecnt = 0 then .at .touchLast v t else .at .puttingFree { v with freecnt := t.freePgs.length } t
  else
    let mopLen : ℤ := (t.pghead.getD []).length + t.loosePgs.length
    if v.totalRoom ≥ mopLen then
      if v.totalRoom = mopLen ∨ v.more - 1 < 0 then saveFinish t
      else saveReserve maxfree1pg mopLen { v with more := v.more - 1 } t
    else if v.headRoom ≥ maxfree1pg ∧ v.headId > 1 then
      -- keep the record and add one before it
      saveReserve maxfree1pg mopLen { v with headId := v.headId - 1, headRoom := 0 } t
    else saveReserve maxfree1pg mopLen v t

/-- From one stage to the next, once the page operations of the cursor call are over. -/
def saveStep (maxfree1pg : ℕ) (v : SaveVars) (t : TxnPages) : SaveStage → Saving
  | .touchFirst => .at .top v t
  | .top => saveTop maxfree1pg v t
  | .deleting => .at .top v { t with freeDb := t.freeDb.filter (·.id ≠ v.pglast) }
  | .touchLast => .at .puttingFree { v with freecnt := t.freePgs.length } t
  | .puttingFree =>
    if v.freecnt < t.freePgs.length then
      .at .puttingFree { v with freecnt := t.freePgs.length }
        { t with freeDb := putRecord ⟨t.txnid, v.freecnt, []⟩ t.freeDb }
    else
      let freePgs := midlSort t.freePgs
      .at .top v { t with freePgs := freePgs, freeDb := putRecord ⟨t.txnid, v.freecnt, freePgs⟩ t.freeDb }
  | .puttingHead =>
    .at .top { v with totalRoom := v.totalRoom + v.headRoom }
      { t with freeDb := putRecord ⟨v.headId, v.headRoom.toNat, []⟩ t.freeDb }

def saveStart (t : TxnPages) : Saving :=
  let v : SaveVars := ⟨0, 0, 0, 0, 0, 1⟩
  if t.pghead ≠ none then .at .touchFirst v t
  else match looseToFree t with
    | .done t => .at .top v t
    | _ => .asserts

end SamLmdb
