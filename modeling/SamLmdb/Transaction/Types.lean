import Mathlib.Data.List.Basic

/-!
Who ends an `MDB_txn`: the three transaction types of src/transaction.rs, the moves of
the raw pointer and of the guard between them, and every call on a pointer they make.
-/

namespace SamLmdb

abbrev TxnPtr := ℕ

abbrev GuardId := ℕ

/-- What reaches LMDB or the transaction counter; `none` is the null pointer.
`value` is the construction of a transaction struct. -/
inductive TxnEvent where
  | begin (txn : TxnPtr) (rdonly : Bool) (parent : Option TxnPtr)
  | commit (txn : Option TxnPtr)
  | abort (txn : Option TxnPtr)
  | reset (txn : Option TxnPtr)
  | renew (txn : Option TxnPtr) (success : Bool)
  | guardNew (guard : GuardId)
  | guardDrop (guard : GuardId)
  | value (txn : Option TxnPtr) (guard : GuardId)
  deriving DecidableEq, Repr

structure RoTransaction where
  txn : Option TxnPtr
  guard : GuardId

structure InactiveTransaction where
  txn : Option TxnPtr
  guard : GuardId

structure RwTransaction where
  txn : Option TxnPtr
  guard : GuardId

/-- `Drop::drop` aborts unless the pointer is null; the fields, with the guard among
them, are dropped after it. -/
def dropUnlessNull (txn : Option TxnPtr) (guard : GuardId) : List TxnEvent :=
  (if txn.isNone then [] else [.abort txn]) ++ [.guardDrop guard]

namespace RoTransaction

def drop (self : RoTransaction) : List TxnEvent := dropUnlessNull self.txn self.guard

def nullify (self : RoTransaction) : RoTransaction := { self with txn := none }

def commit (self : RoTransaction) : List TxnEvent := .commit self.txn :: self.nullify.drop

/-- The guard comes first; on failure it drops on the early return. -/
def new (txn : TxnPtr) (guard : GuardId) (success : Bool) : Option RoTransaction × List TxnEvent :=
  if success then (some ⟨some txn, guard⟩, [.guardNew guard, .begin txn true none, .value (some txn) guard])
  else (none, [.guardNew guard, .guardDrop guard])

/-- The guard is read out and `self` is forgotten, so that nothing drops. -/
def reset (self : RoTransaction) : InactiveTransaction × List TxnEvent :=
  (⟨self.txn, self.guard⟩, [.reset self.txn, .value self.txn self.guard])

end RoTransaction

namespace InactiveTransaction

def drop (self : InactiveTransaction) : List TxnEvent := [.abort self.txn, .guardDrop self.guard]

/-- After a failed renew the pointer is aborted and the local guard drops. -/
def renew (self : InactiveTransaction) (success : Bool) : Option RoTransaction × List TxnEvent :=
  if success then (some ⟨self.txn, self.guard⟩, [.renew self.txn true, .value self.txn self.guard])
  else (none, [.renew self.txn false, .abort self.txn, .guardDrop self.guard])

end InactiveTransaction

namespace RwTransaction

def drop (self : RwTransaction) : List TxnEvent := dropUnlessNull self.txn self.guard

def nullify (self : RwTransaction) : RwTransaction := { self with txn := none }

def commit (self : RwTransaction) : List TxnEvent := .commit self.txn :: self.nullify.drop

def begin (parent : Option TxnPtr) (txn : TxnPtr) (guard : GuardId) (success : Bool) :
    Option RwTransaction × List TxnEvent :=
  if success then (some ⟨some txn, guard⟩, [.begin txn false parent, .guardNew guard, .value (some txn) guard])
  else (none, [])

def new (txn : TxnPtr) (guard : GuardId) (success : Bool) : Option RwTransaction × List TxnEvent :=
  begin none txn guard success

def beginNestedTxn (self : RwTransaction) (txn : TxnPtr) (guard : GuardId) (success : Bool) :
    Option RwTransaction × List TxnEvent :=
  begin self.txn txn guard success

end RwTransaction

/-- A value owned by safe code. A nested transaction borrows the one around it
mutably, so of a write transaction only the innermost one, `txn`, can be used. -/
inductive Owned where
  | ro (txn : RoTransaction)
  | inactive (txn : InactiveTransaction)
  | rw (txn : RwTransaction) (outer : List RwTransaction)

inductive TxnOp where
  | beginRoTxn (success : Bool)
  | beginRwTxn (success : Bool)
  | beginNestedTxn (i : ℕ) (success : Bool)
  | commit (i : ℕ)
  | drop (i : ℕ)
  | reset (i : ℕ)
  | renew (i : ℕ) (success : Bool)
  deriving DecidableEq, Repr

structure Program where
  nextTxn : TxnPtr
  nextGuard : GuardId
  owned : List Owned
  log : List TxnEvent

def Program.start : Program := ⟨0, 0, [], []⟩

def Program.replace (w : Program) (i : ℕ) (values : List Owned) (events : List TxnEvent) : Program :=
  { w with owned := w.owned.take i ++ values ++ w.owned.drop (i + 1), log := w.log ++ events }

def Program.fresh (w : Program) : Program := { w with nextTxn := w.nextTxn + 1, nextGuard := w.nextGuard + 1 }

/-- What is left of a write transaction when its innermost one is gone. -/
def Owned.outward : List RwTransaction → List Owned
  | [] => []
  | txn :: outer => [.rw txn outer]

def Program.step (w : Program) : TxnOp → Option Program
  | .beginRoTxn success =>
    let (txn, events) := RoTransaction.new w.nextTxn w.nextGuard success
    some (w.fresh.replace w.owned.length (txn.toList.map .ro) events)
  | .beginRwTxn success =>
    let (txn, events) := RwTransaction.new w.nextTxn w.nextGuard success
    some (w.fresh.replace w.owned.length (txn.toList.map fun txn => .rw txn []) events)
  | .beginNestedTxn i success =>
    match w.owned[i]? with
    | some (.rw txn outer) =>
      let (nested, events) := txn.beginNestedTxn w.nextTxn w.nextGuard success
      match nested with
      | some nested => some (w.fresh.replace i [.rw nested (txn :: outer)] events)
      | none => some (w.fresh.replace i [.rw txn outer] events)
    | _ => none
  | .commit i =>
    match w.owned[i]? with
    | some (.ro txn) => some (w.replace i [] txn.commit)
    | some (.rw txn outer) => some (w.replace i (Owned.outward outer) txn.commit)
    | _ => none
  | .drop i =>
    match w.owned[i]? with
    | some (.ro txn) => some (w.replace i [] txn.drop)
    | some (.inactive txn) => some (w.replace i [] txn.drop)
    | some (.rw txn outer) => some (w.replace i (Owned.outward outer) txn.drop)
    | none => none
  | .reset i =>
    match w.owned[i]? with
    | some (.ro txn) => some (w.replace i [.inactive txn.reset.1] txn.reset.2)
    | _ => none
  | .renew i success =>
    match w.owned[i]? with
    | some (.inactive txn) =>
      some (w.replace i ((txn.renew success).1.toList.map .ro) (txn.renew success).2)
    | _ => none

def Program.run : Program → List TxnOp → Option Program
  | w, [] => some w
  | w, op :: ops => (w.step op).bind fun w => w.run ops

end SamLmdb
