import Mathlib.Data.Nat.ModEq
import SamLmdb.Env.ResizeFailure

/-!
Threads that share one `Environment`: src/environment.rs, src/transaction.rs and
src/transaction_guard.rs, one atomic action at a time. A `Kont` is the stack of
calls a thread will return through, indexed by what the caller waits for, and a
`Point` is where it stands. User code may do anything with the results of its
calls, so results are kept only where the crate itself uses them.
-/

namespace SamLmdb

structure EnvConfig where
  settings : DatabaseResizeSettings
  /-- a resize callback is installed -/
  resizeCallback : Bool
  rdonly : Bool

/-- A transaction value owned by a thread. A write transaction carries the number
of nested transactions begun inside it and still open. -/
inductive Txn where
  | ro
  | inactive
  | rw (nested : ℕ)
  deriving DecidableEq, Repr

structure DatabaseResizeInfo where
  oldSize : ℕ
  newSize : ℕ
  occupiedSizeBeforeResize : ℕ
  deriving DecidableEq, Repr

inductive Await where
  | code
  | roTxn
  | rwTxn
  | resized
  | mapped
  | guarded
  | dropped
  | unlocked

inductive Kont : Await → Type where
  | thread : Kont .code
  | resizeCallback (info : DatabaseResizeInfo) (k : Kont .resized) : Kont .code
  | beginRoTxn (k : Kont .code) : Kont .roTxn
  | openDb (k : Kont .code) : Kont .roTxn
  | getDbFlags (k : Kont .code) : Kont .roTxn
  | freelist (k : Kont .code) : Kont .roTxn
  | beginRwTxn (k : Kont .code) : Kont .rwTxn
  | createDb (k : Kont .code) : Kont .rwTxn
  | doResize (k : Kont .code) : Kont .resized
  | resizeDbIfNecessary (headroom : Option ℕ) (requiredSpace initialMapSize : ℕ) (k : Kont .rwTxn) : Kont .resized
  | setMapSize (k : Kont .code) : Kont .mapped
  | doResizeLocked (info : DatabaseResizeInfo) (k : Kont .resized) : Kont .mapped
  | roTransactionNew (k : Kont .roTxn) : Kont .guarded
  | rwTransactionNew (headroom : Option ℕ) (snapshot : MapInfo) (k : Kont .rwTxn) : Kont .guarded
  | beginNestedTxn (nested : ℕ) (k : Kont .code) : Kont .guarded
  | endUser (k : Kont .code) : Kont .dropped
  | endDbi (k : Kont .code) : Kont .dropped
  | resizeReturn (k : Kont .code) : Kont .unlocked
  | rwReturn (txn : Option (Option ℕ × MapInfo)) (k : Kont .rwTxn) : Kont .unlocked

inductive Handle where
  | read
  | write
  | nested
  deriving DecidableEq, Repr

inductive DbiCall where
  | openDb
  | createDb
  deriving DecidableEq, Repr

/-- What user code, a resize callback included, can call. Transactions are named
by their position among those of the calling thread. -/
inductive Call where
  | beginRoTxn
  | beginRwTxn (headroom : Option ℕ)
  | dbi (f : DbiCall)
  | getDbFlags
  | freelist
  | setMapSize (size : ℕ)
  | doResize (increaseSize : Option ℕ)
  | stat
  | info
  | sync
  | reset (i : ℕ)
  | renew (i : ℕ)
  | beginNestedTxn (i : ℕ)
  | endTxn (i : ℕ)
  deriving DecidableEq, Repr

inductive Point where
  | code (k : Kont .code)
  -- TransactionGuard::new
  | guardAdd (k : Kont .guarded)
  | guardCheck (k : Kont .guarded)
  | guardBackOut (k : Kont .guarded)
  | guardWait (k : Kont .guarded)
  -- RoTransaction::new, with its guard
  | roBegin (k : Kont .roTxn)
  | roFailed (k : Kont .roTxn)
  -- commit, abort or drop: the handle ends first, the guard drops after it
  | ending (h : Handle) (k : Kont .dropped)
  | txnEnded (k : Kont .dropped)
  -- InactiveTransaction::renew
  | renewing (k : Kont .code)
  | renewFailed (k : Kont .code)
  | renewAborted (k : Kont .code)
  | nestedBegin (nested : ℕ) (k : Kont .code)
  -- begin_rw_txn_generic and resize_db_if_necessary
  | rwLock (headroom : Option ℕ) (k : Kont .rwTxn)
  | resizeInfo (headroom : Option ℕ) (k : Kont .rwTxn)
  | needsResize (headroom : Option ℕ) (requiredSpace initialMapSize : ℕ) (k : Kont .rwTxn)
  | rwBegin (headroom : Option ℕ) (k : Kont .rwTxn)
  -- set_map_size, do_resize and do_resize_locked
  | setMapSizeLock (size : ℕ) (k : Kont .code)
  | doResizeLock (increaseSize : Option ℕ) (k : Kont .code)
  | resizeRead (increaseSize : Option ℕ) (k : Kont .resized)
  | resizeSpace (info : DatabaseResizeInfo) (k : Kont .resized)
  -- set_map_size_locked
  | blockerNew (size : ℕ) (k : Kont .mapped)
  | drain (size : ℕ) (k : Kont .mapped)
  | remap (stage : Remap) (k : Kont .mapped)
  | blockerDrop (rc : ℤ) (k : Kont .mapped)
  | unlock (poison : Bool) (k : Kont .unlocked)
  -- open_db and create_db
  | dbiLock (f : DbiCall) (k : Kont .code)
  | dbiUnlock (k : Kont .code)
  -- stat, info and sync
  | metaPick (k : Kont .code)
  | metaRead (k : Kont .code)

structure Thread where
  txns : List Txn
  point : Point

/-- `txCount` and `txBlockerCount` are `AtomicU32`. `meWmutex` is LMDB's writer
mutex, held exactly while `me_txn` is set. A mutex is `true` while it is held. -/
structure Shared where
  txCount : ℕ
  txBlockerCount : ℕ
  dbResizeLock : Bool
  resizePoisoned : Bool
  dbiOpenMutex : Bool
  meWmutex : Bool
  env : MdbEnv
  crashed : Bool

inductive Action where
  | call (c : Call)
  | tau
  | callbackReturn
  | callbackPanic
  | fetchAddTx
  /-- the `fetch_sub` inside `TransactionGuard::new` -/
  | backOutTx
  /-- the `fetch_sub` of a guard's drop -/
  | dropGuard
  | loadTx (n : ℕ)
  | fetchAddBlocker
  | fetchSubBlocker
  /-- the SeqCst load that decides in `TransactionGuard::new` -/
  | checkBlocker (n : ℕ)
  /-- the relaxed load of its backoff loop -/
  | pollBlocker (n : ℕ)
  | lockResize
  | lockResizePoisoned
  | unlockResize (poison : Bool)
  | lockDbi
  | unlockDbi
  | mdbTxnBeginRo
  | mdbTxnBeginRw (snapshot : MapInfo)
  | mdbTxnEndRw (committed : Option ℕ)
  | osError
  | readMeta (info : MapInfo)
  | freeSpace (answer : Except (Option ℤ) ℕ)
  | remap (os : OsMap) (stage after : Remap)
  | fault (inRemap : Bool)

def u32Bound : ℕ := 2 ^ 32

def u32Add (n : ℕ) : ℕ := if n + 1 = u32Bound then 0 else n + 1
def u32Sub (n : ℕ) : ℕ := if n = 0 then u32Bound - 1 else n - 1

theorem u32Add_modEq (n : ℕ) : u32Add n ≡ n + 1 [MOD u32Bound] := by
  unfold u32Add
  split
  · rename_i wraps
    rw [wraps]
    exact (Nat.modEq_zero_iff_dvd.2 dvd_rfl).symm
  · rfl

theorem u32Sub_modEq (n : ℕ) : u32Sub n + 1 ≡ n [MOD u32Bound] := by
  unfold u32Sub
  split
  · rename_i wraps
    subst wraps
    exact Nat.modEq_zero_iff_dvd.2 dvd_rfl
  · rw [Nat.sub_add_cancel (by omega)]

theorem u32Add_lt {n : ℕ} (small : n < u32Bound) : u32Add n < u32Bound := by
  unfold u32Add
  split <;> omega

theorem u32Sub_lt {n : ℕ} (small : n < u32Bound) : u32Sub n < u32Bound := by
  unfold u32Sub
  split <;> omega

/-- The last page of a commit: the old one where no page was added, else one that
`mdb_page_alloc` gave out, which refuses `pgno + num >= me_maxpg`. -/
def MdbEnv.MayReach (env : MdbEnv) (lastPg : ℕ) : Prop :=
  lastPg = env.mmLastPg ∨ (env.mmLastPg < lastPg ∧ env.mePsize * (lastPg + 2) ≤ env.meMapsize)

instance (env : MdbEnv) (lastPg : ℕ) : Decidable (env.MayReach lastPg) := inferInstanceAs (Decidable (_ ∨ _))

/-- The record that a commit writes remembers the size of the map. -/
def MdbEnv.commit (env : MdbEnv) (lastPg : ℕ) : MdbEnv :=
  { env with mmLastPg := lastPg, mmMapsize := max env.mmMapsize env.meMapsize }

/-- Through pointers that show zeros `mdb_env_set_mapsize` can take a size that is too
small for the used pages; `ftruncate` then cuts them off. -/
def Remap.Cuts (env : MdbEnv) : Remap → Prop
  | .unmap size => size < env.mePsize * (env.mmLastPg + 1)
  | _ => False

instance (env : MdbEnv) : DecidablePred (Remap.Cuts env)
  | .unmap size => inferInstanceAs (Decidable (size < _))
  | .enter _ | .map _ | .install _ | .done _ => inferInstanceAs (Decidable False)

theorem MdbEnv.MetasPlaced.not_cuts {env : MdbEnv} (placed : env.MetasPlaced) (os : OsMap) (meTxn : Bool) (size : ℕ) :
    ¬(remapStep os meTxn env (.enter size)).2.Cuts env := by
  have used := le_roundUpToUsed env size
  simp only [remapStep, placed.shown]
  split
  · exact id
  · split
    · exact id
    · exact Nat.not_lt_of_le used

/-- A read of the meta pages faults. In `mdb_env_set_mapsize` so does, in the model, a remap
through pointers that show zeros, which may cut the file off. -/
def Shared.MayFault (s : Shared) : Bool → Prop
  | true => ¬s.env.MetasPlaced ∧ s.env.meMap.isSome ∧ !s.meWmutex
  | false => ¬s.env.MetasReadable

instance (s : Shared) : DecidablePred s.MayFault
  | true => inferInstanceAs (Decidable (_ ∧ _))
  | false => inferInstanceAs (Decidable ¬_)

/-- The effect of an action on the shared state; `none` when it has to wait or
cannot happen there. -/
def Shared.apply (s : Shared) : Action → Option Shared
  | .call _ | .tau | .callbackReturn | .callbackPanic | .osError | .freeSpace _ => some s
  | .fetchAddTx => some { s with txCount := u32Add s.txCount }
  | .backOutTx | .dropGuard => some { s with txCount := u32Sub s.txCount }
  | .loadTx n => if s.txCount = n then some s else none
  | .fetchAddBlocker => some { s with txBlockerCount := u32Add s.txBlockerCount }
  | .fetchSubBlocker => some { s with txBlockerCount := u32Sub s.txBlockerCount }
  | .checkBlocker n | .pollBlocker n => if s.txBlockerCount = n then some s else none
  | .lockResize => if !s.dbResizeLock && !s.resizePoisoned then some { s with dbResizeLock := true } else none
  | .lockResizePoisoned => if !s.dbResizeLock && s.resizePoisoned then some s else none
  | .unlockResize poison =>
    if s.dbResizeLock then some { s with dbResizeLock := false, resizePoisoned := poison || s.resizePoisoned }
    else none
  | .lockDbi => if !s.dbiOpenMutex then some { s with dbiOpenMutex := true } else none
  | .unlockDbi => if s.dbiOpenMutex then some { s with dbiOpenMutex := false } else none
  | .mdbTxnBeginRo => if s.env.MetasReadable then some s else none
  | .mdbTxnBeginRw snapshot =>
    if !s.meWmutex ∧ s.env.MetasReadable ∧ s.env.shown.info = snapshot then some { s with meWmutex := true }
    else none
  | .mdbTxnEndRw none => if s.meWmutex then some { s with meWmutex := false } else none
  -- a record of zeros has the root 0, at which `mdb_page_search` asserts before anything is written
  | .mdbTxnEndRw (some lastPg) =>
    if s.meWmutex ∧ s.env.MetasPlaced ∧ s.env.MayReach lastPg then
      some { s with meWmutex := false, env := s.env.commit lastPg }
    else none
  | .readMeta info => if s.env.MetasReadable ∧ s.env.shown.info = info then some s else none
  | .remap os stage after =>
    if (stage.ReadsMetas s.meWmutex s.env → s.env.MetasReadable) ∧
        (remapStep os s.meWmutex s.env stage).2 = after ∧ ¬after.Cuts s.env then
      some { s with env := (remapStep os s.meWmutex s.env stage).1 }
    else none
  | .fault inRemap => if s.MayFault inRemap then some { s with crashed := true } else none

def Kont.roStarted (txns : List Txn) : Kont .roTxn → Thread
  | .beginRoTxn k => ⟨.ro :: txns, .code k⟩
  | .openDb k => ⟨txns, .ending .read (.endDbi k)⟩
  | .getDbFlags k | .freelist k => ⟨txns, .ending .read (.endUser k)⟩

def Kont.roRefused : Kont .roTxn → Point
  | .openDb k => .dbiUnlock k
  | .beginRoTxn k | .getDbFlags k | .freelist k => .code k

def Kont.rwStarted (txns : List Txn) : Kont .rwTxn → Thread
  | .beginRwTxn k => ⟨.rw 0 :: txns, .code k⟩
  | .createDb k => ⟨txns, .ending .write (.endDbi k)⟩

def Kont.rwRefused : Kont .rwTxn → Point
  | .beginRwTxn k => .code k
  | .createDb k => .dbiUnlock k

def Kont.guarded (txns : List Txn) : Kont .guarded → Thread
  | .roTransactionNew k => ⟨txns, .roBegin k⟩
  | .rwTransactionNew headroom snapshot k => ⟨txns, .unlock false (.rwReturn (some (headroom, snapshot)) k)⟩
  | .beginNestedTxn nested k => ⟨.rw (nested + 1) :: txns, .code k⟩

/-- The guard of an ended transaction has dropped. -/
def Kont.dropped : Kont .dropped → Point
  | .endUser k => .code k
  | .endDbi k => .dbiUnlock k

def Kont.unlocked (txns : List Txn) : Kont .unlocked → Thread
  | .resizeReturn k => ⟨txns, .code k⟩
  | .rwReturn none k => ⟨txns, k.rwRefused⟩
  | .rwReturn (some _) k => k.rwStarted txns

/-- `do_resize_locked` returns the new map size, or `Err` for `none`. -/
def Kont.resized (result : Option ℕ) : Kont .resized → Point
  | .doResize k => .unlock false (.resizeReturn k)
  | .resizeDbIfNecessary headroom requiredSpace initialMapSize k =>
    match result with
    | none => .unlock false (.rwReturn none k)
    | some newMapSize =>
      match checkedAdd requiredSpace initialMapSize with
      | none => .unlock true (.rwReturn none k)
      | some enough =>
        if enough ≤ newMapSize then .rwBegin headroom k
        else .needsResize headroom requiredSpace initialMapSize k

/-- A panic under `db_resize_lock` unwinds to its owner and poisons the lock. -/
def Kont.unwind : Kont .resized → Point
  | .doResize k => .unlock true (.resizeReturn k)
  | .resizeDbIfNecessary _ _ _ k => .unlock true (.rwReturn none k)

def Kont.mapped (cfg : EnvConfig) (rc : ℤ) : Kont .mapped → Point
  | .setMapSize k => .unlock false (.resizeReturn k)
  | .doResizeLocked info k =>
    if rc = mdbSuccess then
      if cfg.resizeCallback then .code (.resizeCallback info k) else k.resized (some info.newSize)
    else k.resized none

/-- User code calls. A transaction that a call consumes leaves the list. -/
def Call.start (txns : List Txn) (k : Kont .code) : Call → Option Thread
  | .beginRoTxn => some ⟨txns, .guardAdd (.roTransactionNew (.beginRoTxn k))⟩
  | .beginRwTxn headroom => some ⟨txns, .rwLock headroom (.beginRwTxn k)⟩
  | .dbi f => some ⟨txns, .dbiLock f k⟩
  | .getDbFlags => some ⟨txns, .guardAdd (.roTransactionNew (.getDbFlags k))⟩
  | .freelist => some ⟨txns, .guardAdd (.roTransactionNew (.freelist k))⟩
  | .setMapSize size => some ⟨txns, .setMapSizeLock size k⟩
  | .doResize increaseSize => some ⟨txns, .doResizeLock increaseSize k⟩
  | .stat | .info | .sync => some ⟨txns, .metaPick k⟩
  | .reset i =>
    match txns[i]? with
    | some .ro => some ⟨.inactive :: txns.eraseIdx i, .code k⟩
    | _ => none
  | .renew i =>
    match txns[i]? with
    | some .inactive => some ⟨txns.eraseIdx i, .renewing k⟩
    | _ => none
  | .beginNestedTxn i =>
    match txns[i]? with
    | some (.rw nested) => some ⟨txns.eraseIdx i, .nestedBegin nested k⟩
    | _ => none
  | .endTxn i =>
    match txns[i]? with
    | some (.rw 0) => some ⟨txns.eraseIdx i, .ending .write (.endUser k)⟩
    -- a nested transaction is ended before the one around it
    | some (.rw (nested + 1)) => some ⟨.rw nested :: txns.eraseIdx i, .ending .nested (.endUser k)⟩
    | some .ro | some .inactive => some ⟨txns.eraseIdx i, .ending .read (.endUser k)⟩
    | none => none

def Thread.next (cfg : EnvConfig) (t : Thread) (a : Action) : Option Thread :=
  match t.point with
  | .code k =>
    match a, k with
    | .call c, k => c.start t.txns k
    | .callbackReturn, .resizeCallback info k => some ⟨t.txns, k.resized (some info.newSize)⟩
    | .callbackPanic, .resizeCallback _ k => some ⟨t.txns, k.unwind⟩
    | _, _ => none
  | .guardAdd k =>
    match a with
    | .fetchAddTx => some ⟨t.txns, .guardCheck k⟩
    | _ => none
  | .guardCheck k =>
    match a with
    | .checkBlocker n => some (if n = 0 then k.guarded t.txns else ⟨t.txns, .guardBackOut k⟩)
    | _ => none
  | .guardBackOut k =>
    match a with
    | .backOutTx => some ⟨t.txns, .guardWait k⟩
    | _ => none
  | .guardWait k =>
    match a with
    | .pollBlocker n => some ⟨t.txns, if n = 0 then .guardAdd k else .guardWait k⟩
    | _ => none
  | .roBegin k =>
    match a with
    | .mdbTxnBeginRo => some (k.roStarted t.txns)
    | .osError => some ⟨t.txns, .roFailed k⟩
    | .fault false => some t
    | _ => none
  | .roFailed k =>
    match a with
    | .dropGuard => some ⟨t.txns, k.roRefused⟩
    | _ => none
  | .ending h k =>
    match a, h with
    | .mdbTxnEndRw _, .write => some ⟨t.txns, .txnEnded k⟩
    | .tau, .read | .tau, .nested => some ⟨t.txns, .txnEnded k⟩
    | _, _ => none
  | .txnEnded k =>
    match a with
    | .dropGuard => some ⟨t.txns, k.dropped⟩
    | _ => none
  | .renewing k =>
    match a with
    | .mdbTxnBeginRo => some ⟨.ro :: t.txns, .code k⟩
    | .osError => some ⟨t.txns, .renewFailed k⟩
    | .fault false => some t
    | _ => none
  | .renewFailed k =>
    match a with
    | .tau => some ⟨t.txns, .renewAborted k⟩
    | _ => none
  | .renewAborted k =>
    match a with
    | .dropGuard => some ⟨t.txns, .code k⟩
    | _ => none
  | .nestedBegin nested k =>
    match a with
    | .tau => some ⟨t.txns, .guardAdd (.beginNestedTxn nested k)⟩
    | .osError => some ⟨.rw nested :: t.txns, .code k⟩
    | _ => none
  | .rwLock headroom k =>
    match a with
    | .lockResize => some ⟨t.txns, .resizeInfo headroom k⟩
    | .lockResizePoisoned => some ⟨t.txns, k.rwRefused⟩
    | _ => none
  | .resizeInfo headroom k =>
    match a with
    | .readMeta info =>
      match givenOrRatio cfg.settings info.mapSize headroom with
      | some requiredSpace => some ⟨t.txns, .needsResize headroom requiredSpace info.mapSize k⟩
      | none => some ⟨t.txns, .unlock true (.rwReturn none k)⟩
    | .fault false => some t
    | _ => none
  | .needsResize headroom requiredSpace initialMapSize k =>
    match a with
    | .readMeta info =>
      match SamLmdb.needsResize cfg.settings info headroom with
      | some true =>
        some ⟨t.txns, .resizeRead (some requiredSpace)
          (.resizeDbIfNecessary headroom requiredSpace initialMapSize k)⟩
      | some false => some ⟨t.txns, .rwBegin headroom k⟩
      | none => some ⟨t.txns, .unlock true (.rwReturn none k)⟩
    | .fault false => some t
    | _ => none
  | .rwBegin headroom k =>
    match a with
    -- a write transaction in a read-only environment is refused with EACCES
    | .tau => if cfg.rdonly then some ⟨t.txns, .unlock false (.rwReturn none k)⟩ else none
    | .mdbTxnBeginRw snapshot =>
      if cfg.rdonly then none else some ⟨t.txns, .guardAdd (.rwTransactionNew headroom snapshot k)⟩
    | .osError => some ⟨t.txns, .unlock false (.rwReturn none k)⟩
    | .fault false => if cfg.rdonly then none else some t
    | _ => none
  | .setMapSizeLock size k =>
    match a with
    | .lockResize => some ⟨t.txns, .blockerNew size (.setMapSize k)⟩
    | .lockResizePoisoned => some ⟨t.txns, .code k⟩
    | _ => none
  | .doResizeLock increaseSize k =>
    match a with
    | .lockResize => some ⟨t.txns, .resizeRead increaseSize (.doResize k)⟩
    | .lockResizePoisoned => some ⟨t.txns, .code k⟩
    | _ => none
  | .resizeRead increaseSize k =>
    match a with
    | .readMeta info =>
      match newMapSize cfg.settings info increaseSize with
      | some size => some ⟨t.txns, .resizeSpace ⟨info.mapSize, size, info.occupiedSize.getD 0⟩ k⟩
      | none => some ⟨t.txns, k.unwind⟩
    | .fault false => some t
    | _ => none
  | .resizeSpace info k =>
    match a with
    | .freeSpace answer =>
      match checkFreeSpace answer (info.newSize - info.oldSize) with
      | .ok () => some ⟨t.txns, .blockerNew info.newSize (.doResizeLocked info k)⟩
      | .error _ => some ⟨t.txns, k.resized none⟩
    | _ => none
  | .blockerNew size k =>
    match a with
    | .fetchAddBlocker => some ⟨t.txns, .drain size k⟩
    | _ => none
  | .drain size k =>
    match a with
    | .loadTx n => some ⟨t.txns, if n = 0 then .remap (.enter size) k else .drain size k⟩
    | _ => none
  | .remap stage k =>
    match a, stage with
    | .tau, .done rc => some ⟨t.txns, .blockerDrop rc k⟩
    | _, .done _ => none
    | .fault true, .enter _ => some t
    | .remap _ before after, stage => if before = stage then some ⟨t.txns, .remap after k⟩ else none
    | _, _ => none
  | .blockerDrop rc k =>
    match a with
    | .fetchSubBlocker => some ⟨t.txns, k.mapped cfg rc⟩
    | _ => none
  | .unlock poison k =>
    match a with
    | .unlockResize p => if p = poison then some (k.unlocked t.txns) else none
    | _ => none
  | .dbiLock f k =>
    match a, f with
    | .lockDbi, .openDb => some ⟨t.txns, .guardAdd (.roTransactionNew (.openDb k))⟩
    | .lockDbi, .createDb => some ⟨t.txns, .rwLock none (.createDb k)⟩
    | _, _ => none
  | .dbiUnlock k =>
    match a with
    | .unlockDbi => some ⟨t.txns, .code k⟩
    | _ => none
  | .metaPick k =>
    match a with
    | .readMeta _ => some ⟨t.txns, .metaRead k⟩
    | .fault false => some t
    | _ => none
  | .metaRead k =>
    match a with
    | .readMeta _ => some ⟨t.txns, .code k⟩
    | .fault false => some t
    | _ => none

/-- One atomic action of one thread. After a fault the process is gone. -/
def Thread.step (cfg : EnvConfig) (t : Thread) (s : Shared) (a : Action) : Option (Shared × Thread) :=
  if s.crashed then none
  else do
    let s' ← s.apply a
    let t' ← t.next cfg a
    some (s', t')

theorem Thread.step_eq {cfg : EnvConfig} {s s' : Shared} {t t' : Thread} {a : Action} :
    t.step cfg s a = some (s', t') ↔ s.crashed = false ∧ s.apply a = some s' ∧ t.next cfg a = some t' := by
  unfold Thread.step
  cases s.crashed <;> simp [Option.bind_eq_some_iff]

end SamLmdb
