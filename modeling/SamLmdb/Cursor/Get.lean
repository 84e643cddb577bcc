import SamLmdb.Cursor.Move

/-! `mdb_cursor_get` with every operation, and what src/cursor.rs makes of it. -/

namespace SamLmdb

open PageTree

/-- The flags of a database that a cursor looks at, and the sizes of its keys and values. -/
structure Database (κ δ : Type) where
  dupSort : Bool
  dupFixed : Bool
  keySize : κ → ℕ
  dataSize : δ → ℕ

abbrev MainCursor (κ δ : Type) := Cursor κ (Node κ δ) (XCursor δ)

abbrev MainDb (κ δ : Type) := Db κ (Node κ δ)

variable {κ δ : Type} [LinearOrder κ] [LinearOrder δ]

namespace Database

variable (D : Database κ δ)

/-- The cursors of duplicates: the values are the keys, and `mc_xcursor` is null. -/
def subLevel : Level δ Unit δ Unit where
  key := id
  keySize := D.dataSize
  dupdata := fun _ => false
  read := fun _ => none
  readsData := false
  dcmp := fun _ _ => .eq
  dupsort := false
  leaf2 := D.dupFixed
  clear := id
  init1 := fun _ => id
  first := fun _ => none
  last := fun _ => none
  next := fun _ => none
  prev := fun _ => none
  getCurrent := fun _ => none
  set := fun _ _ _ => none

/-- A call on `mx_cursor` of a cursor function that may read `mx_db`. -/
def onXCursor (f : Db δ δ → Cursor δ δ Unit → Option (Answer δ Unit (Cursor δ δ Unit))) :
    SubCall δ (XCursor δ) :=
  fun mx => mx.db.bind fun db => (f db mx.cursor).map (Answer.mapCursor fun c => { mx with cursor := c })

end Database

def NodeData.dupdata : NodeData δ → Bool
  | .single _ => false
  | _ => true

/-- `mdb_xcursor_init1`, for nodes with `F_DUPDATA` -/
def XCursor.init1 (data : NodeData δ) (mx : XCursor δ) : XCursor δ :=
  match data with
  | .single _ => mx
  | .subPage values =>
    ⟨⟨true, false, false, [(.leaf values, 0)], ()⟩, some ⟨some (.leaf values), values.length⟩⟩
  | .subDb db => ⟨⟨false, false, false, [], ()⟩, some db⟩

def XCursor.clear (mx : XCursor δ) : XCursor δ :=
  { mx with cursor := { mx.cursor with initialized := false, eof := false } }

namespace Database

variable (D : Database κ δ)

def mainLevel : Level κ δ (Node κ δ) (XCursor δ) where
  key := Node.key
  keySize := D.keySize
  dupdata := fun x => x.data.dupdata
  read := fun x => match x.data with
    | .single value => some value
    | _ => none
  readsData := true
  dcmp := fun data value => data.elim (compare 0 (D.dataSize value)) (compare · value)
  dupsort := D.dupSort
  leaf2 := D.dupFixed && !D.dupSort
  clear := XCursor.clear
  init1 := fun x => XCursor.init1 x.data
  first := onXCursor (mdbCursorFirst D.subLevel)
  last := onXCursor (mdbCursorLast D.subLevel)
  next := onXCursor fun db => mdbCursorNext D.subLevel db .item
  prev := onXCursor fun db => mdbCursorPrev D.subLevel db .item
  getCurrent := fun mx =>
    (mdbCursorGetCurrent D.subLevel mx.cursor).map
      (Answer.mapCursor fun c => { mx with cursor := { c with del := false } })
  set := fun exactp data => match data with
    | some data => onXCursor fun db => mdbCursorSet D.subLevel db .setRange exactp data none
    | none => fun mx => some (.fail mdbBadValsize mx)

end Database

inductive CursorOp where
  | first | firstDup | getBoth | getBothRange | getCurrent | getMultiple | last | lastDup
  | next | nextDup | nextMultiple | nextNodup | prev | prevDup | prevNodup
  | set | setKey | setRange | prevMultiple
  | other (code : ℕ)
  deriving DecidableEq, Repr

inductive Fetched (δ : Type) where
  | value (value : δ)
  | page (values : List δ)
  deriving DecidableEq, Repr

abbrev Got (κ δ : Type) := Answer κ (Fetched δ) (MainCursor κ δ)

def Answer.got {γ : Type} (a : Answer κ δ γ) : Answer κ (Fetched δ) γ :=
  ⟨a.rc, a.key, a.data.map .value, a.cursor⟩

section Get

variable (D : Database κ δ) (db : MainDb κ δ)

/-- `mmove`: first or last duplicate of the key. -/
def moveDup (mfunc : SubCall δ (XCursor δ)) (c : MainCursor κ δ) : Option (Got κ δ) :=
  if c.initialized = false then some (.fail einval c)
  else if D.dupSort = false then some (.fail mdbIncompatible c)
  else
    match c.stack with
    | (.leaf nodes, i) :: _ =>
      match nodes[i]? with
      | none => some (.fail mdbNotfound (c.setIndex nodes.length))
      | some x =>
        if x.data.dupdata = false then some ⟨0, some x.key, (D.mainLevel.read x).map .value, c⟩
        else if c.xcursor.cursor.initialized = false then some (.fail einval c)
        else (mfunc c.xcursor).map fun a => ⟨a.rc, none, a.key.map .value, { c with xcursor := a.cursor }⟩
    | _ => none

/-- `fetchm`: the page the sub-cursor is on, which moves to the last value. -/
def fetchMultiple (key : Option κ) (c : MainCursor κ δ) : Option (Got κ δ) :=
  match c.xcursor.cursor.stack with
  | (.leaf values, _) :: _ =>
    some ⟨0, key, some (.page values),
      { c with xcursor := { c.xcursor with cursor := c.xcursor.cursor.setIndex (values.length - 1) } }⟩
  | _ => none

def getMultiple (c : MainCursor κ δ) : Option (Got κ δ) :=
  if c.initialized = false then some (.fail einval c)
  else if D.dupFixed = false then some (.fail mdbIncompatible c)
  -- `mc_xcursor` is null
  else if D.dupSort = false then none
  else if c.xcursor.cursor.initialized = false ∨ c.xcursor.cursor.eof = true then some ⟨0, none, none, c⟩
  else fetchMultiple none c

def nextMultiple (c : MainCursor κ δ) : Option (Got κ δ) :=
  if D.dupFixed = false then some (.fail mdbIncompatible c)
  else
    match mdbCursorNext D.mainLevel db .dup c with
    | none => none
    | some a =>
      if a.rc ≠ 0 then some a.got
      else if D.dupSort = false then none
      else if a.cursor.xcursor.cursor.initialized then fetchMultiple a.key a.cursor
      else some (.fail mdbNotfound a.cursor)

def prevMultiple (c : MainCursor κ δ) : Option (Got κ δ) :=
  if D.dupFixed = false then some (.fail mdbIncompatible c)
  else
    match if c.initialized then some ⟨0, none, none, c⟩ else mdbCursorLast D.mainLevel db c with
    | none => none
    | some a =>
      if a.rc ≠ 0 then some a.got
      else if D.dupSort = false then none
      else if a.cursor.xcursor.cursor.initialized then
        match mdbCursorSibling false a.cursor.xcursor.cursor.stack with
        | none => none
        | some none => some (.fail mdbNotfound a.cursor)
        | some (some stack) =>
          let mx := a.cursor.xcursor
          fetchMultiple a.key { a.cursor with xcursor := { mx with cursor := { mx.cursor with stack := stack } } }
      else some (.fail mdbNotfound a.cursor)

/-- `MDB_SET` and its relatives; a null key is of size zero. -/
def getSet (op : SetOp) (key : Option κ) (data : Option δ) (c : MainCursor κ δ) : Option (Got κ δ) :=
  match key with
  | none => some (.fail mdbBadValsize c)
  | some key => (mdbCursorSet D.mainLevel db op (op ≠ .setRange) key data c).map Answer.got

/-- `mdb_cursor_get` up to the last two lines. -/
def getOp (op : CursorOp) (key : Option κ) (data : Option δ) (c : MainCursor κ δ) : Option (Got κ δ) :=
  match op with
  | .getCurrent => (mdbCursorGetCurrent D.mainLevel c).map Answer.got
  | .getBoth => if D.dupSort then getSet D db .getBoth key data c else some (.fail mdbIncompatible c)
  | .getBothRange => if D.dupSort then getSet D db .getBothRange key data c else some (.fail mdbIncompatible c)
  | .set => getSet D db .set key data c
  | .setKey => getSet D db .setKey key data c
  | .setRange => getSet D db .setRange key data c
  | .getMultiple => getMultiple D c
  | .nextMultiple => nextMultiple D db c
  | .prevMultiple => prevMultiple D db c
  | .next => (mdbCursorNext D.mainLevel db .item c).map Answer.got
  | .nextDup => (mdbCursorNext D.mainLevel db .dup c).map Answer.got
  | .nextNodup => (mdbCursorNext D.mainLevel db .nodup c).map Answer.got
  | .prev => (mdbCursorPrev D.mainLevel db .item c).map Answer.got
  | .prevDup => (mdbCursorPrev D.mainLevel db .dup c).map Answer.got
  | .prevNodup => (mdbCursorPrev D.mainLevel db .nodup c).map Answer.got
  | .first => (mdbCursorFirst D.mainLevel db c).map Answer.got
  | .firstDup => moveDup D D.mainLevel.first c
  | .last => (mdbCursorLast D.mainLevel db c).map Answer.got
  | .lastDup => moveDup D D.mainLevel.last c
  | .other _ => some (.fail einval c)

def mdbCursorGet (op : CursorOp) (key : Option κ) (data : Option δ) (c : MainCursor κ δ) : Option (Got κ δ) :=
  (getOp D db op key data c).map (Answer.mapCursor fun c => { c with del := false })

end Get

/-- Where the bytes of a slice are: it is made of the null pointer, of the caller's
argument, or of what LMDB has written to the `MDB_val`. -/
inductive Slice (ι ω : Type) where
  | null
  | callers (argument : ι)
  | written (out : ω)
  deriving DecidableEq, Repr

/-- `val_to_slice` of an `MDB_val` that `slice_to_val` has made. -/
def valToSlice {ι ω : Type} (argument : Option ι) (out : Option ω) : Slice ι ω :=
  match out, argument with
  | some out, _ => .written out
  | none, some argument => .callers argument
  | none, none => .null

abbrev KeySlice (κ : Type) := Slice κ κ

abbrev DataSlice (δ : Type) := Slice δ (Fetched δ)

section Wrapper

variable (D : Database κ δ) (db : MainDb κ δ)

/-- `Cursor::get`. LMDB writes no key at the address of the argument. -/
def get (key : Option κ) (data : Option δ) (op : CursorOp) (c : MainCursor κ δ) :
    Option (Except Error (Option (KeySlice κ) × DataSlice δ) × MainCursor κ δ) :=
  (mdbCursorGet D db op key data c).map fun a =>
    (if a.rc = 0 then .ok (a.key.map .written, valToSlice data a.data) else .error (.fromErrCode a.rc), a.cursor)

/-- `RwCursor::walk`; without a key `expect` panics. -/
def walk (op : CursorOp) (c : MainCursor κ δ) :
    Option (Except Error (Option (KeySlice κ × DataSlice δ)) × MainCursor κ δ) :=
  match get D db none none op c with
  | none => none
  | some (.ok (some key, data), c) => some (.ok (some (key, data)), c)
  | some (.ok (none, _), _) => none
  | some (.error .notFound, c) => some (.ok none, c)
  | some (.error error, c) => some (.error error, c)

inductive Iter (κ δ : Type) where
  | err (error : Error)
  | ok (cursor : MainCursor κ δ) (op nextOp : CursorOp)

def Iter.next : Iter κ δ → Option (Option (Except Error (KeySlice κ × DataSlice δ)) × Iter κ δ)
  | .err error => some (some (.error error), .err error)
  | .ok c op nextOp =>
    (mdbCursorGet D db op none none c).map fun a =>
      (if a.rc = 0 then some (.ok (valToSlice none a.key, valToSlice none a.data))
        else if a.rc = mdbNotfound ∨ a.rc = einval then none
        else some (.error (.fromErrCode a.rc)), .ok a.cursor nextOp nextOp)

def intoIter (c : MainCursor κ δ) : Iter κ δ := .ok c .next .next

def intoIterStart (c : MainCursor κ δ) : Iter κ δ := .ok c .first .next

def intoIterFrom (key : κ) (c : MainCursor κ δ) : Option (Iter κ δ) :=
  match get D db (some key) none .setRange c with
  | none => none
  | some (.ok _, c) => some (.ok c .getCurrent .next)
  | some (.error .notFound, c) => some (.ok c .getCurrent .next)
  | some (.error error, _) => some (.err error)

def intoIterRev (c : MainCursor κ δ) : Iter κ δ := .ok c .last .prev

def intoIterFromRev (key : κ) (c : MainCursor κ δ) : Option (Iter κ δ) :=
  match get D db (some key) none .set c with
  | none => none
  | some (.ok _, c) => (get D db none none .lastDup c).map fun answer => .ok answer.2 .getCurrent .prev
  | some (.error .notFound, c) =>
    match get D db (some key) none .setRange c with
    | none => none
    | some (.ok _, c) => some (.ok c .prev .prev)
    | some (.error .notFound, c) => some (.ok c .last .prev)
    | some (.error error, _) => some (.err error)
  | some (.error error, _) => some (.err error)

def intoIterDupOf (key : κ) (c : MainCursor κ δ) : Option (Iter κ δ) :=
  match get D db (some key) none .set c with
  | none => none
  | some (.ok _, c) => some (.ok c .getCurrent .nextDup)
  | some (.error .notFound, c) => (get D db none none .last c).map fun answer => .ok answer.2 .next .next
  | some (.error error, _) => some (.err error)

end Wrapper

end SamLmdb
