import SamLmdb.Error
import SamLmdb.Lib.PageTree

/-!
Cursors of mdb.c. The functions of a cursor are the same for the items of a database
and for the duplicates of one key, where the values are the keys of a tree of their
own; a `Level` says in what the two differ. A call that would read outside of a page,
or fails an assertion, has no answer.
-/

namespace SamLmdb

open PageTree

/-- `MDB_cursor`: three bits of `mc_flags`, `mc_pg` with `mc_ki`, and what `mc_xcursor` points to. -/
structure Cursor (κ ν ξ : Type) where
  initialized : Bool
  eof : Bool
  del : Bool
  stack : Stack κ ν
  xcursor : ξ

/-- The return code, what has been written to `*key` and to `*data`, and the cursor. -/
structure Answer (κ δ γ : Type) where
  rc : ℤ
  key : Option κ
  data : Option δ
  cursor : γ

namespace Answer

variable {κ δ γ γ' : Type}

def fail (rc : ℤ) (cursor : γ) : Answer κ δ γ := ⟨rc, none, none, cursor⟩

def mapCursor (f : γ → γ') (a : Answer κ δ γ) : Answer κ δ γ' := ⟨a.rc, a.key, a.data, f a.cursor⟩

end Answer

structure Db (κ ν : Type) where
  root : Option (Page κ ν)
  entries : ℕ

/-- The data of a leaf node: a value, a sub-page of sorted values (`F_DUPDATA`), or a
sub-database (`F_DUPDATA | F_SUBDATA`). -/
inductive NodeData (δ : Type) where
  | single (value : δ)
  | subPage (values : List δ)
  | subDb (db : Db δ δ)

structure Node (κ δ : Type) where
  key : κ
  data : NodeData δ

/-- `MDB_xcursor`: a cursor over the values of one key, and `mx_db` with the tree they are in,
which is none until something has been written there. -/
structure XCursor (δ : Type) where
  cursor : Cursor δ δ Unit
  db : Option (Db δ δ)

def XCursor.root {δ : Type} (mx : XCursor δ) : Option (Page δ δ) := mx.db.bind Db.root

/-- The call of a function on the xcursor, with `data` as its key and no data. -/
abbrev SubCall (δ ξ : Type) := ξ → Option (Answer δ Unit ξ)

/-- The cursor functions' view of a database. `ξ` is the xcursor, which is null
unless the database is `MDB_DUPSORT`. -/
structure Level (κ δ ν ξ : Type) where
  /-- `MDB_GET_KEY` -/
  key : ν → κ
  keySize : κ → ℕ
  /-- `F_DUPDATA` -/
  dupdata : ν → Bool
  /-- what `mdb_node_read` writes, unless it is `F_DUPDATA` -/
  read : ν → Option δ
  /-- `data` is not null -/
  readsData : Bool
  /-- `md_dcmp`, where a missing value is the null pointer and of size zero -/
  dcmp : Option δ → δ → Ordering
  dupsort : Bool
  /-- its leaf pages are `P_LEAF2` -/
  leaf2 : Bool
  /-- `C_INITIALIZED` and `C_EOF` are cleared -/
  clear : ξ → ξ
  /-- `mdb_xcursor_init1` -/
  init1 : ν → ξ → ξ
  first : SubCall δ ξ
  last : SubCall δ ξ
  next : SubCall δ ξ
  prev : SubCall δ ξ
  getCurrent : SubCall δ ξ
  /-- `MDB_SET_RANGE`, and whether `exactp` is given -/
  set : Bool → Option δ → SubCall δ ξ

/-- `if (mc->mc_xcursor)`, its flags are cleared. -/
def Level.clearXcursor {κ δ ν ξ : Type} (L : Level κ δ ν ξ) (c : Cursor κ ν ξ) : Cursor κ ν ξ :=
  if L.dupsort then { c with xcursor := L.clear c.xcursor } else c

section ClearXcursor

variable {κ δ ν ξ : Type} (L : Level κ δ ν ξ) (c : Cursor κ ν ξ)

@[simp] theorem Level.clearXcursor_initialized : (L.clearXcursor c).initialized = c.initialized := by
  unfold clearXcursor
  split <;> rfl

@[simp] theorem Level.clearXcursor_eof : (L.clearXcursor c).eof = c.eof := by
  unfold clearXcursor
  split <;> rfl

@[simp] theorem Level.clearXcursor_del : (L.clearXcursor c).del = c.del := by
  unfold clearXcursor
  split <;> rfl

@[simp] theorem Level.clearXcursor_stack : (L.clearXcursor c).stack = c.stack := by
  unfold clearXcursor
  split <;> rfl

end ClearXcursor

def Cursor.setIndex {κ ν ξ : Type} (c : Cursor κ ν ξ) (i : ℕ) : Cursor κ ν ξ :=
  match c.stack with
  | [] => c
  | (page, _) :: outer => { c with stack := (page, i) :: outer }

def Cursor.numkeys {κ ν ξ : Type} (c : Cursor κ ν ξ) : ℕ :=
  match c.stack with
  | [] => 0
  | (page, _) :: _ => page.numkeys

/-- How far `mdb_page_search` is told to go. -/
inductive PageTarget (κ : Type) where
  | first
  | last
  | key (key : κ)

inductive StepOp where
  | item
  | dup
  | nodup
  deriving DecidableEq, Repr

inductive SetOp where
  | set
  | setKey
  | setRange
  | getBoth
  | getBothRange
  deriving DecidableEq, Repr

end SamLmdb
