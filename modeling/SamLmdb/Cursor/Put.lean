import Mathlib.Algebra.GroupWithZero.Nat
import SamLmdb.Cursor.Missing
import SamLmdb.Cursor.PutCurrent
import SamLmdb.Env.Map
import SamLmdb.Lib.PageSplit

/-!
`mdb_cursor_put` as `mdb_put` calls it, on a cursor that has just been opened. With
`MDB_RESERVE` a place of the size of the data is left for the caller, and the data is not
copied; it may be null. Only sizes decide where the place is.
-/

namespace SamLmdb

open PageTree

/-- The `MDB_val` of the data: its bytes, or a size where `mv_data` is null. -/
inductive DataArg where
  | bytes (data : Bytes)
  | null (size : ℕ)

def DataArg.size : DataArg → ℕ
  | bytes data => data.data.length
  | null size => size

/-- What is read through `mv_data`; through a null pointer only zero bytes can be. -/
def DataArg.read : DataArg → Option Bytes
  | bytes data => some data
  | null size => if size = 0 then some ⟨[]⟩ else none

structure WriteFlags where
  noOverwrite : Bool
  noDupData : Bool
  current : Bool
  append : Bool
  appendDup : Bool
  deriving DecidableEq, Repr

/-- The flags of `mdb_put`: `reserve` is `MDB_RESERVE`. -/
structure PutFlags extends WriteFlags where
  reserve : Bool

/-- The return code, and the database, which nothing can read any more after an error in
the middle of an update. `mv_data` and `mv_size` of the data are those of the caller, or
of the value of the node that a stack leads to. -/
structure PutResult (κ : Type) where
  rc : ℤ
  db : Option (MainDb κ Bytes)
  place : Option (Stack κ (Node κ Bytes))
  size : ℕ

structure OverflowPage where
  /-- `mp_pages` -/
  pages : ℕ
  /-- `mdb_page_get` -/
  get : ℤ
  /-- `mdb_page_unspill`, or success where the page needs none -/
  unspill : ℤ
  /-- it is `P_DIRTY` then -/
  dirty : Bool
  /-- only a parent transaction may write it, and `mdb_page_malloc` fails -/
  enomem : Bool
  /-- `mdb_ovpage_free` -/
  free : ℤ

/-- What a put meets with in its transaction. -/
structure PutTxn (κ : Type) where
  /-- `MDB_TXN_BLOCKED` -/
  blocked : Bool
  maxKey : ℕ
  psize : ℕ
  nodemax : ℕ
  /-- `mdb_page_spill`, for a node of this size -/
  pageSpill : ℕ → ℤ
  /-- `mdb_cursor_touch` -/
  cursorTouch : ℤ
  /-- `mdb_page_alloc` and `mdb_page_malloc`, for these numbers of pages one after another -/
  pageAlloc : List ℕ → ℤ
  /-- the node of the key is `F_BIGDATA` -/
  overflow : κ → Option OverflowPage
  /-- it is `F_SUBDATA` only, and names a database -/
  dbRecord : κ → Bool
  /-- the size of its sub-page, with the room that is left there -/
  subPageSize : κ → ℕ
  /-- what happens to be where a value is going to be -/
  memory : ℕ → UInt8
  /-- what becomes of a value that goes to a sub-page or a sub-database -/
  putDup : MainDb κ Bytes → κ → Bytes → PutFlags → Option (PutResult κ)

abbrev nodesize : ℕ := 8
abbrev maxdatasize : ℕ := 0xffffffff
abbrev pgnoSize : ℕ := 8
abbrev indxSize : ℕ := 2
abbrev dbSize : ℕ := 48

def evenSize (n : ℕ) : ℕ := (n + 1) / 2 * 2

section Split

variable (pmax : ℕ)

/-- The loop of `mdb_page_split` over the sizes from the first node on: to the node that
does not fit, or to `k - 1`. -/
def splitUp (k : ℕ) : ℕ → ℕ → List ℕ → ℕ
  | _, i, [] => i
  | psize, i, size :: sizes =>
    let psize := evenSize (psize + size)
    if pmax < psize ∨ i + 1 = k then i else splitUp k psize (i + 1) sizes

def splitDown (k : ℕ) : ℕ → ℕ → List ℕ → ℕ
  | _, i, [] => i + 1
  | psize, i, size :: sizes =>
    let psize := evenSize (psize + size)
    if pmax < psize ∨ i = k + 1 then i + 1 else splitDown k psize (i - 1) sizes

/-- `split_indx`, where a node of `nsize` goes to the index `newindx` of a page of nodes of
these sizes. -/
def splitIndex (isLeaf : Bool) (sizes : List ℕ) (newindx nsize : ℕ) : ℕ :=
  let nkeys := sizes.length
  let split := (nkeys + 1) / 2
  let copy := sizes.take newindx ++ nsize :: sizes.drop newindx
  if nkeys < 32 ∨ pmax / 16 < nsize ∨ nkeys ≤ newindx then
    if nkeys ≤ newindx then if nkeys = 0 then split else splitUp pmax nkeys 0 0 copy
    else if newindx ≤ split then splitUp pmax (split + 1 + isLeaf.toNat) 0 0 copy
    else splitDown pmax (split - 1) 0 nkeys copy.reverse
  else split

end Split

section Put

variable {κ : Type} (D : Database κ Bytes) (txn : PutTxn κ)

namespace PutTxn

def pmax : ℕ := txn.psize - pagehdrsz

def ovpages (size : ℕ) : ℕ := (pagehdrsz - 1 + size) / txn.psize + 1

/-- The data that a node has on its page. -/
def nodeDataSize (x : Node κ Bytes) : ℕ :=
  if (txn.overflow x.key).isSome then pgnoSize
  else
    match x.data with
    | .single value => value.data.length
    | .subPage _ => txn.subPageSize x.key
    | .subDb _ => dbSize

/-- What a node takes of its page, with its index. -/
def nodeSize (x : Node κ Bytes) : ℕ := evenSize (nodesize + D.keySize x.key + txn.nodeDataSize x) + indxSize

def sizeLeft (nodes : List (Node κ Bytes)) : ℕ := txn.pmax - (nodes.map (txn.nodeSize D)).sum

def leafSize (key : κ) (size : ℕ) : ℕ := nodesize + D.keySize key + size

def mdbLeafSize (key : κ) (size : ℕ) : ℕ :=
  let sz := leafSize D key size
  evenSize ((if txn.nodemax < sz then sz - size + pgnoSize else sz) + indxSize)

def mdbBranchSize (sep : κ) : ℕ := nodesize + D.keySize sep + indxSize

/-- The sizes of the nodes of a branch page, of which the first has no key. -/
def branchSizes : List κ → List ℕ
  | [] => []
  | _ :: seps => (evenSize nodesize + indxSize) :: seps.map fun sep => evenSize (nodesize + D.keySize sep) + indxSize

/-- `SIZELEFT` of a branch page is enough. -/
def branchRoom (seps : List κ) (sep : κ) : Bool :=
  decide (mdbBranchSize D sep ≤ txn.pmax - (branchSizes D seps).sum)

def branchSplit (seps : List κ) (newindx : ℕ) (sep : κ) : ℕ :=
  splitIndex txn.pmax false (branchSizes D seps) newindx (evenSize (mdbBranchSize D sep))

/-- The return code of the first call that fails. -/
def pageNew (pages : List ℕ) : ℤ := if pages = [] then 0 else txn.pageAlloc pages

def fits (key : κ) (size : ℕ) (nodes : List (Node κ Bytes)) : Bool :=
  decide (txn.mdbLeafSize D key size ≤ txn.sizeLeft D nodes)

def leafSplit (append : Bool) (key : κ) (size : ℕ) (nodes : List (Node κ Bytes)) (i : ℕ) : ℕ :=
  if append then i
  else splitIndex txn.pmax true (nodes.map (txn.nodeSize D)) i (evenSize (txn.mdbLeafSize D key size))

def leafSep (append : Bool) (key : κ) (size : ℕ) (nodes : List (Node κ Bytes)) (i : ℕ) : κ :=
  sepAt (txn.leafSplit D append key size nodes i) (nodes.map Node.key) i key

/-- The pages that splits ask for: the right one of each, the copy of a page that is not
appended to, and a new root. -/
def splitPages (append : Bool) (splits depth : ℕ) : List ℕ :=
  List.replicate (1 + (if append then 0 else 1) + 2 * splits + if splits = depth then 1 else 0) 1

/-- The pages that are asked for by a new node with data of this size. -/
def addPages (append : Bool) (key : κ) (size : ℕ) (nodes : List (Node κ Bytes)) (i : ℕ)
    (outer : Stack κ (Node κ Bytes)) : List ℕ :=
  let sep := txn.leafSep D append key size nodes i
  let splits := splitsBeside (txn.branchRoom D) (txn.branchSplit D) sep outer
  (if txn.fits D key size nodes then [] else splitPages append splits outer.length) ++
    if txn.nodemax < leafSize D key size then [txn.ovpages size] else []

/-- The pages for a sub-page that grows by a value of this size: none, if it has room for a value
of `DUP_FIXED`, and one more if it becomes a sub-database. -/
def subPages (size : ℕ) (nodes : List (Node κ Bytes)) (i : ℕ) (outer : Stack κ (Node κ Bytes))
    (x : Node κ Bytes) (values : List Bytes) :
    List ℕ :=
  let pad := values.head?.elim 0 fun v => v.data.length
  let left := txn.subPageSize x.key - pagehdrsz - values.length * pad
  let offset := if D.dupFixed then 4 * pad else evenSize (nodesize + indxSize + size)
  let xsize := txn.subPageSize x.key + offset
  if D.dupFixed = true ∧ pad ≤ left then []
  else if txn.nodemax < nodesize + D.keySize x.key + xsize then
    1 :: txn.addPages D false x.key dbSize (nodes.eraseIdx i) i outer
  else txn.addPages D false x.key xsize (nodes.eraseIdx i) i outer

/-- The pages that are asked for before the value is looked at, where it goes to those of the node. -/
def dupPages (size : ℕ) (nodes : List (Node κ Bytes)) (i : ℕ) (outer : Stack κ (Node κ Bytes))
    (x : Node κ Bytes) :
    List ℕ :=
  match x.data with
  | .subPage values => txn.subPages D size nodes i outer x values
  | _ => []

/-- A value that the caller has yet to fill in. -/
def unwritten (size : ℕ) : Bytes := ⟨(List.range size).map txn.memory⟩

end PutTxn

namespace PutResult

def fail (rc : ℤ) (db : MainDb κ Bytes) : PutResult κ := ⟨rc, some db, none, 0⟩

def broken (rc : ℤ) : PutResult κ := ⟨rc, none, none, 0⟩

def done (reserve : Bool) (entries size : ℕ) (stack : Stack κ (Node κ Bytes)) : PutResult κ :=
  ⟨0, some ⟨rootOf stack, entries⟩, if reserve then some stack else none, size⟩

end PutResult

/-- `memcpy` of the data, which `MDB_RESERVE` leaves out. -/
def copyData (reserve : Bool) (data : DataArg) (there : Bytes) : Option Bytes :=
  if reserve then some there else data.read

/-- `new_sub`: `mdb_node_add` if the page has room, else `mdb_page_split`, with room on both
pages of it. -/
def addNode (entries : ℕ) (key : κ) (data : DataArg) (flags : PutFlags) (nodes : List (Node κ Bytes)) (i : ℕ)
    (outer : Stack κ (Node κ Bytes)) : Option (PutResult κ) :=
  let rc := txn.pageNew (txn.addPages D flags.append key data.size nodes i outer)
  if rc ≠ 0 then some (.broken rc)
  else
    (copyData flags.reserve data (txn.unwritten data.size)).map fun stored =>
      let x : Node κ Bytes := ⟨key, .single stored⟩
      .done flags.reserve entries data.size
        (if txn.fits D key data.size nodes then insertNode x nodes i outer
        else splitNode (txn.branchRoom D) (txn.branchSplit D) (txn.leafSplit D flags.append key data.size nodes i)
          (txn.leafSep D flags.append key data.size nodes i) x nodes i outer)

/-- `current`: the value `old` of the node `x` is overwritten, if it is as long as the data or has
overflow pages enough of its own. Otherwise the node is deleted and added again. -/
def overwrite (db : MainDb κ Bytes) (key : κ) (data : DataArg) (flags : PutFlags) (nodes : List (Node κ Bytes))
    (i : ℕ) (outer : Stack κ (Node κ Bytes)) (x : Node κ Bytes) (old : Bytes) : Option (PutResult κ) :=
  let inPlace (there : Bytes) := (copyData flags.reserve data there).map fun stored =>
    PutResult.done flags.reserve db.entries data.size (rewrite ⟨x.key, .single stored⟩ ((.leaf nodes, i) :: outer))
  let again := addNode D txn db.entries key data flags (nodes.eraseIdx i) i outer
  if txn.dbRecord x.key then some (.fail mdbIncompatible db)
  else
    match txn.overflow x.key with
    | some page =>
      if page.get ≠ 0 then some (.fail page.get db)
      else if txn.ovpages data.size ≤ page.pages ∧ page.unspill ≠ 0 then some (.fail page.unspill db)
      else if txn.ovpages data.size ≤ page.pages ∧ page.dirty = true then
        if page.enomem then some (.fail enomem db) else inPlace (txn.unwritten data.size)
      else if page.free ≠ 0 then some (.fail page.free db)
      else again
    | none => if data.size = old.data.length then inPlace old else again

/-- What follows the allocation of the pages for a value among others. Here `mv_data` is read,
and `MDB_RESERVE` leaves the sub-page, or the record of the sub-database, unwritten. -/
def storeDup (data : DataArg) (pages : List ℕ) (store : Bytes → Option (PutResult κ)) :
    Option (PutResult κ) :=
  if txn.pageNew pages ≠ 0 then some (.broken (txn.pageNew pages))
  else data.read.bind store

/-- The key does not exist. A value that is too big for a node goes to a sub-database. -/
def insertItem (db : MainDb κ Bytes) (key : κ) (data : DataArg) (flags : PutFlags) (nodes : List (Node κ Bytes))
    (i : ℕ) (outer : Stack κ (Node κ Bytes)) : Option (PutResult κ) :=
  if D.dupSort = true ∧ txn.nodemax < PutTxn.leafSize D key data.size then
    storeDup txn data (1 :: txn.addPages D flags.append key dbSize nodes i outer) fun v =>
      txn.putDup db key v flags
  else addNode D txn (db.entries + 1) key data flags nodes i outer

variable [LinearOrder Bytes]

/-- `more`: the key exists. Among duplicates the data is compared with what is there, by
`dcmp` or by the put of the xcursor. -/
def updateItem (db : MainDb κ Bytes) (key : κ) (data : DataArg) (flags : PutFlags) (nodes : List (Node κ Bytes))
    (i : ℕ) (outer : Stack κ (Node κ Bytes)) : Option (PutResult κ) :=
  nodes[i]?.bind fun x =>
    if D.dupSort then
      storeDup txn data (txn.dupPages D data.size nodes i outer x) fun v =>
        match x.data with
        | .single old =>
          if compare v old = .eq then
            if flags.noDupData ∨ flags.appendDup then some (.fail mdbKeyexist db)
            else overwrite D txn db key data flags nodes i outer x old
          else txn.putDup db key v flags
        | _ => txn.putDup db key v flags
    else
      match x.data with
      | .single old => overwrite D txn db key data flags nodes i outer x old
      | _ => none

variable [LinearOrder κ]

/-- The search for the key: `rc` and the cursor. With `MDB_APPEND` only the last key is compared. -/
def locate (db : MainDb κ Bytes) (key : κ) (append : Bool) : Option (ℤ × MainCursor κ Bytes) :=
  if append then
    (mdbCursorLast D.mainLevel db MainCursor.opened).bind fun a =>
      if a.rc ≠ 0 then some (a.rc, a.cursor)
      else
        match a.key, a.cursor.stack with
        | some last, (page, i) :: outer =>
          if last < key then some (mdbNotfound, { a.cursor with stack := (page, i + 1) :: outer })
          else some (mdbKeyexist, a.cursor)
        | _, _ => none
  else (mdbCursorSet D.mainLevel db .set true key none MainCursor.opened).map fun a => (a.rc, a.cursor)

def mdbCursorPut (db : MainDb κ Bytes) (key : κ) (data : DataArg) (flags : PutFlags) : Option (PutResult κ) :=
  let spill := txn.pageSpill (PutTxn.leafSize D key data.size)
  if txn.blocked then some (.fail mdbBadTxn db)
  else if D.keySize key = 0 ∨ txn.maxKey < D.keySize key then some (.fail mdbBadValsize db)
  else if (if D.dupSort then txn.maxKey else maxdatasize) < data.size then some (.fail mdbBadValsize db)
  else if db.root.isNone then
    if spill ≠ 0 then some (.fail spill db)
    else if txn.pageNew [1] ≠ 0 then some (.fail (txn.pageNew [1]) db)
    else insertItem D txn db key data flags [] 0 []
  else
    (locate D db key flags.append).bind fun (rc, c) =>
      if flags.noOverwrite = true ∧ rc = 0 then some (.fail mdbKeyexist db)
      else if rc ≠ 0 ∧ rc ≠ mdbNotfound then some (.fail rc db)
      else if spill ≠ 0 then some (.fail spill db)
      else if txn.cursorTouch ≠ 0 then some (.fail txn.cursorTouch db)
      else
        match c.stack with
        | (.leaf nodes, i) :: outer =>
          if rc = 0 then updateItem D txn db key data flags nodes i outer
          else insertItem D txn db key data flags nodes i outer
        | _ => none

def mdbPut (db : MainDb κ Bytes) (key : κ) (data : DataArg) (flags : PutFlags) : Option (PutResult κ) :=
  if flags.current then some (.fail einval db)
  else if txn.blocked then some (.fail mdbBadTxn db)
  else mdbCursorPut D txn db key data flags

end Put

section Locate

variable {κ : Type} [LinearOrder κ] [LinearOrder Bytes] {D : Database κ Bytes} {db : MainDb κ Bytes}
  {root : Page κ (Node κ Bytes)} {key : κ}

def allNodes (db : MainDb κ Bytes) : List (Node κ Bytes) := db.root.elim [] Page.nodes

inductive Locates (db : MainDb κ Bytes) (key : κ) (append : Bool) : Option (ℤ × MainCursor κ Bytes) → Prop
  | unordered {c} : append = true → (∃ x ∈ allNodes db, key ≤ x.key) →
    Locates db key append (some (mdbKeyexist, c))
  | absent {c nodes i outer} : (append = true → ∀ x ∈ allNodes db, x.key < key) →
    (∀ x ∈ allNodes db, x.key ≠ key) →
      c.stack = (.leaf nodes, i) :: outer → Chain (.leaf nodes) outer → i ≤ nodes.length →
      Locates db key append (some (mdbNotfound, c))
  | present {c nodes i outer x} : append = false → x ∈ allNodes db → x.key = key →
      c.stack = (.leaf nodes, i) :: outer → Chain (.leaf nodes) outer → nodes[i]? = some x →
      Locates db key append (some (0, c))

theorem nodesFrom_of_mem (sorted : root.nodes.Pairwise fun x y => D.mainLevel.key x < D.mainLevel.key y)
    {x : Node κ Bytes} (here : x ∈ root.nodes) (same : x.key = key) :
    ∃ rest, nodesFrom D.mainLevel key root.nodes = x :: rest := by
  obtain ⟨front, rest, split⟩ := List.append_of_mem here
  rw [split] at sorted ⊢
  refine ⟨rest, nodesFrom_eq ?_ ?_⟩
  · intro y before
    rw [← same]
    exact (List.pairwise_append.1 sorted).2.2 y before x (List.mem_cons_self ..)
  · rintro _ ⟨⟩
    exact same.ge

omit [LinearOrder κ] [LinearOrder Bytes] in
theorem allNodes_of_root (rooted : db.root = some root) : allNodes db = root.nodes := by
  rw [allNodes, rooted]
  rfl

variable (valid : D.Valid db) (rooted : db.root = some root)
include valid rooted

theorem locate_append : Locates db key true (locate D db key true) := by
  have tree := valid.tree root rooted
  have lawful := D.mainLawful valid.fixed
  have all := allNodes_of_root rooted
  obtain ⟨c, front, x, pre, v, answer, _, located, _⟩ :=
    lawful.last_located (c := MainCursor.opened) tree rooted nofun
  obtain ⟨nodes, i, outer, stacked⟩ := located.stacked
  have spot := located.spot
  have whole := spot.nodes_eq
  rw [stacked] at spot
  obtain ⟨_, top, here, path, _, _⟩ := spot.top
  cases top
  by_cases greater : x.key < key
  · have called : locate D db key true = some (mdbNotfound, { c with stack := (.leaf nodes, i + 1) :: outer }) := by
      rw [locate, if_pos rfl, answer]
      simp only [Option.bind_some, ne_eq, not_true_eq_false, if_false, stacked]
      exact if_pos greater
    have less : ∀ y ∈ allNodes db, y.key < key := by
      intro y there
      have sorted := tree.sorted
      rw [whole] at sorted
      rw [all, whole] at there
      rcases List.mem_append.1 there with before | last
      · exact ((List.pairwise_append.1 sorted).2.2 y before x (List.mem_cons_self ..)).trans greater
      · rwa [List.mem_singleton.1 last]
    rw [called]
    exact .absent (fun _ => less) (fun y there => (less y there).ne) rfl path.chain
        (List.getElem?_eq_some_iff.1 here).1
  · have called : locate D db key true = some (mdbKeyexist, c) := by
      rw [locate, if_pos rfl, answer]
      simp only [Option.bind_some, ne_eq, not_true_eq_false, if_false, stacked]
      exact if_neg greater
    rw [called]
    exact .unordered rfl ⟨x, by simp [all, whole], not_lt.1 greater⟩

section Set

variable (sized : D.keySize key ≠ 0)
include sized

theorem locate_present {x : Node κ Bytes} (inside : x ∈ root.nodes) (same : x.key = key) :
    Locates db key false (locate D db key false) := by
  have tree := valid.tree root rooted
  have lawful := D.mainLawful valid.fixed
  obtain ⟨rest, from_eq⟩ := nodesFrom_of_mem (D := D) tree.sorted inside same
  obtain ⟨c, v, post, answer, _, located, _⟩ := lawful.set_found (c := MainCursor.opened) .set true tree rooted
    nofun sized (by decide) nofun from_eq fun _ => same
  obtain ⟨nodes, i, outer, stacked⟩ := located.stacked
  have spot := located.spot
  rw [stacked] at spot
  obtain ⟨_, top, here, path, _, _⟩ := spot.top
  cases top
  have called : locate D db key false = some (0, c) := by
    rw [locate, if_neg (by decide), answer]
    rfl
  rw [called]
  exact .present rfl (allNodes_of_root rooted ▸ inside) same stacked path.chain here

theorem locate_absent (absent : ∀ x ∈ root.nodes, x.key ≠ key) :
    Locates db key false (locate D db key false) := by
  have tree := valid.tree root rooted
  obtain ⟨n, uniform⟩ := tree.uniform
  have range : true = false → SetOp.set = .setRange := by simp
  have ready : (D.mainLevel.clearXcursor (MainCursor.opened : MainCursor κ Bytes)).initialized = true →
      Path root 0 (D.mainLevel.clearXcursor MainCursor.opened).stack := by simp [MainCursor.opened]
  have answered : ∃ a,
      seek D.mainLevel db .set true key (D.mainLevel.clearXcursor MainCursor.opened) = some (.inl a) := by
    have sought := seek_sought (c := D.mainLevel.clearXcursor MainCursor.opened) true key .set tree.sorted
      tree.separated uniform rooted range ready
    generalize seek D.mainLevel db .set true key (D.mainLevel.clearXcursor MainCursor.opened) = answer at sought
    cases sought with
    | @found _ x rest from_eq exact_ _ _ _ =>
      have inside : x ∈ root.nodes := by
        rw [← nodesBelow_append_nodesFrom (L := D.mainLevel) key root.nodes, from_eq]
        simp
      exact absurd (exact_ rfl) (absent x inside)
    | missing _ _ _ _ => exact ⟨_, rfl⟩
  obtain ⟨a, answer⟩ := answered
  obtain ⟨c, rfl, missed, _⟩ := seek_missed tree.sorted tree.separated uniform rooted range ready answer
  obtain ⟨front, back, gap⟩ := missed.gap
  obtain ⟨nodes, i, outer, stacked⟩ := gap.path.leaf
  rw [stacked] at gap
  obtain ⟨_, top, upTo, path, _, _⟩ := gap.top
  cases top
  have called : locate D db key false = some (mdbNotfound, c) := by
    rw [locate, if_neg (by decide), mdbCursorSet, if_neg (show ¬ D.mainLevel.keySize key = 0 from sized), answer]
    rfl
  rw [called]
  exact .absent (by simp) (allNodes_of_root rooted ▸ absent) stacked path.chain upTo

end Set

variable (key) in
theorem locate_locates (sized : D.keySize key ≠ 0) (append : Bool) :
    Locates db key append (locate D db key append) := by
  cases append with
  | true => exact locate_append valid rooted
  | false =>
    by_cases present : ∃ x ∈ root.nodes, x.key = key
    · obtain ⟨x, inside, same⟩ := present
      exact locate_present valid rooted sized inside same
    · exact locate_absent valid rooted sized fun x inside same => present ⟨x, inside, same⟩

end Locate

end SamLmdb
