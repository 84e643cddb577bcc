import SamLmdb.Cursor.Search

/-! Moving a cursor (mdb.c): first, last, next, previous, and to a key. -/

namespace SamLmdb

open PageTree

variable {κ δ ν ξ : Type}

namespace Level

variable (L : Level κ δ ν ξ)

/-- The end of the functions that move: the node is read, and of a node with duplicates
the one that `sub` goes to. Where `rc` is an error nothing reads `*key` and `*data`. -/
def fetch (sub : SubCall δ ξ) (x : ν) (c : Cursor κ ν ξ) : Option (Answer κ δ (Cursor κ ν ξ)) :=
  if L.leaf2 = true ∨ L.readsData = false then some ⟨0, some (L.key x), none, c⟩
  else if L.dupdata x then
    (sub (L.init1 x c.xcursor)).map fun a =>
      ⟨a.rc, if a.rc = 0 then some (L.key x) else none, a.key, { c with xcursor := a.cursor }⟩
  else some ⟨0, some (L.key x), L.read x, c⟩

def nodeptr (c : Cursor κ ν ξ) : Option ν :=
  match c.stack with
  | (.leaf nodes, i) :: _ => nodes[i]?
  | _ => none

def fetchTop (sub : SubCall δ ξ) (c : Cursor κ ν ξ) : Option (Answer κ δ (Cursor κ ν ξ)) :=
  match nodeptr c with
  | some x => L.fetch sub x c
  | none => none

/-- The duplicates of the node before the cursor leaves it: the answer if the step ends
here, else the cursor that goes on. -/
def consult (sub : SubCall δ ξ) (op : StepOp) (c : Cursor κ ν ξ) :
    Option (Answer κ δ (Cursor κ ν ξ) ⊕ Cursor κ ν ξ) :=
  if L.dupsort then
    match nodeptr c with
    | none => none
    | some x =>
      if L.dupdata x then
        if op = .nodup then some (.inr c)
        else (sub c.xcursor).map fun a =>
          if op = .dup ∨ a.rc ≠ mdbNotfound then
            .inl ⟨a.rc, if a.rc = 0 then some (L.key x) else none, a.key,
              { c with xcursor := a.cursor, eof := c.eof && decide (a.rc ≠ mdbSuccess) }⟩
          else .inr { c with xcursor := a.cursor }
      else if op = .dup then some (.inl (.fail mdbNotfound { c with xcursor := L.clear c.xcursor }))
      else some (.inr { c with xcursor := L.clear c.xcursor })
  else some (.inr c)

end Level

section Moves

variable [LinearOrder κ] (L : Level κ δ ν ξ) (db : Db κ ν)

/-- The search of `mdb_cursor_first` and `mdb_cursor_last`, which one page does not need. -/
def searchEnd (target : PageTarget κ) (c : Cursor κ ν ξ) : Option (Option (Cursor κ ν ξ)) :=
  if c.initialized = false ∨ 1 < c.stack.length then mdbPageSearch target db c else some (some c)

def mdbCursorFirst (c : Cursor κ ν ξ) : Option (Answer κ δ (Cursor κ ν ξ)) :=
  match searchEnd db .first (L.clearXcursor c) with
  | none => none
  | some none => some (.fail mdbNotfound (L.clearXcursor c))
  | some (some c) => L.fetchTop L.first { c.setIndex 0 with initialized := true, eof := false }

def mdbCursorLast (c : Cursor κ ν ξ) : Option (Answer κ δ (Cursor κ ν ξ)) :=
  match searchEnd db .last (L.clearXcursor c) with
  | none => none
  | some none => some (.fail mdbNotfound (L.clearXcursor c))
  | some (some c) => L.fetchTop L.last { c.setIndex (c.numkeys - 1) with initialized := true, eof := true }

/-- The step of `mdb_cursor_next` to another node, or with `C_DEL` to the one that the
cursor has come to by a deletion. -/
def advance (c : Cursor κ ν ξ) : Option (Answer κ δ (Cursor κ ν ξ)) :=
  match c.stack with
  | (.leaf nodes, i) :: outer =>
    if c.del then L.fetchTop L.first { c with del := false }
    else if nodes.length ≤ i + 1 then
      match mdbCursorSibling true ((.leaf nodes, i) :: outer) with
      | none => none
      | some none => some (.fail mdbNotfound { c with eof := true })
      | some (some stack) => L.fetchTop L.first { c with stack := stack }
    else L.fetchTop L.first { c with stack := (.leaf nodes, i + 1) :: outer }
  | _ => none

/-- The end flag is believed on the last node of a page; `NUMKEYS(mp)-1` is unsigned. -/
def atEof (c : Cursor κ ν ξ) : Bool :=
  match c.stack with
  | (page, i) :: _ => c.eof && 0 < page.numkeys && page.numkeys ≤ i + 1
  | [] => false

def mdbCursorNext (op : StepOp) (c : Cursor κ ν ξ) : Option (Answer κ δ (Cursor κ ν ξ)) :=
  if c.del = true ∧ op = .dup then some (.fail mdbNotfound c)
  else if c.initialized = false then mdbCursorFirst L db c
  else if atEof c then some (.fail mdbNotfound c)
  else (L.consult L.next op { c with eof := false }).bind (Sum.elim some (advance L))

def retreat (c : Cursor κ ν ξ) : Option (Answer κ δ (Cursor κ ν ξ)) :=
  match c.stack with
  | (page, 0) :: outer =>
    match mdbCursorSibling false ((page, 0) :: outer) with
    | none => none
    | some none => some (.fail mdbNotfound { c with eof := false, del := false })
    | some (some stack) => L.fetchTop L.last { c with eof := false, del := false, stack := stack }
  | (page, i + 1) :: outer => L.fetchTop L.last { c with eof := false, del := false, stack := (page, i) :: outer }
  | [] => none

def prevFrom (op : StepOp) (c : Cursor κ ν ξ) : Option (Answer κ δ (Cursor κ ν ξ)) :=
  (L.consult L.prev op c).bind (Sum.elim some (retreat L))

def mdbCursorPrev (op : StepOp) (c : Cursor κ ν ξ) : Option (Answer κ δ (Cursor κ ν ξ)) :=
  if c.initialized then prevFrom L op c
  else
    match mdbCursorLast L db c with
    | none => none
    | some a =>
      if a.rc ≠ 0 then some a
      else
        match a.cursor.stack with
        | (page, i) :: outer => prevFrom L op { a.cursor with stack := (page, i + 1) :: outer }
        | [] => none

def mdbCursorGetCurrent (c : Cursor κ ν ξ) : Option (Answer κ δ (Cursor κ ν ξ)) :=
  if c.initialized then
    match c.stack with
    | (.leaf nodes, i) :: _ =>
      match nodes[i]? with
      | none => some (.fail mdbNotfound (c.setIndex nodes.length))
      | some x =>
        if L.leaf2 = true ∨ L.readsData = false then some ⟨0, some (L.key x), none, c⟩
        else if L.dupdata x then
          (L.getCurrent c.xcursor).map fun a =>
            ⟨a.rc, some (L.key x), a.key, { c with xcursor := a.cursor }⟩
        else some ⟨0, some (L.key x), L.read x, c⟩
    | _ => none
  else some (.fail einval c)

end Moves

section Set

variable [LinearOrder κ] (L : Level κ δ ν ξ) (db : Db κ ν)

def seekOnPage (exactp : Bool) (key : κ) (c : Cursor κ ν ξ) :
    Option (Answer κ δ (Cursor κ ν ξ) ⊕ Cursor κ ν ξ) :=
  match c.stack with
  | (.leaf nodes, _) :: outer =>
    match mdbNodeSearch key 0 (nodes.map L.key) with
    | (i, exact_) =>
      if exactp && !exact_ then some (.inl (.fail mdbNotfound (c.setIndex i)))
      else if i < nodes.length then some (.inr (c.setIndex i))
      else
        match mdbCursorSibling true ((.leaf nodes, i) :: outer) with
        | none => none
        | some none => some (.inl (.fail mdbNotfound { c.setIndex i with eof := true }))
        | some (some stack) => some (.inr { c with stack := stack })
  | _ => none

def seekFromRoot (exactp : Bool) (key : κ) (c : Cursor κ ν ξ) :
    Option (Answer κ δ (Cursor κ ν ξ) ⊕ Cursor κ ν ξ) :=
  match mdbPageSearch (.key key) db c with
  | none => none
  | some none => some (.inl (.fail mdbNotfound c))
  | some (some c) => seekOnPage L exactp key c

/-- `mdb_cursor_set` up to `set1`, on the page where the cursor is. -/
def seekNear (op : SetOp) (exactp : Bool) (key : κ) (nodes : List ν) (i : ℕ) (outer : Stack κ ν)
    (c : Cursor κ ν ξ) : Option (Answer κ δ (Cursor κ ν ξ) ⊕ Cursor κ ν ξ) :=
  match nodes.head?, nodes.getLast? with
  | some first, some last =>
    match compare key (L.key first) with
    | .eq => some (.inr (c.setIndex 0))
    | .gt =>
      if 1 < nodes.length ∧ compare key (L.key last) = .eq then some (.inr (c.setIndex (nodes.length - 1)))
      else if 1 < nodes.length ∧ compare key (L.key last) = .lt then
        if (nodes[i]?).any fun x => compare key (L.key x) == .eq then some (.inr c)
        else seekOnPage L exactp key { c with eof := false }
      -- no parent has a sibling to the right
      else if outer.all fun (page, i) => page.numkeys ≤ i + 1 then
        some (.inl (.fail mdbNotfound (c.setIndex nodes.length)))
      else seekFromRoot L db exactp key c
    | .lt =>
      if outer.isEmpty then
        if op = .setRange ∧ exactp = false then some (.inr (c.setIndex 0))
        else some (.inl (.fail mdbNotfound (c.setIndex 0)))
      else seekFromRoot L db exactp key c
  | _, _ => some (.inl (.fail mdbNotfound (c.setIndex 0)))

def seek (op : SetOp) (exactp : Bool) (key : κ) (c : Cursor κ ν ξ) :
    Option (Answer κ δ (Cursor κ ν ξ) ⊕ Cursor κ ν ξ) :=
  if c.initialized then
    match c.stack with
    | (.leaf nodes, i) :: outer => seekNear L db op exactp key nodes i outer c
    | _ => none
  else seekFromRoot L db exactp key c

def settleOn (op : SetOp) (data : Option δ) (x : ν) (c : Cursor κ ν ξ) : Option (Answer κ δ (Cursor κ ν ξ)) :=
  let key := if op = .setRange ∨ op = .setKey then some (L.key x) else none
  if L.leaf2 = true then some ⟨0, key, none, c⟩
  else
    let c := if L.dupdata x then { c with xcursor := L.init1 x c.xcursor } else c
    if L.readsData = false then some ⟨0, key, none, c⟩
    else if L.dupdata x then
      if op = .getBoth ∨ op = .getBothRange then
        (L.set (op = .getBoth) data c.xcursor).map fun a => ⟨a.rc, none, a.key, { c with xcursor := a.cursor }⟩
      else (L.first c.xcursor).map fun a => ⟨a.rc, key, a.key, { c with xcursor := a.cursor }⟩
    else if op = .getBoth ∨ op = .getBothRange then
      match (L.read x).map (L.dcmp data) with
      | some .eq => some ⟨0, none, L.read x, c⟩
      | some .lt => if op = .getBoth then some (.fail mdbNotfound c) else some ⟨0, none, L.read x, c⟩
      | some .gt => some (.fail mdbNotfound c)
      | none => none
    else some ⟨0, key, L.read x, L.clearXcursor c⟩

def settle (op : SetOp) (data : Option δ) (c : Cursor κ ν ξ) : Option (Answer κ δ (Cursor κ ν ξ)) :=
  match Level.nodeptr c with
  | some x => settleOn L op data x { c with initialized := true, eof := false }
  | none => none

def mdbCursorSet (op : SetOp) (exactp : Bool) (key : κ) (data : Option δ) (c : Cursor κ ν ξ) :
    Option (Answer κ δ (Cursor κ ν ξ)) :=
  if L.keySize key = 0 then some (.fail mdbBadValsize c)
  else (seek L db op exactp key (L.clearXcursor c)).bind (Sum.elim some (settle L op data))

end Set

end SamLmdb
