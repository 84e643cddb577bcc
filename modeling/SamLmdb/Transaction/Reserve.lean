import SamLmdb.Cursor.Put

/-!
`RwTransaction::put` and `RwTransaction::reserve` (src/transaction.rs). A slice that has been
reserved is filled by its caller, and then the database is to be as after a put.
-/

namespace SamLmdb

open PageTree

/-- `&mut [u8]`: the value of the node that the stack leads to, or memory from the null pointer on. -/
structure SliceMut (κ : Type) where
  place : Option (Stack κ (Node κ Bytes))
  len : ℕ

def SliceMut.fill {κ : Type} (v : Bytes) (slice : SliceMut κ) (db : MainDb κ Bytes) : Option (MainDb κ Bytes) :=
  slice.place.bind fun stack =>
    if v.data.length = slice.len then
      (topNode stack).map fun x => { db with root := rootOf (rewrite ⟨x.key, .single v⟩ stack) }
    else none

namespace RwTransaction

variable {κ : Type} [LinearOrder κ] [LinearOrder Bytes] (D : Database κ Bytes) (txn : PutTxn κ)
    (db : MainDb κ Bytes)
  (key : κ)

def put (data : Bytes) (flags : WriteFlags) : Option (Except Error Unit × Option (MainDb κ Bytes)) :=
  (mdbPut D txn db key (.bytes data) ⟨flags, false⟩).map fun r => (lmdbResult r.rc, r.db)

/-- The data pointer is null. -/
def reserve (len : ℕ) (flags : WriteFlags) : Option (Except Error (SliceMut κ) × Option (MainDb κ Bytes)) :=
  (mdbPut D txn db key (.null len) ⟨flags, true⟩).map fun r =>
    ((lmdbResult r.rc).map fun _ => ⟨r.place, r.size⟩, r.db)

end RwTransaction

def contents {κ : Type} (db : MainDb κ Bytes) : List (Node κ Bytes) × ℕ := (allNodes db, db.entries)

/-- The outcome of `reserve` is that of `put`, once the slice has been filled. -/
inductive SameOutcome {κ : Type} (v : Bytes) :
    Except Error (SliceMut κ) × Option (MainDb κ Bytes) → Except Error Unit × Option (MainDb κ Bytes) → Prop
  | error {e db} : SameOutcome v (.error e, db) (.error e, db)
  | ok {slice reserved filled stored} : slice.len = v.data.length → slice.fill v reserved = some filled →
      contents filled = contents stored → SameOutcome v (.ok slice, some reserved) (.ok (), some stored)

/-- Neither call reads what it must not, and they come to the same. -/
def Agrees {κ : Type} [LinearOrder κ] [LinearOrder Bytes] (D : Database κ Bytes) (txn : PutTxn κ)
    (db : MainDb κ Bytes) (key : κ) (v : Bytes) (flags : WriteFlags) :
    Prop :=
  ∃ a b, RwTransaction.reserve D txn db key v.data.length flags = some a ∧
    RwTransaction.put D txn db key v flags = some b ∧ SameOutcome v a b

section Node

variable {κ : Type} {D : Database κ Bytes} {txn : PutTxn κ} {v : Bytes} {flags : WriteFlags}

/-- Two results that differ at most in the value that one of them has left to the caller. -/
inductive Matches (v : Bytes) : Option (PutResult κ) → Option (PutResult κ) → Prop
  | error {rc db} : rc ≠ 0 → Matches v (some ⟨rc, db, none, 0⟩) (some ⟨rc, db, none, 0⟩)
  | ok {entries key there front back stack stack'} : Placed stack front ⟨key, .single there⟩ back →
      Placed stack' front ⟨key, .single v⟩ back →
      Matches v (some (.done true entries v.data.length stack)) (some (.done false entries v.data.length stack'))

theorem Matches.ite {p : Prop} [Decidable p] {r₁ r₂ r₁' r₂' : Option (PutResult κ)}
    (yes : p → Matches v r₁ r₁') (no : ¬ p → Matches v r₂ r₂') :
    Matches v (if p then r₁ else r₂) (if p then r₁' else r₂') := by
  by_cases held : p
  · rw [if_pos held, if_pos held]
    exact yes held
  · rw [if_neg held, if_neg held]
    exact no held

section Place

variable {page : Page κ (Node κ Bytes)} {outer : Stack κ (Node κ Bytes)} {nodes : List (Node κ Bytes)} {i : ℕ}
  (chain : Chain page outer)
include chain

theorem addNode_matches (upTo : i ≤ nodes.length) (entries : ℕ) (key : κ) :
    Matches v (addNode D txn entries key (.null v.data.length) ⟨flags, true⟩ nodes i outer)
      (addNode D txn entries key (.bytes v) ⟨flags, false⟩ nodes i outer) := by
  rw [addNode, addNode]
  refine .ite (fun failed => .error failed) fun _ => ?_
  cases room : txn.fits D key v.data.length nodes with
  | true =>
    simp only [copyData, DataArg.size, DataArg.read, room, if_true, Option.map_some, Bool.false_eq_true, if_false]
    exact .ok (insertNode_placed chain upTo _) (insertNode_placed chain upTo _)
  | false =>
    simp only [copyData, DataArg.size, DataArg.read, room, if_true, Option.map_some, Bool.false_eq_true, if_false]
    exact .ok (splitNode_placed chain upTo _ _ _) (splitNode_placed chain upTo _ _ _)

end Place

theorem overwrite_matches {outer : Stack κ (Node κ Bytes)} {nodes : List (Node κ Bytes)} {i : ℕ}
    {x : Node κ Bytes} (chain : Chain (.leaf nodes) outer) (here : nodes[i]? = some x) (db : MainDb κ Bytes)
    (key : κ) (old : Bytes) :
    Matches v (overwrite D txn db key (.null v.data.length) ⟨flags, true⟩ nodes i outer x old)
      (overwrite D txn db key (.bytes v) ⟨flags, false⟩ nodes i outer x old) := by
  have placed := Placed.on chain here
  have inPlace (there : Bytes) : Matches v
      ((copyData true (.null v.data.length) there).map fun stored =>
        PutResult.done true db.entries v.data.length (rewrite ⟨x.key, .single stored⟩ ((.leaf nodes, i) :: outer)))
      ((copyData false (.bytes v) there).map fun stored =>
        PutResult.done false db.entries v.data.length
          (rewrite ⟨x.key, .single stored⟩ ((.leaf nodes, i) :: outer))) :=
    .ok (placed.rewrite _) (placed.rewrite _)
  have inside : i < nodes.length := (List.getElem?_eq_some_iff.1 here).1
  have upTo : i ≤ (nodes.eraseIdx i).length := by
    rw [List.length_eraseIdx_of_lt inside]
    omega
  have again := @addNode_matches κ D txn v flags _ _ _ _ chain upTo db.entries key
  rw [overwrite, overwrite]
  refine .ite (fun _ => .error (by decide)) fun _ => ?_
  cases txn.overflow x.key with
  | none => exact .ite (fun _ => inPlace old) fun _ => again
  | some page =>
    refine .ite (fun failed => .error failed) fun _ => .ite (fun failed => .error failed.2) fun _ =>
      .ite (fun _ => ?_) fun _ => ?_
    · exact .ite (fun _ => .error (by decide)) fun _ => inPlace _
    · exact .ite (fun failed => .error failed) fun _ => again

theorem insertItem_matches {page : Page κ (Node κ Bytes)} {outer : Stack κ (Node κ Bytes)}
    {nodes : List (Node κ Bytes)} {i : ℕ} (chain : Chain page outer) (upTo : i ≤ nodes.length)
    (db : MainDb κ Bytes) (key : κ)
    (alone : D.dupSort = true → txn.nodemax < PutTxn.leafSize D key v.data.length →
      txn.pageNew (1 :: txn.addPages D flags.append key dbSize nodes i outer) ≠ 0) :
    Matches v (insertItem D txn db key (.null v.data.length) ⟨flags, true⟩ nodes i outer)
      (insertItem D txn db key (.bytes v) ⟨flags, false⟩ nodes i outer) := by
  rw [insertItem, insertItem]
  refine .ite (fun big => ?_) fun _ => addNode_matches chain upTo _ key
  rw [storeDup, storeDup]
  exact .ite (fun failed => .error failed) fun succeeded => absurd (alone big.1 big.2) succeeded

theorem updateItem_matches [LinearOrder Bytes] {outer : Stack κ (Node κ Bytes)}
    {nodes : List (Node κ Bytes)} {i : ℕ} {x : Node κ Bytes} (chain : Chain (.leaf nodes) outer)
    (here : nodes[i]? = some x) (db : MainDb κ Bytes) (key : κ)
    (single : D.dupSort = false → x.data.dupdata = false)
    (alone : D.dupSort = true → txn.pageNew (txn.dupPages D v.data.length nodes i outer x) ≠ 0) :
    Matches v (updateItem D txn db key (.null v.data.length) ⟨flags, true⟩ nodes i outer)
      (updateItem D txn db key (.bytes v) ⟨flags, false⟩ nodes i outer) := by
  rw [updateItem, updateItem, here, Option.bind_some, Option.bind_some]
  refine .ite (fun sorts => ?_) fun plain => ?_
  · rw [storeDup, storeDup]
    exact .ite (fun failed => .error failed) fun succeeded => absurd (alone sorts) succeeded
  · obtain ⟨old, held⟩ := NodeData.single_of_dupdata (single (Bool.eq_false_iff.2 plain))
    simp only [held]
    exact overwrite_matches chain here db key old

end Node

section Put

variable {κ : Type} [LinearOrder κ] [LinearOrder Bytes] (D : Database κ Bytes) (txn : PutTxn κ)
    (db : MainDb κ Bytes)
  (key : κ) (size : ℕ) (flags : WriteFlags)

def HasKey {κ : Type} (db : MainDb κ Bytes) (key : κ) : Prop := ∃ x ∈ allNodes db, x.key = key

/-- The put is not refused for its flags, its sizes or the state of the transaction, and the pages
that it starts with can be written. -/
structure Accepted : Prop where
  allowed : flags.current = false
  unblocked : txn.blocked = false
  keyed : ¬ (D.keySize key = 0 ∨ txn.maxKey < D.keySize key)
  small : size ≤ if D.dupSort then txn.maxKey else maxdatasize
  spill : txn.pageSpill (PutTxn.leafSize D key size) = 0
  pages : if db.root.isNone then txn.pageNew [1] = 0 else txn.cursorTouch = 0

/-- The pages for a value that goes to those of its key, or to a sub-database of its own. -/
def pagesAmong : List ℕ :=
  if db.root.isNone then 1 :: txn.addPages D flags.append key dbSize [] 0 []
  else
    match locate D db key flags.append with
    | some (rc, c) =>
      match c.stack with
      | (.leaf nodes, i) :: outer =>
        if rc = 0 then nodes[i]?.elim [] (txn.dupPages D size nodes i outer)
        else 1 :: txn.addPages D flags.append key dbSize nodes i outer
      | _ => []
    | none => []

/-- The value goes to those of its key, or to a sub-database of its own, and is not refused before. -/
structure GoesAmong : Prop where
  dupSort : D.dupSort = true
  accepted : Accepted D txn db key size flags
  goes : HasKey db key ∧ flags.noOverwrite = false ∧ flags.append = false ∨
    ¬ HasKey db key ∧ txn.nodemax < PutTxn.leafSize D key size ∧
      (flags.append = true → ∀ x ∈ allNodes db, x.key < key)
  pages : txn.pageNew (pagesAmong D txn db key size flags) = 0

variable {D txn db key size flags} {v : Bytes}

theorem Matches.agrees (same : Matches v (mdbPut D txn db key (.null v.data.length) ⟨flags, true⟩)
    (mdbPut D txn db key (.bytes v) ⟨flags, false⟩)) : Agrees D txn db key v flags := by
  rw [Agrees, RwTransaction.reserve, RwTransaction.put]
  generalize mdbPut D txn db key (.null v.data.length) ⟨flags, true⟩ = reserved at same
  generalize mdbPut D txn db key (.bytes v) ⟨flags, false⟩ = stored at same
  cases same with
  | @error rc db failed =>
    have refused : lmdbResult rc = .error (.fromErrCode rc) := if_neg failed
    refine ⟨_, _, rfl, rfl, ?_⟩
    simp only [refused]
    exact .error
  | @ok entries key there front back stack stack' placed placed' =>
    obtain ⟨root, rooted, nodes⟩ := (placed.rewrite ⟨key, .single v⟩).rootOf_eq
    obtain ⟨root', rooted', nodes'⟩ := placed'.rootOf_eq
    have filled : SliceMut.fill v ⟨some stack, v.data.length⟩ ⟨rootOf stack, entries⟩ =
        some ⟨rootOf (rewrite ⟨key, .single v⟩ stack), entries⟩ := by
      simp [SliceMut.fill, placed.topNode_eq]
    refine ⟨_, _, rfl, rfl, .ok rfl filled ?_⟩
    simp [contents, allNodes, rooted, rooted', nodes, nodes']

/-- The same search, and the same updates where it ends. -/
theorem mdbPut_matches (valid : D.Valid db) (alone : ¬ GoesAmong D txn db key v.data.length flags) :
    Matches v (mdbPut D txn db key (.null v.data.length) ⟨flags, true⟩)
      (mdbPut D txn db key (.bytes v) ⟨flags, false⟩) := by
  rw [mdbPut, mdbPut]
  refine .ite (fun _ => .error (by decide)) fun allowed => .ite (fun _ => .error (by decide)) fun unblocked => ?_
  rw [mdbCursorPut, mdbCursorPut]
  refine .ite (fun _ => .error (by decide)) fun _ => .ite (fun _ => .error (by decide)) fun keyed =>
    .ite (fun _ => .error (by decide)) fun small => ?_
  have accepted (spill : ¬ txn.pageSpill (PutTxn.leafSize D key v.data.length) ≠ 0)
      (pages : if db.root.isNone then txn.pageNew [1] = 0 else txn.cursorTouch = 0) :
      Accepted D txn db key v.data.length flags :=
    ⟨Bool.eq_false_iff.2 allowed, Bool.eq_false_iff.2 unblocked, keyed, Nat.le_of_not_lt small,
      not_not.1 spill, pages⟩
  cases rooted : db.root with
  | none =>
    refine .ite (fun _ => ?_) fun rootless => absurd rfl rootless
    refine .ite (fun failed => .error failed) fun spill => .ite (fun failed => .error failed) fun pages => ?_
    have nothing : allNodes db = [] := by
      rw [allNodes, rooted]
      rfl
    refine insertItem_matches (Chain.root : Chain (.leaf []) []) (Nat.le_refl 0) db key fun sorts big succeeded => ?_
    refine alone ⟨sorts, ?_, .inr ⟨?_, big, ?_⟩, ?_⟩
    · exact accepted spill (by simpa [rooted] using pages)
    · simp [HasKey, nothing]
    · simp [nothing]
    · simpa [pagesAmong, rooted] using succeeded
  | some root =>
    refine .ite (fun empty => absurd empty (by simp)) fun _ => ?_
    have located := locate_locates key valid rooted (fun zero => keyed (.inl zero)) flags.append
    generalize found : locate D db key flags.append = answer at located
    cases located with
    | unordered _ _ =>
      exact .ite (fun _ => .error (by decide)) fun _ => .ite (fun _ => .error (by decide)) fun ordered =>
        absurd ⟨by decide, by decide⟩ ordered
    | @absent c nodes i outer greatest missing stacked chain upTo =>
      refine .ite (fun there => absurd there.2 (by decide)) fun _ => .ite (fun other => absurd rfl other.2) fun _ =>
        .ite (fun failed => .error failed) fun spill => .ite (fun failed => .error failed) fun touched => ?_
      rw [stacked]
      refine .ite (fun zero => absurd zero (by decide)) fun _ => ?_
      refine insertItem_matches chain upTo db key fun sorts big succeeded => ?_
      refine alone ⟨sorts, ?_, .inr ⟨?_, big, greatest⟩, ?_⟩
      · exact accepted spill (by simpa [rooted] using touched)
      · rintro ⟨x, inside, same⟩
        exact missing x inside same
      · simpa [pagesAmong, rooted, found, stacked] using succeeded
    | @present c nodes i outer x appends inside same stacked chain here =>
      refine .ite (fun _ => .error (by decide)) fun overwrites => .ite (fun other => absurd rfl other.1) fun _ =>
        .ite (fun failed => .error failed) fun spill => .ite (fun failed => .error failed) fun touched => ?_
      rw [stacked]
      refine .ite (fun _ => ?_) fun nonzero => absurd rfl nonzero
      have wf := (valid.tree root rooted).nodes x (allNodes_of_root rooted ▸ inside)
      have single (plain : D.dupSort = false) : x.data.dupdata = false :=
        Bool.eq_false_iff.2 fun dup => absurd (plain.symm.trans (wf dup).1) (by decide)
      refine updateItem_matches chain here db key single fun sorts succeeded => ?_
      refine alone ⟨sorts, ?_, .inl ⟨⟨x, inside, same⟩, ?_, appends⟩, ?_⟩
      · exact accepted spill (by simpa [rooted] using touched)
      · exact Bool.eq_false_iff.2 fun kept => overwrites ⟨kept, rfl⟩
      · simpa [pagesAmong, rooted, found, stacked, here] using succeeded

section Accepted

variable {data : DataArg} {reserve : Bool} (accepted : Accepted D txn db key data.size flags)
include accepted

theorem Accepted.empty (rooted : db.root = none) :
    mdbPut D txn db key data ⟨flags, reserve⟩ = insertItem D txn db key data ⟨flags, reserve⟩ [] 0 [] := by
  have ⟨allowed, unblocked, keyed, small, spill, pages⟩ := accepted
  have fresh : txn.pageNew [1] = 0 := by simpa [rooted] using pages
  simp [mdbPut, mdbCursorPut, allowed, unblocked, keyed, Nat.not_lt.2 small, spill, fresh, rooted]

variable {root : Page κ (Node κ Bytes)} {c : MainCursor κ Bytes} {nodes : List (Node κ Bytes)} {i : ℕ}
  {outer : Stack κ (Node κ Bytes)} (rooted : db.root = some root) (stacked : c.stack = (.leaf nodes, i) :: outer)
include rooted stacked

theorem Accepted.absent (found : locate D db key flags.append = some (mdbNotfound, c)) :
    mdbPut D txn db key data ⟨flags, reserve⟩ = insertItem D txn db key data ⟨flags, reserve⟩ nodes i
      outer := by
  have ⟨allowed, unblocked, keyed, small, spill, pages⟩ := accepted
  have touched : txn.cursorTouch = 0 := by simpa [rooted] using pages
  simp [mdbPut, mdbCursorPut, allowed, unblocked, keyed, Nat.not_lt.2 small, spill, touched, rooted, found, stacked]

theorem Accepted.present (found : locate D db key flags.append = some (0, c)) (overwrites : flags.noOverwrite = false) :
    mdbPut D txn db key data ⟨flags, reserve⟩ = updateItem D txn db key data ⟨flags, reserve⟩ nodes i
      outer := by
  have ⟨allowed, unblocked, keyed, small, spill, pages⟩ := accepted
  have touched : txn.cursorTouch = 0 := by simpa [rooted] using pages
  simp [mdbPut, mdbCursorPut, allowed, unblocked, keyed, Nat.not_lt.2 small, spill, touched, rooted, found, stacked,
    overwrites]

end Accepted

section Reads

variable (sized : 0 < size)
include sized

omit [LinearOrder κ] [LinearOrder Bytes] in
theorem storeDup_reads {pages : List ℕ} (succeeded : txn.pageNew pages = 0)
    (store : Bytes → Option (PutResult κ)) :
    storeDup txn (.null size) pages store = none := by
  have unread : (DataArg.null size).read = none := if_neg (Nat.ne_of_gt sized)
  rw [storeDup, if_neg (not_not.2 succeeded), unread]
  rfl

omit [LinearOrder κ] [LinearOrder Bytes] in
theorem insertItem_reads {nodes : List (Node κ Bytes)} {i : ℕ} {outer : Stack κ (Node κ Bytes)}
    (sorts : D.dupSort = true) (big : txn.nodemax < PutTxn.leafSize D key size)
    (succeeded : txn.pageNew (1 :: txn.addPages D flags.append key dbSize nodes i outer) = 0) :
    insertItem D txn db key (.null size) ⟨flags, true⟩ nodes i outer = none := by
  rw [insertItem, if_pos ⟨sorts, big⟩]
  exact storeDup_reads sized succeeded _

/-- Where the value goes to others it is looked at, and a null pointer is read. -/
theorem mdbPut_reads (valid : D.Valid db) (among : GoesAmong D txn db key size flags) :
    mdbPut D txn db key (.null size) ⟨flags, true⟩ = none := by
  obtain ⟨sorts, accepted, goes, succeeded⟩ := among
  have accepted : Accepted D txn db key (DataArg.null size).size flags := accepted
  rw [pagesAmong] at succeeded
  cases rooted : db.root with
  | none =>
    have nothing : allNodes db = [] := by
      rw [allNodes, rooted]
      rfl
    rcases goes with ⟨⟨x, inside, _⟩, _⟩ | ⟨_, big, _⟩
    · simp [nothing] at inside
    · rw [accepted.empty rooted]
      exact insertItem_reads sized sorts big (by simpa [rooted] using succeeded)
  | some root =>
    have located := locate_locates key valid rooted (fun zero => accepted.keyed (.inl zero)) flags.append
    generalize found : locate D db key flags.append = answer at located
    rw [rooted, found] at succeeded
    cases located with
    | unordered appends least =>
      obtain ⟨x, inside, least⟩ := least
      rcases goes with ⟨_, _, plain⟩ | ⟨_, _, greatest⟩
      · exact absurd (plain.symm.trans appends) (by decide)
      · exact absurd (greatest appends x inside) (not_lt.2 least)
    | absent _ missing stacked _ _ =>
      rcases goes with ⟨⟨x, inside, same⟩, _⟩ | ⟨_, big, _⟩
      · exact absurd same (missing x inside)
      · rw [accepted.absent rooted stacked found]
        exact insertItem_reads sized sorts big (by simpa [stacked] using succeeded)
    | present appends inside same stacked _ here =>
      rcases goes with ⟨_, overwrites, _⟩ | ⟨missing, _⟩
      · rw [accepted.present rooted stacked found overwrites, updateItem, here, Option.bind_some, if_pos sorts]
        refine storeDup_reads sized ?_ _
        simpa [stacked, here, DataArg.size] using succeeded
      · exact absurd ⟨_, inside, same⟩ missing

end Reads

/-- `reserve` is `put` without a copy, unless the value has to go to others: then LMDB reads the
null pointer that it is given for the value. -/
theorem reserve_agrees_iff (D : Database κ Bytes) (txn : PutTxn κ) (db : MainDb κ Bytes) (key : κ) (v : Bytes)
    (flags : WriteFlags) (valid : D.Valid db) (sized : D.dupSort = true → 0 < v.data.length) :
    Agrees D txn db key v flags ↔ ¬ GoesAmong D txn db key v.data.length flags := by
  constructor
  · rintro ⟨_, _, reserved, _⟩ among
    rw [RwTransaction.reserve, mdbPut_reads (sized among.dupSort) valid among] at reserved
    cases reserved
  · exact fun alone => (mdbPut_matches valid alone).agrees

end Put

section OneText

def oneText : MainDb ℕ Bytes := ⟨some (.leaf [⟨1, .single ⟨[97, 97]⟩⟩]), 1⟩

theorem oneText_valid : texts.Valid oneText where
  fixed := nofun
  tree := by
    rintro _ ⟨⟩
    exact ⟨⟨0, .leaf (by simp)⟩, .leaf, by simp, by simp [Database.mainMeaning, NodeData.dupdata]⟩

def noFlags : WriteFlags := ⟨false, false, false, false, false⟩

def freshTxn : PutTxn ℕ where
  blocked := false
  maxKey := 511
  psize := 4096
  nodemax := 2038
  pageSpill := fun _ => 0
  cursorTouch := 0
  pageAlloc := fun _ => 0
  overflow := fun _ => none
  dbRecord := fun _ => false
  subPageSize := fun _ => 0
  memory := fun _ => 0
  putDup := fun db _ _ _ => some (.fail enomem db)

theorem reserve_agrees_new : Agrees texts freshTxn oneText 2 ⟨[98]⟩ noFlags := by
  refine (reserve_agrees_iff texts freshTxn oneText 2 ⟨[98]⟩ noFlags oneText_valid (by decide)).2 ?_
  rintro ⟨_, _, ⟨⟨x, inside, same⟩, _⟩ | ⟨_, big, _⟩, _⟩
  · rw [show allNodes oneText = [⟨1, .single ⟨[97, 97]⟩⟩] from rfl, List.mem_singleton] at inside
    subst inside
    cases same
  · exact absurd big (by decide)

/-- `aa` can be put again, and cannot be reserved. -/
theorem reserve_reads_null : texts.Valid oneText ∧
    (∃ db, RwTransaction.put texts freshTxn oneText 1 ⟨[97, 97]⟩ noFlags = some (.ok (), some db)) ∧
    RwTransaction.reserve texts freshTxn oneText 1 2 noFlags = none ∧
    ¬ Agrees texts freshTxn oneText 1 ⟨[97, 97]⟩ noFlags := by
  have reads : RwTransaction.reserve texts freshTxn oneText 1 2 noFlags = none := rfl
  refine ⟨oneText_valid, ⟨_, rfl⟩, reads, ?_⟩
  rintro ⟨_, _, reserved, _⟩
  cases reads.symm.trans reserved

end OneText

end SamLmdb
