import Mathlib.Data.List.Lex
import SamLmdb.Cursor.Update

/-!
`mdb_cursor_put` with `MDB_CURRENT` in a `DUP_SORT` database. The duplicates of a key are
keys of a tree of their own, without data, and of them only the bytes are written.
-/

namespace SamLmdb

open PageTree

structure Bytes where
  data : List UInt8
  deriving DecidableEq, Repr

/-- `memcpy` to `NODEKEY` of a node without data. Bytes behind those that are written stay,
and `mn_ksize` too; a node is padded to an even size, and another may follow. -/
def overwriteKey (old key : Bytes) : Option Bytes :=
  if key.data.length ≤ old.data.length + old.data.length % 2 then
    some ⟨(key.data ++ old.data.drop key.data.length).take old.data.length⟩
  else none

theorem overwriteKey_length {old key stored : Bytes} (written : overwriteKey old key = some stored) :
    stored.data.length = old.data.length := by
  unfold overwriteKey at written
  split at written
  · cases written
    simp only [List.length_take, List.length_append, List.length_drop]
    omega
  · cases written

theorem overwriteKey_same {old key : Bytes} (same : key.data.length = old.data.length) :
    overwriteKey old key = some key := by
  rw [overwriteKey, if_pos (by omega), same, List.drop_length, List.append_nil, ← same, List.take_length]

/-- What a put meets with in its transaction: the greatest key size, whether the transaction
is blocked, what becomes of the pages to be written, and how full they are. -/
structure WriteTxn (κ : Type) where
  maxKey : ℕ
  blocked : Bool
  /-- `mdb_page_spill` -/
  pageSpill : ℤ
  /-- `mdb_cursor_touch` of the cursor, and of the one in its xcursor -/
  cursorTouch : ℤ
  subTouch : ℤ
  /-- `SIZELEFT` is enough for one more node. -/
  leafRoom : List (Node κ Bytes) → Node κ Bytes → Bool
  /-- `mdb_page_split` of the leaf page on top, for a node at its index -/
  leafSplit : Stack κ (Node κ Bytes) → Node κ Bytes → ℤ × Stack κ (Node κ Bytes)
  /-- `SIZELEFT` is enough for another separator. -/
  branchRoom : List (Bytes × Page Bytes Bytes) → ℕ → Bytes → Bool
  /-- `mdb_node_del` and `mdb_page_split` of the branch page on top, for another separator -/
  branchSplit : Stack Bytes Bytes → Bytes → ℤ × Stack Bytes Bytes

section Put

variable {κ : Type} (txn : WriteTxn κ)

def mdbUpdateKey (key : Bytes) (stack : Stack Bytes Bytes) : ℤ × Stack Bytes Bytes :=
  match stack with
  | (.branch children, i) :: _ =>
    if txn.branchRoom children i key then (0, relabel key stack) else txn.branchSplit stack key
  | _ => (0, stack)

/-- The loop of `fix_parent`: slot 0 is always an empty key, the real slot is further down. -/
def fixRealSlot (key : Bytes) : Stack Bytes Bytes → ℤ × Stack Bytes Bytes
  | [] => (0, [])
  | (page, 0) :: outer => ((fixRealSlot key outer).1, (page, 0) :: (fixRealSlot key outer).2)
  | (page, i + 1) :: outer => mdbUpdateKey txn key ((page, i + 1) :: outer)

def fixParent (key : Bytes) (i : ℕ) (outer : Stack Bytes Bytes) : ℤ × Stack Bytes Bytes :=
  if i = 0 then fixRealSlot txn key outer else (0, outer)

/-- The put of the cursor in the xcursor, whose data is of size 0 as that of the nodes. -/
def putSub (dupFixed : Bool) (key : Bytes) (mx : XCursor Bytes) : Option (ℤ × XCursor Bytes) :=
  if txn.blocked then some (mdbBadTxn, mx)
  else if key.data.length = 0 ∨ txn.maxKey < key.data.length then some (mdbBadValsize, mx)
  else if mx.cursor.initialized = false then some (einval, mx)
  else if txn.subTouch ≠ 0 then some (txn.subTouch, { mx with cursor := { mx.cursor with del := false } })
  else
    match mx.cursor.stack with
    | (.leaf values, i) :: outer =>
      match values[i]? with
      | none => none
      | some old =>
        if dupFixed = true ∧ key.data.length ≠ old.data.length then
          some (mdbBadValsize, { mx with cursor := { mx.cursor with del := false } })
        else
          match overwriteKey old key with
          | none => none
          | some stored =>
            let page := .leaf (values.set i stored)
            let fixed := fixParent txn key i (reseat page outer)
            some (fixed.1, {
              cursor := { mx.cursor with del := false, stack := (page, i) :: fixed.2 },
              db := mx.db.map fun db => { db with root := some (bottom page fixed.2) } })
    | _ => none

/-- `more`: the node under the cursor, in a database with duplicates. -/
def putNode (D : Database κ Bytes) (db : MainDb κ Bytes) (key : κ) (data : Bytes) (c : MainCursor κ Bytes) :
    Option (Update κ Bytes) :=
  match c.stack with
  | (.leaf nodes, i) :: outer =>
    match nodes[i]? with
    | none => none
    | some x =>
      match x.data with
      | .single old =>
        if data.data.length = old.data.length then
          some (replaceNode db { c with del := false } nodes i outer 0 c.xcursor ⟨x.key, .single data⟩)
        else if txn.leafRoom (nodes.eraseIdx i) ⟨key, .single data⟩ then
          some (replaceNode db { c with del := false } nodes i outer 0 c.xcursor ⟨key, .single data⟩)
        else
          let split := txn.leafSplit ((.leaf (nodes.eraseIdx i), i) :: outer) ⟨key, .single data⟩
          some ⟨split.1, { db with root := split.2.getLast?.map Prod.fst },
            { c with del := false, stack := split.2 }⟩
      | _ =>
        (putSub txn D.dupFixed data (x.data.load c.xcursor)).bind fun (rc, mx) =>
          (x.data.store mx).map fun stored => replaceNode db { c with del := false } nodes i outer rc mx
            ⟨x.key, stored⟩
  | _ => none

def putCurrent (D : Database κ Bytes) (db : MainDb κ Bytes) (key : κ) (data : Bytes) (c : MainCursor κ Bytes) :
    Option (Update κ Bytes) :=
  if txn.blocked then some ⟨mdbBadTxn, db, c⟩
  else if D.keySize key = 0 ∨ txn.maxKey < D.keySize key then some ⟨mdbBadValsize, db, c⟩
  else if txn.maxKey < data.data.length then some ⟨mdbBadValsize, db, c⟩
  else if c.initialized = false then some ⟨einval, db, c⟩
  else if txn.pageSpill ≠ 0 then some ⟨txn.pageSpill, db, { c with del := false }⟩
  else if txn.cursorTouch ≠ 0 then some ⟨txn.cursorTouch, db, { c with del := false }⟩
  else putNode txn D db key data c

end Put

section Lawful

variable {κ : Type}

/-- A split of a page puts the new node, or separator, where it is told to, and the cursor
is there. -/
structure WriteTxn.Lawful (txn : WriteTxn κ) : Prop where
  leaf : ∀ root nodes i outer x, Path root 0 ((.leaf nodes, i) :: outer) → i < nodes.length →
    (txn.leafSplit ((.leaf (nodes.eraseIdx i), i) :: outer) x).1 = 0 →
    ∃ root', Spot root' (txn.leafSplit ((.leaf (nodes.eraseIdx i), i) :: outer) x).2
      (leftOf outer ++ nodes.take i) x (nodes.drop (i + 1) ++ rightOf outer)
  branch : ∀ root n page j children i outer key, Path root n ((page, j) :: (.branch children, i) :: outer) →
    (txn.branchSplit ((.branch children, i) :: outer) key).1 = 0 →
    ∃ root', Path root' n ((page, j) :: (txn.branchSplit ((.branch children, i) :: outer) key).2) ∧
      leftOf (txn.branchSplit ((.branch children, i) :: outer) key).2 = leftOf ((.branch children, i) :: outer) ∧
      rightOf (txn.branchSplit ((.branch children, i) :: outer) key).2 = rightOf ((.branch children, i) :: outer)

variable {txn : WriteTxn κ} (lawful : txn.Lawful) {root page : Page Bytes Bytes} {n j : ℕ}
    {outer : Stack Bytes Bytes}
  {key : Bytes}
include lawful

theorem fixRealSlot_path (path : Path root n ((page, j) :: outer)) (success : (fixRealSlot txn key outer).1 = 0) :
    ∃ root', Path root' n ((page, j) :: (fixRealSlot txn key outer).2) ∧
      leftOf (fixRealSlot txn key outer).2 = leftOf outer ∧
        rightOf (fixRealSlot txn key outer).2 = rightOf outer := by
  induction outer generalizing n page j with
  | nil => exact ⟨root, path, rfl, rfl⟩
  | cons parent outer ih =>
    obtain ⟨parent, i⟩ := parent
    cases path with
    | @child _ children _ sep _ _ _ below here =>
    cases i with
    | zero =>
      obtain ⟨root', path', left, right⟩ := ih below success
      refine ⟨root', path'.child here, ?_, ?_⟩
      · simp only [fixRealSlot, leftOf, left]
      · simp only [fixRealSlot, rightOf, right]
    | succ i =>
      rw [fixRealSlot, mdbUpdateKey] at success ⊢
      split
      · have path' := Path.relabel (below.child here (j := j)) key
        exact ⟨_, path', leftOf_relabel key ((.branch children, i + 1) :: outer),
          rightOf_relabel key ((.branch children, i + 1) :: outer)⟩
      · rename_i full
        rw [if_neg full] at success
        exact lawful.branch root n page j children (i + 1) outer key (below.child here) success

theorem fixParent_path (path : Path root n ((page, j) :: outer)) (success : (fixParent txn key j outer).1 = 0) :
    ∃ root', Path root' n ((page, j) :: (fixParent txn key j outer).2) ∧
      leftOf (fixParent txn key j outer).2 = leftOf outer ∧
        rightOf (fixParent txn key j outer).2 = rightOf outer := by
  rw [fixParent] at success ⊢
  split
  · rename_i first
    rw [if_pos first] at success
    exact fixRealSlot_path lawful path success
  · exact ⟨root, path, rfl, rfl⟩

end Lawful

section Sub

variable {κ : Type} {D : Database κ Bytes} {txn : WriteTxn κ} {root : Page Bytes Bytes} {c : Cursor Bytes Bytes Unit}
  {mx mx' : XCursor Bytes} {front back : List Bytes} {v key : Bytes}

theorem putSub_located (lawful : txn.Lawful) (same : mx.root = some root)
    (located : D.subMeaning.Located root mx.cursor front v back [] () [])
    (put : putSub txn D.dupFixed key mx = some (0, mx')) :
    ∃ root' stored, overwriteKey v key = some stored ∧ mx'.root = some root' ∧ mx'.cursor.del = false ∧
      D.subMeaning.Located root' mx'.cursor front stored back [] () [] ∧
      (mx.cursor.stack.length = 1 → mx'.cursor.stack.length = 1) := by
  obtain ⟨values, i, outer, stacked⟩ := located.stacked
  have spot := located.spot
  rw [stacked] at spot
  obtain ⟨_, top, here, path, rfl, rfl⟩ := spot.top
  cases top
  obtain ⟨db, known, _⟩ := Option.bind_eq_some_iff.1 same
  rw [putSub] at put
  split at put
  · cases put
  split at put
  · cases put
  split at put
  · cases put
  split at put
  · rename_i failed
    exact absurd (Prod.mk.inj (Option.some.inj put)).1 failed
  simp only [stacked, here] at put
  split at put
  · cases put
  cases written : overwriteKey v key with
  | none => simp [written] at put
  | some stored =>
    simp only [written, Option.some.injEq, Prod.mk.injEq] at put
    obtain ⟨success, rfl⟩ := put
    have inside := (List.getElem?_eq_some_iff.1 here).1
    obtain ⟨root', path', left, right⟩ := fixParent_path lawful (path.reseat (path.uniform.set i stored) i) success
    have stored_here : (values.set i stored)[i]? = some stored := by simp [inside]
    have spot' := Spot.on path' stored_here
    rw [left, right, leftOf_reseat, rightOf_reseat, List.take_set_of_le (Nat.le_refl i),
      List.drop_set_of_lt (Nat.lt_succ_self i)] at spot'
    have root_eq : (mx.db.map fun db => { db with root := some (bottom (.leaf (values.set i stored))
        (fixParent txn key i (reseat (.leaf (values.set i stored)) outer)).2) }).bind Db.root = some root' := by
      rw [known]
      exact congrArg some path'.bottom_eq
    refine ⟨root', stored, rfl, root_eq, rfl,
      ⟨located.initialized, spot', located.onto, located.eof⟩, fun single => ?_⟩
    rw [stacked, List.length_cons, Nat.succ_inj, List.length_eq_zero_iff] at single
    subst single
    cases i <;> rfl

variable (txn) in
/-- A put of the same size is carried out, unless it is an error. -/
theorem putSub_some (written : mx.db ≠ none) (located : D.subMeaning.Located root mx.cursor front v back [] () [])
    (same : key.data.length = v.data.length) :
    ∃ rc mx', putSub txn D.dupFixed key mx = some (rc, mx') ∧ mx'.db ≠ none := by
  obtain ⟨values, i, outer, stacked⟩ := located.stacked
  have spot := located.spot
  rw [stacked] at spot
  obtain ⟨_, top, here, _⟩ := spot.top
  cases top
  rw [putSub]
  simp only [stacked, here, overwriteKey_same same]
  split
  · exact ⟨_, _, rfl, written⟩
  split
  · exact ⟨_, _, rfl, written⟩
  split
  · exact ⟨_, _, rfl, written⟩
  split
  · exact ⟨_, _, rfl, written⟩
  split
  · exact ⟨_, _, rfl, written⟩
  · exact ⟨_, _, rfl, by simpa using written⟩

end Sub

section Main

variable {κ : Type} [LinearOrder Bytes] {D : Database κ Bytes} {txn : WriteTxn κ} {db : MainDb κ Bytes}
  {root : Page κ (Node κ Bytes)} {c : MainCursor κ Bytes} {front back : List (Node κ Bytes)} {x : Node κ Bytes}
  {pre post : List Bytes} {v data : Bytes} {mx : XCursor Bytes}

def Stored (x : Node κ Bytes) (v data stored : Bytes) : Prop :=
  if x.data.dupdata then overwriteKey v data = some stored else stored = data

omit [LinearOrder Bytes] in
theorem putCurrent_node {key : κ} {a : Update κ Bytes} (put : putCurrent txn D db key data c = some a)
    (success : a.rc = 0) : putNode txn D db key data c = some a := by
  rw [putCurrent] at put
  split at put
  · cases put
    cases success
  split at put
  · cases put
    cases success
  split at put
  · cases put
    cases success
  split at put
  · cases put
    cases success
  split at put
  · cases put
    contradiction
  split at put
  · cases put
    contradiction
  exact put

omit [LinearOrder Bytes] in
theorem putNode_dup {key : κ} {nodes : List (Node κ Bytes)} {i : ℕ} {outer : Stack κ (Node κ Bytes)}
    (stacked : c.stack = (.leaf nodes, i) :: outer) (here : nodes[i]? = some x) (dup : x.data.dupdata = true) :
    putNode txn D db key data c = (putSub txn D.dupFixed data (x.data.load c.xcursor)).bind fun (rc, mx) =>
      (x.data.store mx).map fun stored => replaceNode db { c with del := false } nodes i outer rc mx
        ⟨x.key, stored⟩ := by
  simp only [putNode, stacked, here]
  cases held : x.data with
  | single value =>
    rw [held] at dup
    cases dup
  | subPage values => rfl
  | subDb db => rfl

/-- A put without an error leaves the cursor on what it has stored. -/
theorem putNode_standing {key : κ} (lawful : txn.Lawful)
    (located : D.mainMeaning.Located root c front x back pre v post) (same : key = x.key) {a : Update κ Bytes}
    (put : putNode txn D db key data c = some a) (success : a.rc = 0) :
    ∃ root' stored, Stored x v data stored ∧ a.db.root = some root' ∧ D.mainMeaning.Standing root' a.cursor
      (D.mainMeaning.items front ++ pre.map fun v => (x.key, v)) (x.key, stored)
      ((post.map fun v => (x.key, v)) ++ D.mainMeaning.items back) := by
  obtain ⟨nodes, i, outer, stacked⟩ := located.stacked
  have spot := located.spot
  rw [stacked] at spot
  obtain ⟨_, top, here, path, front_eq, back_eq⟩ := spot.top
  cases top
  have onto := located.onto
  cases dup : x.data.dupdata with
  | false =>
    rw [Level.Meaning.Onto, if_neg (show ¬ D.mainLevel.dupdata x = true from ne_true_of_eq_false dup)] at onto
    obtain ⟨values, rfl, rfl⟩ := onto
    have stored : Stored x v data data := by simp [Stored, dup]
    have new_onto (k : κ) : D.mainMeaning.Onto ⟨k, .single data⟩ [] data [] c.xcursor := ⟨rfl, rfl, rfl⟩
    obtain ⟨old, single⟩ := NodeData.single_of_dupdata dup
    simp only [putNode, stacked, here, single] at put
    split at put
    · cases put
      obtain ⟨root', rooted, standing⟩ := replaceNode_standing db ⟨x.key, .single data⟩ located stacked rfl
        (new_onto _) 0 false
      exact ⟨root', data, stored, rooted, standing⟩
    split at put
    · cases put
      obtain ⟨root', rooted, standing⟩ := replaceNode_standing db ⟨key, .single data⟩ located stacked same
        (new_onto _) 0 false
      exact ⟨root', data, stored, rooted, standing⟩
    · cases put
      obtain ⟨root', spot'⟩ := lawful.leaf root nodes i outer ⟨key, .single data⟩ path
        (List.getElem?_eq_some_iff.1 here).1 success
      subst front_eq back_eq same
      have located' : D.mainMeaning.Located root' { c with del := false, stack := _ } _ ⟨x.key, .single data⟩ _
          [] data [] := ⟨located.initialized, spot', new_onto _, located.eof⟩
      have standing := Level.Meaning.Standing.on located'
      exact ⟨root', data, stored, spot'.path.getLast_eq, standing⟩
  | true =>
    obtain ⟨sub, rooted, same_sub, sub_located⟩ := sub_of_onto onto dup
    have sub_path := sub_located.spot.path
    rw [putNode_dup stacked here dup, load_eq rooted sub_path] at put
    obtain ⟨⟨rc, mx⟩, put_sub, kept⟩ := Option.bind_eq_some_iff.1 put
    obtain ⟨data', stores, rfl⟩ := Option.map_eq_some_iff.1 kept
    cases (success : rc = 0)
    obtain ⟨sub', stored, written, same_root, steady, located', only⟩ :=
      putSub_located lawful same_sub sub_located put_sub
    have tree := store_tree located'.spot.path same_root
      (fun inline => only (inline_length rooted sub_path inline)) stores
    obtain ⟨root', rooted', standing⟩ := replaceNode_standing db ⟨x.key, data'⟩ located stacked rfl
      (onto_of_located tree same_root steady located') 0 false
    exact ⟨root', stored, by rwa [Stored, if_pos dup], rooted', standing⟩

variable (txn db) in
/-- A put of the same size, or on a node without duplicates, has an answer. -/
theorem putNode_some (key : κ) (located : D.mainMeaning.Located root c front x back pre v post)
    (fits : x.data.dupdata = false ∨ data.data.length = v.data.length) :
    ∃ a, putNode txn D db key data c = some a := by
  obtain ⟨nodes, i, outer, stacked⟩ := located.stacked
  have spot := located.spot
  rw [stacked] at spot
  obtain ⟨_, top, here, _⟩ := spot.top
  cases top
  cases dup : x.data.dupdata with
  | false =>
    obtain ⟨old, single⟩ := NodeData.single_of_dupdata dup
    simp only [putNode, stacked, here, single]
    split
    · exact ⟨_, rfl⟩
    split
    · exact ⟨_, rfl⟩
    · exact ⟨_, rfl⟩
  | true =>
    obtain ⟨sub, rooted, same, sub_located⟩ := sub_of_onto located.onto dup
    have written : c.xcursor.db ≠ none := by
      intro unwritten
      rw [XCursor.root, unwritten] at same
      cases same
    obtain ⟨rc, mx, put, written'⟩ := putSub_some txn written sub_located (fits.resolve_left (by simp [dup]))
    obtain ⟨stored, stores⟩ := store_some x.data written'
    rw [putNode_dup stacked here dup, load_eq rooted sub_located.spot.path, put]
    exact ⟨_, by simp only [Option.bind_some, stores, Option.map_some]; rfl⟩

variable (txn db) in
theorem putCurrent_some (key : κ) (located : D.mainMeaning.Located root c front x back pre v post)
    (fits : x.data.dupdata = false ∨ data.data.length = v.data.length) :
    ∃ a, putCurrent txn D db key data c = some a := by
  obtain ⟨a, put⟩ := putNode_some txn db key located fits
  rw [putCurrent, put]
  split
  · exact ⟨_, rfl⟩
  split
  · exact ⟨_, rfl⟩
  split
  · exact ⟨_, rfl⟩
  split
  · exact ⟨_, rfl⟩
  split
  · exact ⟨_, rfl⟩
  split
  · exact ⟨_, rfl⟩
  · exact ⟨_, rfl⟩

end Main

/-- An item is replaced by one with the value of a put, and the cursor is on it. -/
def Replaced [LinearOrder Bytes] {κ : Type} (D : Database κ Bytes) (a : Update κ Bytes) (before : List (κ × Bytes))
    (item : κ × Bytes) (after : List (κ × Bytes)) : Prop :=
  items D a.db = before ++ item :: after ∧
    ∃ root, a.db.root = some root ∧ D.mainMeaning.Standing root a.cursor before item after

section TwoValues

/-- `mdb_cmp_memn` -/
instance : LinearOrder Bytes :=
  LinearOrder.lift' (fun v : Bytes => v.data.map UInt8.toNat) fun v w same => by
    cases v
    cases w
    exact congrArg Bytes.mk (List.map_injective_iff.2 (fun _ _ same => UInt8.toNat_inj.1 same) same)

def texts : Database ℕ Bytes := ⟨true, false, id, fun v => v.data.length⟩

def twoValues : MainDb ℕ Bytes := ⟨some (.leaf [⟨1, .subPage [⟨[97, 97]⟩, ⟨[99, 99]⟩]⟩]), 2⟩

def onFirst : MainCursor ℕ Bytes :=
  ⟨true, false, false, [(.leaf [⟨1, .subPage [⟨[97, 97]⟩, ⟨[99, 99]⟩]⟩], 0)],
    ⟨⟨true, false, false, [(.leaf [⟨[97, 97]⟩, ⟨[99, 99]⟩], 0)], ()⟩,
      some ⟨some (.leaf [⟨[97, 97]⟩, ⟨[99, 99]⟩]), 2⟩⟩⟩

def spacious : WriteTxn ℕ where
  maxKey := 511
  blocked := false
  pageSpill := 0
  cursorTouch := 0
  subTouch := 0
  leafRoom := fun _ _ => true
  leafSplit := fun stack _ => (enomem, stack)
  branchRoom := fun _ _ _ => true
  branchSplit := fun stack _ => (enomem, stack)

theorem spacious_lawful : spacious.Lawful where
  leaf := by
    intro root nodes i outer x _ _ failed
    cases failed
  branch := by
    intro root n page j children i outer key _ failed
    cases failed

theorem onFirst_standing :
    texts.mainMeaning.Standing (.leaf [⟨1, .subPage [⟨[97, 97]⟩, ⟨[99, 99]⟩]⟩]) onFirst [] (1, ⟨[97, 97]⟩)
    [(1, ⟨[99, 99]⟩)] := by
  have sub : texts.subMeaning.Located (.leaf [⟨[97, 97]⟩, ⟨[99, 99]⟩]) onFirst.xcursor.cursor []
    ⟨[97, 97]⟩ [⟨[99, 99]⟩]
      [] () [] := ⟨rfl, Spot.of_leaf rfl, ⟨rfl, rfl, rfl⟩, nofun⟩
  have onto : texts.mainMeaning.Onto ⟨1, .subPage [⟨[97, 97]⟩, ⟨[99, 99]⟩]⟩ []
    ⟨[97, 97]⟩ [⟨[99, 99]⟩] onFirst.xcursor :=
    onto_of_located rfl rfl rfl sub
  have located : texts.mainMeaning.Located (.leaf [⟨1, .subPage [⟨[97, 97]⟩, ⟨[99, 99]⟩]⟩]) onFirst []
      ⟨1, .subPage [⟨[97, 97]⟩, ⟨[99, 99]⟩]⟩ [] [] ⟨[97, 97]⟩ [⟨[99, 99]⟩] :=
        ⟨rfl, Spot.of_leaf rfl, onto, nofun⟩
  exact .on located

end TwoValues

end SamLmdb
