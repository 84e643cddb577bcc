import Mathlib.Data.List.Basic
import SamLmdb.Cursor.Walk
import SamLmdb.Lib.PageEdit

/-! What an update makes of the database and of the cursor that it is made with. -/

namespace SamLmdb

open PageTree

variable {κ δ : Type}

structure Update (κ δ : Type) where
  rc : ℤ
  db : MainDb κ δ
  cursor : MainCursor κ δ

def XCursor.refresh (values : List δ) (mx : XCursor δ) : XCursor δ :=
  { mx with cursor := { mx.cursor with stack := mx.cursor.stack.modifyLast fun top => (.leaf values, top.2) } }

/-- The values of the page `mc_pg[0]`. -/
def XCursor.subPage (values : List δ) (mx : XCursor δ) : List δ :=
  match mx.cursor.stack.getLast? with
  | some (.leaf values, _) => values
  | _ => values

/-- `mc_pg[0]` of the xcursor is set, where the values are on a sub-page. -/
def NodeData.load (data : NodeData δ) (mx : XCursor δ) : XCursor δ :=
  match data with
  | .subPage values => mx.refresh values
  | _ => mx

/-- What a node with duplicates holds when they have been changed by its xcursor: its sub-page,
or a copy of `mx_db`. -/
def NodeData.store (data : NodeData δ) (mx : XCursor δ) : Option (NodeData δ) :=
  match data with
  | .subPage values => some (.subPage (mx.subPage values))
  | _ => mx.db.map .subDb

def NodeData.inline : NodeData δ → Bool
  | .subPage _ => true
  | _ => false

def replaceNode (db : MainDb κ δ) (c : MainCursor κ δ) (nodes : List (Node κ δ)) (i : ℕ)
    (outer : Stack κ (Node κ δ)) (rc : ℤ) (mx : XCursor δ) (x : Node κ δ) : Update κ δ :=
  let page := .leaf (nodes.set i x)
  ⟨rc, { db with root := some (bottom page (reseat page outer)) },
    { c with stack := (page, i) :: reseat page outer, xcursor := mx }⟩

theorem NodeData.single_of_dupdata {data : NodeData δ}
    (single : data.dupdata = false) : ∃ value, data = .single value := by
  cases data with
  | single value => exact ⟨value, rfl⟩
  | subPage values => cases single
  | subDb db => cases single

section Sub

variable {D : Database κ δ} {root : Page δ δ} {c : Cursor δ δ Unit} {mx : XCursor δ}
    {front back : List δ} {v : δ}

theorem subMeaning_located : D.subMeaning.Standing root c (front.map Database.subItem) (Database.subItem v)
    (back.map Database.subItem) ↔ D.subMeaning.Located root c front v back [] () [] := by
  constructor
  · intro standing
    generalize before : front.map Database.subItem = items at standing
    generalize at_item : Database.subItem v = item at standing
    generalize after : back.map Database.subItem = items' at standing
    cases standing with
    | @on front' x back' pre _ post located =>
      obtain ⟨_, rfl, rfl⟩ : D.subMeaning.values x = [()] ∧ pre = [] ∧ post = [] := located.onto
      cases at_item
      rw [D.subMeaning_items, List.map_nil, List.append_nil] at before
      rw [D.subMeaning_items, List.map_nil, List.nil_append] at after
      have injective : Function.Injective (Database.subItem : δ → δ × Unit) :=
        fun _ _ same => congrArg Prod.fst same
      obtain rfl := injective.list_map before
      obtain rfl := injective.list_map after
      exact located
  · intro located
    have standing := Level.Meaning.Standing.on located
    rw [D.subMeaning_items, D.subMeaning_items, List.map_nil, List.append_nil] at standing
    exact standing

end Sub

section Main

variable [LinearOrder δ] {D : Database κ δ} {db : MainDb κ δ} {root : Page κ (Node κ δ)} {c : MainCursor κ δ}
  {front back : List (Node κ δ)} {x : Node κ δ} {pre post : List δ} {v : δ} {mx : XCursor δ}

theorem onto_of_located {sub : Page δ δ} (rooted : x.data.tree = some sub) (same : mx.root = some sub)
    (steady : mx.cursor.del = false) (located : D.subMeaning.Located sub mx.cursor pre v post [] () []) :
    D.mainMeaning.Onto x pre v post mx := by
  have standing := subMeaning_located.2 located
  have items := standing.items_eq
  have values : x.data.values = pre ++ v :: post := by
    rw [NodeData.values_of_tree rooted]
    rw [D.subMeaning_items] at items
    have injective : Function.Injective (Database.subItem : δ → δ × Unit) := fun _ _ same => congrArg Prod.fst same
    exact injective.list_map (by simpa using items)
  rw [Level.Meaning.Onto, if_pos (show D.mainLevel.dupdata x = true from NodeData.dupdata_of_tree rooted)]
  exact ⟨⟨steady, sub, rooted, same, standing⟩, values⟩

theorem sub_of_onto (onto : D.mainMeaning.Onto x pre v post mx) (dup : x.data.dupdata = true) :
    ∃ sub, x.data.tree = some sub ∧ mx.root = some sub ∧
      D.subMeaning.Located sub mx.cursor pre v post [] () [] := by
  rw [Level.Meaning.Onto, if_pos (show D.mainLevel.dupdata x = true from dup)] at onto
  obtain ⟨⟨_, sub, rooted, same, standing⟩, _⟩ := onto
  exact ⟨sub, rooted, same, subMeaning_located.1 standing⟩

variable (db) in
theorem replaceNode_standing {nodes : List (Node κ δ)} {i : ℕ} {outer : Stack κ (Node κ δ)}
    (y : Node κ δ) {w : δ} (located : D.mainMeaning.Located root c front x back pre v post)
    (stacked : c.stack = (.leaf nodes, i) :: outer) (same : y.key = x.key) (onto : D.mainMeaning.Onto y pre w post mx)
    (rc : ℤ) (del : Bool) :
    ∃ root', (replaceNode db { c with del := del } nodes i outer rc mx y).db.root = some root' ∧
      D.mainMeaning.Standing root' (replaceNode db { c with del := del } nodes i outer rc mx y).cursor
        (D.mainMeaning.items front ++ pre.map fun v => (x.key, v)) (x.key, w)
        ((post.map fun v => (x.key, v)) ++ D.mainMeaning.items back) := by
  have spot := located.spot
  rw [stacked] at spot
  refine ⟨_, rfl, ?_⟩
  rw [← same]
  exact .on ⟨located.initialized, spot.replace y, onto, located.eof⟩

omit [LinearOrder δ] in
theorem load_eq {data : NodeData δ} {sub : Page δ δ} {n : ℕ} (rooted : data.tree = some sub)
    (path : Path sub n mx.cursor.stack) : data.load mx = mx := by
  cases data with
  | single value => rfl
  | subDb db => rfl
  | subPage values =>
    cases rooted
    obtain ⟨i, stacked⟩ := path.of_leaf
    have kept : mx.cursor.stack.modifyLast (fun top => (.leaf values, top.2)) = mx.cursor.stack := by
      rw [stacked]
      rfl
    rw [NodeData.load, XCursor.refresh, kept]

omit [LinearOrder δ] in
theorem store_some (data : NodeData δ) (written : mx.db ≠ none) : ∃ stored, data.store mx = some stored := by
  obtain ⟨db, written⟩ := Option.ne_none_iff_exists'.1 written
  cases data with
  | subPage values => exact ⟨_, rfl⟩
  | single value => exact ⟨.subDb db, by simp [NodeData.store, written]⟩
  | subDb db' => exact ⟨.subDb db, by simp [NodeData.store, written]⟩

omit [LinearOrder δ] in
/-- The tree that the xcursor is in is that of the node; of a sub-page it has one page. -/
theorem store_tree {data stored : NodeData δ} {sub : Page δ δ} (path : Path sub 0 mx.cursor.stack)
    (same : mx.root = some sub) (only : data.inline = true → mx.cursor.stack.length = 1)
    (stores : data.store mx = some stored) : stored.tree = some sub := by
  have copied (copies : mx.db.map NodeData.subDb = some stored) : stored.tree = some sub := by
    obtain ⟨db, written, rfl⟩ := Option.map_eq_some_iff.1 copies
    rw [XCursor.root, written] at same
    exact same
  cases data with
  | single value => exact copied stores
  | subDb db => exact copied stores
  | subPage values =>
    cases stores
    have single := only rfl
    generalize stacked : mx.cursor.stack = stack at path single
    cases path with
    | root uniform =>
      cases uniform with
      | leaf _ => simp [XCursor.subPage, stacked, NodeData.tree]
    | child below _ => cases below <;> simp at single

omit [LinearOrder δ] in
theorem inline_length {data : NodeData δ} {sub : Page δ δ} {n : ℕ} {stack : Stack δ δ}
    (rooted : data.tree = some sub) (path : Path sub n stack) (inline : data.inline = true) :
    stack.length = 1 := by
  cases data with
  | single value => cases inline
  | subDb db => cases inline
  | subPage values =>
    cases rooted
    obtain ⟨i, rfl⟩ := path.of_leaf
    rfl

end Main

end SamLmdb
