import SamLmdb.Cursor.Get
import SamLmdb.Cursor.Position

/-! The two levels of a database: its keys, and the duplicates of each key. -/

namespace SamLmdb

open PageTree

variable {κ δ : Type}

def NodeData.tree : NodeData δ → Option (Page δ δ)
  | .single _ => none
  | .subPage values => some (.leaf values)
  | .subDb db => db.root

def NodeData.values : NodeData δ → List δ
  | .single value => [value]
  | .subPage values => values
  | .subDb db => db.root.elim [] Page.nodes

theorem NodeData.values_of_tree {data : NodeData δ} {root : Page δ δ} (rooted : data.tree = some root) :
    data.values = root.nodes := by
  cases data with
  | single value => simp [tree] at rooted
  | subPage values =>
    cases rooted
    simp [NodeData.values]
  | subDb db => simp_all [tree, NodeData.values]

theorem NodeData.dupdata_of_tree {data : NodeData δ} {root : Page δ δ} (rooted : data.tree = some root) :
    data.dupdata = true := by
  cases data with
  | single value => simp [tree] at rooted
  | subPage values => rfl
  | subDb db => rfl

namespace Database

variable (D : Database κ δ)

def subMeaning : D.subLevel.Meaning where
  WellFormed := fun _ => True
  values := fun _ => [()]
  On := fun _ _ _ _ _ => False

theorem subLawful : D.subMeaning.Lawful where
  nonempty := by simp [subMeaning]
  single := by simp [subMeaning, subLevel]
  dupsort := by simp [subLevel]
  readsData := by simp [subLevel]
  plain := by simp [subLevel]
  first := by simp [subLevel]
  last := by simp [subLevel]
  next := by simp [subMeaning]
  next_end := by simp [subMeaning]
  prev := by simp [subMeaning]
  prev_end := by simp [subMeaning]
  getCurrent := by simp [subMeaning]

/-- A value as an item of its tree. -/
abbrev subItem (v : δ) : δ × Unit := (v, ())

@[simp] theorem subMeaning_items (values : List δ) : D.subMeaning.items values = values.map subItem := by
  induction values with
  | nil => rfl
  | cons v values ih =>
    rw [Level.Meaning.items_cons, ih]
    rfl

variable [LinearOrder δ]

def mainMeaning : D.mainLevel.Meaning where
  WellFormed := fun x => x.data.dupdata = true →
    D.dupSort = true ∧ ∃ root, x.data.tree = some root ∧ D.subMeaning.Tree root
  values := fun x => x.data.values
  On := fun x pre v post mx => mx.cursor.del = false ∧ ∃ root, x.data.tree = some root ∧
    mx.root = some root ∧
    D.subMeaning.Standing root mx.cursor (pre.map subItem) (subItem v) (post.map subItem)

variable {D} {x : Node κ δ} {root : Page δ δ} {mx : XCursor δ} {pre post : List δ} {v : δ}

theorem init1_ready {data : NodeData δ} (rooted : data.tree = some root)
    (tree : D.subMeaning.Tree root) (mx : XCursor δ) :
    (XCursor.init1 data mx).root = some root ∧ (XCursor.init1 data mx).cursor.del = false ∧
      ((XCursor.init1 data mx).cursor.initialized = true → Path root 0 (XCursor.init1 data mx).cursor.stack) := by
  cases data with
  | single value => simp [NodeData.tree] at rooted
  | subPage values =>
    cases rooted
    obtain ⟨n, uniform⟩ := tree.uniform
    have leaf := uniform
    cases leaf with
    | leaf _ => exact ⟨rfl, rfl, fun _ => .root uniform⟩
  | subDb db => exact ⟨rooted, rfl, nofun⟩

omit [LinearOrder δ] in
/-- Where there is a tree, `mx_db` has been written. -/
theorem onXCursor_rooted (f : Db δ δ → Cursor δ δ Unit → Option (Answer δ Unit (Cursor δ δ Unit)))
    (same : mx.root = some root) : ∃ db : Db δ δ, db.root = some root ∧
      onXCursor f mx = (f db mx.cursor).map (Answer.mapCursor fun c => { mx with cursor := c }) := by
  obtain ⟨db, written, rooted⟩ := Option.bind_eq_some_iff.1 same
  exact ⟨db, rooted, by rw [onXCursor, written, Option.bind_some]⟩

/-- A cursor function that reaches a value of the tree reaches it as a duplicate of the node. -/
theorem onXCursor_reaches {f : Db δ δ → Cursor δ δ Unit → Option (Answer δ Unit (Cursor δ δ Unit))}
    (rooted : x.data.tree = some root) (same : mx.root = some root)
    (reached : ∀ db : Db δ δ, db.root = some root →
      D.subMeaning.Reaches root false (f db mx.cursor) (pre.map subItem) (subItem v) (post.map subItem)) :
    ∃ mx', onXCursor f mx = some ⟨0, some v, none, mx'⟩ ∧ D.mainMeaning.On x pre v post mx' := by
  obtain ⟨db, rooted', called⟩ := onXCursor_rooted f same
  obtain ⟨c, answer, standing, steady⟩ := reached db rooted'
  exact ⟨{ mx with cursor := c }, by simp [called, answer, Answer.mapCursor, Level.shown, subLevel],
    steady, root, rooted, same, standing⟩

theorem onXCursor_stays {f : Db δ δ → Cursor δ δ Unit → Option (Answer δ Unit (Cursor δ δ Unit))}
    (rooted : x.data.tree = some root) (same : mx.root = some root) (stayed : ∀ db : Db δ δ, db.root = some root →
      D.subMeaning.Stays root (f db mx.cursor) (pre.map subItem) (subItem v) (post.map subItem)) :
    ∃ mx', onXCursor f mx = some (.fail mdbNotfound mx') ∧ D.mainMeaning.On x pre v post mx' := by
  obtain ⟨db, rooted', called⟩ := onXCursor_rooted f same
  obtain ⟨c, answer, standing, steady⟩ := stayed db rooted'
  exact ⟨{ mx with cursor := c }, by simp [called, answer, Answer.mapCursor, Answer.fail],
    steady, root, rooted, same, standing⟩

omit [LinearOrder δ] in
theorem reached_values {answer : Option (Answer δ Unit (Cursor δ δ Unit))} {before after : List (δ × Unit)}
    {item : δ × Unit} (reached : D.subMeaning.Reaches root false answer before item after)
    (values : root.nodes.map subItem = pre.map subItem ++ subItem v :: post.map subItem)
    (splits : before.length = pre.length) :
    D.subMeaning.Reaches root false answer (pre.map subItem) (subItem v) (post.map subItem) := by
  have items := reached.items_eq
  rw [subMeaning_items, values] at items
  obtain ⟨rfl, rest⟩ := List.append_inj items (by simpa using splits.symm)
  cases rest
  exact reached

variable (mx) in
theorem onXCursor_last (rooted : x.data.tree = some root) (tree : D.subMeaning.Tree root) (same : mx.root = some root)
    (steady : mx.cursor.del = false) (ready : mx.cursor.initialized = true → Path root 0 mx.cursor.stack)
    (values : x.data.values = pre ++ [v]) :
    ∃ mx', onXCursor (mdbCursorLast D.subLevel) mx = some ⟨0, some v, none, mx'⟩ ∧
      D.mainMeaning.On x pre v [] mx' := by
  refine onXCursor_reaches rooted same fun db rooted' => ?_
  obtain ⟨before, item, reached⟩ := D.subLawful.last_standing tree rooted' ready
  rw [steady] at reached
  rw [NodeData.values_of_tree rooted] at values
  have length := congrArg List.length reached.items_eq
  refine reached_values reached (by simp [values]) ?_
  rw [D.subMeaning_items, values] at length
  simpa using length.symm

theorem mainLawful (fixed : D.dupFixed = true → D.dupSort = true) : D.mainMeaning.Lawful where
  nonempty := by
    intro x wf
    cases data : x.data with
    | single value => simp [mainMeaning, data, NodeData.values]
    | subPage values =>
      obtain ⟨_, root, rooted, tree⟩ := wf (by simp [data, NodeData.dupdata])
      obtain ⟨n, uniform⟩ := tree.uniform
      rw [show D.mainMeaning.values x = root.nodes from NodeData.values_of_tree rooted]
      exact uniform.nodes_ne_nil
    | subDb db =>
      obtain ⟨_, root, rooted, tree⟩ := wf (by simp [data, NodeData.dupdata])
      obtain ⟨n, uniform⟩ := tree.uniform
      rw [show D.mainMeaning.values x = root.nodes from NodeData.values_of_tree rooted]
      exact uniform.nodes_ne_nil
  single := by
    intro x wf single
    cases data : x.data with
    | single value => exact ⟨value, by simp [mainMeaning, data, NodeData.values], by simp [mainLevel, data]⟩
    | subPage values => simp [mainLevel, data, NodeData.dupdata] at single
    | subDb db => simp [mainLevel, data, NodeData.dupdata] at single
  dupsort := by
    intro x wf dup
    exact (wf dup).1
  readsData := by simp [mainLevel]
  plain := by
    intro _
    cases dupFixed : D.dupFixed with
    | false => simp [mainLevel, dupFixed]
    | true => simp [mainLevel, fixed dupFixed]
  first := by
    intro x mx v post wf dup values
    obtain ⟨_, root, rooted, tree⟩ := wf dup
    obtain ⟨same, steady, ready⟩ := init1_ready rooted tree mx
    rw [show D.mainMeaning.values x = root.nodes from NodeData.values_of_tree rooted] at values
    refine onXCursor_reaches rooted same fun db rooted' => ?_
    obtain ⟨item, after, reached⟩ := D.subLawful.first_standing tree rooted' ready
    rw [steady] at reached
    exact reached_values reached (by simp [values]) rfl
  last := by
    intro x mx pre v wf dup values
    obtain ⟨_, root, rooted, tree⟩ := wf dup
    obtain ⟨same, steady, ready⟩ := init1_ready rooted tree mx
    exact onXCursor_last _ rooted tree same steady ready values
  next := by
    rintro x mx pre v w post wf ⟨steady, root, rooted, same, standing⟩
    obtain ⟨_, _, rooted', tree⟩ := wf (NodeData.dupdata_of_tree rooted)
    cases rooted.symm.trans rooted'
    refine onXCursor_reaches (f := fun db => mdbCursorNext D.subLevel db .item) rooted same fun db _ => ?_
    have step := D.subLawful.next_standing db tree standing steady
    rw [List.map_append]
    exact step
  next_end := by
    rintro x mx pre v wf ⟨steady, root, rooted, same, standing⟩
    obtain ⟨_, _, rooted', tree⟩ := wf (NodeData.dupdata_of_tree rooted)
    cases rooted.symm.trans rooted'
    exact onXCursor_stays (f := fun db => mdbCursorNext D.subLevel db .item) rooted same fun db _ =>
      D.subLawful.next_standing db tree standing steady
  prev := by
    rintro x mx pre u v post wf ⟨steady, root, rooted, same, standing⟩
    obtain ⟨_, _, rooted', tree⟩ := wf (NodeData.dupdata_of_tree rooted)
    cases rooted.symm.trans rooted'
    refine onXCursor_reaches (f := fun db => mdbCursorPrev D.subLevel db .item) rooted same fun db _ => ?_
    have step := D.subLawful.prev_standing tree standing steady
    rw [List.map_append, ← Level.Meaning.mdbCursorPrev_eq db standing.initialized] at step
    rcases step with ⟨nothing, _⟩ | ⟨before, item, split, reached⟩
    · simp at nothing
    · obtain ⟨rfl, last⟩ := List.append_inj' split rfl
      cases last
      exact reached
  prev_end := by
    rintro x mx v post wf ⟨steady, root, rooted, same, standing⟩
    obtain ⟨_, _, rooted', tree⟩ := wf (NodeData.dupdata_of_tree rooted)
    cases rooted.symm.trans rooted'
    refine onXCursor_stays (f := fun db => mdbCursorPrev D.subLevel db .item) rooted same fun db _ => ?_
    have step := D.subLawful.prev_standing tree standing steady
    rw [← Level.Meaning.mdbCursorPrev_eq db standing.initialized] at step
    rcases step with ⟨_, stayed⟩ | ⟨_, _, split, _⟩
    · exact stayed
    · simp at split
  getCurrent := by
    rintro x mx pre v post wf ⟨steady, root, rooted, same, standing⟩
    obtain ⟨_, _, rooted', tree⟩ := wf (NodeData.dupdata_of_tree rooted)
    cases rooted.symm.trans rooted'
    obtain ⟨c, answer, standing', _⟩ := D.subLawful.getCurrent_standing tree standing
    refine ⟨{ mx with cursor := { c with del := false } }, ?_, rfl, root, rooted, same, standing'.setDel false⟩
    have called : D.mainLevel.getCurrent mx = (mdbCursorGetCurrent D.subLevel mx.cursor).map
        (Answer.mapCursor fun c => { mx with cursor := { c with del := false } }) := rfl
    rw [called, answer]
    rfl

end Database

end SamLmdb
