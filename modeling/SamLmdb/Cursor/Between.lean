import SamLmdb.Cursor.Steps

/-!
What a cursor is between two calls of `Cursor::get`: nowhere, or at a node or behind the
last one of a page, with the xcursor on the duplicates of that node where it is in use.
-/

namespace SamLmdb

open PageTree

variable {κ δ : Type}

/-- The xcursor, if it is in use, is one of the tree of the node. -/
def InStep (x : Node κ δ) (mx : XCursor δ) : Prop :=
  ∀ t, x.data.tree = some t → mx.cursor.initialized = true → mx.root = some t ∧ Kept t mx.cursor

def Spent (x : Node κ δ) (mx : XCursor δ) : Prop :=
  x.data.dupdata = true → mx.cursor.initialized = true → ahead mx.cursor.stack = []

/-- A cursor at a place of the tree. `C_EOF` is true where it is believed. -/
structure At (root : Page κ (Node κ δ)) (c : MainCursor κ δ) : Prop where
  initialized : c.initialized = true
  gap : ∃ front back, Gap root c.stack front back
  inStep : ∀ x, Level.nodeptr c = some x → InStep x c.xcursor
  ended : atEof c = true → ahead c.stack = [] ∧ ∀ x, Level.nodeptr c = some x → Spent x c.xcursor

def Between (db : MainDb κ δ) (c : MainCursor κ δ) : Prop :=
  c.initialized = true → ∃ root, db.root = some root ∧ At root c

theorem spot_of_nodeptr {ν ξ : Type} {root : Page κ ν} {c : Cursor κ ν ξ} {front back : List ν} {x : ν}
    (gap : Gap root c.stack front back) (here : Level.nodeptr c = some x) :
    Spot root c.stack front x (ahead c.stack) := by
  obtain ⟨nodes, i, outer, stacked⟩ := gap.path.leaf
  rw [stacked] at gap
  obtain ⟨_, same, _, path, rfl, _⟩ := gap.top
  cases same
  have at_i : nodes[i]? = some x := by simpa [Level.nodeptr, stacked] using here
  have spot := Spot.on path at_i
  rw [stacked]
  exact spot

section Designation

variable [LinearOrder δ] (D : Database κ δ)

structure Points (root : Page κ (Node κ δ)) (c : MainCursor κ δ) (before : List (κ × δ)) (item : κ × δ)
    (after : List (κ × δ)) : Prop where
  standing : D.mainMeaning.Standing root { c with eof := false } before item after
  ended : atEof c = true → after = []

/-- How a call may end: on an item, whose value is returned, or with an error and a cursor
that can be used. -/
inductive Outcome (db : MainDb κ δ) : Option (Got κ δ) → Prop
  | reached {key c root before item after} : db.root = some root → (key = none ∨ key = some item.1) →
      Points D root c before item after → Outcome db (some ⟨0, key, some (.value item.2), c⟩)
  | failed {a} : a.rc ≠ 0 → Between db a.cursor → Outcome db (some a)

variable {D} {db : MainDb κ δ} {root : Page κ (Node κ δ)} {c : MainCursor κ δ} {front back : List (Node κ δ)}
  {x : Node κ δ} {pre post : List δ} {v : δ} {t : Page δ δ}

theorem Points.of_located (located : D.mainMeaning.Located root c front x back pre v post) :
    Points D root c (D.mainMeaning.items front ++ pre.map fun v => (x.key, v)) (x.key, v)
      ((post.map fun v => (x.key, v)) ++ D.mainMeaning.items back) := by
  constructor
  · exact .on ⟨located.initialized, located.spot, located.onto, nofun⟩
  · intro ended
    obtain ⟨rfl, rfl⟩ := located.eof (eof_of_atEof ended)
    rfl

theorem Points.of_single (positioned : c.initialized = true) (spot : Spot root c.stack front x back)
    (data : x.data = .single v) (ended : atEof c = true → back = []) :
    Points D root c (D.mainMeaning.items front) (x.key, v) (D.mainMeaning.items back) := by
  have onto : D.mainMeaning.Onto x [] v [] c.xcursor := by
    simp [Level.Meaning.Onto, Database.mainLevel, Database.mainMeaning, data, NodeData.dupdata, NodeData.values]
  have located : D.mainMeaning.Located root { c with eof := false } front x back [] v [] :=
    ⟨positioned, spot, onto, by simp⟩
  have standing := Level.Meaning.Standing.on located
  rw [List.map_nil, List.append_nil, List.nil_append] at standing
  refine ⟨standing, fun believed => ?_⟩
  rw [ended believed]
  rfl

theorem Points.of_value (positioned : c.initialized = true) (spot : Spot root c.stack front x back)
    (rooted : x.data.tree = some t) (same : c.xcursor.root = some t) (steady : c.xcursor.cursor.del = false)
    (on : OnValue D t c.xcursor.cursor pre v post) (ended : atEof c = true → back = [] ∧ post = []) :
    Points D root c (D.mainMeaning.items front ++ pre.map fun v => (x.key, v)) (x.key, v)
      ((post.map fun v => (x.key, v)) ++ D.mainMeaning.items back) := by
  have dup := NodeData.dupdata_of_tree rooted
  have onto : D.mainMeaning.Onto x pre v post c.xcursor := by
    rw [Level.Meaning.Onto, if_pos (show D.mainLevel.dupdata x = true from dup)]
    refine ⟨⟨steady, t, rooted, same, on⟩, ?_⟩
    rw [← on.nodes_eq]
    exact NodeData.values_of_tree rooted
  refine ⟨.on ⟨positioned, spot, onto, by simp⟩, fun believed => ?_⟩
  obtain ⟨rfl, rfl⟩ := ended believed
  rfl

variable [LinearOrder κ]

theorem Points.at {before after : List (κ × δ)} {item : κ × δ} (valid : D.Valid db) (rooted : db.root = some root)
    (points : Points D root c before item after) : At root c := by
  obtain ⟨key, v⟩ := item
  obtain ⟨front, x, back, pre, post, rfl, rfl, rfl, located⟩ := points.standing.exists_located
  have here : Level.nodeptr c = some x := Level.Meaning.nodeptr_of_spot (c := c) located.spot
  have ahead_eq : ahead c.stack = back := located.spot.ahead
  refine ⟨located.initialized, ⟨_, _, located.spot.gap⟩, ?_, ?_⟩
  · rintro y here' t rooted' used
    cases here.symm.trans here'
    have onto := located.onto
    rw [Level.Meaning.Onto, if_pos (show D.mainLevel.dupdata x = true from NodeData.dupdata_of_tree rooted')] at onto
    obtain ⟨⟨steady, t', rooted'', same, on⟩, _⟩ := onto
    cases rooted'.symm.trans rooted''
    exact ⟨same, OnValue.kept on steady⟩
  · intro believed
    obtain ⟨post_nil, items_nil⟩ := List.append_eq_nil_iff.1 (points.ended believed)
    constructor
    · rw [ahead_eq]
      cases back with
      | nil => rfl
      | cons y back =>
        have wf := (valid.tree root rooted).nodes y (by rw [located.spot.nodes_eq]; simp)
        have some_value := (Database.mainLawful valid.fixed).nonempty y wf
        rw [Level.Meaning.items_cons, List.append_eq_nil_iff, Level.Meaning.itemsOf, List.map_eq_nil_iff] at items_nil
        exact absurd items_nil.1 some_value
    · intro y here' dup _
      cases here.symm.trans here'
      have onto := located.onto
      rw [Level.Meaning.Onto, if_pos (show D.mainLevel.dupdata x = true from dup)] at onto
      obtain ⟨⟨_, _, _, _, on⟩, _⟩ := onto
      rw [(OnValue.located on).spot.ahead]
      exact List.map_eq_nil_iff.1 post_nil

end Designation

section Outcomes

variable [LinearOrder κ] [LinearOrder δ] {D : Database κ δ} {db : MainDb κ δ} {root : Page κ (Node κ δ)}
  {c : MainCursor κ δ} {front back : List (Node κ δ)} {x : Node κ δ} {pre post : List δ} {v : δ} {op : StepOp}

omit [LinearOrder κ] in
theorem Outcome.of_located (rooted : db.root = some root)
    (located : D.mainMeaning.Located root c front x back pre v post) :
    Outcome D db (Option.map Answer.got (some ⟨0, some (D.mainLevel.key x), D.mainLevel.shown v, c⟩)) :=
  .reached rooted (.inr rfl) (Points.of_located located)

omit [LinearOrder κ] in
theorem Outcome.of_fail {rc : ℤ} (failed : rc ≠ 0) (between : Between db c) :
    Outcome D db (Option.map Answer.got (some (Answer.fail rc c))) :=
  .failed failed between

omit [LinearOrder κ] in
theorem Outcome.of_notFound (rooted : db.root = some root) (at_ : At root c) :
    Outcome D db (Option.map Answer.got (some (Answer.fail mdbNotfound c))) :=
  .of_fail mdbNotfound_ne_zero fun _ => ⟨root, rooted, at_⟩

theorem At.wellFormed (valid : D.Valid db) (rooted : db.root = some root) (at_ : At root c)
    (here : Level.nodeptr c = some x) : D.mainMeaning.WellFormed x := by
  obtain ⟨_, _, gap⟩ := at_.gap
  exact (valid.tree root rooted).nodes x (by rw [(spot_of_nodeptr gap here).nodes_eq]; simp)

omit [LinearOrder κ] [LinearOrder δ] in
theorem At.update {c' : MainCursor κ δ} (at_ : At root c) (positioned : c'.initialized = true)
    (stack : c'.stack = c.stack) (inStep : ∀ x, Level.nodeptr c = some x → InStep x c'.xcursor)
    (ended : atEof c' = true → ahead c.stack = [] ∧ ∀ x, Level.nodeptr c = some x → Spent x c'.xcursor) :
    At root c' := by
  have same : Level.nodeptr c' = Level.nodeptr c := by simp [Level.nodeptr, stack]
  exact ⟨positioned, stack ▸ at_.gap, same ▸ inStep, stack ▸ same ▸ ended⟩

theorem advance_outcome (valid : D.Valid db) (rooted : db.root = some root) (at_ : At root c) (steady : c.del = false)
    (flagless : c.eof = false) (spent : ahead c.stack = [] → ∀ x, Level.nodeptr c = some x → Spent x c.xcursor) :
    Outcome D db ((advance D.mainLevel c).map Answer.got) := by
  obtain ⟨_, _, gap⟩ := at_.gap
  rcases (Database.mainLawful valid.fixed).advance_cases (valid.tree root rooted) gap.path at_.initialized steady
    flagless with
    ⟨nothing, stays, _⟩ | ⟨y, back, c', w, post, _, moves, _, located⟩
  · rw [stays]
    exact .of_notFound rooted (at_.update at_.initialized rfl at_.inStep fun _ => ⟨nothing, spent nothing⟩)
  · rw [moves]
    exact .of_located rooted located

theorem retreat_outcome (valid : D.Valid db) (rooted : db.root = some root) (at_ : At root c) :
    Outcome D db ((retreat D.mainLevel c).map Answer.got) := by
  obtain ⟨_, _, gap⟩ := at_.gap
  rcases (Database.mainLawful valid.fixed).retreat_cases (valid.tree root rooted) gap at_.initialized with
    ⟨nothing, stays⟩ | ⟨front', y, c', pre, u, _, moves, _, located⟩
  · rw [stays]
    refine .of_notFound rooted (at_.update at_.initialized rfl at_.inStep fun believed => ?_)
    exact absurd (eof_of_atEof believed) (by simp)
  · rw [moves]
    exact .of_located rooted located

omit [LinearOrder κ] in
/-- A node has one value, or the tree of its duplicates. -/
theorem node_cases (wf : D.mainMeaning.WellFormed x) :
    x.data.dupdata = false ∨ ∃ t, x.data.dupdata = true ∧ D.dupSort = true ∧ x.data.tree = some t ∧
      D.subMeaning.Tree t := by
  cases dup : x.data.dupdata with
  | false => exact .inl rfl
  | true =>
    obtain ⟨sorts, t, rooted, tree⟩ := wf dup
    exact .inr ⟨t, rfl, sorts, rooted, tree⟩

omit [LinearOrder κ] [LinearOrder δ] in
theorem inStep_of_single (single : x.data.dupdata = false) (mx : XCursor δ) : InStep x mx := by
  intro t rooted _
  exact absurd (NodeData.dupdata_of_tree rooted) (by simp [single])

omit [LinearOrder κ] [LinearOrder δ] in
theorem spent_of_single (single : x.data.dupdata = false) (mx : XCursor δ) : Spent x mx := by
  intro dup
  exact absurd dup (by simp [single])

inductive SubStep (D : Database κ δ) (x : Node κ δ) (t : Page δ δ) (Q : XCursor δ → Prop) (mx : XCursor δ)
    (sub : SubCall δ (XCursor δ)) : Prop
  | stays {mx'} : sub mx = some (.fail mdbNotfound mx') → InStep x mx' → (Spent x mx → Spent x mx') → Q mx' →
      SubStep D x t Q mx sub
  | moves {mx' pre w post} : sub mx = some ⟨0, some w, none, mx'⟩ → mx'.root = some t →
    mx'.cursor.del = false →
      OnValue D t mx'.cursor pre w post → SubStep D x t Q mx sub

/-- `mdb_cursor_next` and `mdb_cursor_prev` once they know that the cursor is somewhere: a step
among the duplicates of the node, or `rest`. -/
theorem consult_outcome {sub : SubCall δ (XCursor δ)} {rest : MainCursor κ δ →
    Option (Answer κ δ (MainCursor κ δ))}
    {Q : XCursor δ → Prop} (valid : D.Valid db) (rooted : db.root = some root) (at_ : At root c)
    (sighted : D.dupSort = true →
      ∃ x, Level.nodeptr c = some x ∧ (x.data.dupdata = true →
        op = .nodup ∨ c.xcursor.cursor.initialized = true))
    (steps : ∀ x t, x.data.tree = some t → D.subMeaning.Tree t → c.xcursor.root = some t →
      Kept t c.xcursor.cursor →
      SubStep D x t Q c.xcursor sub)
    (goes : ∀ mx, At root { c with xcursor := mx } →
      (∀ x, Level.nodeptr c = some x → x.data.dupdata = false ∨ op = .nodup ∧ mx = c.xcursor ∨ Q mx) →
      Outcome D db ((rest { c with xcursor := mx }).map Answer.got)) :
    Outcome D db (((D.mainLevel.consult sub op c).bind (Sum.elim some rest)).map Answer.got) := by
  cases sorts : D.dupSort with
  | false =>
    have consulted : D.mainLevel.consult sub op c = some (.inr c) := by
      simp [Level.consult, Database.mainLevel, sorts]
    rw [consulted]
    refine goes c.xcursor at_ fun x here => .inl ?_
    rcases node_cases (at_.wellFormed valid rooted here) with single | ⟨_, _, sorts', _⟩
    · exact single
    · exact absurd sorts' (by simp [sorts])
  | true =>
    obtain ⟨x, here, inUse⟩ := sighted sorts
    -- the node under the cursor is the only one to look at
    have on (mx : XCursor δ) (inStep : InStep x mx) (spent : Spent x c.xcursor → Spent x mx) :
        At root { c with xcursor := mx } := by
      refine at_.update at_.initialized rfl ?_ fun believed => ⟨(at_.ended believed).1, ?_⟩
      · intro y here'
        cases here.symm.trans here'
        exact inStep
      · intro y here'
        cases here.symm.trans here'
        exact spent ((at_.ended believed).2 x here)
    have consulted_eq : D.mainLevel.consult sub op c =
        if x.data.dupdata then
          if op = .nodup then some (.inr c)
          else (sub c.xcursor).map fun a =>
            if op = .dup ∨ a.rc ≠ mdbNotfound then
              .inl ⟨a.rc, if a.rc = 0 then some x.key else none, a.key,
                { c with xcursor := a.cursor, eof := c.eof && decide (a.rc ≠ mdbSuccess) }⟩
            else .inr { c with xcursor := a.cursor }
        else if op = .dup then some (.inl (.fail mdbNotfound { c with xcursor := XCursor.clear c.xcursor }))
        else some (.inr { c with xcursor := XCursor.clear c.xcursor }) := by
      simp only [Level.consult, show D.mainLevel.dupsort = true from sorts, if_true, here]
      rfl
    rw [consulted_eq]
    rcases node_cases (at_.wellFormed valid rooted here) with single | ⟨t, dup, _, rooted', tree⟩
    · have cleared := on (XCursor.clear c.xcursor) (inStep_of_single single _) fun _ => spent_of_single single _
      rw [if_neg (by simp [single])]
      split
      · exact .of_notFound rooted cleared
      · refine goes _ cleared fun y here' => .inl ?_
        cases here.symm.trans here'
        exact single
    · rw [if_pos dup]
      split
      · rename_i leaves
        exact goes c.xcursor at_ fun _ _ => .inr (.inl ⟨leaves, rfl⟩)
      · rename_i stays
        obtain ⟨same, kept⟩ := at_.inStep x here t rooted' ((inUse dup).resolve_left stays)
        cases steps x t rooted' tree same kept with
        | @stays mx' answer inStep spent known =>
          have stayed := on mx' inStep spent
          rw [answer]
          by_cases within : op = .dup
          · have unchanged : { c with xcursor := mx', eof := c.eof && decide (mdbNotfound ≠ mdbSuccess) } =
                { c with xcursor := mx' } := by simp
            simp only [Option.map_some, Answer.fail, within, true_or, if_true, unchanged]
            exact .of_notFound rooted stayed
          · simp only [Option.map_some, Answer.fail, within, ne_eq, not_true_eq_false, or_self, if_false]
            exact goes mx' stayed fun _ _ => .inr (.inr known)
        | @moves mx' pre w post answer same' steady onValue =>
          obtain ⟨_, _, gap⟩ := at_.gap
          have spot := spot_of_nodeptr gap here
          have points := Points.of_value (c := { c with xcursor := mx', eof := false }) at_.initialized spot
            rooted' same'
            steady onValue fun believed => absurd (eof_of_atEof believed) (by simp)
          rw [answer]
          simpa [mdbNotfound_ne_zero.symm, Answer.got] using Outcome.reached rooted (.inr rfl) points

/-- `mdb_cursor_next` with each of its operations. -/
theorem next_outcome (valid : D.Valid db) (rooted : db.root = some root) (at_ : At root c) (steady : c.del = false)
    (sighted : D.dupSort = true → atEof c = false →
      ∃ x, Level.nodeptr c = some x ∧ (x.data.dupdata = true →
        op = .nodup ∨ c.xcursor.cursor.initialized = true))
    (keeps : op = .nodup → atEof c = false → ahead c.stack = [] → ∀ x, Level.nodeptr c = some x →
      Spent x c.xcursor) :
    Outcome D db ((mdbCursorNext D.mainLevel db op c).map Answer.got) := by
  cases ended : atEof c with
  | true =>
    have still : mdbCursorNext D.mainLevel db op c = some (.fail mdbNotfound c) := by
      simp [mdbCursorNext, steady, at_.initialized, ended]
    rw [still]
    exact .of_notFound rooted at_
  | false =>
    have unflagged : At root { c with eof := false } := by
      refine at_.update at_.initialized rfl at_.inStep fun believed => ?_
      exact absurd (eof_of_atEof believed) (by simp)
    rw [Level.Meaning.mdbCursorNext_eq op at_.initialized steady ended]
    refine consult_outcome (Q := fun mx => ahead mx.cursor.stack = []) valid rooted unflagged
      (fun sorts => sighted sorts ended) ?_ ?_
    · intro x t rooted' tree same kept
      obtain ⟨sub, _, called⟩ := Database.onXCursor_rooted (fun db => mdbCursorNext D.subLevel db .item) same
      rcases next_value sub tree kept with
        ⟨nothing, s', stays, kept', nothing'⟩ | ⟨w, post, s', _, moves, steady', onValue⟩
      · have answer : D.mainLevel.next c.xcursor = some (.fail mdbNotfound { c.xcursor with cursor := s' }) := by
          rw [show D.mainLevel.next c.xcursor = _ from called, stays]
          rfl
        refine .stays answer ?_ (fun _ _ _ => nothing') nothing'
        intro t' rooted'' _
        cases rooted'.symm.trans rooted''
        exact ⟨same, kept'⟩
      · have answer : D.mainLevel.next c.xcursor = some ⟨0, some w, none, { c.xcursor with cursor := s' }⟩ := by
          rw [show D.mainLevel.next c.xcursor = _ from called, moves]
          rfl
        exact .moves answer same steady' onValue
    · intro mx at_mx known
      refine advance_outcome valid rooted at_mx steady rfl fun nothing x here => ?_
      rcases known x here with single | ⟨leaves, rfl⟩ | nothing'
      · exact spent_of_single single _
      · exact keeps leaves ended nothing x here
      · exact fun _ _ => nothing'

/-- `mdb_cursor_prev` of a cursor that is somewhere. -/
theorem prev_outcome (valid : D.Valid db) (rooted : db.root = some root) (at_ : At root c)
    (sighted : D.dupSort = true →
      ∃ x, Level.nodeptr c = some x ∧ (x.data.dupdata = true →
        op = .nodup ∨ c.xcursor.cursor.initialized = true)) :
    Outcome D db ((prevFrom D.mainLevel op c).map Answer.got) := by
  refine consult_outcome (Q := fun _ => True) valid rooted at_ sighted ?_
    fun mx at_mx _ => retreat_outcome valid rooted at_mx
  intro x t rooted' tree same kept
  obtain ⟨front, back, gap⟩ := kept.gap
  obtain ⟨sub, _, called⟩ := Database.onXCursor_rooted (fun db => mdbCursorPrev D.subLevel db .item) same
  rcases prev_value sub tree kept gap with ⟨_, stays⟩ | ⟨pre, w, s', _, moves, steady', onValue⟩
  · have answer : D.mainLevel.prev c.xcursor =
        some (.fail mdbNotfound { c.xcursor with cursor := { c.xcursor.cursor with eof := false, del := false } }) := by
      rw [show D.mainLevel.prev c.xcursor = _ from called, stays]
      rfl
    refine .stays answer ?_ id trivial
    intro t' rooted'' _
    cases rooted'.symm.trans rooted''
    exact ⟨same, kept.initialized, rfl, kept.gap, by simp⟩
  · have answer : D.mainLevel.prev c.xcursor = some ⟨0, some w, none, { c.xcursor with cursor := s' }⟩ := by
      rw [show D.mainLevel.prev c.xcursor = _ from called, moves]
      rfl
    exact .moves answer same steady' onValue

section Ends

omit [LinearOrder κ] in
theorem Points.of_standing {before after : List (κ × δ)} {item : κ × δ}
    (standing : D.mainMeaning.Standing root c before item after) : Points D root c before item after := by
  cases standing with
  | on located => exact .of_located located

omit [LinearOrder κ] in
theorem Outcome.of_reaches {answer : Option (Answer κ δ (MainCursor κ δ))} {del : Bool}
    {before after : List (κ × δ)} {item : κ × δ} (rooted : db.root = some root)
    (reached : D.mainMeaning.Reaches root del answer before item after) :
    Outcome D db (answer.map Answer.got) := by
  obtain ⟨c', rfl, standing, _⟩ := reached
  exact .reached rooted (.inr rfl) (.of_standing standing)

omit [LinearOrder κ] [LinearOrder δ] in
theorem Between.path (between : Between db c) (rooted : db.root = some root) (positioned : c.initialized = true) :
    Path root 0 c.stack := by
  obtain ⟨_, rooted', at_⟩ := between positioned
  cases rooted.symm.trans rooted'
  obtain ⟨_, _, gap⟩ := at_.gap
  exact gap.path

omit [LinearOrder κ] [LinearOrder δ] in
theorem Between.fresh (between : Between db c) (rooted : db.root = none) : c.initialized = false := by
  cases positioned : c.initialized with
  | false => rfl
  | true =>
    obtain ⟨_, rooted', _⟩ := between positioned
    cases rooted.symm.trans rooted'

omit [LinearOrder κ] [LinearOrder δ] in
theorem Between.of_fresh (fresh : c.initialized = false) : Between db c := by
  intro positioned
  exact absurd (fresh.symm.trans positioned) (by decide)

theorem prev_fresh_outcome (valid : D.Valid db) (fresh : c.initialized = false)
    (plain : D.dupSort = true → db.root = none) :
    Outcome D db ((mdbCursorPrev D.mainLevel db op c).map Answer.got) := by
  cases rooted : db.root with
  | none =>
    rw [Level.Meaning.prev_empty rooted fresh]
    exact .of_fail mdbNotfound_ne_zero (.of_fresh (by simpa using fresh))
  | some root =>
    have unsorted : D.dupSort = false := by
      cases sorts : D.dupSort with
      | false => rfl
      | true => exact absurd (rooted.symm.trans (plain sorts)) (by simp)
    have same : mdbCursorPrev D.mainLevel db op c = mdbCursorPrev D.mainLevel db .item c := by
      simp [mdbCursorPrev, prevFrom, Level.consult, Database.mainLevel, unsorted]
    obtain ⟨before, item, reached⟩ := (Database.mainLawful valid.fixed).prev_unpositioned
      (valid.tree root rooted) rooted
      unsorted fresh
    rw [same]
    exact .of_reaches rooted reached

variable (valid : D.Valid db) (between : Between db c)
include valid between

theorem first_outcome : Outcome D db ((mdbCursorFirst D.mainLevel db c).map Answer.got) := by
  cases rooted : db.root with
  | none =>
    have fresh := between.fresh rooted
    rw [Level.Meaning.first_empty rooted fresh]
    exact .of_fail mdbNotfound_ne_zero (.of_fresh (by simpa using fresh))
  | some root =>
    obtain ⟨item, after, reached⟩ := (Database.mainLawful valid.fixed).first_standing
      (valid.tree root rooted) rooted
      (between.path rooted)
    exact .of_reaches rooted reached

theorem last_outcome : Outcome D db ((mdbCursorLast D.mainLevel db c).map Answer.got) := by
  cases rooted : db.root with
  | none =>
    have fresh := between.fresh rooted
    rw [Level.Meaning.last_empty rooted fresh]
    exact .of_fail mdbNotfound_ne_zero (.of_fresh (by simpa using fresh))
  | some root =>
    obtain ⟨before, item, reached⟩ := (Database.mainLawful valid.fixed).last_standing
      (valid.tree root rooted) rooted
      (between.path rooted)
    exact .of_reaches rooted reached

end Ends

section Duplicates

omit [LinearOrder κ] [LinearOrder δ] in
theorem At.behind {nodes : List (Node κ δ)} {i : ℕ} {outer : Stack κ (Node κ δ)} (at_ : At root c)
    (stacked : c.stack = (.leaf nodes, i) :: outer) (nothing : nodes[i]? = none) : c.setIndex nodes.length = c := by
  obtain ⟨_, _, gap⟩ := at_.gap
  rw [stacked] at gap
  obtain ⟨_, same, upTo, _⟩ := gap.top
  cases same
  have last : i = nodes.length := Nat.le_antisymm upTo (List.getElem?_eq_none_iff.1 nothing)
  rw [Cursor.setIndex, stacked, ← last]
  simp [← stacked]

variable (valid : D.Valid db) (rooted : db.root = some root) (at_ : At root c)
include valid rooted at_

/-- `MDB_FIRST_DUP` and `MDB_LAST_DUP`, where `C_EOF` remains true. -/
theorem moveDup_outcome {mfunc : SubCall δ (XCursor δ)}
    (goes : ∀ x t, Level.nodeptr c = some x → x.data.tree = some t → D.subMeaning.Tree t →
      c.xcursor.root = some t →
      Kept t c.xcursor.cursor → ∃ pre v post mx', mfunc c.xcursor = some ⟨0, some v, none, mx'⟩ ∧
        mx'.root = some t ∧
        mx'.cursor.del = false ∧ OnValue D t mx'.cursor pre v post ∧ (atEof c = true → post = [])) :
    Outcome D db (moveDup D mfunc c) := by
  have between : Between db c := fun _ => ⟨root, rooted, at_⟩
  obtain ⟨_, _, gap⟩ := at_.gap
  obtain ⟨nodes, i, outer, stacked⟩ := gap.path.leaf
  unfold moveDup
  rw [if_neg (by simp [at_.initialized])]
  split
  · exact .failed (show mdbIncompatible ≠ 0 by decide) between
  · simp only [stacked]
    cases here : nodes[i]? with
    | none =>
      simp only
      rw [at_.behind stacked here]
      exact .failed mdbNotfound_ne_zero between
    | some x =>
      have here' : Level.nodeptr c = some x := by simp [Level.nodeptr, stacked, here]
      have spot := spot_of_nodeptr gap here'
      simp only
      rcases node_cases (at_.wellFormed valid rooted here') with single | ⟨t, dup, _, rooted', tree⟩
      · rw [if_pos single]
        cases data : x.data with
        | single v =>
          have points := Points.of_single (D := D) at_.initialized spot data fun believed => (at_.ended believed).1
          have read : D.mainLevel.read x = some v := by simp [Database.mainLevel, data]
          rw [read]
          exact .reached rooted (.inr rfl) points
        | subPage values => simp [data, NodeData.dupdata] at single
        | subDb db => simp [data, NodeData.dupdata] at single
      · rw [if_neg (by simp [dup])]
        split
        · exact .failed (show einval ≠ 0 by decide) between
        · rename_i used
          obtain ⟨same, kept⟩ := at_.inStep x here' t rooted' (by simpa using used)
          obtain ⟨pre, v, post, mx', moved, same', steady, onValue, last⟩ := goes x t here' rooted' tree same kept
          rw [moved, ← stacked]
          exact .reached rooted (.inl rfl) (Points.of_value (c := { c with xcursor := mx' }) at_.initialized spot
            rooted' same'
            steady onValue fun believed => ⟨(at_.ended believed).1, last believed⟩)

theorem current_outcome : Outcome D db ((mdbCursorGetCurrent D.mainLevel c).map Answer.got) := by
  have between : Between db c := fun _ => ⟨root, rooted, at_⟩
  obtain ⟨_, _, gap⟩ := at_.gap
  obtain ⟨nodes, i, outer, stacked⟩ := gap.path.leaf
  rw [mdbCursorGetCurrent, if_pos at_.initialized]
  simp only [stacked]
  cases here : nodes[i]? with
  | none =>
    simp only
    rw [at_.behind stacked here]
    exact .of_fail mdbNotfound_ne_zero between
  | some x =>
    have here' : Level.nodeptr c = some x := by simp [Level.nodeptr, stacked, here]
    have spot := spot_of_nodeptr gap here'
    have values : ¬(D.mainLevel.leaf2 = true ∨ D.mainLevel.readsData = false) := by
      have plain := (Database.mainLawful valid.fixed).plain rfl
      simp only [plain]
      simp [Database.mainLevel]
    simp only [if_neg values]
    rcases node_cases (at_.wellFormed valid rooted here') with single | ⟨t, dup, _, rooted', tree⟩
    · rw [if_neg (show ¬D.mainLevel.dupdata x = true by simp [Database.mainLevel, single])]
      cases data : x.data with
      | single v =>
        have points := Points.of_single (D := D) at_.initialized spot data fun believed => (at_.ended believed).1
        have read : D.mainLevel.read x = some v := by simp [Database.mainLevel, data]
        rw [read]
        exact .reached rooted (.inr rfl) points
      | subPage values => simp [data, NodeData.dupdata] at single
      | subDb db => simp [data, NodeData.dupdata] at single
    · rw [if_pos (show D.mainLevel.dupdata x = true from dup), ← stacked]
      have on (mx : XCursor δ) (inStep : InStep x mx) (spent : Spent x c.xcursor → Spent x mx) :
          Between db { c with xcursor := mx } := by
        refine fun _ => ⟨root, rooted, at_.update at_.initialized rfl ?_
          fun believed => ⟨(at_.ended believed).1, ?_⟩⟩
        · intro y here''
          cases here'.symm.trans here''
          exact inStep
        · intro y here''
          cases here'.symm.trans here''
          exact spent ((at_.ended believed).2 x here')
      cases used : c.xcursor.cursor.initialized with
      | false =>
        have refused : D.mainLevel.getCurrent c.xcursor =
            some (.fail einval { c.xcursor with cursor := { c.xcursor.cursor with del := false } }) := by
          simp [Database.mainLevel, mdbCursorGetCurrent, used, Answer.mapCursor, Answer.fail]
        rw [refused]
        refine .failed (show einval ≠ 0 by decide) (on _ ?_ ?_)
        · intro _ _ used'
          exact absurd (used.symm.trans used') (by decide)
        · intro _ _ used'
          exact absurd (used.symm.trans used') (by decide)
      | true =>
        obtain ⟨same, kept⟩ := at_.inStep x here' t rooted' used
        rcases current_value tree kept with ⟨pre, v, s', answer, steady, onValue⟩ | answer
        · have reached : D.mainLevel.getCurrent c.xcursor =
              some ⟨0, some v, none, { c.xcursor with cursor := { s' with del := false } }⟩ := by
            simp [Database.mainLevel, answer, Answer.mapCursor]
          rw [reached]
          exact .reached rooted (.inr rfl) (Points.of_value
            (c := { c with xcursor := { c.xcursor with cursor := { s' with del := false } } }) at_.initialized spot
              rooted' same rfl
            (Level.Meaning.Standing.setDel onValue false)
            fun believed => ⟨(at_.ended believed).1, (at_.ended believed).2 x here' dup used⟩)
        · have stayed : D.mainLevel.getCurrent c.xcursor =
              some (.fail mdbNotfound { c.xcursor with cursor := { c.xcursor.cursor with del := false } }) := by
            simp [Database.mainLevel, answer, Answer.mapCursor, Answer.fail]
          rw [stayed]
          refine .failed mdbNotfound_ne_zero (on _ ?_ id)
          intro t' rooted'' _
          cases rooted'.symm.trans rooted''
          exact ⟨same, kept.initialized, rfl, kept.gap, kept.flag⟩

end Duplicates

section Set

omit [LinearOrder κ] in
theorem inStep_init1 (rooted : x.data.tree = some t) (tree : D.subMeaning.Tree t) (mx : XCursor δ) :
    InStep x (XCursor.init1 x.data mx) := by
  intro t' rooted' used
  cases rooted.symm.trans rooted'
  obtain ⟨same, steady, ready⟩ := Database.init1_ready rooted tree mx
  have started : (XCursor.init1 x.data mx).cursor.eof = false ∧
      ∃ page outer, (XCursor.init1 x.data mx).cursor.stack = (page, 0) :: outer := by
    cases data : x.data with
    | single value => simp [data, NodeData.tree] at rooted
    | subPage values => exact ⟨rfl, _, _, rfl⟩
    | subDb db => simp [data, XCursor.init1] at used
  obtain ⟨flagless, page, outer, stacked⟩ := started
  have path := ready used
  rw [stacked] at path
  obtain ⟨nodes, _, _, leaf⟩ := path.leaf
  cases leaf
  have gap := Gap.on path (Nat.zero_le nodes.length)
  rw [← stacked] at gap
  refine ⟨same, used, steady, ⟨_, _, gap⟩, fun flagged => ?_⟩
  exact absurd (flagless.symm.trans flagged) (by decide)

theorem settleOn_outcome (valid : D.Valid db) (rooted : db.root = some root) (positioned : c.initialized = true)
    (flagless : c.eof = false) (spot : Spot root c.stack front x back) (op : SetOp) (data : Option δ) :
    Outcome D db ((settleOn D.mainLevel op data x c).map Answer.got) := by
  have lawful := Database.mainLawful (D := D) valid.fixed
  have wf : D.mainMeaning.WellFormed x := (valid.tree root rooted).nodes x (by rw [spot.nodes_eq]; simp)
  have key_eq : (if op = .setRange ∨ op = .setKey then some x.key else none) = none ∨
      (if op = .setRange ∨ op = .setKey then some x.key else none) = some x.key := by
    split
    · exact .inr rfl
    · exact .inl rfl
  have unbelieved (mx : XCursor δ) : atEof { c with xcursor := mx } = true → back = [] := by
    intro believed
    exact absurd (eof_of_atEof believed) (by simp [flagless])
  unfold settleOn
  rw [if_neg (show ¬D.mainLevel.leaf2 = true by simp [lawful.plain rfl])]
  simp only [show D.mainLevel.readsData = true from rfl, Bool.true_eq_false, if_false]
  rcases node_cases wf with single | ⟨t, dup, sorts, rooted', tree⟩
  · simp only [show D.mainLevel.dupdata x = false from single, Bool.false_eq_true, if_false]
    cases node : x.data with
    | subPage values => simp [node, NodeData.dupdata] at single
    | subDb db => simp [node, NodeData.dupdata] at single
    | single v =>
      have read : D.mainLevel.read x = some v := by simp [Database.mainLevel, node]
      have points (mx : XCursor δ) := Points.of_single (D := D) (c := { c with xcursor := mx }) positioned spot node
        (unbelieved mx)
      have left : At root c := Points.at valid rooted (points c.xcursor)
      split
      · rw [read, Option.map_some]
        cases compared : D.mainLevel.dcmp data v with
        | eq => exact .reached rooted (.inl rfl) (points c.xcursor)
        | gt => exact .of_notFound rooted left
        | lt =>
          simp only
          split
          · exact .of_notFound rooted left
          · exact .reached rooted (.inl rfl) (points c.xcursor)
      · rw [read]
        have cleared : D.mainLevel.clearXcursor c = c ∨
          D.mainLevel.clearXcursor c = { c with xcursor := XCursor.clear c.xcursor } := by
          unfold Level.clearXcursor
          split
          · exact .inr rfl
          · exact .inl rfl
        rcases cleared with same | same
        · rw [same]
          exact .reached rooted key_eq (points c.xcursor)
        · rw [same]
          exact .reached rooted key_eq (points _)
  · simp only [show D.mainLevel.dupdata x = true from dup, if_true]
    have on (mx : XCursor δ) (inStep : InStep x mx) : At root { c with xcursor := mx } := by
      refine ⟨positioned, ⟨_, _, spot.gap⟩, ?_, fun believed => ?_⟩
      · intro y here
        cases (Level.Meaning.nodeptr_of_spot (c := { c with xcursor := mx }) spot).symm.trans here
        exact inStep
      · exact absurd (eof_of_atEof believed) (by simp [flagless])
    have started : InStep x (XCursor.init1 x.data c.xcursor) := inStep_init1 rooted' tree c.xcursor
    split
    · cases data with
      | none => exact .failed (show mdbBadValsize ≠ 0 by decide) fun _ => ⟨root, rooted, on _ started⟩
      | some d =>
        obtain ⟨same, steady, ready⟩ := Database.init1_ready rooted' tree c.xcursor
        have flagless' : (XCursor.init1 x.data c.xcursor).cursor.eof = false := by
          cases node : x.data with
          | single value => simp [node, NodeData.tree] at rooted'
          | subPage values => rfl
          | subDb db => rfl
        have called : D.mainLevel.set (decide (op = .getBoth)) (some d) (D.mainLevel.init1 x c.xcursor) =
            Database.onXCursor (fun db => mdbCursorSet D.subLevel db .setRange (decide (op = .getBoth)) d none)
              (XCursor.init1 x.data c.xcursor) := rfl
        obtain ⟨sub, sub_rooted, onSub⟩ := Database.onXCursor_rooted
          (fun db => mdbCursorSet D.subLevel db .setRange (decide (op = .getBoth)) d none) same
        rw [called, onSub]
        by_cases sized : D.dataSize d = 0
        · rw [mdbCursorSet, if_pos (show D.subLevel.keySize d = 0 from sized)]
          exact .failed (show mdbBadValsize ≠ 0 by decide) fun _ => ⟨root, rooted, on _ started⟩
        · rcases set_value tree sub_rooted ready flagless' steady sized with
            ⟨pre, v, post, s', answer, steady', onValue⟩ | ⟨s', answer, kept⟩
          · rw [answer]
            exact .reached rooted (.inl rfl) (Points.of_value
              (c := { c with xcursor := { XCursor.init1 x.data c.xcursor with cursor := s' } }) positioned spot
                rooted' same
              steady' onValue fun believed => absurd (eof_of_atEof believed) (by simp [flagless]))
          · rw [answer]
            refine .failed mdbNotfound_ne_zero fun _ => ⟨root, rooted,
              on { XCursor.init1 x.data c.xcursor with cursor := s' } ?_⟩
            intro t' rooted'' _
            cases rooted'.symm.trans rooted''
            exact ⟨same, kept⟩
    · obtain ⟨v, post, values⟩ := List.exists_cons_of_ne_nil (lawful.nonempty x wf)
      obtain ⟨mx, answer, on⟩ := lawful.first x c.xcursor v post wf dup values
      rw [answer]
      have onto : D.mainMeaning.Onto x [] v post mx := by
        rw [Level.Meaning.Onto, if_pos (show D.mainLevel.dupdata x = true from dup)]
        exact ⟨on, values⟩
      have located : D.mainMeaning.Located root { c with xcursor := mx } front x back [] v post :=
        ⟨positioned, spot, onto, fun flagged => absurd (flagless.symm.trans flagged) (by decide)⟩
      exact .reached rooted key_eq (Points.of_located located)

/-- `MDB_SET` and its relatives. -/
theorem set_outcome (valid : D.Valid db) (between : Between db c) (op : SetOp) (key : κ) (data : Option δ) :
    Outcome D db ((mdbCursorSet D.mainLevel db op (op ≠ .setRange) key data c).map Answer.got) := by
  by_cases sized : D.mainLevel.keySize key = 0
  · rw [mdbCursorSet, if_pos sized]
    exact .of_fail (show mdbBadValsize ≠ 0 by decide) between
  rw [mdbCursorSet, if_neg sized]
  cases rooted : db.root with
  | none =>
    have fresh := between.fresh rooted
    have nothing : seek D.mainLevel db op (decide (op ≠ .setRange)) key (D.mainLevel.clearXcursor c) =
        some (.inl (.fail mdbNotfound (D.mainLevel.clearXcursor c))) := by
      simp [seek, fresh, seekFromRoot, mdbPageSearch, rooted]
    rw [nothing]
    exact .of_fail mdbNotfound_ne_zero (.of_fresh (by simpa using fresh))
  | some root =>
    have tree := valid.tree root rooted
    obtain ⟨n, uniform⟩ := tree.uniform
    have range : decide (op ≠ SetOp.setRange) = false → op = .setRange := by simp
    have ready : (D.mainLevel.clearXcursor c).initialized = true →
      Path root 0 (D.mainLevel.clearXcursor c).stack := by
      simpa using between.path rooted
    have sought := seek_sought (c := D.mainLevel.clearXcursor c) (decide (op ≠ .setRange)) key op tree.sorted
      tree.separated uniform rooted range ready
    generalize searched : seek D.mainLevel db op (decide (op ≠ .setRange)) key (D.mainLevel.clearXcursor c) =
      answer at sought
    cases sought with
    | @found c' x rest _ _ spot _ _ =>
      have settled : settle D.mainLevel op data c' =
          settleOn D.mainLevel op data x { c' with initialized := true, eof := false } := by
        rw [settle, Level.Meaning.nodeptr_of_spot spot]
      rw [Option.bind_some, Sum.elim_inr, settled]
      exact settleOn_outcome (c := { c' with initialized := true, eof := false }) valid rooted rfl rfl spot op data
    | @missing c' _ _ _ _ =>
      obtain ⟨c'', failed, missed, _⟩ := seek_missed tree.sorted tree.separated uniform rooted range ready searched
      cases failed
      have unused (sorts : D.dupSort = true) : c'.xcursor.cursor.initialized = false := by
        rw [missed.xcursor]
        simp [Level.clearXcursor, Database.mainLevel, sorts, XCursor.clear]
      obtain ⟨_, _, gap⟩ := missed.gap
      have wellFormed (x : Node κ δ) (here : Level.nodeptr c' = some x) : D.mainMeaning.WellFormed x :=
        tree.nodes x (by rw [(spot_of_nodeptr gap here).nodes_eq]; simp)
      refine .of_notFound rooted ⟨missed.initialized, missed.gap, ?_,
        fun believed => ⟨missed.ended believed, ?_⟩⟩
      · intro x here t rooted' used
        have sorts := (wellFormed x here (NodeData.dupdata_of_tree rooted')).1
        exact absurd ((unused sorts).symm.trans used) (by decide)
      · intro x here dup used
        exact absurd ((unused (wellFormed x here dup).1).symm.trans used) (by decide)

end Set

end Outcomes

end SamLmdb
