import Mathlib.Data.Nat.Basic
import SamLmdb.Cursor.Duplicates

/-! Walking with an `RwCursor` by first, last, next and prev, without updates. -/

namespace SamLmdb

open PageTree

variable {κ δ : Type} [LinearOrder κ] [LinearOrder δ]

def items (D : Database κ δ) (db : MainDb κ δ) : List (κ × δ) :=
  db.root.elim [] fun root => D.mainMeaning.items root.nodes

/-- A tree as LMDB keeps it, or none. `DUP_FIXED` is for databases with `DUP_SORT` only. -/
structure Database.Valid (D : Database κ δ) (db : MainDb κ δ) : Prop where
  fixed : D.dupFixed = true → D.dupSort = true
  tree : ∀ root, db.root = some root → D.mainMeaning.Tree root

def MainCursor.opened : MainCursor κ δ :=
  ⟨false, false, false, [], ⟨⟨false, false, false, [], ()⟩, none⟩⟩

def itemAnswer (item : Option (κ × δ)) : Except Error (Option (KeySlice κ × DataSlice δ)) :=
  .ok (item.map fun item => (.written item.1, .written (.value item.2)))

section Answers

variable {D : Database κ δ} {db : MainDb κ δ} {root : Page κ (Node κ δ)} {op : CursorOp} {c : MainCursor κ δ}
  {before after : List (κ × δ)} {item : κ × δ}

/-- The position that a successful call leaves, with `C_DEL` cleared. -/
theorem mdbCursorGet_reaches {answer : Option (Answer κ δ (MainCursor κ δ))} {del : Bool}
    (op : CursorOp) (key : Option κ) (data : Option δ) (called : getOp D db op key data c = answer.map Answer.got)
    (reached : D.mainMeaning.Reaches root del answer before item after) :
    ∃ c', mdbCursorGet D db op key data c = some ⟨0, some item.1, some (.value item.2), c'⟩ ∧
      D.mainMeaning.Standing root c' before item after ∧ c'.del = false := by
  obtain ⟨c', rfl, standing, _⟩ := reached
  refine ⟨{ c' with del := false }, ?_, standing.setDel false, rfl⟩
  simp [mdbCursorGet, called, Answer.got, Answer.mapCursor, Level.shown, Database.mainLevel]

theorem mdbCursorGet_stays {answer : Option (Answer κ δ (MainCursor κ δ))}
    (op : CursorOp) (key : Option κ) (data : Option δ) (called : getOp D db op key data c = answer.map Answer.got)
    (stayed : D.mainMeaning.Stays root answer before item after) :
    ∃ c', mdbCursorGet D db op key data c = some (.fail mdbNotfound c') ∧
      D.mainMeaning.Standing root c' before item after ∧ c'.del = false := by
  obtain ⟨c', rfl, standing, _⟩ := stayed
  refine ⟨{ c' with del := false }, ?_, standing.setDel false, rfl⟩
  simp [mdbCursorGet, called, Answer.got, Answer.mapCursor, Answer.fail]

theorem walk_item {c' : MainCursor κ δ}
    (got : mdbCursorGet D db op none none c = some ⟨0, some item.1, some (.value item.2), c'⟩) :
    walk D db op c = some (itemAnswer (some item), c') := by
  simp [walk, get, got, valToSlice, itemAnswer]

theorem walk_notFound {c' : MainCursor κ δ} (got : mdbCursorGet D db op none none c = some (.fail mdbNotfound c')) :
    walk D db op c = some (itemAnswer none, c') := by
  simp [walk, get, got, Answer.fail, itemAnswer, Error.fromErrCode, mdbNotfound]

end Answers

inductive WalkOp where
  | first
  | last
  | next
  | prev
  deriving DecidableEq, Repr

def WalkOp.cursorOp : WalkOp → CursorOp
  | .first => .first
  | .last => .last
  | .next => .next
  | .prev => .prev

/-- Where a move leads in a list of `n` items, from an index or from nowhere. -/
def WalkOp.target (n : ℕ) : WalkOp → Option ℕ → Option ℕ
  | .next, some i => if i + 1 < n then some (i + 1) else none
  | .prev, some 0 => none
  | .prev, some (i + 1) => some i
  | .first, _ | .next, none => if n = 0 then none else some 0
  | .last, _ | .prev, none => if n = 0 then none else some (n - 1)

/-- The items that moves lead to; where there is none the position stays. -/
def walkSpec {ι : Type} (items : List ι) : Option ℕ → List WalkOp → List (Option ι)
  | _, [] => []
  | position, op :: ops =>
    let target := op.target items.length position
    (target.bind fun i => items[i]?) :: walkSpec items (target.or position) ops

def runWalk (D : Database κ δ) (db : MainDb κ δ) :
    MainCursor κ δ → List WalkOp → Option (List (Except Error (Option (KeySlice κ × DataSlice δ))))
  | _, [] => some []
  | c, op :: ops =>
    match walk D db op.cursorOp c with
    | none => none
    | some (answer, c) => (runWalk D db c ops).map fun answers => answer :: answers

inductive Positioned (D : Database κ δ) (db : MainDb κ δ) (c : MainCursor κ δ) : Option ℕ → Prop
  | nowhere : c.initialized = false → c.del = false → Positioned D db c none
  | on {root before item after} : db.root = some root → D.mainMeaning.Standing root c before item after →
      c.del = false → Positioned D db c (some before.length)

section Steps

variable {D : Database κ δ} {db : MainDb κ δ} {root : Page κ (Node κ δ)} {c : MainCursor κ δ}
  {before after : List (κ × δ)} {item : κ × δ}

omit [LinearOrder κ] in
theorem items_of_standing (rooted : db.root = some root)
    (standing : D.mainMeaning.Standing root c before item after) : items D db = before ++ item :: after := by
  rw [items, rooted]
  exact standing.items_eq

omit [LinearOrder κ] in
theorem items_of_reaches {answer : Option (Answer κ δ (MainCursor κ δ))} {del : Bool} (rooted : db.root = some root)
    (reached : D.mainMeaning.Reaches root del answer before item after) : items D db = before ++ item :: after := by
  rw [items, rooted]
  exact reached.items_eq

theorem walk_reaches {answer : Option (Answer κ δ (MainCursor κ δ))} {del : Bool}
    (op : CursorOp) (rooted : db.root = some root) (called : getOp D db op none none c = answer.map Answer.got)
    (reached : D.mainMeaning.Reaches root del answer before item after) :
    ∃ c', walk D db op c = some (itemAnswer (items D db)[before.length]?, c') ∧
      Positioned D db c' (some before.length) := by
  obtain ⟨c', got, standing, steady⟩ := mdbCursorGet_reaches op none none called reached
  refine ⟨c', ?_, .on rooted standing steady⟩
  rw [walk_item got, items_of_standing rooted standing]
  simp

theorem walk_first (valid : D.Valid db) (rooted : db.root = some root)
    (ready : c.initialized = true → Path root 0 c.stack) :
    ∃ c', walk D db .first c = some (itemAnswer (items D db)[0]?, c') ∧ Positioned D db c' (some 0) := by
  obtain ⟨item, after, reached⟩ :=
    (Database.mainLawful valid.fixed).first_standing (valid.tree root rooted) rooted ready
  exact walk_reaches .first rooted rfl reached

theorem walk_last (valid : D.Valid db) (rooted : db.root = some root)
    (ready : c.initialized = true → Path root 0 c.stack) :
    ∃ c', walk D db .last c = some (itemAnswer (items D db)[(items D db).length - 1]?, c') ∧
      Positioned D db c' (some ((items D db).length - 1)) := by
  obtain ⟨before, item, reached⟩ :=
    (Database.mainLawful valid.fixed).last_standing (valid.tree root rooted) rooted ready
  have length : (items D db).length - 1 = before.length := by
    rw [items_of_reaches rooted reached]
    simp
  rw [length]
  exact walk_reaches .last rooted rfl reached

theorem items_length_ne_zero (valid : D.Valid db) (rooted : db.root = some root) : (items D db).length ≠ 0 := by
  obtain ⟨item, after, _, _, standing, _⟩ := (Database.mainLawful valid.fixed).first_standing
    (c := MainCursor.opened) (valid.tree root rooted) rooted nofun
  simp [items_of_standing rooted standing]

theorem walk_next (valid : D.Valid db) (rooted : db.root = some root) (steady : c.del = false)
    (standing : D.mainMeaning.Standing root c before item after) :
    ∃ c', walk D db .next c = some (itemAnswer after.head?, c') ∧
      Positioned D db c' (some (if after = [] then before.length else before.length + 1)) := by
  have step := (Database.mainLawful valid.fixed).next_standing db (valid.tree root rooted) standing steady
  cases after with
  | nil =>
    obtain ⟨c', got, standing', steady'⟩ := mdbCursorGet_stays .next none none rfl step
    exact ⟨c', walk_notFound got, .on rooted standing' steady'⟩
  | cons item' after =>
    obtain ⟨c', got, standing', steady'⟩ := mdbCursorGet_reaches .next none none rfl step
    refine ⟨c', walk_item got, ?_⟩
    simpa using Positioned.on rooted standing' steady'

theorem walk_prev (valid : D.Valid db) (rooted : db.root = some root) (steady : c.del = false)
    (standing : D.mainMeaning.Standing root c before item after) :
    ∃ c', walk D db .prev c = some (itemAnswer before.getLast?, c') ∧
      Positioned D db c' (some (before.length - 1)) := by
  have step := (Database.mainLawful valid.fixed).prev_standing (valid.tree root rooted) standing steady
  rw [← Level.Meaning.mdbCursorPrev_eq db standing.initialized] at step
  rcases step with ⟨rfl, stayed⟩ | ⟨before, item', rfl, reached⟩
  · obtain ⟨c', got, standing', steady'⟩ := mdbCursorGet_stays .prev none none rfl stayed
    exact ⟨c', walk_notFound got, .on rooted standing' steady'⟩
  · obtain ⟨c', got, standing', steady'⟩ := mdbCursorGet_reaches .prev none none rfl reached
    refine ⟨c', by simpa using walk_item got, ?_⟩
    simpa using Positioned.on rooted standing' steady'

theorem walk_empty (rooted : db.root = none) (fresh : c.initialized = false) (steady : c.del = false) (op : WalkOp) :
    ∃ c', walk D db op.cursorOp c = some (itemAnswer none, c') ∧ Positioned D db c' none := by
  have got : mdbCursorGet D db op.cursorOp none none c =
      some (.fail mdbNotfound { D.mainLevel.clearXcursor c with del := false }) := by
    cases op with
    | first => simp [mdbCursorGet, WalkOp.cursorOp, getOp, Level.Meaning.first_empty rooted fresh, Answer.got,
        Answer.fail, Answer.mapCursor]
    | last => simp [mdbCursorGet, WalkOp.cursorOp, getOp, Level.Meaning.last_empty rooted fresh, Answer.got,
        Answer.fail, Answer.mapCursor]
    | next => simp [mdbCursorGet, WalkOp.cursorOp, getOp, Level.Meaning.next_empty rooted fresh steady, Answer.got,
        Answer.fail, Answer.mapCursor]
    | prev => simp [mdbCursorGet, WalkOp.cursorOp, getOp, Level.Meaning.prev_empty rooted fresh, Answer.got,
        Answer.fail, Answer.mapCursor]
  exact ⟨_, walk_notFound got, .nowhere (by simpa using fresh) rfl⟩

/-- `mdb_cursor_prev` of a cursor that is nowhere looks at the node behind the last one. -/
def PrevFromNowhere (D : Database κ δ) (db : MainDb κ δ) (position : Option ℕ) (op : WalkOp) : Prop :=
  position = none ∧ op = .prev ∧ D.dupSort = true ∧ db.root ≠ none

theorem walk_positioned (valid : D.Valid db) {position : Option ℕ} (positioned : Positioned D db c position)
    (op : WalkOp) (allowed : ¬ PrevFromNowhere D db position op) :
    ∃ c', walk D db op.cursorOp c =
        some (itemAnswer ((op.target (items D db).length position).bind fun i => (items D db)[i]?), c') ∧
      Positioned D db c' ((op.target (items D db).length position).or position) := by
  cases positioned with
  | nowhere fresh steady =>
    cases rooted : db.root with
    | none =>
      have empty : items D db = [] := by rw [items, rooted]; rfl
      obtain ⟨c', answer, positioned⟩ := walk_empty (D := D) rooted fresh steady op
      refine ⟨c', ?_, ?_⟩
      · rw [answer, empty]
        cases op <;> rfl
      · rw [empty]
        cases op <;> exact positioned
    | some root =>
      have ready : c.initialized = true → Path root 0 c.stack := by simp [fresh]
      obtain ⟨c₀, first, at_first⟩ := walk_first valid rooted ready
      obtain ⟨c₁, last, at_last⟩ := walk_last valid rooted ready
      have some_item := items_length_ne_zero valid rooted
      cases op with
      | first =>
        exact ⟨c₀, by simpa [WalkOp.target, WalkOp.cursorOp, some_item] using first,
          by simpa [WalkOp.target, WalkOp.cursorOp, some_item] using at_first⟩
      | last =>
        exact ⟨c₁, by simpa [WalkOp.target, WalkOp.cursorOp, some_item] using last,
          by simpa [WalkOp.target, WalkOp.cursorOp, some_item] using at_last⟩
      | next =>
        have same : walk D db .next c = walk D db .first c := by
          simp [walk, get, mdbCursorGet, getOp, Level.Meaning.next_unpositioned fresh steady]
        refine ⟨c₀, ?_, by simpa [WalkOp.target, some_item] using at_first⟩
        rw [WalkOp.cursorOp, same, first]
        simp [WalkOp.target, some_item]
      | prev =>
        have plain : D.dupSort = false := by
          by_contra sorts
          exact allowed ⟨rfl, rfl, by simpa using sorts, by simp [rooted]⟩
        obtain ⟨before, item, reached⟩ := (Database.mainLawful valid.fixed).prev_unpositioned
          (valid.tree root rooted) rooted plain fresh
        have length : (items D db).length - 1 = before.length := by
          rw [items_of_reaches rooted reached]
          simp
        obtain ⟨c', answer, positioned⟩ := walk_reaches .prev rooted rfl reached
        refine ⟨c', ?_, by simpa [WalkOp.target, some_item, length] using positioned⟩
        rw [WalkOp.cursorOp, answer]
        simp [WalkOp.target, some_item, length]
  | @on root before item after rooted standing steady =>
    have split := items_of_standing rooted standing
    have some_item : (items D db).length ≠ 0 := by simp [split]
    have ready : c.initialized = true → Path root 0 c.stack := fun _ => standing.path
    cases op with
    | first =>
      obtain ⟨c', answer, positioned⟩ := walk_first valid rooted ready
      exact ⟨c', by simpa [WalkOp.target, WalkOp.cursorOp, some_item] using answer,
        by simpa [WalkOp.target, WalkOp.cursorOp, some_item] using positioned⟩
    | last =>
      obtain ⟨c', answer, positioned⟩ := walk_last valid rooted ready
      exact ⟨c', by simpa [WalkOp.target, WalkOp.cursorOp, some_item] using answer,
        by simpa [WalkOp.target, WalkOp.cursorOp, some_item] using positioned⟩
    | next =>
      obtain ⟨c', answer, positioned⟩ := walk_next valid rooted steady standing
      refine ⟨c', ?_, ?_⟩
      · rw [WalkOp.cursorOp, answer, split]
        cases after with
        | nil => simp [WalkOp.target]
        | cons item' after => simp [WalkOp.target]
      · rw [split]
        cases after with
        | nil => simpa [WalkOp.target] using positioned
        | cons item' after => simpa [WalkOp.target] using positioned
    | prev =>
      obtain ⟨c', answer, positioned⟩ := walk_prev valid rooted steady standing
      refine ⟨c', ?_, ?_⟩
      · rw [WalkOp.cursorOp, answer, split]
        rcases List.eq_nil_or_concat before with rfl | ⟨before, item', rfl⟩
        · simp [WalkOp.target]
        · simp [WalkOp.target]
      · rcases List.eq_nil_or_concat before with rfl | ⟨before, item', rfl⟩
        · simpa [WalkOp.target] using positioned
        · simpa [WalkOp.target] using positioned

theorem runWalk_positioned (valid : D.Valid db) {position : Option ℕ} (positioned : Positioned D db c position)
    (ops : List WalkOp) (allowed : ∀ op, ops.head? = some op → ¬ PrevFromNowhere D db position op) :
    runWalk D db c ops = some ((walkSpec (items D db) position ops).map itemAnswer) := by
  induction ops generalizing c position with
  | nil => rfl
  | cons op ops ih =>
    obtain ⟨c', answer, positioned'⟩ := walk_positioned valid positioned op (allowed op rfl)
    -- a move that is allowed from nowhere leads somewhere, unless there is nothing
    have later : ∀ op', ops.head? = some op' →
        ¬ PrevFromNowhere D db ((op.target (items D db).length position).or position) op' := by
      rintro op' _ ⟨nowhere, _, _, rooted⟩
      obtain ⟨root, rooted⟩ := Option.ne_none_iff_exists'.1 rooted
      have some_item := items_length_ne_zero valid rooted
      rw [Option.or_eq_none_iff] at nowhere
      obtain ⟨stays, rfl⟩ := nowhere
      cases op <;> simp [WalkOp.target, some_item] at stays
    rw [runWalk, answer]
    simp only [walkSpec, List.map_cons]
    rw [ih positioned' later]
    rfl

end Steps

/-- Moves of a new cursor are those of a position in the list of items, unless the first
one goes back in a `DUP_SORT` database that has items: it looks at a node behind the last. -/
theorem walk_refines (D : Database κ δ) (db : MainDb κ δ) (ops : List WalkOp) (valid : D.Valid db) :
    runWalk D db MainCursor.opened ops = some ((walkSpec (items D db) none ops).map itemAnswer) ↔
      ¬ (D.dupSort = true ∧ db.root ≠ none ∧ ops.head? = some .prev) := by
  constructor
  · rintro runs ⟨sorts, nonempty, first⟩
    obtain ⟨root, rooted⟩ := Option.ne_none_iff_exists'.1 nonempty
    obtain ⟨ops, rfl⟩ : ∃ rest, ops = .prev :: rest := by
      cases ops with
      | nil => simp at first
      | cons op ops => exact ⟨ops, by simpa using first⟩
    have faults := (Database.mainLawful valid.fixed).prev_unpositioned_faults (c := MainCursor.opened)
      (valid.tree root rooted) rooted sorts rfl .item
    simp [runWalk, walk, get, mdbCursorGet, WalkOp.cursorOp, getOp, faults] at runs
  · intro allowed
    refine runWalk_positioned valid (.nowhere rfl rfl) ops ?_
    rintro op first ⟨_, rfl, sorts, nonempty⟩
    exact allowed ⟨sorts, nonempty, first⟩

section OneItem

def sorted : Database ℕ ℕ := ⟨true, false, id, id⟩

def oneItem : MainDb ℕ ℕ := ⟨some (.leaf [⟨1, .single 2⟩]), 1⟩

theorem oneItem_valid : sorted.Valid oneItem where
  fixed := nofun
  tree := by
    rintro _ ⟨⟩
    exact ⟨⟨0, .leaf (by simp)⟩, .leaf, by simp, by simp [Database.mainMeaning, NodeData.dupdata]⟩

/-- Two moves on one item, of which the second finds nothing. -/
theorem walk_refines_next :
    runWalk sorted oneItem MainCursor.opened [.next, .prev] = some [itemAnswer (some (1, 2)), itemAnswer none] :=
  (walk_refines sorted oneItem [.next, .prev] oneItem_valid).2 (by simp)

/-- `prev` of a new cursor has no defined answer, where it should be the item. -/
theorem walk_prev_first :
    runWalk sorted oneItem MainCursor.opened [.prev] = none ∧
      runWalk sorted oneItem MainCursor.opened [.prev] ≠
        some ((walkSpec (items sorted oneItem) none [.prev]).map itemAnswer) := by
  have faults : runWalk sorted oneItem MainCursor.opened [.prev] = none := by decide +kernel
  exact ⟨faults, by simp [faults]⟩

end OneItem

end SamLmdb
