import SamLmdb.Cursor.Between
import SamLmdb.Cursor.Split

/-! `into_iter` after calls of `Cursor::get`: it goes on behind the item that the last of them has come to. -/

namespace SamLmdb

open PageTree

variable {κ δ : Type}

structure GetCall (κ δ : Type) where
  op : CursorOp
  key : Option κ
  data : Option δ

def CursorOp.single : CursorOp → Bool
  | .getMultiple | .nextMultiple | .prevMultiple | .other _ => false
  | _ => true

/-- There is a node under the cursor, and the xcursor is in use if it has duplicates. -/
def Sees (c : MainCursor κ δ) : Prop :=
  ∃ x, Level.nodeptr c = some x ∧ (x.data.dupdata = true → c.xcursor.cursor.initialized = true)

/-- With `DUP_SORT` a relative step looks at the node under the cursor first, which a search
that fails may not have left there. `mdb_cursor_prev` looks also from nowhere. -/
def Sighted (D : Database κ δ) (db : MainDb κ δ) (c : MainCursor κ δ) : CursorOp → Prop
  | .next | .nextDup => D.dupSort = true → c.initialized = true → atEof c = false → Sees c
  | .nextNodup => D.dupSort = true → c.initialized = true → atEof c = false → Level.nodeptr c ≠ none
  | .prev | .prevDup => D.dupSort = true → db.root ≠ none → c.initialized = true ∧ Sees c
  | .prevNodup => D.dupSort = true → db.root ≠ none → c.initialized = true ∧ Level.nodeptr c ≠ none
  | _ => True

/-- `C_EOF` stays true: `MDB_FIRST_DUP` does not clear it, and `MDB_NEXT_NODUP` sets it also before
the last value of the last key. -/
def KeepsEof (c : MainCursor κ δ) : CursorOp → Prop
  | .firstDup => atEof c = true → ∀ x, Level.nodeptr c = some x → x.data.dupdata = true →
      c.xcursor.cursor.initialized = true → x.data.values.length < 2
  | .nextNodup => c.initialized = true → atEof c = false → ahead c.stack = [] →
      ∀ x, Level.nodeptr c = some x → Spent x c.xcursor
  | _ => True

/-- The condition on a call, and on the cursor before it. -/
structure Allowed (D : Database κ δ) (db : MainDb κ δ) (c : MainCursor κ δ) (call : GetCall κ δ) : Prop where
  single : call.op.single = true
  sighted : Sighted D db c call.op
  keepsEof : KeepsEof c call.op

section Runs

variable [LinearOrder κ] [LinearOrder δ]

/-- Calls of `Cursor::get`, one after another, which may fail, and each of which meets the condition. -/
inductive GetRun (D : Database κ δ) (db : MainDb κ δ) (P : MainCursor κ δ → GetCall κ δ → Prop) :
    MainCursor κ δ → MainCursor κ δ → Prop
  | refl {c} : GetRun D db P c c
  | tail {c d e call answer} : GetRun D db P c d → P d call →
    get D db call.key call.data call.op d = some (answer, e) →
      GetRun D db P c e

variable {D : Database κ δ} {db : MainDb κ δ} {root : Page κ (Node κ δ)} {c : MainCursor κ δ}
    {before after : List (κ × δ)}
  {item : κ × δ} {key : Option κ} {data : Option δ} {op : CursorOp}

theorem next_any (valid : D.Valid db) (between : Between db c) (steady : c.del = false) (step : StepOp)
    (sighted : D.dupSort = true → c.initialized = true → atEof c = false →
      ∃ x, Level.nodeptr c = some x ∧ (x.data.dupdata = true →
        step = .nodup ∨ c.xcursor.cursor.initialized = true))
    (keepsEof : step = .nodup → c.initialized = true → atEof c = false → ahead c.stack = [] →
      ∀ x, Level.nodeptr c = some x → Spent x c.xcursor) :
    Outcome D db ((mdbCursorNext D.mainLevel db step c).map Answer.got) := by
  cases positioned : c.initialized with
  | false =>
    rw [Level.Meaning.next_unpositioned positioned steady]
    exact first_outcome valid between
  | true =>
    obtain ⟨root, rooted, at_⟩ := between positioned
    exact next_outcome valid rooted at_ steady (fun sorts => sighted sorts positioned)
      fun leaves => keepsEof leaves positioned

theorem prev_any (valid : D.Valid db) (between : Between db c) (step : StepOp)
    (sighted : D.dupSort = true → db.root ≠ none → c.initialized = true ∧
      ∃ x, Level.nodeptr c = some x ∧ (x.data.dupdata = true →
        step = .nodup ∨ c.xcursor.cursor.initialized = true)) :
    Outcome D db ((mdbCursorPrev D.mainLevel db step c).map Answer.got) := by
  cases positioned : c.initialized with
  | false =>
    refine prev_fresh_outcome valid positioned fun sorts => ?_
    by_contra rooted
    exact absurd (positioned.symm.trans (sighted sorts rooted).1) (by decide)
  | true =>
    obtain ⟨root, rooted, at_⟩ := between positioned
    rw [Level.Meaning.mdbCursorPrev_eq db positioned]
    exact prev_outcome valid rooted at_ fun sorts => (sighted sorts (by simp [rooted])).2

theorem getOp_outcome (valid : D.Valid db) (between : Between db c) (steady : c.del = false) (single : op.single = true)
    (sighted : Sighted D db c op) (keepsEof : KeepsEof c op) : Outcome D db (getOp D db op key data c) := by
  have seen {step : StepOp} (sees : Sees c) :
      ∃ x, Level.nodeptr c = some x ∧ (x.data.dupdata = true →
        step = .nodup ∨ c.xcursor.cursor.initialized = true) := by
    obtain ⟨x, here, inUse⟩ := sees
    exact ⟨x, here, fun dup => .inr (inUse dup)⟩
  have there (some_node : Level.nodeptr c ≠ none) :
      ∃ x, Level.nodeptr c = some x ∧ (x.data.dupdata = true →
        StepOp.nodup = .nodup ∨ c.xcursor.cursor.initialized = true) := by
    obtain ⟨x, here⟩ := Option.ne_none_iff_exists'.1 some_node
    exact ⟨x, here, fun _ => .inl rfl⟩
  have set (op : SetOp) : Outcome D db (getSet D db op key data c) := by
    cases key with
    | none => exact .failed (show mdbBadValsize ≠ 0 by decide) between
    | some key => exact set_outcome valid between op key data
  have incompatible : Outcome D db (some (Answer.fail mdbIncompatible c)) :=
    .failed (show mdbIncompatible ≠ 0 by decide) between
  cases op with
  | first => exact first_outcome valid between
  | last => exact last_outcome valid between
  | next => exact next_any valid between steady .item (fun sorts init open_ => seen (sighted sorts init open_)) nofun
  | nextDup => exact next_any valid between steady .dup (fun sorts init open_ => seen (sighted sorts init open_)) nofun
  | nextNodup =>
    exact next_any valid between steady .nodup (fun sorts init open_ => there (sighted sorts init open_))
      fun _ => keepsEof
  | prev =>
    exact prev_any valid between .item fun sorts rooted => ⟨(sighted sorts rooted).1, seen (sighted sorts rooted).2⟩
  | prevDup =>
    exact prev_any valid between .dup fun sorts rooted => ⟨(sighted sorts rooted).1, seen (sighted sorts rooted).2⟩
  | prevNodup =>
    exact prev_any valid between .nodup
      fun sorts rooted => ⟨(sighted sorts rooted).1, there (sighted sorts rooted).2⟩
  | set => exact set .set
  | setKey => exact set .setKey
  | setRange => exact set .setRange
  | getBoth =>
    rw [getOp]
    split
    · exact set .getBoth
    · exact incompatible
  | getBothRange =>
    rw [getOp]
    split
    · exact set .getBothRange
    · exact incompatible
  | getCurrent =>
    cases positioned : c.initialized with
    | false =>
      have refused : getOp D db .getCurrent key data c = some (.fail einval c) := by
        simp [getOp, mdbCursorGetCurrent, positioned, Answer.got, Answer.fail]
      rw [refused]
      exact .failed (show einval ≠ 0 by decide) between
    | true =>
      obtain ⟨root, rooted, at_⟩ := between positioned
      exact current_outcome valid rooted at_
  | firstDup =>
    cases positioned : c.initialized with
    | false =>
      rw [getOp, moveDup, if_pos positioned]
      exact .failed (show einval ≠ 0 by decide) between
    | true =>
      obtain ⟨root, rooted, at_⟩ := between positioned
      refine moveDup_outcome valid rooted at_ fun x t here rooted' tree same kept => ?_
      obtain ⟨sub, sub_rooted, called⟩ := Database.onXCursor_rooted (mdbCursorFirst D.subLevel) same
      obtain ⟨v, post, s', answer, steady', on⟩ := first_value tree sub_rooted kept
      refine ⟨[], v, post, { c.xcursor with cursor := s' }, ?_, same, steady', on, fun believed => ?_⟩
      · rw [show D.mainLevel.first c.xcursor = _ from called, answer]
        rfl
      · have short := keepsEof believed x here (NodeData.dupdata_of_tree rooted') kept.initialized
        rw [NodeData.values_of_tree rooted', on.nodes_eq] at short
        simp only [List.nil_append, List.length_cons] at short
        exact List.length_eq_zero_iff.1 (by omega)
  | lastDup =>
    cases positioned : c.initialized with
    | false =>
      rw [getOp, moveDup, if_pos positioned]
      exact .failed (show einval ≠ 0 by decide) between
    | true =>
      obtain ⟨root, rooted, at_⟩ := between positioned
      refine moveDup_outcome valid rooted at_ fun x t here rooted' tree same kept => ?_
      obtain ⟨sub, sub_rooted, called⟩ := Database.onXCursor_rooted (mdbCursorLast D.subLevel) same
      obtain ⟨pre, v, s', answer, steady', on⟩ := last_value tree sub_rooted kept
      refine ⟨pre, v, [], { c.xcursor with cursor := s' }, ?_, same, steady', on, fun _ => rfl⟩
      rw [show D.mainLevel.last c.xcursor = _ from called, answer]
      rfl
  | getMultiple => cases single
  | nextMultiple => cases single
  | prevMultiple => cases single
  | other code => cases single

/-- A call that meets the condition leaves a cursor for which the same holds. -/
theorem get_outcome (valid : D.Valid db) (between : Between db c) (steady : c.del = false) {call : GetCall κ δ}
    (allowed : Allowed D db c call) :
    ∃ answer c', get D db call.key call.data call.op c = some (answer, c') ∧ Between db c' ∧ c'.del = false ∧
      ∀ key data, answer = .ok (key, data) → ∃ root before item after, db.root = some root ∧
        (key = none ∨ key = some (.written item.1)) ∧ data = .written (.value item.2) ∧
          Points D root c' before item after := by
  have outcome : Outcome D db (getOp D db call.op call.key call.data c) :=
    getOp_outcome valid between steady allowed.single allowed.sighted allowed.keepsEof
  generalize called : getOp D db call.op call.key call.data c = a at outcome
  cases outcome with
  | @reached key c' root before item after rooted reported points =>
    have points' : Points D root { c' with del := false } before item after :=
      ⟨points.standing.setDel false, points.ended⟩
    refine ⟨_, { c' with del := false }, by simp [get, mdbCursorGet, called, Answer.mapCursor]; rfl, ?_, rfl, ?_⟩
    · exact fun _ => ⟨root, rooted, points'.at valid rooted⟩
    · rintro _ _ ⟨⟩
      refine ⟨root, before, item, after, rooted, ?_, rfl, points'⟩
      rcases reported with rfl | rfl
      · exact .inl rfl
      · exact .inr rfl
  | @failed a failed left =>
    refine ⟨.error (.fromErrCode a.rc), { a.cursor with del := false }, ?_, ?_, rfl, by simp⟩
    · simp [get, mdbCursorGet, called, Answer.mapCursor, failed]
    · intro positioned
      obtain ⟨root, rooted, at_⟩ := left positioned
      exact ⟨root, rooted, at_.update positioned rfl at_.inStep at_.ended⟩

theorem GetRun.between (valid : D.Valid db) (run : GetRun D db (Allowed D db) MainCursor.opened c) :
    Between db c ∧ c.del = false := by
  induction run with
  | refl => exact ⟨.of_fresh rfl, rfl⟩
  | tail _ allowed called ih =>
    obtain ⟨between, steady⟩ := ih
    obtain ⟨_, _, called', between', steady', _⟩ := get_outcome valid between steady allowed
    cases called.symm.trans called'
    exact ⟨between', steady'⟩

theorem Points.comes (valid : D.Valid db) (rooted : db.root = some root) (steady : c.del = false)
    (points : Points D root c before item after) : Comes D db (Following D db) .next c after := by
  have positioned : c.initialized = true := points.standing.initialized
  cases ended : atEof c with
  | true =>
    rw [points.ended ended]
    exact Following.comes valid c [] (.ended positioned ended steady)
  | false =>
    have unflagged : atEof { c with eof := false } = false := by
      cases believed : atEof { c with eof := false } with
      | false => rfl
      | true => exact absurd (eof_of_atEof believed) (by simp)
    have same : mdbCursorGet D db .next none none c = mdbCursorGet D db .next none none { c with eof := false } := by
      rw [mdbCursorGet, mdbCursorGet, getOp, getOp, Level.Meaning.mdbCursorNext_eq .item positioned steady ended,
        Level.Meaning.mdbCursorNext_eq (c := { c with eof := false }) .item positioned steady unflagged]
    exact (Following.comes valid _ _ (.on rooted points.standing steady)).congr same

omit [LinearOrder κ] in
theorem mdbCursorGetCurrent_eof (c : MainCursor κ δ) (eof : Bool) :
    mdbCursorGetCurrent D.mainLevel { c with eof := eof } =
      (mdbCursorGetCurrent D.mainLevel c).map (Answer.mapCursor fun c => { c with eof := eof }) := by
  obtain ⟨initialized, _, del, stack, mx⟩ := c
  cases initialized with
  | false => rfl
  | true =>
    match stack with
    | [] | (.branch _, _) :: _ => rfl
    | (.leaf nodes, i) :: outer =>
      cases here : nodes[i]? with
      | none => simp [mdbCursorGetCurrent, here, Answer.mapCursor, Answer.fail, Cursor.setIndex]
      | some x =>
        simp only [mdbCursorGetCurrent, here, if_true]
        split
        · rfl
        · split
          · rw [Option.map_map]
            rfl
          · rfl

theorem Points.current (valid : D.Valid db) (rooted : db.root = some root)
    (points : Points D root c before item after) :
    ∃ c', get D db none none .getCurrent c = some (.ok (some (.written item.1), .written (.value item.2)), c') := by
  obtain ⟨_, answer, _⟩ :=
    (Database.mainLawful valid.fixed).getCurrent_standing (valid.tree root rooted) points.standing
  rw [mdbCursorGetCurrent_eof, Option.map_eq_some_iff] at answer
  obtain ⟨⟨rc, key, data, c'⟩, called, shown⟩ := answer
  cases shown
  exact ⟨{ c' with del := false }, by simp [get, mdbCursorGet, getOp, called, Answer.got, Answer.mapCursor]; rfl⟩

end Runs

/-- After any calls that meet the condition, one that succeeds returns the value of an item, and
its key if it returns one. The cursor is on that item, as `MDB_GET_CURRENT` says, and `into_iter`
yields what comes behind it. A new cursor yields all. -/
theorem resumes_behind [LinearOrder κ] [LinearOrder δ] (D : Database κ δ) (db : MainDb κ δ) (c : MainCursor κ δ)
    (call : GetCall κ δ) (valid : D.Valid db)
    (run : GetRun D db (Allowed D db) MainCursor.opened c) (allowed : Allowed D db c call) :
    (∃ answer c', get D db call.key call.data call.op c = some (answer, c') ∧
      ∀ key data, answer = .ok (key, data) → ∃ before item after, items D db = before ++ item :: after ∧
        (key = none ∨ key = some (.written item.1)) ∧ data = .written (.value item.2) ∧
        (∃ c'', get D db none none .getCurrent c' =
          some (.ok (some (.written item.1), .written (.value item.2)), c'')) ∧
        (intoIter c').Yields D db after) ∧
    (intoIter MainCursor.opened).Yields D db (items D db) ∧ (items D db).Pairwise Before := by
  obtain ⟨between, steady⟩ := run.between valid
  obtain ⟨answer, c', called, _, steady', reached⟩ := get_outcome valid between steady allowed
  refine ⟨⟨answer, c', called, fun key data success => ?_⟩, Following.yields valid (.fresh rfl rfl),
    items_before valid⟩
  obtain ⟨root, before, item, after, rooted, reported, shown, points⟩ := reached key data success
  refine ⟨before, item, after, items_of_standing rooted points.standing, reported, shown,
    points.current valid rooted, ?_⟩
  exact Comes.yields (Following.comes valid) (points.comes valid rooted steady')

/-- `MDB_FIRST` and `MDB_NEXT` -/
theorem resumes_behind_next :
    ∃ c c' answer, get sorted threeItems none none .first MainCursor.opened =
        some (.ok (some (.written 1), .written (.value 5)), c) ∧
      get sorted threeItems none none .next c = some (.ok answer, c') ∧
      ∃ before item after, items sorted threeItems = before ++ item :: after ∧
        (answer.1 = none ∨ answer.1 = some (.written item.1)) ∧ answer.2 = .written (.value item.2) ∧
        (∃ c'', get sorted threeItems none none .getCurrent c' =
          some (.ok (some (.written item.1), .written (.value item.2)), c'')) ∧
        (intoIter c').Yields sorted threeItems after := by
  obtain ⟨c, first, next⟩ : ∃ c, get sorted threeItems none none .first MainCursor.opened =
      some (.ok (some (.written 1), .written (.value 5)), c) ∧ Allowed sorted threeItems c ⟨.next, none, none⟩ :=
    ⟨_, rfl, rfl, fun _ _ _ => ⟨⟨1, .single 5⟩, rfl, nofun⟩, trivial⟩
  obtain ⟨c', answer, second⟩ : ∃ c' answer, get sorted threeItems none none .next c = some (.ok answer, c') := by
    cases first
    exact ⟨_, _, rfl⟩
  have run : GetRun sorted threeItems (Allowed sorted threeItems) MainCursor.opened c :=
    have allowed : Allowed sorted threeItems MainCursor.opened ⟨.first, none, none⟩ := ⟨rfl, trivial, trivial⟩
    .tail .refl allowed first
  obtain ⟨⟨answer', c'', called, behind⟩, _⟩ :=
    resumes_behind sorted threeItems c ⟨.next, none, none⟩ threeItems_valid run next
  cases second.symm.trans called
  exact ⟨c, c', answer, first, second, behind _ _ rfl⟩

/-- After `MDB_LAST` and `MDB_FIRST_DUP` the cursor is on (2, 3), and (2, 4) is not yielded. -/
theorem firstDup_loses_tail :
    ∃ c c', (∃ answer, get sorted threeItems none none .last MainCursor.opened = some (.ok answer, c)) ∧
      get sorted threeItems none none .firstDup c = some (.ok (none, .written (.value 3)), c') ∧
      (∃ c'', get sorted threeItems none none .getCurrent c' =
        some (.ok (some (.written 2), .written (.value 3)), c'')) ∧
      items sorted threeItems = [(1, 5), (2, 3), (2, 4)] ∧ (intoIter c').Yields sorted threeItems [] ∧
      ¬ (intoIter c').Yields sorted threeItems [(2, 4)] := by
  obtain ⟨c, c', last, moved, there, ends⟩ : ∃ c c',
      (∃ answer, get sorted threeItems none none .last MainCursor.opened = some (.ok answer, c)) ∧
      get sorted threeItems none none .firstDup c = some (.ok (none, .written (.value 3)), c') ∧
      (∃ c'', get sorted threeItems none none .getCurrent c' =
        some (.ok (some (.written 2), .written (.value 3)), c'')) ∧
      (intoIter c').Yields sorted threeItems [] := ⟨_, _, ⟨_, rfl⟩, rfl, ⟨_, rfl⟩, .done rfl⟩
  refine ⟨c, c', last, moved, there, rfl, ends, fun yields => ?_⟩
  cases ends.unique yields

end SamLmdb
