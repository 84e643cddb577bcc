import SamLmdb.Cursor.Missing
import SamLmdb.Cursor.Range

/-!
Call after call of `Iter::next`, also after the first `None`, and the iteration that goes on
with the cursor that `Iter::into_cursor` gives back.
-/

namespace SamLmdb

open PageTree

variable {κ δ : Type}

/-- `Iter::into_cursor` -/
def Iter.intoCursor : Iter κ δ → Except Error (MainCursor κ δ)
  | .err error => .error error
  | .ok c _ _ => .ok c

/-- What `next` returns. -/
abbrev NextAnswer (κ δ : Type) := Option (Except Error (KeySlice κ × DataSlice δ))

def NextAnswer.ofItem (item : κ × δ) : NextAnswer κ δ := some (.ok (.written item.1, .written (.value item.2)))

/-- The item that a call has returned, if it has. -/
def NextAnswer.item? : NextAnswer κ δ → Option (κ × δ)
  | some (.ok (.written k, .written (.value v))) => some (k, v)
  | _ => none

/-- `n` answers: the items, and `None` when there are no more. -/
def answersOf (xs : List (κ × δ)) (n : ℕ) : List (NextAnswer κ δ) :=
  (xs.take n).map NextAnswer.ofItem ++ List.replicate (n - xs.length) none

@[simp] theorem answersOf_zero (xs : List (κ × δ)) : answersOf xs 0 = [] := by
  simp [answersOf]

@[simp] theorem answersOf_nil_succ (n : ℕ) : answersOf ([] : List (κ × δ)) (n + 1) = none :: answersOf [] n := by
  simp [answersOf, List.replicate_succ]

@[simp] theorem answersOf_cons_succ (x : κ × δ) (xs : List (κ × δ)) (n : ℕ) :
    answersOf (x :: xs) (n + 1) = NextAnswer.ofItem x :: answersOf xs n := by
  simp [answersOf]

theorem items_answersOf (xs : List (κ × δ)) (n : ℕ) : (answersOf xs n).filterMap NextAnswer.item? = xs.take n := by
  induction n generalizing xs with
  | zero => simp
  | succ n ih =>
    cases xs with
    | nil => simpa [NextAnswer.item?] using ih []
    | cons x xs => simpa [NextAnswer.item?, NextAnswer.ofItem] using ih xs

variable [LinearOrder κ] [LinearOrder δ] (D : Database κ δ) (db : MainDb κ δ)

/-- `n` calls of `next`, and the iterator after them. -/
def Iter.calls : ℕ → Iter κ δ → Option (List (NextAnswer κ δ) × Iter κ δ)
  | 0, iter => some ([], iter)
  | n + 1, iter =>
    match iter.next D db with
    | none => none
    | some (answer, iter) => (Iter.calls n iter).map fun (answers, iter) => (answer :: answers, iter)

/-- The operation comes to the first of the items, or to the end, and to a cursor that is
in a state `F` for the others. -/
def Comes (F : MainCursor κ δ → List (κ × δ) → Prop) (op : CursorOp)
    (c : MainCursor κ δ) : List (κ × δ) → Prop
  | [] =>
    ∃ rc c', (rc = mdbNotfound ∨ rc = einval) ∧ mdbCursorGet D db op none none c = some (.fail rc c') ∧ F c' []
  | x :: xs => ∃ c', mdbCursorGet D db op none none c = some ⟨0, some x.1, some (.value x.2), c'⟩ ∧ F c' xs

section Closed

variable {D : Database κ δ} {db : MainDb κ δ} {F : MainCursor κ δ → List (κ × δ) → Prop}
    {op nextOp : CursorOp}
  {c : MainCursor κ δ} {xs : List (κ × δ)}

theorem Comes.calls (closed : ∀ c xs, F c xs → Comes D db F nextOp c xs) (comes : Comes D db F op c xs) (n : ℕ) :
    ∃ c', Iter.calls D db (n + 1) (.ok c op nextOp) = some (answersOf xs (n + 1), .ok c' nextOp nextOp) ∧
      F c' (xs.drop (n + 1)) := by
  induction n generalizing op c xs with
  | zero =>
    cases xs with
    | nil =>
      obtain ⟨rc, c', ends, got, state⟩ := comes
      exact ⟨c', by simp [Iter.calls, next_none ends got], by simpa using state⟩
    | cons x xs =>
      obtain ⟨c', got, state⟩ := comes
      exact ⟨c', by simp [Iter.calls, next_item got, NextAnswer.ofItem], by simpa using state⟩
  | succ n ih =>
    cases xs with
    | nil =>
      obtain ⟨rc, c', ends, got, state⟩ := comes
      obtain ⟨c'', called, state'⟩ := ih (closed c' [] state)
      refine ⟨c'', ?_, by simpa using state'⟩
      rw [Iter.calls, next_none ends got]
      simp [called]
    | cons x xs =>
      obtain ⟨c', got, state⟩ := comes
      obtain ⟨c'', called, state'⟩ := ih (closed c' xs state)
      refine ⟨c'', ?_, by simpa using state'⟩
      rw [Iter.calls, next_item got]
      simp [called, NextAnswer.ofItem]

theorem Comes.yields (closed : ∀ c xs, F c xs → Comes D db F nextOp c xs) (comes : Comes D db F op c xs) :
    (Iter.ok c op nextOp).Yields D db xs := by
  induction xs generalizing op c with
  | nil =>
    obtain ⟨rc, c', ends, got, _⟩ := comes
    exact .done (next_none ends got)
  | cons x xs ih =>
    obtain ⟨c', got, state⟩ := comes
    exact .item (next_item got) (ih (closed c' xs state))

theorem Comes.congr {op' : CursorOp} {c' : MainCursor κ δ} (comes : Comes D db F op c xs)
    (same : mdbCursorGet D db op' none none c' = mdbCursorGet D db op none none c) : Comes D db F op' c' xs := by
  cases xs with
  | nil =>
    obtain ⟨rc, c'', ends, got, state⟩ := comes
    exact ⟨rc, c'', ends, same.trans got, state⟩
  | cons x xs =>
    obtain ⟨c'', got, state⟩ := comes
    exact ⟨c'', same.trans got, state⟩

theorem Comes.imp {G : MainCursor κ δ → List (κ × δ) → Prop} (comes : Comes D db F op c xs)
    (implies : ∀ c xs, F c xs → G c xs) : Comes D db G op c xs := by
  cases xs with
  | nil =>
    obtain ⟨rc, c', ends, got, state⟩ := comes
    exact ⟨rc, c', ends, got, implies _ _ state⟩
  | cons x xs =>
    obtain ⟨c', got, state⟩ := comes
    exact ⟨c', got, implies _ _ state⟩

end Closed

/-- The cursors between calls of `MDB_NEXT`, and what these come to. -/
inductive Following : MainCursor κ δ → List (κ × δ) → Prop
  | on {root c before item after} : db.root = some root → D.mainMeaning.Standing root c before item after →
      c.del = false → Following c after
  /-- the end flag is believed -/
  | ended {c} : c.initialized = true → atEof c = true → c.del = false → Following c []
  | fresh {c} : c.initialized = false → c.del = false → Following c (items D db)

section Next

variable {D : Database κ δ} {db : MainDb κ δ} {root : Page κ (Node κ δ)} {c : MainCursor κ δ}
  {before after : List (κ × δ)} {item : κ × δ} {op : CursorOp}

theorem comes_of_reaches {answer : Option (Answer κ δ (MainCursor κ δ))} {del : Bool} (rooted : db.root = some root)
    (called : getOp D db op none none c = answer.map Answer.got)
    (reached : D.mainMeaning.Reaches root del answer before item after) :
    Comes D db (Following D db) op c (item :: after) := by
  obtain ⟨c', got, standing, steady⟩ := mdbCursorGet_reaches op none none called reached
  exact ⟨c', got, .on rooted standing steady⟩

theorem comes_first (valid : D.Valid db) (ready : Ready db c) : Comes D db (Following D db) .first c (items D db) := by
  cases rooted : db.root with
  | none =>
    have empty : items D db = [] := by rw [items, rooted]; rfl
    have fresh := ready.fresh rooted
    rw [empty]
    refine ⟨mdbNotfound, { D.mainLevel.clearXcursor c with del := false }, .inl rfl, ?_, ?_⟩
    · rw [mdbCursorGet, getOp, Level.Meaning.first_empty rooted fresh]
      rfl
    · have unread : Following D db { D.mainLevel.clearXcursor c with del := false } (items D db) :=
        .fresh (by simpa using fresh) rfl
      rwa [empty] at unread
  | some root =>
    obtain ⟨item, after, reached⟩ := (Database.mainLawful valid.fixed).first_standing
      (valid.tree root rooted) rooted (ready.path rooted)
    rw [show items D db = item :: after from items_of_reaches rooted reached]
    exact comes_of_reaches rooted rfl reached

theorem Following.comes (valid : D.Valid db) (c : MainCursor κ δ) (xs : List (κ × δ))
    (following : Following D db c xs) :
    Comes D db (Following D db) .next c xs := by
  cases following with
  | @on root _ before item after rooted standing steady =>
    have step := (Database.mainLawful valid.fixed).next_standing db (valid.tree root rooted) standing steady
    cases xs with
    | nil =>
      obtain ⟨c', got, standing', steady'⟩ := mdbCursorGet_stays .next none none rfl step
      exact ⟨mdbNotfound, c', .inl rfl, got, .on rooted standing' steady'⟩
    | cons x xs => exact comes_of_reaches rooted rfl step
  | ended positioned ended steady =>
    refine ⟨mdbNotfound, { c with del := false }, .inl rfl, ?_, .ended positioned ended rfl⟩
    simp [mdbCursorGet, getOp, mdbCursorNext, positioned, ended, steady, Answer.got, Answer.fail, Answer.mapCursor]
  | fresh fresh steady =>
    have same : mdbCursorGet D db .next none none c = mdbCursorGet D db .first none none c := by
      simp [mdbCursorGet, getOp, Level.Meaning.next_unpositioned fresh steady]
    exact (comes_first valid (c := c) (by simp [Ready, fresh])).congr same

theorem Following.yields (valid : D.Valid db) {xs : List (κ × δ)} (following : Following D db c xs) :
    (intoIter c).Yields D db xs :=
  Comes.yields (Following.comes valid) (Following.comes valid c xs following)

theorem setRange_missedAll (valid : D.Valid db) (rooted : db.root = some root) (ready : Ready db c) {key : κ}
    (sized : D.keySize key ≠ 0) (nothing : nodesFrom D.mainLevel key root.nodes = []) :
    ∃ c', get D db (some key) none .setRange c = some (.error .notFound, c') ∧ c'.initialized = true ∧
      c'.del = false ∧
      Path root 0 c'.stack ∧ MissedAll c c' := by
  have tree := valid.tree root rooted
  obtain ⟨n, uniform⟩ := tree.uniform
  have ready' : (D.mainLevel.clearXcursor c).initialized = true → Path root 0 (D.mainLevel.clearXcursor c).stack := by
    simpa using ready.path rooted
  have sought := seek_sought (c := D.mainLevel.clearXcursor c) false key .setRange tree.sorted tree.separated uniform
    rooted (fun _ => rfl) ready'
  generalize searched : seek D.mainLevel db .setRange false key (D.mainLevel.clearXcursor c) = answer at sought
  cases sought with
  | found from_eq _ _ _ _ =>
    rw [nothing] at from_eq
    cases from_eq
  | @missing c'' _ _ _ _ =>
    obtain ⟨c', same, missed, missedAll⟩ :=
      seek_missed tree.sorted tree.separated uniform rooted (fun _ => rfl) ready' searched
    cases same
    have ⟨past, nothing, flag⟩ := missedAll rfl
    obtain ⟨_, _, gap⟩ := missed.gap
    refine ⟨{ c'' with del := false }, ?_, missed.initialized, rfl, gap.path, past, nothing, ?_⟩
    · simp [get, mdbCursorGet, getOp, getSet, mdbCursorSet, show D.mainLevel.keySize key ≠ 0 from sized, searched,
        Answer.got, Answer.fail, Answer.mapCursor, Error.fromErrCode, mdbNotfound]
    · have flag' : atEof c'' = false ↔ c.initialized = true ∧ c.onLastPage = true ∧ c.eof = false := by
        simpa [Cursor.onLastPage] using flag
      exact flag'

/-- `MDB_GET_CURRENT` where the end flag is believed and no node is under the cursor. -/
theorem comes_current_ended (path : Path root 0 c.stack) (positioned : c.initialized = true)
    (past : Level.nodeptr c = none) (ended : atEof c = true) : Comes D db (Following D db) .getCurrent c [] := by
  obtain ⟨nodes, i, outer, stacked⟩ := path.leaf
  have nothing : nodes[i]? = none := by simpa [Level.nodeptr, stacked] using past
  have still : atEof { c.setIndex nodes.length with del := false } = true := by
    simp only [atEof, stacked, Page.numkeys_leaf, Bool.and_eq_true] at ended
    simp only [atEof, Cursor.setIndex, stacked, Page.numkeys_leaf, ended.1.1, ended.1.2]
    simp
  refine ⟨mdbNotfound, { c.setIndex nodes.length with del := false }, .inl rfl, ?_, .ended ?_ still rfl⟩
  · simp [mdbCursorGet, getOp, mdbCursorGetCurrent, positioned, stacked, nothing, Answer.got, Answer.fail,
      Answer.mapCursor]
  · simp [Cursor.setIndex, stacked, positioned]

theorem comes_current_fresh (rooted : db.root = none) (fresh : c.initialized = false) :
    Comes D db (Following D db) .getCurrent c [] := by
  have empty : items D db = [] := by rw [items, rooted]; rfl
  have unread : Following D db { c with del := false } (items D db) := .fresh fresh rfl
  rw [empty] at unread
  refine ⟨einval, { c with del := false }, .inr rfl, ?_, unread⟩
  simp [mdbCursorGet, getOp, mdbCursorGetCurrent, fresh, Answer.got, Answer.fail, Answer.mapCursor]

/-- `into_iter_from` on the first item from the key on, or behind the last one. -/
theorem intoIterFrom_cases (valid : D.Valid db) (ready : Ready db c) {key : κ} (sized : D.keySize key ≠ 0) :
    ∃ c', intoIterFrom D db key c = some (.ok c' .getCurrent .next) ∧ c'.del = false ∧
      ((∃ item after, (items D db).filter (fun item => decide (key ≤ item.1)) = item :: after ∧
          Comes D db (Following D db) .getCurrent c' (item :: after) ∧ Following D db c' after) ∨
        (items D db).filter (fun item => decide (key ≤ item.1)) = [] ∧
          ((db.root = none ∧ c'.initialized = false) ∨
            ∃ root, db.root = some root ∧ Path root 0 c'.stack ∧ c'.initialized = true ∧ MissedAll c c')) := by
  rcases setRange_cases valid ready sized with
    ⟨answer, c', root, x, rest, v, post, got, rooted, from_eq, located, steady⟩ |
      ⟨c', got, ready', past, absent⟩
  · have standing := Level.Meaning.Standing.on located
    refine ⟨c', by rw [intoIterFrom, got], steady, .inl ⟨(x.key, v), (post.map fun w => (x.key, w)) ++
      D.mainMeaning.items rest, ?_, ?_, .on rooted standing steady⟩⟩
    · rw [items_from valid rooted, from_eq, Level.Meaning.items_cons, located.onto.itemsOf]
      rfl
    · have reached := (Database.mainLawful valid.fixed).getCurrent_standing (valid.tree root rooted) standing
      exact comes_of_reaches rooted rfl reached
  · have nothing : (items D db).filter (fun item => decide (key ≤ item.1)) = [] := by
      cases rooted : db.root with
      | none => simp [items, rooted]
      | some root => rw [items_from valid rooted, absent root rooted, Level.Meaning.items_nil]
    cases rooted : db.root with
    | none =>
      have fresh := ready.fresh rooted
      have same : get D db (some key) none .setRange c =
          some (.error .notFound, { D.mainLevel.clearXcursor c with del := false }) := by
        have answer : mdbCursorSet D.mainLevel db .setRange false key none c =
            some (.fail mdbNotfound (D.mainLevel.clearXcursor c)) :=
          Level.Meaning.set_empty rooted fresh (show D.mainLevel.keySize key ≠ 0 from sized)
        simp [get, mdbCursorGet, getOp, getSet, answer, Answer.got, Answer.fail, Answer.mapCursor, Error.fromErrCode,
          mdbNotfound]
      refine ⟨_, by rw [intoIterFrom, same], rfl, .inr ⟨nothing, .inl ⟨rfl, ?_⟩⟩⟩
      simpa using fresh
    | some root =>
      obtain ⟨c', got, positioned, steady, path, missedAll⟩ :=
        setRange_missedAll valid rooted ready sized (absent root rooted)
      exact ⟨c', by rw [intoIterFrom, got], steady, .inr ⟨nothing,
        .inr ⟨root, rfl, path, positioned, missedAll⟩⟩⟩

end Next

section Splitting

variable (D : Database κ δ) (db : MainDb κ δ)

/-- The items that an iterator gives. One that reports an error at each call gives none. -/
def Iter.Gives (iter : Iter κ δ) (xs : List (κ × δ)) : Prop :=
  match iter with
  | .err _ => xs = []
  | .ok .. => iter.Yields D db xs

/-- The items of `into_cursor().into_iter()`. Without a cursor there are none. -/
def Iter.GivesOn (iter : Iter κ δ) (xs : List (κ × δ)) : Prop :=
  match iter.intoCursor with
  | .error _ => xs = []
  | .ok c => (intoIter c).Yields D db xs

/-- The items of `n` calls and then those of the cursor are the items of the iterator. -/
def Iter.Splits (n : ℕ) (iter : Iter κ δ) : Prop :=
  ∃ answers iter' rest, iter.calls D db n = some (answers, iter') ∧ iter'.GivesOn D db rest ∧
    iter.Gives D db (answers.filterMap NextAnswer.item? ++ rest)

end Splitting

/-- The iterators that go forward. -/
inductive Onward (κ : Type) where
  | next
  | start
  | startAt (key : κ)
  deriving DecidableEq, Repr

/-- `Cursor::into_iter`, `Cursor::into_iter_start` and `Cursor::into_iter_from` -/
def Onward.iter (D : Database κ δ) (db : MainDb κ δ) (c : MainCursor κ δ) : Onward κ → Option (Iter κ δ)
  | .next => some (intoIter c)
  | .start => some (intoIterStart c)
  | .startAt key => intoIterFrom D db key c

section Split

variable {D : Database κ δ} {db : MainDb κ δ} {c : MainCursor κ δ} {op : CursorOp} {xs : List (κ × δ)}

/-- After one call at least the cursor is where the iteration goes on. -/
theorem splits_succ (valid : D.Valid db) (comes : Comes D db (Following D db) op c xs) (n : ℕ) :
    (Iter.ok c op .next).Splits D db (n + 1) := by
  obtain ⟨c', called, following⟩ := comes.calls (Following.comes valid) n
  refine ⟨_, _, xs.drop (n + 1), called, following.yields valid, ?_⟩
  rw [items_answersOf, List.take_append_drop]
  exact comes.yields (Following.comes valid)

theorem splits_zero {ys : List (κ × δ)} (yields : (Iter.ok c op .next).Yields D db xs)
    (goesOn : (intoIter c).Yields D db ys) : (Iter.ok c op .next).Splits D db 0 ↔ ys = xs := by
  constructor
  · rintro ⟨answers, iter', rest, called, goesOn', yields'⟩
    cases called
    exact (goesOn.unique goesOn').trans (yields'.unique yields)
  · rintro rfl
    exact ⟨[], _, ys, rfl, goesOn, yields⟩

theorem splits_err {error : Error} (n : ℕ) : (Iter.err error).Splits D db n := by
  obtain ⟨answers, called, nothing⟩ : ∃ answers, Iter.calls D db n (.err error) = some (answers, .err error) ∧
      answers.filterMap NextAnswer.item? = [] := by
    induction n with
    | zero => exact ⟨[], rfl, rfl⟩
    | succ n ih =>
      obtain ⟨answers, called, nothing⟩ := ih
      refine ⟨some (.error error) :: answers, ?_, nothing⟩
      simp [Iter.calls, Iter.next, called]
  refine ⟨answers, _, [], called, rfl, ?_⟩
  rw [nothing]
  rfl

theorem splits_all (valid : D.Valid db)
    (first : Comes D db (Following D db) op MainCursor.opened (items D db)) (n : ℕ) :
    (Iter.ok MainCursor.opened op .next).Splits D db n := by
  cases n with
  | zero =>
    have fresh : Following D db MainCursor.opened (items D db) := .fresh rfl rfl
    exact (splits_zero (first.yields (Following.comes valid)) (fresh.yields valid)).2 rfl
  | succ n => exact splits_succ valid first n

end Split

/-- Iterators of a new cursor can be split after any number of calls, except that before the
first call of `into_iter_from` the cursor is on an item already, which is then left out. -/
theorem splits_iff (D : Database κ δ) (db : MainDb κ δ) (onward : Onward κ) (n : ℕ) (valid : D.Valid db) :
    (∃ iter, onward.iter D db MainCursor.opened = some iter ∧ iter.Splits D db n) ↔
      ∀ key, onward = .startAt key → D.keySize key ≠ 0 → (∃ item ∈ items D db, key ≤ item.1) →
        n ≠ 0 := by
  have ready : Ready db (MainCursor.opened : MainCursor κ δ) := by
    intro positioned
    cases positioned
  cases onward with
  | next =>
    have splits := splits_all valid (Following.comes valid _ _ (.fresh rfl rfl)) n
    exact iff_of_true ⟨_, rfl, splits⟩ (by simp)
  | start =>
    have splits := splits_all valid (comes_first valid ready) n
    exact iff_of_true ⟨_, rfl, splits⟩ (by simp)
  | startAt key =>
    by_cases sized : D.keySize key = 0
    · refine iff_of_true ⟨.err .badValSize, ?_, splits_err n⟩ ?_
      · have refused : get D db (some key) none .setRange MainCursor.opened =
            some (.error .badValSize, MainCursor.opened) := by
          simp [get, mdbCursorGet, getOp, getSet, mdbCursorSet, show D.mainLevel.keySize key = 0 from sized, Answer.got,
            Answer.fail, Answer.mapCursor, Error.fromErrCode, mdbBadValsize, MainCursor.opened]
        rw [Onward.iter, intoIterFrom, refused]
      · rintro _ ⟨⟩ sized'
        exact absurd sized sized'
    · obtain ⟨c', made, steady, ⟨item, after, from_eq, current, following⟩ | ⟨nothing, behind⟩⟩ :=
        intoIterFrom_cases valid ready sized
      · have there : ∃ item ∈ items D db, key ≤ item.1 := by
          have here : item ∈ (items D db).filter fun item => decide (key ≤ item.1) := by simp [from_eq]
          rw [List.mem_filter] at here
          exact ⟨item, here.1, of_decide_eq_true here.2⟩
        have splits : (Iter.ok c' .getCurrent .next).Splits D db n ↔ n ≠ 0 := by
          cases n with
          | zero =>
            rw [splits_zero (current.yields (Following.comes valid)) (following.yields valid)]
            simp
          | succ n => exact iff_of_true (splits_succ valid current n) (Nat.succ_ne_zero n)
        constructor
        · rintro ⟨iter, made', splits'⟩ _ ⟨⟩ _ _
          cases made.symm.trans made'
          exact splits.1 splits'
        · intro later
          exact ⟨_, made, splits.2 (later key rfl sized there)⟩
      · refine iff_of_true ⟨_, made, ?_⟩ ?_
        · obtain ⟨current, following⟩ : Comes D db (Following D db) .getCurrent c' [] ∧
            Following D db c' [] := by
            rcases behind with ⟨rooted, fresh⟩ | ⟨root, rooted, path, positioned, past, _, flag⟩
            · have unread : Following D db c' (items D db) := .fresh fresh steady
              rw [show items D db = [] by rw [items, rooted]; rfl] at unread
              exact ⟨comes_current_fresh rooted fresh, unread⟩
            · have ended : atEof c' = true := by
                simpa [MainCursor.opened] using flag
              exact ⟨comes_current_ended path positioned past ended, .ended positioned ended steady⟩
          cases n with
          | zero => exact (splits_zero (current.yields (Following.comes valid)) (following.yields valid)).2 rfl
          | succ n => exact splits_succ valid current n
        · rintro _ ⟨⟩ _ ⟨item, here, least⟩
          have kept : item ∈ (items D db).filter fun item => decide (key ≤ item.1) := by
            simp [here, least]
          rw [nothing] at kept
          cases kept

theorem splits_iff_one :
    ∃ iter, (Onward.startAt 2).iter sorted threeItems MainCursor.opened = some iter ∧
      iter.Splits sorted threeItems 1 :=
  (splits_iff sorted threeItems (.startAt 2) 1 threeItems_valid).2 fun _ _ _ _ => Nat.one_ne_zero

/-- Before the first call the first of the items from key 2 on is lost. -/
theorem split_loses_first :
    (∃ iter c, intoIterFrom sorted threeItems 2 MainCursor.opened = some iter ∧ iter.intoCursor = .ok c ∧
      iter.Yields sorted threeItems [(2, 3), (2, 4)] ∧ (intoIter c).Yields sorted threeItems [(2, 4)]) ∧
    ¬ ∃ iter, (Onward.startAt 2).iter sorted threeItems MainCursor.opened = some iter ∧
      iter.Splits sorted threeItems 0 := by
  obtain ⟨iter, c, made, reclaimed, all, rest⟩ :
      ∃ iter c, intoIterFrom sorted threeItems 2 MainCursor.opened = some iter ∧ iter.intoCursor = .ok c ∧
        iter.Yields sorted threeItems [(2, 3), (2, 4)] ∧ (intoIter c).Yields sorted threeItems [(2, 4)] :=
    ⟨_, _, rfl, rfl, .item rfl (.item rfl (.done rfl)), .item rfl (.done rfl)⟩
  refine ⟨⟨iter, c, made, reclaimed, all, rest⟩, ?_⟩
  rintro ⟨iter', made', answers, iter'', rest', called, goesOn, gives⟩
  cases made.symm.trans made'
  cases called
  cases iter with
  | err error => cases reclaimed
  | ok c' op nextOp =>
    cases reclaimed
    cases rest.unique goesOn
    cases all.unique gives

end SamLmdb
