import SamLmdb.Cursor.Pending

/-!
The end of an iteration: no more items than the database has, and none after the first `None`,
from whatever state the cursor was in before.
-/

namespace SamLmdb

open PageTree

variable {κ δ : Type}

section Answers

variable (xs : List (κ × δ))

theorem count_answersOf (n : ℕ) : (answersOf xs n).countP Option.isSome = min n xs.length := by
  induction n generalizing xs with
  | zero => simp
  | succ n ih =>
    cases xs with
    | nil => simpa using ih []
    | cons x xs =>
      rw [answersOf_cons_succ, List.countP_cons_of_pos rfl, ih xs, List.length_cons, Nat.succ_min_succ]

theorem getElem?_answersOf {n i : ℕ} (inside : i < n) :
    (answersOf xs n)[i]? = some (xs[i]?.bind NextAnswer.ofItem) := by
  induction n generalizing xs i with
  | zero => cases inside
  | succ n ih =>
    cases xs with
    | nil =>
      cases i with
      | zero => simp
      | succ i => simpa using ih [] (Nat.lt_of_succ_lt_succ inside)
    | cons x xs =>
      cases i with
      | zero => simp
      | succ i => simpa using ih xs (Nat.lt_of_succ_lt_succ inside)

end Answers

variable [LinearOrder κ] [LinearOrder δ] (D : Database κ δ) (db : MainDb κ δ)

/-- `next` returns `Some` no more than `n` times, and `None` after the first `None`. -/
def Iter.Ends (n : ℕ) (iter : Iter κ δ) : Prop :=
  ∀ m, ∃ answers iter', iter.calls D db m = some (answers, iter') ∧ answers.countP Option.isSome ≤ n ∧
    ∀ i j, i ≤ j → j < m → answers[i]? = some none → answers[j]? = some none

inductive IntoIter (κ : Type) where
  | next
  | start
  | startAt (key : κ)
  | rev
  | revAt (key : κ)
  | dupOf (key : κ)
  deriving DecidableEq, Repr

def IntoIter.iter (c : MainCursor κ δ) : IntoIter κ → Option (Iter κ δ)
  | .next => some (intoIter c)
  | .start => some (intoIterStart c)
  | .startAt key => intoIterFrom D db key c
  | .rev => some (intoIterRev c)
  | .revAt key => intoIterFromRev D db key c
  | .dupOf key => intoIterDupOf D db key c

section Comes

variable {D db} {F : MainCursor κ δ → List (κ × δ) → Prop} {op nextOp : CursorOp} {c : MainCursor κ δ}
    {xs : List (κ × δ)}

theorem Comes.ends_iff (closed : ∀ c xs, F c xs → Comes D db F nextOp c xs) (comes : Comes D db F op c xs)
    (n : ℕ) :
    (Iter.ok c op nextOp).Ends D db n ↔ xs.length ≤ n := by
  have called (m : ℕ) : ∃ iter', Iter.calls D db m (.ok c op nextOp) = some (answersOf xs m, iter') := by
    cases m with
    | zero => exact ⟨.ok c op nextOp, by simp [Iter.calls]⟩
    | succ m =>
      obtain ⟨c', called, _⟩ := comes.calls closed m
      exact ⟨_, called⟩
  constructor
  · intro ends
    obtain ⟨answers, iter', called', few, _⟩ := ends xs.length
    obtain ⟨_, all⟩ := called xs.length
    cases all.symm.trans called'
    simpa [count_answersOf] using few
  · intro few m
    obtain ⟨iter', all⟩ := called m
    refine ⟨_, iter', all, ?_, ?_⟩
    · rw [count_answersOf]
      exact (Nat.min_le_right m xs.length).trans few
    · intro i j upTo inside ended
      rw [getElem?_answersOf xs (Nat.lt_of_le_of_lt upTo inside)] at ended
      rw [getElem?_answersOf xs inside]
      have past : xs.length ≤ i := by
        by_contra before
        simp [List.getElem?_eq_getElem (Nat.lt_of_not_le before), NextAnswer.ofItem] at ended
      rw [List.getElem?_eq_none (past.trans upTo)]
      rfl

end Comes

section Next

variable {D db} {c : MainCursor κ δ} {root : Page κ (Node κ δ)}

omit [LinearOrder κ] in
theorem Steppable.items_le (steppable : Steppable root c) :
    (D.mainMeaning.items c.onward).length ≤ (D.mainMeaning.items root.nodes).length := by
  obtain ⟨front, nodes_eq⟩ := steppable.exists_front
  rw [nodes_eq, Level.Meaning.items_append, List.length_append]
  exact Nat.le_add_left _ _

/-- Only an xcursor on other values than those of the node can make the items too many. -/
theorem pendingItems_le_iff (valid : D.Valid db) (prior : Prior D db c) :
    (pendingItems D db c).length ≤ (items D db).length ↔
      (D.dupSort = true → c.initialized = true → atEof c = false → ∀ x, Level.nodeptr c = some x →
        x.data.dupdata = true →
        c.xcursor.left.length + (D.mainMeaning.items (ahead c.stack)).length ≤ (items D db).length) := by
  cases positioned : c.initialized with
  | false => simp [pendingItems, positioned]
  | true =>
  cases ended : atEof c with
  | true => simp [pendingItems, positioned, ended]
  | false =>
  obtain ⟨root, rooted, steppable⟩ := prior.onPage positioned
  have items_eq : items D db = D.mainMeaning.items root.nodes := by rw [items, rooted]; rfl
  have few := steppable.items_le (D := D)
  rw [pendingItems, positioned, ended, items_eq]
  simp only [if_true, Bool.false_eq_true, if_false, true_implies]
  cases here : Level.nodeptr c with
  | none => simpa using few
  | some x =>
  obtain ⟨front, spot⟩ := exists_spot steppable.path here
  cases dup : x.data.dupdata with
  | false =>
    refine iff_of_true (by simpa [dup] using few) ?_
    rintro _ _ ⟨⟩ dup'
    exact absurd (dup.symm.trans dup') (by decide)
  | true =>
  have sorts : D.dupSort = true := ((valid.tree root rooted).nodes x (by rw [spot.nodes_eq]; simp) dup).1
  have spelled (P : Prop) : (D.dupSort = true → ∀ y, some x = some y → y.data.dupdata = true → P) ↔ P :=
    ⟨fun all => all sorts x rfl dup, fun holds _ _ _ _ => holds⟩
  rw [spelled]
  cases left : c.xcursor.left with
  | nil =>
    refine iff_of_true (by simpa [dup] using few) ?_
    rw [spot.nodes_eq, Level.Meaning.items_append, Level.Meaning.items_cons, List.length_append, List.length_append,
      List.length_nil]
    omega
  | cons v post => simp [dup, Nat.add_right_comm]

omit [LinearOrder κ] in
theorem left_le_own {x : Node κ δ} {t : Page δ δ} {mx : XCursor δ} (rooted : x.data.tree = some t)
    (same : mx.root = some t) (sound : mx.Sound D) (steady : mx.cursor.initialized = false → mx.cursor.del = false) :
    mx.left.length ≤ x.data.values.length := by
  rw [NodeData.values_of_tree rooted, XCursor.left]
  cases used : mx.cursor.initialized with
  | false => simp [same, steady used]
  | true =>
    obtain ⟨t', same', steppable⟩ := sound.onPage used
    cases same.symm.trans same'
    obtain ⟨front, nodes_eq⟩ := steppable.exists_front
    rw [if_pos rfl, Cursor.pending]
    split
    · exact Nat.zero_le _
    · rw [nodes_eq, List.length_append]
      exact Nat.le_add_left _ _

theorem next_faults (sorts : D.dupSort = true) (positioned : c.initialized = true) (ended : atEof c = false)
    (nothing : Level.nodeptr c = none) : mdbCursorGet D db .next none none c = none := by
  have nothing' : Level.nodeptr { c with eof := false } = none := nothing
  have consulted : D.mainLevel.consult D.mainLevel.next .item { c with eof := false } = none := by
    simp [Level.consult, show D.mainLevel.dupsort = true from sorts, nothing']
  rw [mdbCursorGet, getOp, mdbCursorNext, if_neg (by simp), if_neg (by simp [positioned]), if_neg (by simp [ended]),
    consulted]
  rfl

/-- The xcursor starts with what is in `mx_db`. -/
theorem next_faults_unwritten {x : Node κ δ} (sorts : D.dupSort = true) (positioned : c.initialized = true)
    (ended : atEof c = false) (here : Level.nodeptr c = some x) (dup : x.data.dupdata = true)
    (unwritten : c.xcursor.db = none) : mdbCursorGet D db .next none none c = none := by
  have here' : Level.nodeptr { c with eof := false } = some x := here
  have consulted : D.mainLevel.consult D.mainLevel.next .item { c with eof := false } = none := by
    simp [Level.consult, Database.mainLevel, Database.onXCursor, sorts, here', dup, unwritten]
  rw [mdbCursorGet, getOp, mdbCursorNext, if_neg (by simp), if_neg (by simp [positioned]), if_neg (by simp [ended]),
    consulted]
  rfl

theorem readable_of_ends {n : ℕ} (ends : (intoIter c).Ends D db n) : Readable D c := by
  intro sorts positioned ended
  obtain ⟨answers, iter', called, _⟩ := ends 1
  have answered : mdbCursorGet D db .next none none c ≠ none := by
    intro faults
    simp [Iter.calls, intoIter, Iter.next, faults] at called
  cases here : Level.nodeptr c with
  | none => exact absurd (next_faults sorts positioned ended here) answered
  | some x =>
    exact ⟨x, rfl, fun dup unwritten => answered (next_faults_unwritten sorts positioned ended here dup unwritten)⟩

theorem next_ends_iff (valid : D.Valid db) (prior : Prior D db c) :
    (intoIter c).Ends D db (items D db).length ↔
      Readable D c ∧ (pendingItems D db c).length ≤ (items D db).length := by
  have ends_iff (readable : Readable D c) :=
    Comes.ends_iff (Goes.comes valid) (Goes.comes valid c _ (.pending prior readable)) (items D db).length
  constructor
  · intro ends
    have readable := readable_of_ends ends
    exact ⟨readable, (ends_iff readable).1 ends⟩
  · rintro ⟨readable, few⟩
    exact (ends_iff readable).2 few

end Next

inductive Preceding : MainCursor κ δ → List (κ × δ) → Prop
  | on {root c before item after} : db.root = some root → D.mainMeaning.Standing root c before item after →
      c.del = false → Preceding c before.reverse
  | empty {c} : db.root = none → c.initialized = false → Preceding c []

inductive Among : MainCursor κ δ → List (κ × δ) → Prop
  | on {root c front x back pre v post} : db.root = some root →
      D.mainMeaning.Located root c front x back pre v post → c.del = false → Among c (post.map fun w => (x.key, w))

section Back

variable {D db} {c : MainCursor κ δ} {root : Page κ (Node κ δ)} {before after : List (κ × δ)} {item : κ × δ}
    {op : CursorOp}

theorem comes_back {answer : Option (Answer κ δ (MainCursor κ δ))} {del : Bool} (rooted : db.root = some root)
    (called : getOp D db op none none c = answer.map Answer.got)
    (reached : D.mainMeaning.Reaches root del answer before item after) :
    Comes D db (Preceding D db) op c (item :: before.reverse) := by
  obtain ⟨c', got, standing, steady⟩ := mdbCursorGet_reaches op none none called reached
  exact ⟨c', got, .on rooted standing steady⟩

theorem comes_empty {c' : MainCursor κ δ} (rooted : db.root = none) (fresh : c'.initialized = false)
    (called : getOp D db op none none c = some (.fail mdbNotfound c')) : Comes D db (Preceding D db) op c [] := by
  refine ⟨mdbNotfound, { c' with del := false }, .inl rfl, ?_, .empty rooted fresh⟩
  rw [mdbCursorGet, called]
  rfl

theorem comes_last (valid : D.Valid db) (ready : Ready db c) :
    Comes D db (Preceding D db) .last c (items D db).reverse := by
  cases rooted : db.root with
  | none =>
    have empty : items D db = [] := by rw [items, rooted]; rfl
    have fresh := ready.fresh rooted
    rw [empty]
    have called : getOp D db .last none none c = some (.fail mdbNotfound (D.mainLevel.clearXcursor c)) := by
      rw [getOp, Level.Meaning.last_empty rooted fresh]
      rfl
    exact comes_empty rooted (by simpa using fresh) called
  | some root =>
    obtain ⟨before, item, reached⟩ := (Database.mainLawful valid.fixed).last_standing
      (valid.tree root rooted) rooted (ready.path rooted)
    rw [items_of_reaches rooted reached, List.reverse_append, List.reverse_cons]
    exact comes_back rooted rfl reached

theorem Preceding.comes (valid : D.Valid db) (c : MainCursor κ δ) (xs : List (κ × δ))
    (preceding : Preceding D db c xs) :
    Comes D db (Preceding D db) .prev c xs := by
  cases preceding with
  | @on root _ before item after rooted standing steady =>
    have step := (Database.mainLawful valid.fixed).prev_standing (valid.tree root rooted) standing steady
    rw [← Level.Meaning.mdbCursorPrev_eq db standing.initialized] at step
    rcases step with ⟨rfl, stayed⟩ | ⟨before, item', rfl, reached⟩
    · obtain ⟨c', got, standing', steady'⟩ := mdbCursorGet_stays .prev none none rfl stayed
      exact ⟨mdbNotfound, c', .inl rfl, got, .on rooted standing' steady'⟩
    · rw [List.reverse_append, List.reverse_cons]
      exact comes_back rooted rfl reached
  | empty rooted fresh =>
    have called : getOp D db .prev none none c = some (.fail mdbNotfound (D.mainLevel.clearXcursor c)) := by
      rw [getOp, Level.Meaning.prev_empty rooted fresh]
      rfl
    exact comes_empty rooted (by simpa using fresh) called

theorem Among.comes (valid : D.Valid db) (sorts : D.dupSort = true) (c : MainCursor κ δ) (xs : List (κ × δ))
    (among : Among D db c xs) : Comes D db (Among D db) .nextDup c xs := by
  have lawful := Database.mainLawful (D := D) valid.fixed
  cases among with
  | @on root _ front x back pre v post rooted located steady =>
    have tree := valid.tree root rooted
    cases post with
    | nil =>
      obtain ⟨c', answer, steady', located'⟩ := lawful.nextDup_last tree db sorts located steady
      refine ⟨mdbNotfound, { c' with del := false }, .inl rfl, ?_, .on rooted (located'.setDel false) rfl⟩
      rw [mdbCursorGet, getOp, answer]
      rfl
    | cons w post =>
      obtain ⟨c', answer, steady', located'⟩ := lawful.next_within tree db (by decide : StepOp.dup ≠ .nodup)
        located steady
      refine ⟨{ c' with del := false }, ?_, .on rooted (located'.setDel false) rfl⟩
      simp only [mdbCursorGet, getOp, answer]
      rfl

/-- Without `DUP_SORT`, `MDB_NEXT_DUP` is `MDB_NEXT`. -/
theorem Following.comes_nextDup (valid : D.Valid db) (plain : D.dupSort = false) (c : MainCursor κ δ)
    (xs : List (κ × δ)) (following : Following D db c xs) :
    Comes D db (Following D db) .nextDup c xs := by
  have steady : c.del = false := by
    cases following with
    | on _ _ steady => exact steady
    | ended _ _ steady => exact steady
    | fresh _ steady => exact steady
  refine (Following.comes valid c xs following).congr ?_
  rw [mdbCursorGet, mdbCursorGet, getOp, getOp, Level.Meaning.nextDup_plain db plain steady]

end Back

/-- The iterator is made, and it ends, unless it reports an error at each call. -/
def IntoIter.Fused (c : MainCursor κ δ) (kind : IntoIter κ) : Prop :=
  ∃ iter, kind.iter D db c = some iter ∧ ((∃ error, iter = .err error) ∨ iter.Ends D db (items D db).length)

/-- With `DUP_SORT` the step looks at the node under the cursor, and takes the values of the xcursor
for its own. A search that fails may leave the cursor behind the last node without `C_EOF`, or on
another node than the one whose values are in `mx_db`. -/
def IntoIter.Guarded (c : MainCursor κ δ) : IntoIter κ → Prop
  | .next => D.dupSort = true → c.initialized = true → atEof c = false →
      ∃ x, Level.nodeptr c = some x ∧ (x.data.dupdata = true → c.xcursor.db ≠ none ∧
        c.xcursor.left.length + (D.mainMeaning.items (ahead c.stack)).length ≤ (items D db).length)
  | .startAt key =>
    ¬(D.dupSort = true ∧ D.keySize key ≠ 0 ∧ c.initialized = true ∧ c.onLastPage = true ∧ c.eof = false ∧
      ∀ item ∈ items D db, item.1 < key)
  | _ => True

section Kinds

variable {D db} {c : MainCursor κ δ} {root : Page κ (Node κ δ)} {key : κ} {kind : IntoIter κ}
    {op nextOp : CursorOp}
  {F : MainCursor κ δ → List (κ × δ) → Prop} {c' : MainCursor κ δ} {xs : List (κ × δ)}

theorem IntoIter.Fused.of_comes (made : kind.iter D db c = some (.ok c' op nextOp))
    (closed : ∀ c xs, F c xs → Comes D db F nextOp c xs) (comes : Comes D db F op c' xs)
    (few : xs.length ≤ (items D db).length) : kind.Fused D db c :=
  ⟨_, made, .inr ((comes.ends_iff closed _).2 few)⟩

theorem get_refused {setOp : SetOp} (sized : D.keySize key = 0)
    (called : getOp D db op (some key) none c = getSet D db setOp (some key) none c) :
    get D db (some key) none op c = some (.error .badValSize, { c with del := false }) := by
  simp [get, mdbCursorGet, called, getSet, mdbCursorSet, show D.mainLevel.keySize key = 0 from sized, Answer.got,
    Answer.fail, Answer.mapCursor, Error.fromErrCode, mdbBadValsize]

omit [LinearOrder κ] in
theorem Prior.ready (prior : Prior D db c) : Ready db c := by
  intro positioned
  obtain ⟨root, rooted, steppable⟩ := prior.onPage positioned
  exact ⟨root, rooted, steppable.path⟩

omit [LinearOrder κ] in
theorem length_of_standing {before after : List (κ × δ)} {item : κ × δ} (rooted : db.root = some root)
    (standing : D.mainMeaning.Standing root c before item after) :
    before.length + 1 + after.length = (items D db).length := by
  rw [items_of_standing rooted standing, List.length_append, List.length_cons]
  omega

theorem rev_fused (valid : D.Valid db) (ready : Ready db c) : IntoIter.rev.Fused D db c :=
  .of_comes rfl (Preceding.comes valid) (comes_last valid ready) (by simp)

theorem revAt_fused (valid : D.Valid db) (ready : Ready db c) : (IntoIter.revAt key).Fused D db c := by
  by_cases sized : D.keySize key = 0
  · refine ⟨.err .badValSize, ?_, .inl ⟨_, rfl⟩⟩
    rw [IntoIter.iter, intoIterFromRev, get_refused sized rfl]
  rcases set_cases valid ready sized with
    ⟨answer, c', root, x, rest, v, post, got, rooted, from_eq, same, located, _⟩ | ⟨c', got, ready', absent⟩
  · obtain ⟨_, c', pre, w, moved, located, _⟩ := lastDup_located valid rooted located
    have made : (IntoIter.revAt key).iter D db c = some (.ok c' .getCurrent .prev) := by
      rw [IntoIter.iter, intoIterFromRev, got]
      simp [moved]
    have standing := Level.Meaning.Standing.on located
    have reached := (Database.mainLawful valid.fixed).getCurrent_standing (valid.tree root rooted) standing
    refine .of_comes made (Preceding.comes valid) (comes_back rooted rfl reached) ?_
    have length := length_of_standing rooted standing
    rw [List.length_cons, List.length_reverse]
    omega
  · rcases setRange_cases valid ready' sized with
      ⟨answer, c', root, x, rest, v, post, got', rooted, from_eq, located, steady⟩ |
        ⟨c', got', ready', _, none_from⟩
    · have made : (IntoIter.revAt key).iter D db c = some (.ok c' .prev .prev) := by
        rw [IntoIter.iter, intoIterFromRev, got]
        simp [got']
      have standing := Level.Meaning.Standing.on located
      refine .of_comes made (Preceding.comes valid) (Preceding.comes valid c' _ (.on rooted standing steady)) ?_
      have length := length_of_standing rooted standing
      rw [List.length_reverse]
      omega
    · have made : (IntoIter.revAt key).iter D db c = some (.ok c' .last .prev) := by
        rw [IntoIter.iter, intoIterFromRev, got]
        simp [got']
      exact .of_comes made (Preceding.comes valid) (comes_last valid ready') (by simp)

theorem dupOf_fused (valid : D.Valid db) (ready : Ready db c) : (IntoIter.dupOf key).Fused D db c := by
  by_cases sized : D.keySize key = 0
  · refine ⟨.err .badValSize, ?_, .inl ⟨_, rfl⟩⟩
    rw [IntoIter.iter, intoIterDupOf, get_refused sized rfl]
  rcases set_cases valid ready sized with
    ⟨answer, c', root, x, rest, v, post, got, rooted, from_eq, same, located, steady⟩ |
      ⟨c', got, ready', absent⟩
  · have made : (IntoIter.dupOf key).iter D db c = some (.ok c' .getCurrent .nextDup) := by
      rw [IntoIter.iter, intoIterDupOf, got]
    have standing := Level.Meaning.Standing.on located
    have length := length_of_standing rooted standing
    have lawful := Database.mainLawful (D := D) valid.fixed
    cases sorts : D.dupSort with
    | true =>
      obtain ⟨c'', answer, steady', located'⟩ := lawful.getCurrent_located (valid.tree root rooted) located
      have comes : Comes D db (Among D db) .getCurrent c' ((x.key, v) :: post.map fun w => (x.key, w)) := by
        refine ⟨{ c'' with del := false }, ?_, .on rooted (located'.setDel false) rfl⟩
        simp only [mdbCursorGet, getOp, answer]
        rfl
      refine .of_comes made (Among.comes valid sorts) comes ?_
      simp only [List.length_append, List.length_map, List.length_nil, List.length_cons] at length ⊢
      omega
    | false =>
      have reached := lawful.getCurrent_standing (valid.tree root rooted) standing
      refine .of_comes made (Following.comes_nextDup valid sorts) (comes_of_reaches rooted rfl reached) ?_
      rw [List.length_cons]
      omega
  · -- `MDB_LAST`, behind which nothing is next
    obtain ⟨answer, c'', got', following⟩ : ∃ answer c'', get D db none none .last c' = some (answer, c'') ∧
        Following D db c'' [] := by
      cases rooted : db.root with
      | none =>
        have empty : items D db = [] := by rw [items, rooted]; rfl
        have fresh := ready'.fresh rooted
        refine ⟨_, { D.mainLevel.clearXcursor c' with del := false }, by
          rw [get, mdbCursorGet, getOp, Level.Meaning.last_empty rooted fresh]; rfl, ?_⟩
        rw [← empty]
        exact .fresh (by simpa using fresh) rfl
      | some root =>
        obtain ⟨before, item, reached⟩ := (Database.mainLawful valid.fixed).last_standing
          (valid.tree root rooted) rooted (ready'.path rooted)
        obtain ⟨c'', got', standing, steady⟩ := mdbCursorGet_reaches .last none none rfl reached
        exact ⟨_, c'', by rw [get, got']; rfl, .on rooted standing steady⟩
    have made : (IntoIter.dupOf key).iter D db c = some (.ok c'' .next .next) := by
      rw [IntoIter.iter, intoIterDupOf, got]
      simp [got']
    exact .of_comes made (Following.comes valid) (Following.comes valid c'' _ following) (Nat.zero_le _)

/-- `MDB_GET_CURRENT` behind the last node: there is no node, and `mc_ki` is set behind the last one. -/
theorem current_behind (path : Path root 0 c.stack) (positioned : c.initialized = true) (past : Level.nodeptr c = none)
    (nothing : ahead c.stack = []) : ∃ c', mdbCursorGet D db .getCurrent none none c = some (.fail mdbNotfound c') ∧
      Path root 0 c'.stack ∧ c'.initialized = true ∧ c'.del = false ∧ atEof c' = atEof c ∧
        Level.nodeptr c' = none ∧
      ahead c'.stack = [] := by
  obtain ⟨nodes, i, outer, stacked⟩ := path.leaf
  have outside : nodes[i]? = none := by simpa [Level.nodeptr, stacked] using past
  rw [stacked] at path nothing
  refine ⟨{ c.setIndex nodes.length with del := false }, ?_, ?_, ?_, rfl, ?_, ?_, ?_⟩
  · simp [mdbCursorGet, getOp, mdbCursorGetCurrent, positioned, stacked, outside, Answer.got, Answer.fail,
      Answer.mapCursor]
  · simp [Cursor.setIndex, stacked, path.at]
  · simp [Cursor.setIndex, stacked, positioned]
  · have behind : nodes.length ≤ i + 1 := Nat.le_succ_of_le (List.getElem?_eq_none_iff.1 outside)
    simp [Cursor.setIndex, stacked, atEof, behind]
  · simp [Cursor.setIndex, stacked, Level.nodeptr]
  · simp only [ahead, List.append_eq_nil_iff] at nothing
    simp [Cursor.setIndex, stacked, ahead, nothing.2]

theorem startAt_fused_iff (valid : D.Valid db) (prior : Prior D db c) :
    (IntoIter.startAt key).Fused D db c ↔ (IntoIter.startAt key).Guarded D db c := by
  have ready := prior.ready
  by_cases sized : D.keySize key = 0
  · refine iff_of_true ⟨.err .badValSize, ?_, .inl ⟨_, rfl⟩⟩ ?_
    · rw [IntoIter.iter, intoIterFrom, get_refused sized rfl]
    · rintro ⟨_, sized', _⟩
      exact sized' sized
  obtain ⟨c', made, steady, ⟨item, after, from_eq, current, _⟩ |
    ⟨nothing, ⟨rooted, fresh⟩ | ⟨root, rooted, path, positioned,
    past, noneAhead, flag⟩⟩⟩ := intoIterFrom_cases valid ready sized
  · refine iff_of_true (.of_comes made (Following.comes valid) current ?_) ?_
    · rw [← from_eq]
      exact List.length_filter_le ..
    · rintro ⟨_, _, _, _, _, less⟩
      have here : item ∈ (items D db).filter fun item => decide (key ≤ item.1) := by simp [from_eq]
      rw [List.mem_filter] at here
      exact absurd (less item here.1) (not_lt.2 (of_decide_eq_true here.2))
  · refine iff_of_true (.of_comes made (Following.comes valid) (comes_current_fresh rooted fresh) (Nat.zero_le _)) ?_
    rintro ⟨_, _, positioned, _⟩
    exact absurd (ready.fresh rooted) (by simp [positioned])
  · cases ended : atEof c' with
    | true =>
      refine iff_of_true (.of_comes made (Following.comes valid) (comes_current_ended path positioned past ended)
        (Nat.zero_le _)) ?_
      rintro ⟨_, _, positioned, lastPage, flagless, _⟩
      exact absurd (flag.2 ⟨positioned, lastPage, flagless⟩) (by simp [ended])
    | false =>
      obtain ⟨c'', got, path', positioned', steady', unended, past', noneAhead'⟩ :=
        current_behind path positioned past noneAhead
      cases sorts : D.dupSort with
      | false =>
        have empty : pendingItems D db c'' = [] := by
          simp [pendingItems, positioned', past', Cursor.onward, steady', noneAhead']
        have goes : Goes D db c'' [] := by
          rw [← empty]
          refine .pending ⟨fun _ => ⟨root, rooted, path', ?_⟩, ?_⟩ ?_
          · exact fun deleted => absurd (steady'.symm.trans deleted) (by decide)
          · exact fun sorts' => absurd (sorts.symm.trans sorts') (by decide)
          · exact fun sorts' => absurd (sorts.symm.trans sorts') (by decide)
        have comes : Comes D db (Goes D db) .getCurrent c' [] := ⟨mdbNotfound, c'', .inl rfl, got, goes⟩
        refine iff_of_true (.of_comes made (Goes.comes valid) comes (Nat.zero_le _)) ?_
        rintro ⟨sorts', _⟩
        exact absurd (sorts.symm.trans sorts') (by decide)
      | true =>
        refine iff_of_false ?_ fun guarded => guarded ⟨sorts, sized, (flag.1 ended).1, (flag.1 ended).2.1,
          (flag.1 ended).2.2, ?_⟩
        · rintro ⟨iter, made', settled⟩
          cases (show _ = some _ from made).symm.trans made'
          obtain ⟨_, ⟨⟩⟩ | ends := settled
          obtain ⟨answers, iter', called, _⟩ := ends 2
          have faults : mdbCursorGet D db .next none none c'' = none :=
            next_faults sorts positioned' (unended.trans ended) past'
          rw [Iter.calls, next_none (.inl rfl) got] at called
          simp [Iter.calls, Iter.next, faults] at called
        · intro item here
          by_contra reaches
          have kept : item ∈ (items D db).filter fun item => decide (key ≤ item.1) := by
            simp [here, not_lt.1 reaches]
          rw [nothing] at kept
          cases kept

theorem next_guarded_iff (valid : D.Valid db) (prior : Prior D db c) : IntoIter.next.Guarded D db c ↔
    Readable D c ∧ (pendingItems D db c).length ≤ (items D db).length := by
  rw [pendingItems_le_iff valid prior]
  constructor
  · intro guarded
    refine ⟨fun sorts positioned ended => ?_, fun sorts positioned ended x here dup => ?_⟩
    · obtain ⟨x, here, fits⟩ := guarded sorts positioned ended
      exact ⟨x, here, fun dup => (fits dup).1⟩
    · obtain ⟨y, here', fits⟩ := guarded sorts positioned ended
      cases here.symm.trans here'
      exact (fits dup).2
  · rintro ⟨readable, few⟩ sorts positioned ended
    obtain ⟨x, here, written⟩ := readable sorts positioned ended
    exact ⟨x, here, fun dup => ⟨written dup, few sorts positioned ended x here dup⟩⟩

theorem next_guarded_of_own {x : Node κ δ} (valid : D.Valid db) (prior : Prior D db c)
    (here : Level.nodeptr c = some x) (own : x.data.dupdata = true → c.xcursor.root = x.data.tree)
    (steady : c.xcursor.cursor.initialized = false → c.xcursor.cursor.del = false) :
    IntoIter.next.Guarded D db c := by
  intro sorts positioned ended
  obtain ⟨root, rooted, steppable⟩ := prior.onPage positioned
  obtain ⟨front, spot⟩ := exists_spot steppable.path here
  refine ⟨x, here, fun dup => ?_⟩
  obtain ⟨_, t, tree_eq, _⟩ := (valid.tree root rooted).nodes x (by rw [spot.nodes_eq]; simp) dup
  have same : c.xcursor.root = some t := (own dup).trans tree_eq
  refine ⟨fun unwritten => ?_, ?_⟩
  · rw [XCursor.root, unwritten] at same
    cases same
  · have few := left_le_own tree_eq same (prior.xcursor sorts) steady
    have values : (D.mainMeaning.itemsOf x).length = x.data.values.length := by
      rw [Level.Meaning.itemsOf, List.length_map]
      rfl
    rw [items, rooted, Option.elim_some, spot.nodes_eq, Level.Meaning.items_append, Level.Meaning.items_cons,
      List.length_append, List.length_append, values]
    omega

end Kinds

def oneKey : MainDb ℕ ℕ := ⟨some (.leaf [⟨2, .subPage [1, 2]⟩]), 2⟩

theorem oneKey_valid : sorted.Valid oneKey where
  fixed := nofun
  tree := by
    rintro _ ⟨⟩
    refine ⟨⟨0, .leaf (by simp)⟩, .leaf, by simp [Database.mainLevel], ?_⟩
    intro x here _
    obtain rfl := List.mem_singleton.1 here
    exact ⟨rfl, .leaf [1, 2], rfl, ⟨0, .leaf (by simp)⟩, .leaf, by simp [Database.subLevel], fun _ _ => trivial⟩

def fiveItems : MainDb ℕ ℕ := ⟨some (.leaf [⟨2, .subPage [1, 2]⟩,
    ⟨3, .subDb ⟨some (.leaf [5, 6, 7]), 3⟩⟩]), 5⟩

theorem fiveItems_valid : sorted.Valid fiveItems where
  fixed := nofun
  tree := by
    rintro _ ⟨⟩
    refine ⟨⟨0, .leaf (by simp)⟩, .leaf, by simp [Database.mainLevel], ?_⟩
    intro x here dup
    simp only [Page.nodes_leaf, List.mem_cons, List.not_mem_nil, or_false] at here
    rcases here with rfl | rfl
    · exact ⟨rfl, .leaf [1, 2], rfl, ⟨0, .leaf (by simp)⟩, .leaf, by simp [Database.subLevel],
        fun _ _ => trivial⟩
    · exact ⟨rfl, .leaf [5, 6, 7], rfl, ⟨0, .leaf (by simp)⟩, .leaf, by simp [Database.subLevel],
        fun _ _ => trivial⟩

end SamLmdb
