import SamLmdb.Cursor.Steps
import SamLmdb.Cursor.Split

/-!
What calls of `MDB_NEXT` come to, from any cursor on a page of the tree, whatever its flags are
and those of its xcursor.
-/

namespace SamLmdb

open PageTree

variable {κ δ ν ξ : Type}

structure Steppable (root : Page κ ν) (c : Cursor κ ν ξ) : Prop where
  path : Path root 0 c.stack
  deleted : c.del = true → Level.nodeptr c ≠ none ∨ atEof c = true

theorem exists_spot {root : Page κ ν} {c : Cursor κ ν ξ} {x : ν} (path : Path root 0 c.stack)
    (here : Level.nodeptr c = some x) : ∃ front, Spot root c.stack front x (ahead c.stack) := by
  obtain ⟨nodes, i, outer, stacked⟩ := path.leaf
  have at_i : nodes[i]? = some x := by simpa [Level.nodeptr, stacked] using here
  rw [stacked] at path ⊢
  exact ⟨_, Spot.on path at_i⟩

def Cursor.onward (c : Cursor κ ν ξ) : List ν :=
  if c.del then (Level.nodeptr c).toList ++ ahead c.stack else ahead c.stack

/-- The nodes that `MDB_NEXT` comes to. -/
def Cursor.pending (c : Cursor κ ν ξ) : List ν := if atEof c then [] else c.onward

namespace Level.Meaning

variable {L : Level κ δ ν ξ} {M : L.Meaning} [LinearOrder κ] (lawful : M.Lawful) {root : Page κ ν}
    {c : Cursor κ ν ξ}
include lawful

theorem Lawful.advance_onward (tree : M.Tree root) (path : Path root 0 c.stack) (positioned : c.initialized = true)
    (flagless : c.eof = false) (deleted : c.del = true → nodeptr c ≠ none) :
    (c.onward = [] ∧ advance L c = some (.fail mdbNotfound { c with eof := true }) ∧
      atEof { c with eof := true } = true) ∨
    ∃ front y back c' w post, c.onward = y :: back ∧ advance L c = some ⟨0, some (L.key y), L.shown w, c'⟩ ∧
      c'.del = false ∧ M.Located root c' front y back [] w post := by
  by_cases stays : c.del = true
  · obtain ⟨x, here⟩ := Option.ne_none_iff_exists'.1 (deleted stays)
    obtain ⟨front, spot⟩ := exists_spot path here
    obtain ⟨nodes, i, outer, stacked⟩ := path.leaf
    have wf : M.WellFormed x := tree.nodes x (by rw [spot.nodes_eq]; simp)
    obtain ⟨w, post, values⟩ := List.exists_cons_of_ne_nil (lawful.nonempty x wf)
    obtain ⟨ξ', answer, onto⟩ := lawful.fetch_first (c := { c with del := false }) wf values
    have fetched : advance L c = L.fetch L.first x { c with del := false } := by
      rw [← fetchTop_of_spot (c := { c with del := false }) spot]
      simp [advance, stacked, stays]
    refine .inr ⟨_, x, _, { c with del := false, xcursor := ξ' }, w, post, ?_, fetched.trans answer, rfl,
      positioned, spot,
      onto, ?_⟩
    · rw [Cursor.onward, if_pos stays, here]
      rfl
    · intro flagged
      exact absurd (flagless.symm.trans flagged) (by decide)
  · have steady : c.del = false := by simpa using stays
    have same : c.onward = ahead c.stack := by rw [Cursor.onward, if_neg stays]
    rw [same]
    rcases lawful.advance_cases tree path positioned steady flagless with
      ⟨nothing, ends, ended⟩ | ⟨y, back, c', w, post, ahead_eq, moves, steady', located⟩
    · exact .inl ⟨nothing, ends, ended⟩
    · exact .inr ⟨_, y, back, c', w, post, ahead_eq, moves, steady', located⟩

end Level.Meaning

/-- The nodes that follow are the last ones of the tree. -/
theorem Steppable.exists_front {root : Page κ ν} {c : Cursor κ ν ξ} (steppable : Steppable root c) :
    ∃ front, root.nodes = front ++ c.onward := by
  have path := steppable.path
  obtain ⟨nodes, i, outer, stacked⟩ := path.leaf
  rw [stacked] at path
  have rest : (nodes[i]?).toList ++ nodes.drop (i + 1) = nodes.drop i := by
    rcases Nat.lt_or_ge i nodes.length with inside | outside
    · rw [List.getElem?_eq_getElem inside, ← List.getElem_cons_drop inside]
      rfl
    · rw [List.getElem?_eq_none outside, List.drop_eq_nil_of_le outside, List.drop_eq_nil_of_le (by omega)]
      rfl
  rw [path.nodes_eq, Page.nodes_leaf, List.append_assoc, Cursor.onward, Level.nodeptr, stacked, ahead]
  split
  · refine ⟨leftOf outer ++ nodes.take i, ?_⟩
    simp only
    rw [← List.append_assoc (nodes[i]?).toList, rest, List.append_assoc, ← List.append_assoc (nodes.take i),
      List.take_append_drop]
  · refine ⟨leftOf outer ++ nodes.take (i + 1), ?_⟩
    rw [List.append_assoc, ← List.append_assoc (nodes.take (i + 1)), List.take_append_drop]

section Values

variable [LinearOrder δ] {D : Database κ δ} {t : Page δ δ} {s : Cursor δ δ Unit}

theorem next_pending (db : Db δ δ) (tree : D.subMeaning.Tree t) (positioned : s.initialized = true)
    (steppable : Steppable t s) :
    (s.pending = [] ∧ ∃ s', mdbCursorNext D.subLevel db .item s = some (.fail mdbNotfound s')) ∨
    ∃ w s', s.pending = w :: s'.pending ∧ mdbCursorNext D.subLevel db .item s = some ⟨0, some w, none, s'⟩ ∧
      s'.initialized = true ∧ Steppable t s' := by
  cases ended : atEof s with
  | true => exact .inl ⟨by simp [Cursor.pending, ended], s, by simp [mdbCursorNext, positioned, ended]⟩
  | false =>
    have called : mdbCursorNext D.subLevel db .item s = advance D.subLevel { s with eof := false } := by
      simp [mdbCursorNext, positioned, ended, Level.consult, Database.subLevel]
    have pending : s.pending = s.onward := by simp [Cursor.pending, ended]
    rw [called, pending]
    rcases D.subLawful.advance_onward (c := { s with eof := false }) tree steppable.path positioned rfl
      (fun deleted => (steppable.deleted deleted).resolve_right (by simp [ended])) with
      ⟨nothing, ends, _⟩ | ⟨front, w, back, s', u, post, onward, moves, steady, located⟩
    · exact .inl ⟨nothing, _, ends⟩
    · refine .inr ⟨w, s', ?_, moves, located.initialized, located.spot.path, ?_⟩
      · rw [show s.onward = w :: back from onward, Cursor.pending]
        split
        · rename_i believed
          rw [(located.eof (eof_of_atEof believed)).1]
        · rw [Cursor.onward, steady, located.spot.ahead]
          rfl
      · exact fun _ => .inl (by simp [Level.Meaning.nodeptr_of_spot located.spot])

/-- From nowhere `MDB_NEXT` comes to the first value, where `C_DEL` stays. -/
theorem next_unused {db : Db δ δ} (tree : D.subMeaning.Tree t) (rooted : db.root = some t)
    (unused : s.initialized = false) :
    ∃ w s', mdbCursorNext D.subLevel db .item s = some ⟨0, some w, none, s'⟩ ∧ s'.initialized = true ∧
      Steppable t s' ∧
      w :: s'.pending = if s.del then t.nodes.take 1 ++ t.nodes else t.nodes := by
  have ready : s.initialized = true → Path t 0 s.stack := fun used => absurd (unused.symm.trans used) (by decide)
  obtain ⟨nodes, i, outer, eof, answer, path, nothing⟩ :=
    Level.Meaning.searchEnd_found (c := s) tree rooted ready .first (.inl rfl)
  obtain ⟨w, rest, rfl⟩ : ∃ w rest, nodes = w :: rest := by
    cases path.uniform with
    | leaf nonempty => exact List.exists_cons_of_ne_nil nonempty
  let s' : Cursor δ δ Unit := { s with stack := (.leaf (w :: rest), 0) :: outer, initialized := true, eof := false }
  have called : mdbCursorNext D.subLevel db .item s = some ⟨0, some w, none, s'⟩ := by
    have first : mdbCursorNext D.subLevel db .item s = mdbCursorFirst D.subLevel db s := by
      simp [mdbCursorNext, unused]
    rw [first, mdbCursorFirst, answer]
    simp [Level.fetchTop, Level.fetch, Level.nodeptr, Cursor.setIndex, Level.clearXcursor, Database.subLevel, s']
  have spot := Spot.on (path.at 0) (x := w) rfl
  have nodes_eq : t.nodes = w :: ahead s'.stack := by
    have all := spot.nodes_eq
    rw [List.take_zero, List.append_nil, show leftOf outer = [] from nothing] at all
    exact all
  have here : Level.nodeptr s' = some w := rfl
  have unended : atEof s' = false := by simp [atEof, s']
  refine ⟨w, s', called, rfl, ⟨path.at 0, fun _ => .inl (by simp [here])⟩, ?_⟩
  rw [Cursor.pending, unended, if_neg (by decide), Cursor.onward, here, nodes_eq]
  cases s.del with
  | false => rfl
  | true => rfl

variable (D) in
structure XCursor.Sound (mx : XCursor δ) : Prop where
  tree : ∀ t, mx.root = some t → D.subMeaning.Tree t
  onPage : mx.cursor.initialized = true → ∃ t, mx.root = some t ∧ Steppable t mx.cursor

/-- The values that `MDB_NEXT` of the xcursor comes to, from nowhere all of the tree in `mx_db`,
with `C_DEL` the first of them twice. -/
def XCursor.left (mx : XCursor δ) : List δ :=
  if mx.cursor.initialized then mx.cursor.pending
  else mx.root.elim [] fun t => if mx.cursor.del then t.nodes.take 1 ++ t.nodes else t.nodes

theorem next_left {mx : XCursor δ} (sound : mx.Sound D) (written : mx.db ≠ none) :
    (mx.left = [] ∧ ∃ s', (D.mainLevel : Level κ δ (Node κ δ) (XCursor δ)).next mx =
      some (.fail mdbNotfound { mx with cursor := s' })) ∨
    ∃ w s', mx.left = w :: XCursor.left { mx with cursor := s' } ∧
      (D.mainLevel : Level κ δ (Node κ δ) (XCursor δ)).next mx =
        some ⟨0, some w, none, { mx with cursor := s' }⟩ ∧
      XCursor.Sound D { mx with cursor := s' } := by
  obtain ⟨db, written⟩ := Option.ne_none_iff_exists'.1 written
  have called : (D.mainLevel : Level κ δ (Node κ δ) (XCursor δ)).next mx =
      (mdbCursorNext D.subLevel db .item mx.cursor).map (Answer.mapCursor fun c => { mx with cursor := c }) := by
    simp only [Database.mainLevel, Database.onXCursor, written, Option.bind_some]
  have sound_on {t : Page δ δ} {s' : Cursor δ δ Unit} (rooted : mx.root = some t) (steppable : Steppable t s') :
      XCursor.Sound D { mx with cursor := s' } :=
    ⟨fun t' rooted' => sound.tree t' rooted', fun _ => ⟨t, rooted, steppable⟩⟩
  rw [called]
  cases used : mx.cursor.initialized with
  | true =>
    obtain ⟨t, rooted, steppable⟩ := sound.onPage used
    have left : mx.left = mx.cursor.pending := if_pos used
    rw [left]
    rcases next_pending db (sound.tree t rooted) used steppable with
      ⟨nothing, s', ends⟩ | ⟨w, s', pending, moves, used', steppable'⟩
    · exact .inl ⟨nothing, s', by rw [ends]; rfl⟩
    · refine .inr ⟨w, s', ?_, by rw [moves]; rfl, sound_on rooted steppable'⟩
      rw [pending, XCursor.left, if_pos used']
  | false =>
    cases rooted : mx.root with
    | none =>
      have empty : db.root = none := by simpa [XCursor.root, written] using rooted
      refine .inl ⟨by simp [XCursor.left, used, rooted], mx.cursor, ?_⟩
      have ends : mdbCursorNext D.subLevel db .item mx.cursor = some (.fail mdbNotfound mx.cursor) := by
        have first : mdbCursorNext D.subLevel db .item mx.cursor = mdbCursorFirst D.subLevel db mx.cursor := by
          simp [mdbCursorNext, used]
        rw [first, Level.Meaning.first_empty empty used]
        rfl
      rw [ends]
      rfl
    | some t =>
      have rooted' : db.root = some t := by simpa [XCursor.root, written] using rooted
      obtain ⟨w, s', moves, used', steppable, left⟩ := next_unused (sound.tree t rooted) rooted' used
      refine .inr ⟨w, s', ?_, by rw [moves]; rfl, sound_on rooted steppable⟩
      rw [XCursor.left, if_neg (by simp [used]), rooted, XCursor.left, if_pos used', left]
      rfl

end Values

section Items

variable [LinearOrder κ] [LinearOrder δ] (D : Database κ δ) (db : MainDb κ δ)

/-- A cursor as calls leave it: nowhere, or on a page of the tree. The flags are any, and the
xcursor may be on the duplicates of another node, or nowhere. -/
structure Prior (c : MainCursor κ δ) : Prop where
  onPage : c.initialized = true → ∃ root, db.root = some root ∧ Steppable root c
  xcursor : D.dupSort = true → c.xcursor.Sound D

/-- `MDB_NEXT` reads a node that is there, and an `mx_db` that has been written. -/
def Readable (c : MainCursor κ δ) : Prop :=
  D.dupSort = true → c.initialized = true → atEof c = false →
    ∃ x, Level.nodeptr c = some x ∧ (x.data.dupdata = true → c.xcursor.db ≠ none)

def pendingItems (c : MainCursor κ δ) : List (κ × δ) :=
  if c.initialized then
    if atEof c then []
    else
      match Level.nodeptr c with
      | some x =>
        if x.data.dupdata && !c.xcursor.left.isEmpty then
          (c.xcursor.left.map fun v => (x.key, v)) ++ D.mainMeaning.items (ahead c.stack)
        else D.mainMeaning.items c.onward
      | none => D.mainMeaning.items c.onward
  else items D db

/-- The cursors between calls of `MDB_NEXT`, from any cursor with a node to look at. -/
inductive Goes : MainCursor κ δ → List (κ × δ) → Prop
  | following {c xs} : Following D db c xs → Goes c xs
  | pending {c} : Prior D db c → Readable D c → Goes c (pendingItems D db c)

variable {D db} {c : MainCursor κ δ} {op : CursorOp} {xs : List (κ × δ)}

theorem comes_onward {root : Page κ (Node κ δ)} {c' : MainCursor κ δ} (valid : D.Valid db)
    (rooted : db.root = some root) (called : mdbCursorNext D.mainLevel db .item c = advance D.mainLevel c')
    (path : Path root 0 c'.stack) (positioned : c'.initialized = true) (flagless : c'.eof = false)
    (deleted : c'.del = true → Level.nodeptr c' ≠ none) :
    Comes D db (Following D db) .next c (D.mainMeaning.items c'.onward) := by
  rcases (Database.mainLawful valid.fixed).advance_onward (valid.tree root rooted) path positioned flagless deleted with
    ⟨nothing, ends, ended⟩ | ⟨front, y, back, c'', w, post, onward, moves, steady, located⟩
  · rw [nothing]
    refine ⟨mdbNotfound, { c' with eof := true, del := false }, .inl rfl, ?_, .ended positioned ended rfl⟩
    rw [mdbCursorGet, getOp, called, ends]
    rfl
  · rw [onward, Level.Meaning.items_cons, located.onto.itemsOf]
    exact comes_of_reaches rooted (by rw [getOp, called]) ⟨c'', moves, .on located, steady⟩

theorem Goes.comes (valid : D.Valid db) (c : MainCursor κ δ) (xs : List (κ × δ)) (goes : Goes D db c xs) :
    Comes D db (Goes D db) .next c xs := by
  cases goes with
  | following following => exact (Following.comes valid c xs following).imp fun _ _ => .following
  | pending prior readable =>
    rw [pendingItems]
    cases positioned : c.initialized with
    | false =>
      have first := comes_first valid (c := c) (by simp [Ready, positioned])
      exact (first.congr (by simp [mdbCursorGet, getOp, mdbCursorNext, positioned])).imp fun _ _ => .following
    | true =>
    cases ended : atEof c with
    | true =>
      refine ⟨mdbNotfound, { c with del := false }, .inl rfl, ?_, .following (.ended positioned ended rfl)⟩
      simp [mdbCursorGet, getOp, mdbCursorNext, positioned, ended, Answer.got, Answer.fail, Answer.mapCursor]
    | false =>
    obtain ⟨root, rooted, steppable⟩ := prior.onPage positioned
    have called : mdbCursorNext D.mainLevel db .item c =
        (D.mainLevel.consult D.mainLevel.next .item { c with eof := false }).bind
          (Sum.elim some (advance D.mainLevel)) := by
      simp [mdbCursorNext, positioned, ended]
    have deleted (del : c.del = true) : Level.nodeptr c ≠ none :=
      (steppable.deleted del).resolve_right (by simp [ended])
    -- the xcursor has nothing more
    have onward (mx : XCursor δ) (leaves : D.mainLevel.consult D.mainLevel.next .item { c with eof := false } =
        some (.inr { c with eof := false, xcursor := mx })) :
        Comes D db (Goes D db) .next c (D.mainMeaning.items c.onward) := by
      have answer : mdbCursorNext D.mainLevel db .item c =
        advance D.mainLevel { c with eof := false, xcursor := mx } := by
        rw [called, leaves]
        rfl
      have onward := comes_onward valid rooted answer steppable.path positioned rfl deleted
      exact onward.imp fun _ _ => .following
    simp only [if_true, Bool.false_eq_true, if_false]
    cases sorts : D.dupSort with
    | false =>
      have goes := onward c.xcursor (by simp [Level.consult, Database.mainLevel, sorts])
      cases here : Level.nodeptr c with
      | none => exact goes
      | some x =>
        obtain ⟨front, spot⟩ := exists_spot steppable.path here
        have wf : D.mainMeaning.WellFormed x := (valid.tree root rooted).nodes x (by rw [spot.nodes_eq]; simp)
        have single : x.data.dupdata = false := by
          cases dup : x.data.dupdata with
          | false => rfl
          | true => exact absurd (wf dup).1 (by simp [sorts])
        simpa [single] using goes
    | true =>
    obtain ⟨x, here, written⟩ := readable sorts positioned ended
    have here' : Level.nodeptr { c with eof := false } = some x := here
    cases dup : x.data.dupdata with
    | false =>
      have goes := onward (XCursor.clear c.xcursor) (by simp [Level.consult, Database.mainLevel, sorts, here', dup])
      simpa [here, dup] using goes
    | true =>
    have consulted : D.mainLevel.consult D.mainLevel.next .item { c with eof := false } =
        (D.mainLevel.next c.xcursor).map fun a =>
          if a.rc ≠ mdbNotfound then
            .inl ⟨a.rc, if a.rc = 0 then some x.key else none, a.key, { c with eof := false, xcursor := a.cursor }⟩
          else .inr { c with eof := false, xcursor := a.cursor } := by
      simp [Level.consult, Database.mainLevel, sorts, here', dup]
    rcases next_left (prior.xcursor sorts) (written dup) with ⟨nothing, s, stays⟩ | ⟨w, s, left, moved, sound⟩
    · have goes := onward { c.xcursor with cursor := s } (by simp [consulted, stays, Answer.fail])
      simpa [here, dup, nothing] using goes
    · let c' : MainCursor κ δ := { c with eof := false, del := false, xcursor := { c.xcursor with cursor := s } }
      have landed : mdbCursorGet D db .next none none c = some ⟨0, some x.key, some (.value w), c'⟩ := by
        simp [mdbCursorGet, getOp, called, consulted, moved, mdbNotfound_ne_zero.symm, Answer.got, Answer.mapCursor, c']
      have unbelieved : atEof c' = false := by
        cases believed : atEof c' with
        | false => rfl
        | true => exact absurd (eof_of_atEof believed) (by simp [c'])
      have here'' : Level.nodeptr c' = some x := here
      have later : Goes D db c' (pendingItems D db c') :=
        .pending ⟨fun _ => ⟨root, rooted, steppable.path, by simp [c']⟩, fun _ => sound⟩
          fun _ _ _ => ⟨x, here'', written⟩
      have rest : pendingItems D db c' =
          (c'.xcursor.left.map fun v => (x.key, v)) ++ D.mainMeaning.items (ahead c.stack) := by
        rw [pendingItems, if_pos (show c'.initialized = true from positioned), unbelieved, here'']
        cases empty : c'.xcursor.left with
        | nil => simp [Cursor.onward, c']
        | cons v post => simp [dup, c']
      rw [rest] at later
      simp only [here, dup, left]
      exact ⟨_, landed, later⟩

end Items

end SamLmdb
