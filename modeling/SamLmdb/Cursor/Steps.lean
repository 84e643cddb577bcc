import SamLmdb.Cursor.Missing
import SamLmdb.Cursor.Walk

/-!
Steps of a cursor that may be behind the last node of a page, as a search that fails leaves
it, and of an xcursor that may be behind the last value of one.
-/

namespace SamLmdb

open PageTree

variable {κ δ ν ξ : Type}

namespace Level.Meaning

variable {L : Level κ δ ν ξ} {M : L.Meaning} [LinearOrder κ] (lawful : M.Lawful) {root : Page κ ν}
    {c : Cursor κ ν ξ}
include lawful

theorem Lawful.advance_cases (tree : M.Tree root) (path : Path root 0 c.stack) (positioned : c.initialized = true)
    (steady : c.del = false) (flagless : c.eof = false) :
    (ahead c.stack = [] ∧ advance L c = some (.fail mdbNotfound { c with eof := true }) ∧
      atEof { c with eof := true } = true) ∨
    ∃ y back c' w post, ahead c.stack = y :: back ∧ advance L c = some ⟨0, some (L.key y), L.shown w, c'⟩ ∧
      c'.del = false ∧ M.Located root c' (upTo c.stack) y back [] w post := by
  obtain ⟨nodes, i, outer, stacked⟩ := path.leaf
  rw [stacked] at path ⊢
  rcases path_forward path with ⟨nothing, last, stays⟩ | ⟨y, back, stack, ahead_eq, spot, moved⟩
  · left
    have some_node : 0 < nodes.length := by
      simpa using path.uniform.numkeys_pos
    exact ⟨nothing, by simp [advance, stacked, steady, last, stays], by simp [atEof, some_node, last]⟩
  · right
    have wf : M.WellFormed y := tree.nodes y (by rw [spot.nodes_eq]; simp)
    obtain ⟨w, post, values⟩ := List.exists_cons_of_ne_nil (lawful.nonempty y wf)
    have fetched : advance L c = L.fetch L.first y { c with stack := stack } := by
      rcases moved with ⟨more, rfl⟩ | ⟨last, moves⟩
      · simp only [advance, stacked, steady, Bool.false_eq_true, if_false, Nat.not_le_of_lt more]
        exact fetchTop_of_spot spot
      · simp only [advance, stacked, steady, Bool.false_eq_true, if_false, last, if_true, moves]
        exact fetchTop_of_spot spot
    obtain ⟨ξ', answer, onto⟩ := lawful.fetch_first (c := { c with stack := stack }) wf values
    refine ⟨y, back, { c with stack := stack, xcursor := ξ' }, w, post, ahead_eq, fetched.trans answer, steady,
      positioned, spot, onto, ?_⟩
    intro flagged
    exact absurd (flagless.symm.trans flagged) (by decide)

theorem Lawful.retreat_cases (tree : M.Tree root) {front back : List ν} (gap : Gap root c.stack front back)
    (positioned : c.initialized = true) :
    (front = [] ∧ retreat L c = some (.fail mdbNotfound { c with eof := false, del := false })) ∨
    ∃ front' y c' pre u, front = front' ++ [y] ∧ retreat L c = some ⟨0, some (L.key y), L.shown u, c'⟩ ∧
      c'.del = false ∧ M.Located root c' front' y back pre u [] := by
  obtain ⟨nodes, i, outer, stacked⟩ := gap.path.leaf
  rw [stacked] at gap
  rcases gap_backward gap with ⟨nothing, rfl, stays⟩ | ⟨y, front', stack, front_eq, spot, moved⟩
  · left
    exact ⟨nothing, by simp [retreat, stacked, stays]⟩
  · right
    have wf : M.WellFormed y := tree.nodes y (by rw [spot.nodes_eq]; simp)
    obtain ⟨pre, u, values⟩ := List.eq_nil_or_concat (M.values y) |>.resolve_left (lawful.nonempty y wf)
    rw [List.concat_eq_append] at values
    have fetched : retreat L c = L.fetch L.last y { c with eof := false, del := false, stack := stack } := by
      rcases moved with ⟨j, rfl, rfl⟩ | ⟨rfl, moves⟩
      · simp only [retreat, stacked]
        exact fetchTop_of_spot spot
      · simp only [retreat, stacked, moves]
        exact fetchTop_of_spot spot
    obtain ⟨ξ', answer, onto⟩ := lawful.fetch_last
      (c := { c with eof := false, del := false, stack := stack }) wf values
    exact ⟨front', y, { c with eof := false, del := false, stack := stack, xcursor := ξ' }, pre, u, front_eq,
      fetched.trans answer, rfl, positioned, spot, onto, by simp⟩

end Level.Meaning

/-- A cursor on a page of the tree, or behind the last node of it, with `C_EOF` only where nothing follows. -/
structure Kept (root : Page κ ν) (c : Cursor κ ν ξ) : Prop where
  initialized : c.initialized = true
  steady : c.del = false
  gap : ∃ front back, Gap root c.stack front back
  flag : c.eof = true → ahead c.stack = []

section Values

variable [LinearOrder δ] {D : Database κ δ} {t : Page δ δ} {s : Cursor δ δ Unit} {db : Db δ δ}

/-- The xcursor is on the value `v` of the tree. -/
def OnValue (D : Database κ δ) (t : Page δ δ) (s : Cursor δ δ Unit) (pre : List δ) (v : δ)
    (post : List δ) : Prop :=
  D.subMeaning.Standing t s (pre.map Database.subItem) (Database.subItem v) (post.map Database.subItem)

omit [LinearOrder δ] in
theorem sub_alone {v : δ} {pre post : List Unit} {u : Unit} {ξ : Unit} (onto : D.subMeaning.Onto v pre u post ξ) :
    pre = [] ∧ post = [] := by
  have length := congrArg List.length onto.values
  simp only [Database.subMeaning, List.length_append, List.length_cons, List.length_nil] at length
  exact ⟨List.length_eq_zero_iff.1 (by omega), List.length_eq_zero_iff.1 (by omega)⟩

omit [LinearOrder δ] in
theorem OnValue.of_located {pre post : List δ} {v : δ} {pre' post' : List Unit} {u : Unit}
    (located : D.subMeaning.Located t s pre v post pre' u post') : OnValue D t s pre v post := by
  obtain ⟨rfl, rfl⟩ := sub_alone located.onto
  have standing := Level.Meaning.Standing.on located
  simp only [D.subMeaning_items, List.map_nil, List.append_nil, List.nil_append] at standing
  exact standing

omit [LinearOrder δ] in
theorem OnValue.located {pre post : List δ} {v : δ} (on : OnValue D t s pre v post) :
    D.subMeaning.Located t s pre v post [] () [] := by
  obtain ⟨front, x, back, pre', post', rfl, before_eq, after_eq, located⟩ :=
    Level.Meaning.Standing.exists_located on
  obtain ⟨rfl, rfl⟩ := sub_alone located.onto
  have injective : Function.Injective (List.map (Database.subItem (δ := δ))) :=
    List.map_injective_iff.2 fun a b same => congrArg Prod.fst same
  simp only [D.subMeaning_items, List.map_nil, List.append_nil, List.nil_append] at before_eq after_eq
  rw [injective before_eq, injective after_eq]
  exact located

omit [LinearOrder δ] in
theorem OnValue.nodes_eq {pre post : List δ} {v : δ} (on : OnValue D t s pre v post) : t.nodes = pre ++ v :: post :=
  on.located.spot.nodes_eq

omit [LinearOrder δ] in
theorem OnValue.kept {pre post : List δ} {v : δ} (on : OnValue D t s pre v post)
    (steady : s.del = false) : Kept t s := by
  have located := on.located
  refine ⟨located.initialized, steady, ⟨_, _, located.spot.gap⟩, fun flagged => ?_⟩
  rw [located.spot.ahead]
  exact (located.eof flagged).1

omit [LinearOrder δ] in
theorem OnValue.of_standing {before after : List (δ × Unit)} {item : δ × Unit}
    (standing : D.subMeaning.Standing t s before item after) :
    ∃ pre post, before = pre.map Database.subItem ∧ after = post.map Database.subItem ∧
      OnValue D t s pre item.1 post := by
  obtain ⟨v, ⟨⟩⟩ := item
  obtain ⟨front, x, back, pre, post, rfl, before_eq, after_eq, located⟩ := standing.exists_located
  obtain ⟨rfl, rfl⟩ := sub_alone located.onto
  simp only [D.subMeaning_items, List.map_nil, List.append_nil, List.nil_append] at before_eq after_eq
  exact ⟨front, back, before_eq, after_eq, .of_located located⟩

theorem first_value (tree : D.subMeaning.Tree t) (rooted : db.root = some t) (kept : Kept t s) :
    ∃ v post s', mdbCursorFirst D.subLevel db s = some ⟨0, some v, none, s'⟩ ∧ s'.del = false ∧
      OnValue D t s' [] v post := by
  obtain ⟨_, _, gap⟩ := kept.gap
  obtain ⟨item, after, s', answer, standing, steady⟩ :=
    D.subLawful.first_standing tree rooted fun _ => gap.path
  obtain ⟨pre, post, nothing, _, on⟩ := OnValue.of_standing standing
  rw [List.map_eq_nil_iff.1 nothing.symm] at on
  exact ⟨item.1, post, s', answer, steady.trans kept.steady, on⟩

theorem last_value (tree : D.subMeaning.Tree t) (rooted : db.root = some t) (kept : Kept t s) :
    ∃ pre v s', mdbCursorLast D.subLevel db s = some ⟨0, some v, none, s'⟩ ∧ s'.del = false ∧
      OnValue D t s' pre v [] := by
  obtain ⟨_, _, gap⟩ := kept.gap
  obtain ⟨before, item, s', answer, standing, steady⟩ :=
    D.subLawful.last_standing tree rooted fun _ => gap.path
  obtain ⟨pre, post, _, nothing, on⟩ := OnValue.of_standing standing
  rw [List.map_eq_nil_iff.1 nothing.symm] at on
  exact ⟨pre, item.1, s', answer, steady.trans kept.steady, on⟩

theorem set_value {exactp : Bool} {d : δ} (tree : D.subMeaning.Tree t) (rooted : db.root = some t)
    (ready : s.initialized = true → Path t 0 s.stack) (flagless : s.eof = false) (steady : s.del = false)
    (sized : D.dataSize d ≠ 0) :
    (∃ pre v post s', mdbCursorSet D.subLevel db .setRange exactp d none s = some ⟨0, some v, none, s'⟩ ∧
      s'.del = false ∧ OnValue D t s' pre v post) ∨
    ∃ s', mdbCursorSet D.subLevel db .setRange exactp d none s = some (.fail mdbNotfound s') ∧ Kept t s' := by
  obtain ⟨n, uniform⟩ := tree.uniform
  have same : D.subLevel.clearXcursor s = s := by simp [Level.clearXcursor, Database.subLevel]
  have sought := seek_sought (L := D.subLevel) (c := s) exactp d .setRange tree.sorted tree.separated uniform rooted
    (fun _ => rfl) ready
  rw [mdbCursorSet, if_neg (show D.subLevel.keySize d ≠ 0 from sized), same]
  generalize searched : seek D.subLevel db .setRange exactp d s = answer at sought
  cases sought with
  | @found s' x rest _ _ spot _ kept' =>
    have notBoth : ¬(SetOp.setRange = .getBoth ∨ SetOp.setRange = .getBothRange) := by decide
    obtain ⟨s'', v, post, answer, _, located, del⟩ := D.subLawful.settle_located tree spot notBoth
    exact .inl ⟨_, x, rest, s'', answer, del.trans (kept'.trans steady), .of_located located⟩
  | @missing s' _ _ _ _ =>
    obtain ⟨s'', failed, missed, _⟩ :=
      seek_missed tree.sorted tree.separated uniform rooted (fun _ => rfl) ready searched
    cases failed
    refine .inr ⟨_, rfl, missed.initialized, missed.del.trans steady, missed.gap, fun flagged => ?_⟩
    exact (missed.flag flagged).resolve_left (by simp [flagless])

/-- `MDB_GET_CURRENT`, on a value or behind the last one of a page. -/
theorem current_value (tree : D.subMeaning.Tree t) (kept : Kept t s) :
    (∃ pre v s', mdbCursorGetCurrent D.subLevel s = some ⟨0, some v, none, s'⟩ ∧ s'.del = false ∧
      OnValue D t s' pre v (ahead s.stack)) ∨
    mdbCursorGetCurrent D.subLevel s = some (.fail mdbNotfound s) := by
  obtain ⟨front, back, gap⟩ := kept.gap
  obtain ⟨nodes, i, outer, stacked⟩ := gap.path.leaf
  cases here : nodes[i]? with
  | none =>
    have upTo : i ≤ nodes.length := by
      rw [stacked] at gap
      obtain ⟨_, same, upTo, _⟩ := gap.top
      cases same
      exact upTo
    have last : i = nodes.length := Nat.le_antisymm upTo (List.getElem?_eq_none_iff.1 here)
    have still : s.setIndex nodes.length = s := by
      rw [Cursor.setIndex, stacked, ← last]
      simp [← stacked]
    right
    simp [mdbCursorGetCurrent, kept.initialized, stacked, here, still]
  | some v =>
    have path := gap.path
    rw [stacked] at path
    have spot := Spot.on path here
    rw [← stacked] at spot
    have on : D.subMeaning.Located t s (leftOf outer ++ nodes.take i) v (ahead s.stack) [] () [] := by
      refine ⟨kept.initialized, ?_, ?_, fun flagged => ⟨kept.flag flagged, rfl⟩⟩
      · rw [spot.ahead]
        exact spot
      · simp [Level.Meaning.Onto, Database.subLevel, Database.subMeaning]
    obtain ⟨s', answer, steady, located⟩ := D.subLawful.getCurrent_located tree on
    exact .inl ⟨_, v, s', answer, steady.trans kept.steady, .of_located located⟩

variable (db) in
theorem next_value (tree : D.subMeaning.Tree t) (kept : Kept t s) :
    (ahead s.stack = [] ∧ ∃ s', mdbCursorNext D.subLevel db .item s = some (.fail mdbNotfound s') ∧ Kept t s' ∧
      ahead s'.stack = []) ∨
    ∃ w back s', ahead s.stack = w :: back ∧ mdbCursorNext D.subLevel db .item s =
      some ⟨0, some w, none, s'⟩ ∧
      s'.del = false ∧ OnValue D t s' (upTo s.stack) w back := by
  obtain ⟨front, back, gap⟩ := kept.gap
  cases ended : atEof s with
  | true =>
    have flagged := eof_of_atEof ended
    left
    refine ⟨kept.flag flagged, s, ?_, kept, kept.flag flagged⟩
    simp [mdbCursorNext, kept.steady, kept.initialized, ended]
  | false =>
    have called : mdbCursorNext D.subLevel db .item s = advance D.subLevel { s with eof := false } := by
      simp [mdbCursorNext, kept.steady, kept.initialized, ended, Level.consult, Database.subLevel]
    rcases D.subLawful.advance_cases (c := { s with eof := false }) tree gap.path kept.initialized kept.steady rfl with
      ⟨nothing, stays, _⟩ | ⟨w, back', s', v, post, ahead_eq, moves, steady, located⟩
    · left
      exact ⟨nothing, _, called.trans stays, ⟨kept.initialized, kept.steady, kept.gap, fun _ => nothing⟩,
        nothing⟩
    · right
      exact ⟨w, back', s', ahead_eq, called.trans moves, steady, .of_located located⟩

variable (db) in
theorem prev_value (tree : D.subMeaning.Tree t) (kept : Kept t s) {front back : List δ}
    (gap : Gap t s.stack front back) :
    (front = [] ∧ mdbCursorPrev D.subLevel db .item s =
      some (.fail mdbNotfound { s with eof := false, del := false })) ∨
    ∃ front' u s', front = front' ++ [u] ∧ mdbCursorPrev D.subLevel db .item s = some ⟨0, some u, none, s'⟩ ∧
      s'.del = false ∧ OnValue D t s' front' u back := by
  have called : mdbCursorPrev D.subLevel db .item s = retreat D.subLevel s := by
    simp [mdbCursorPrev, kept.initialized, prevFrom, Level.consult, Database.subLevel]
  rcases D.subLawful.retreat_cases tree gap kept.initialized with
    ⟨nothing, stays⟩ | ⟨front', u, s', pre, v, front_eq, moves, steady, located⟩
  · exact .inl ⟨nothing, called.trans stays⟩
  · exact .inr ⟨front', u, s', front_eq, called.trans moves, steady, .of_located located⟩

end Values

end SamLmdb
