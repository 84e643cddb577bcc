import Mathlib.Data.List.Induction
import Mathlib.Data.List.TakeWhile
import SamLmdb.Cursor.Seek
import SamLmdb.Cursor.Walk

/-! Iterating over a range of keys, forwards and back, from any state of the cursor. -/

namespace SamLmdb

open PageTree

variable {κ δ : Type} [LinearOrder κ] [LinearOrder δ]

/-- The items that calls of `next` return up to the first `None`. -/
inductive Iter.Yields (D : Database κ δ) (db : MainDb κ δ) : Iter κ δ → List (κ × δ) → Prop
  | done {iter iter'} : iter.next D db = some (none, iter') → Yields D db iter []
  | item {iter iter' k v rest} : iter.next D db = some (some (.ok (.written k, .written (.value v))), iter') →
      Yields D db iter' rest → Yields D db iter ((k, v) :: rest)

theorem Iter.Yields.unique {D : Database κ δ} {db : MainDb κ δ} {iter : Iter κ δ} {xs ys : List (κ × δ)}
    (left : iter.Yields D db xs) (right : iter.Yields D db ys) : xs = ys := by
  induction left generalizing ys with
  | done ends =>
    cases right with
    | done _ => rfl
    | item goes _ => cases ends.symm.trans goes
  | item goes _ ih =>
    cases right with
    | done ends => cases ends.symm.trans goes
    | item goes' rest =>
      cases goes.symm.trans goes'
      rw [ih rest]

/-- A cursor that can be used: nowhere, or on a page of the tree. `mc_ki` may be past the
last node, and the flags and the xcursor are as earlier calls have left them. -/
def Ready (db : MainDb κ δ) (c : MainCursor κ δ) : Prop :=
  c.initialized = true → ∃ root, db.root = some root ∧ Path root 0 c.stack

omit [LinearOrder κ] [LinearOrder δ] in
theorem Ready.path {db : MainDb κ δ} {c : MainCursor κ δ} {root : Page κ (Node κ δ)} (ready : Ready db c)
    (rooted : db.root = some root) (positioned : c.initialized = true) : Path root 0 c.stack := by
  obtain ⟨_, rooted', path⟩ := ready positioned
  cases rooted.symm.trans rooted'
  exact path

omit [LinearOrder κ] [LinearOrder δ] in
theorem Ready.fresh {db : MainDb κ δ} {c : MainCursor κ δ} (ready : Ready db c) (rooted : db.root = none) :
    c.initialized = false := by
  by_contra positioned
  obtain ⟨_, rooted', _⟩ := ready (by simpa using positioned)
  cases rooted.symm.trans rooted'

def Before (a b : κ × δ) : Prop := a.1 < b.1 ∨ a.1 = b.1 ∧ a.2 < b.2

section Yields

variable {D : Database κ δ} {db : MainDb κ δ} {root : Page κ (Node κ δ)} {c : MainCursor κ δ}
  {before after : List (κ × δ)} {item : κ × δ} {op nextOp : CursorOp}

theorem next_item {c' : MainCursor κ δ}
    (got : mdbCursorGet D db op none none c = some ⟨0, some item.1, some (.value item.2), c'⟩) :
    (Iter.ok c op nextOp).next D db =
      some (some (.ok (.written item.1, .written (.value item.2))), .ok c' nextOp nextOp) := by
  simp [Iter.next, got, valToSlice]

theorem next_none {c' : MainCursor κ δ} {rc : ℤ} (ends : rc = mdbNotfound ∨ rc = einval)
    (got : mdbCursorGet D db op none none c = some (.fail rc c')) :
    (Iter.ok c op nextOp).next D db = some (none, .ok c' nextOp nextOp) := by
  rcases ends with rfl | rfl
  · simp [Iter.next, got, Answer.fail]
  · simp [Iter.next, got, Answer.fail, einval]

theorem yields_done {c' : MainCursor κ δ} (called : getOp D db op none none c = some (.fail mdbNotfound c')) :
    (Iter.ok c op nextOp).Yields D db [] := by
  have got : mdbCursorGet D db op none none c = some (.fail mdbNotfound { c' with del := false }) := by
    rw [mdbCursorGet, called]
    rfl
  exact .done (next_none (.inl rfl) got)

theorem yields_steps (valid : D.Valid db) (rooted : db.root = some root)
    (same : ∀ c : MainCursor κ δ, c.del = false → getOp D db op none none c = getOp D db .next none none c)
    (steady : c.del = false) (standing : D.mainMeaning.Standing root c before item after) :
    (Iter.ok c op op).Yields D db after := by
  induction after generalizing c before item with
  | nil =>
    have step := (Database.mainLawful valid.fixed).next_standing db (valid.tree root rooted) standing steady
    obtain ⟨c', got, _, _⟩ := mdbCursorGet_stays op none none (same c steady) step
    exact .done (next_none (.inl rfl) got)
  | cons item' after ih =>
    have step := (Database.mainLawful valid.fixed).next_standing db (valid.tree root rooted) standing steady
    obtain ⟨c', got, standing', steady'⟩ := mdbCursorGet_reaches op none none (same c steady) step
    exact .item (next_item got) (ih steady' standing')

theorem yields_next (valid : D.Valid db) (rooted : db.root = some root) (steady : c.del = false)
    (standing : D.mainMeaning.Standing root c before item after) :
    (Iter.ok c .next .next).Yields D db after :=
  yields_steps valid rooted (fun _ _ => rfl) steady standing

theorem yields_prev (valid : D.Valid db) (rooted : db.root = some root) (steady : c.del = false)
    (standing : D.mainMeaning.Standing root c before item after) :
    (Iter.ok c .prev .prev).Yields D db before.reverse := by
  induction before using List.reverseRecOn generalizing c item after with
  | nil =>
    have step := (Database.mainLawful valid.fixed).prev_standing (valid.tree root rooted) standing steady
    rw [← Level.Meaning.mdbCursorPrev_eq db standing.initialized] at step
    rcases step with ⟨_, stayed⟩ | ⟨_, _, split, _⟩
    · obtain ⟨c', got, _, _⟩ := mdbCursorGet_stays .prev none none rfl stayed
      exact .done (next_none (.inl rfl) got)
    · simp at split
  | append_singleton before item' ih =>
    have step := (Database.mainLawful valid.fixed).prev_standing (valid.tree root rooted) standing steady
    rw [← Level.Meaning.mdbCursorPrev_eq db standing.initialized] at step
    rcases step with ⟨split, _⟩ | ⟨_, _, split, reached⟩
    · simp at split
    · obtain ⟨rfl, last⟩ := List.append_inj' split rfl
      cases last
      obtain ⟨c', got, standing', steady'⟩ := mdbCursorGet_reaches .prev none none rfl reached
      rw [List.reverse_append]
      exact .item (next_item got) (ih steady' standing')

/-- `MDB_GET_CURRENT` first: the item under the cursor, from which the others follow. -/
theorem yields_current (valid : D.Valid db) (rooted : db.root = some root)
    (standing : D.mainMeaning.Standing root c before item after) {rest : List (κ × δ)}
    (follows : ∀ c', D.mainMeaning.Standing root c' before item after → c'.del = false →
      (Iter.ok c' nextOp nextOp).Yields D db rest) :
    (Iter.ok c .getCurrent nextOp).Yields D db (item :: rest) := by
  have reached := (Database.mainLawful valid.fixed).getCurrent_standing (valid.tree root rooted) standing
  obtain ⟨c', got, standing', steady'⟩ := mdbCursorGet_reaches .getCurrent none none rfl reached
  exact .item (next_item got) (follows c' standing' steady')

/-- Nothing is under a cursor that is past the last node of its page. -/
theorem yields_past (past : Past c) : (Iter.ok c .getCurrent nextOp).Yields D db [] := by
  cases positioned : c.initialized with
  | false =>
    have got : mdbCursorGet D db .getCurrent none none c = some (.fail einval { c with del := false }) := by
      simp [mdbCursorGet, getOp, mdbCursorGetCurrent, positioned, Answer.got, Answer.fail, Answer.mapCursor]
    exact .done (next_none (.inr rfl) got)
  | true =>
    obtain ⟨nodes, i, outer, stacked, outside⟩ := past positioned
    have nothing : nodes[i]? = none := List.getElem?_eq_none outside
    have called : getOp D db .getCurrent none none c = some (.fail mdbNotfound (c.setIndex nodes.length)) := by
      simp [getOp, mdbCursorGetCurrent, positioned, stacked, nothing, Answer.got, Answer.fail]
    exact yields_done called

end Yields

section Items

variable {D : Database κ δ} {db : MainDb κ δ} {root : Page κ (Node κ δ)} {key : κ}

omit [LinearOrder κ] in
theorem items_filter (p : κ → Bool) (nodes : List (Node κ δ)) :
    (D.mainMeaning.items nodes).filter (fun item => p item.1) =
      D.mainMeaning.items (nodes.filter fun x => p x.key) := by
  induction nodes with
  | nil => rfl
  | cons x nodes ih =>
    have same : (D.mainMeaning.itemsOf x).filter (fun item => p item.1) =
      if p x.key then D.mainMeaning.itemsOf x else [] := by
      rw [Level.Meaning.itemsOf, List.filter_map]
      cases chosen : p x.key with
      | true => simp [Function.comp_def, Database.mainLevel, chosen]
      | false => simp [Function.comp_def, Database.mainLevel, chosen]
    rw [Level.Meaning.items_cons, List.filter_append, ih, same, List.filter_cons]
    split <;> simp

theorem key_of_below {nodes : List (Node κ δ)} : ∀ x ∈ nodesBelow D.mainLevel key nodes, x.key < key := by
  intro x here
  exact of_decide_eq_true (List.mem_takeWhile_imp (p := fun x => decide (D.mainLevel.key x < key)) here)

theorem key_of_from (tree : D.mainMeaning.Tree root) {x : Node κ δ} {rest : List (Node κ δ)}
    (from_eq : nodesFrom D.mainLevel key root.nodes = x :: rest) : key ≤ x.key ∧ ∀ y ∈ rest, x.key < y.key := by
  have sorted := tree.sorted
  rw [← nodesBelow_append_nodesFrom (L := D.mainLevel) key root.nodes, from_eq] at sorted
  refine ⟨?_, fun y here => List.rel_of_pairwise_cons (List.pairwise_append.1 sorted).2.1 here⟩
  have least := List.head?_dropWhile_not (fun x => decide (D.mainLevel.key x < key)) root.nodes
  rw [show root.nodes.dropWhile _ = x :: rest from from_eq] at least
  exact not_lt.1 (of_decide_eq_false least)

theorem items_before (valid : D.Valid db) : (items D db).Pairwise Before := by
  rw [items]
  cases rooted : db.root with
  | none => exact .nil
  | some root =>
    have tree := valid.tree root rooted
    refine List.pairwise_flatMap.2 ⟨fun x here => ?_, tree.sorted.imp ?_⟩
    · have increasing : x.data.values.Pairwise fun v w => v < w := by
        cases dup : x.data.dupdata with
        | true =>
          obtain ⟨_, sub, rooted', tree'⟩ := tree.nodes x here dup
          rw [NodeData.values_of_tree rooted']
          exact tree'.sorted
        | false =>
          cases data : x.data with
          | single value => simp [NodeData.values]
          | subPage values => simp [data, NodeData.dupdata] at dup
          | subDb db => simp [data, NodeData.dupdata] at dup
      exact List.pairwise_map.2 (increasing.imp fun less => .inr ⟨rfl, less⟩)
    · intro x y less a in_x b in_y
      obtain ⟨_, _, rfl⟩ := List.mem_map.1 in_x
      obtain ⟨_, _, rfl⟩ := List.mem_map.1 in_y
      exact .inl less

variable (key) in
theorem items_split (rooted : db.root = some root) (p : κ → Bool) :
    (items D db).filter (fun item => p item.1) =
      D.mainMeaning.items ((nodesBelow D.mainLevel key root.nodes).filter fun x => p x.key) ++
        D.mainMeaning.items ((nodesFrom D.mainLevel key root.nodes).filter fun x => p x.key) := by
  rw [← Level.Meaning.items_append, ← List.filter_append, nodesBelow_append_nodesFrom, items, rooted]
  exact items_filter p root.nodes

/-- The items from a key on are those of the nodes that the search comes to. -/
theorem items_from (valid : D.Valid db) (rooted : db.root = some root) :
    (items D db).filter (fun item => decide (key ≤ item.1)) =
      D.mainMeaning.items (nodesFrom D.mainLevel key root.nodes) := by
  have tree := valid.tree root rooted
  rw [items_split key rooted fun k => decide (key ≤ k), List.filter_eq_nil_iff.2, List.filter_eq_self.2]
  · rfl
  · intro x here
    cases from_eq : nodesFrom D.mainLevel key root.nodes with
    | nil => simp [from_eq] at here
    | cons y rest =>
      obtain ⟨least, after⟩ := key_of_from tree from_eq
      rw [from_eq] at here
      rcases List.mem_cons.1 here with rfl | here
      · simpa using least
      · simpa using least.trans (after x here).le
  · intro x here
    simpa using key_of_below x here

theorem items_upTo (valid : D.Valid db) (rooted : db.root = some root) {x : Node κ δ} {rest : List (Node κ δ)}
    (from_eq : nodesFrom D.mainLevel key root.nodes = x :: rest) (same : x.key = key) :
    (∀ item ∈ items D db, item.1 ≤ key) ↔ D.mainMeaning.items rest = [] := by
  have split : items D db = D.mainMeaning.items (nodesBelow D.mainLevel key root.nodes) ++
      (D.mainMeaning.itemsOf x ++ D.mainMeaning.items rest) := by
    rw [← Level.Meaning.items_cons, ← from_eq, ← Level.Meaning.items_append, nodesBelow_append_nodesFrom,
      items, rooted]
    rfl
  obtain ⟨_, after⟩ := key_of_from (valid.tree root rooted) from_eq
  constructor
  · intro upTo
    refine List.eq_nil_iff_forall_not_mem.2 fun item here => ?_
    have least := upTo item (by rw [split]; simp [here])
    obtain ⟨y, there, here⟩ := List.mem_flatMap.1 here
    obtain ⟨_, _, rfl⟩ := List.mem_map.1 here
    exact absurd (same ▸ after y there) (not_lt.2 least)
  · intro nothing item here
    rw [split, nothing, List.append_nil] at here
    rcases List.mem_append.1 here with here | here
    · obtain ⟨y, below, here⟩ := List.mem_flatMap.1 here
      obtain ⟨_, _, rfl⟩ := List.mem_map.1 here
      exact (key_of_below y below).le
    · obtain ⟨_, _, rfl⟩ := List.mem_map.1 here
      exact same.le

variable {p : κ → Bool} (beyond : ∀ k, key < k → p k = false)
include beyond

theorem items_found (valid : D.Valid db) (rooted : db.root = some root) (chosen : p key = true) {x : Node κ δ}
    {rest : List (Node κ δ)} (from_eq : nodesFrom D.mainLevel key root.nodes = x :: rest) (same : x.key = key) :
    (items D db).filter (fun item => p item.1) =
      D.mainMeaning.items ((nodesBelow D.mainLevel key root.nodes).filter fun x => p x.key) ++
        D.mainMeaning.itemsOf x := by
  obtain ⟨_, after⟩ := key_of_from (valid.tree root rooted) from_eq
  have nothing : rest.filter (fun x => p x.key) = [] := by
    rw [List.filter_eq_nil_iff]
    intro y here
    simp [beyond y.key (same ▸ after y here)]
  rw [items_split key rooted p, from_eq, List.filter_cons, if_pos (same ▸ chosen), nothing]
  simp

theorem items_absent (valid : D.Valid db) (rooted : db.root = some root)
    (absent : ∀ x, (nodesFrom D.mainLevel key root.nodes).head? = some x → x.key ≠ key) :
    (items D db).filter (fun item => p item.1) =
      D.mainMeaning.items ((nodesBelow D.mainLevel key root.nodes).filter fun x => p x.key) := by
  have nothing : (nodesFrom D.mainLevel key root.nodes).filter (fun x => p x.key) = [] := by
    rw [List.filter_eq_nil_iff]
    intro y here
    cases from_eq : nodesFrom D.mainLevel key root.nodes with
    | nil => simp [from_eq] at here
    | cons x rest =>
      obtain ⟨least, after⟩ := key_of_from (valid.tree root rooted) from_eq
      have greater : key < x.key := lt_of_le_of_ne least (absent x (by rw [from_eq]; rfl)).symm
      rw [from_eq] at here
      rcases List.mem_cons.1 here with rfl | here
      · simp [beyond y.key greater]
      · simp [beyond y.key (greater.trans (after y here))]
  rw [items_split key rooted p, nothing]
  simp

end Items

section Seeks

variable {D : Database κ δ} {db : MainDb κ δ} {root : Page κ (Node κ δ)} {c : MainCursor κ δ} {key : κ}
  {op : CursorOp} {setOp : SetOp}

variable (op setOp) in
theorem seek_found (valid : D.Valid db) (rooted : db.root = some root) (ready : Ready db c)
    (sized : D.keySize key ≠ 0) (plain : setOp = .set ∨ setOp = .setRange)
    (called : getOp D db op (some key) none c = getSet D db setOp (some key) none c)
    {x : Node κ δ} {rest : List (Node κ δ)} (from_eq : nodesFrom D.mainLevel key root.nodes = x :: rest)
    (exact_ : setOp = .set → x.key = key) :
    ∃ answer c' v post, get D db (some key) none op c = some (.ok answer, c') ∧ x.data.values = v :: post ∧
      D.mainMeaning.Located root c' (nodesBelow D.mainLevel key root.nodes) x rest [] v post ∧ c'.del = false := by
  have notBoth : ¬(setOp = .getBoth ∨ setOp = .getBothRange) := by rcases plain with rfl | rfl <;> decide
  obtain ⟨c', v, post, answer, values, located, _⟩ := (Database.mainLawful valid.fixed).set_found
    setOp (decide (setOp ≠ .setRange)) (valid.tree root rooted) rooted (ready.path rooted) sized notBoth
      (by simp) from_eq
    fun wanted => exact_ (plain.resolve_right (by simpa using wanted))
  refine ⟨((Level.Meaning.setKey D.mainLevel setOp x).map .written,
      valToSlice none ((D.mainLevel.shown v).map .value)), { c' with del := false }, v, post, ?_, values,
    located.setDel false, rfl⟩
  simp only [get, mdbCursorGet, called, getSet, answer]
  rfl

variable (op setOp) in
theorem seek_missing (valid : D.Valid db) (ready : Ready db c) (sized : D.keySize key ≠ 0)
    (called : getOp D db op (some key) none c = getSet D db setOp (some key) none c)
    (absent : ∀ root, db.root = some root → ∀ x, (nodesFrom D.mainLevel key root.nodes).head? = some x →
      setOp ≠ .setRange ∧ x.key ≠ key) :
    ∃ c', get D db (some key) none op c = some (.error .notFound, c') ∧ Ready db c' ∧ c'.del = false ∧
      (setOp = .setRange → Past c') := by
  obtain ⟨c', answer, ready', past⟩ : ∃ c',
      mdbCursorSet D.mainLevel db setOp (decide (setOp ≠ .setRange)) key none c = some (.fail mdbNotfound c') ∧
        Ready db c' ∧ (setOp = .setRange → Past c') := by
    cases rooted : db.root with
    | none =>
      have fresh := ready.fresh rooted
      exact ⟨_, Level.Meaning.set_empty rooted fresh sized, by simp [Ready, fresh], fun _ => by simp [Past, fresh]⟩
    | some root =>
      obtain ⟨c', answer, path, _, past⟩ := Level.Meaning.set_missing D.mainMeaning setOp
        (decide (setOp ≠ .setRange))
        (valid.tree root rooted) rooted (ready.path rooted) sized (by simp)
          (fun x here => ⟨by simpa using (absent root rooted x here).1, (absent root rooted x here).2⟩)
      exact ⟨c', answer, fun positioned => ⟨root, rooted, path positioned⟩,
        fun range => past (by simpa using range)⟩
  refine ⟨{ c' with del := false }, ?_, ready', rfl, past⟩
  simp only [get, mdbCursorGet, called, getSet, answer]
  rfl

theorem set_cases (valid : D.Valid db) (ready : Ready db c) (sized : D.keySize key ≠ 0) :
    (∃ answer c' root x rest v post, get D db (some key) none .set c = some (.ok answer, c') ∧
      db.root = some root ∧ nodesFrom D.mainLevel key root.nodes = x :: rest ∧ x.key = key ∧
      D.mainMeaning.Located root c' (nodesBelow D.mainLevel key root.nodes) x rest [] v post ∧ c'.del = false) ∨
    ∃ c', get D db (some key) none .set c = some (.error .notFound, c') ∧ Ready db c' ∧
      ∀ root, db.root = some root →
        ∀ x, (nodesFrom D.mainLevel key root.nodes).head? = some x → x.key ≠ key := by
  by_cases present : ∃ root x rest, db.root = some root ∧ nodesFrom D.mainLevel key root.nodes = x :: rest ∧
    x.key = key
  · obtain ⟨root, x, rest, rooted, from_eq, same⟩ := present
    obtain ⟨answer, c', v, post, got, _, located, steady⟩ := seek_found .set .set valid rooted
      ready sized (.inl rfl) rfl from_eq fun _ => same
    exact .inl ⟨answer, c', root, x, rest, v, post, got, rooted, from_eq, same, located, steady⟩
  · have absent : ∀ root, db.root = some root →
        ∀ x, (nodesFrom D.mainLevel key root.nodes).head? = some x → x.key ≠ key := by
      intro root rooted x here same
      obtain ⟨rest, from_eq⟩ := List.head?_eq_some_iff.1 here
      exact present ⟨root, x, rest, rooted, from_eq, same⟩
    obtain ⟨c', got, ready', _⟩ := seek_missing .set .set valid ready sized rfl
      fun root rooted x here => ⟨by simp, absent root rooted x here⟩
    exact .inr ⟨c', got, ready', absent⟩

theorem setRange_cases (valid : D.Valid db) (ready : Ready db c) (sized : D.keySize key ≠ 0) :
    (∃ answer c' root x rest v post, get D db (some key) none .setRange c = some (.ok answer, c') ∧
      db.root = some root ∧ nodesFrom D.mainLevel key root.nodes = x :: rest ∧
      D.mainMeaning.Located root c' (nodesBelow D.mainLevel key root.nodes) x rest [] v post ∧ c'.del = false) ∨
    ∃ c', get D db (some key) none .setRange c = some (.error .notFound, c') ∧ Ready db c' ∧ Past c' ∧
      ∀ root, db.root = some root → nodesFrom D.mainLevel key root.nodes = [] := by
  by_cases present : ∃ root x rest, db.root = some root ∧ nodesFrom D.mainLevel key root.nodes = x :: rest
  · obtain ⟨root, x, rest, rooted, from_eq⟩ := present
    obtain ⟨answer, c', v, post, got, _, located, steady⟩ := seek_found .setRange .setRange valid
      rooted ready sized (.inr rfl) rfl from_eq (by simp)
    exact .inl ⟨answer, c', root, x, rest, v, post, got, rooted, from_eq, located, steady⟩
  · have absent : ∀ root, db.root = some root → nodesFrom D.mainLevel key root.nodes = [] := by
      intro root rooted
      by_contra some_node
      obtain ⟨x, rest, from_eq⟩ := List.exists_cons_of_ne_nil some_node
      exact present ⟨root, x, rest, rooted, from_eq⟩
    obtain ⟨c', got, ready', _, past⟩ := seek_missing .setRange .setRange valid ready sized rfl
      fun root rooted x here => by simp [absent root rooted] at here
    exact .inr ⟨c', got, ready', past rfl, absent⟩

end Seeks

section Ends

variable {D : Database κ δ} {db : MainDb κ δ} {c : MainCursor κ δ}

theorem yields_first (valid : D.Valid db) (ready : Ready db c) : (intoIterStart c).Yields D db (items D db) := by
  cases rooted : db.root with
  | none =>
    have empty : items D db = [] := by rw [items, rooted]; rfl
    rw [empty]
    exact yields_done (by rw [getOp, Level.Meaning.first_empty rooted (ready.fresh rooted)]; rfl)
  | some root =>
    obtain ⟨item, after, reached⟩ := (Database.mainLawful valid.fixed).first_standing
      (valid.tree root rooted) rooted (ready.path rooted)
    obtain ⟨c', got, standing, steady⟩ := mdbCursorGet_reaches .first none none rfl reached
    rw [items_of_standing rooted standing]
    exact .item (next_item got) (yields_next valid rooted steady standing)

theorem yields_last (valid : D.Valid db) (ready : Ready db c) :
    (Iter.ok c .last .prev).Yields D db (items D db).reverse := by
  cases rooted : db.root with
  | none =>
    have empty : items D db = [] := by rw [items, rooted]; rfl
    rw [empty]
    exact yields_done (by rw [getOp, Level.Meaning.last_empty rooted (ready.fresh rooted)]; rfl)
  | some root =>
    obtain ⟨before, item, reached⟩ := (Database.mainLawful valid.fixed).last_standing
      (valid.tree root rooted) rooted (ready.path rooted)
    obtain ⟨c', got, standing, steady⟩ := mdbCursorGet_reaches .last none none rfl reached
    rw [items_of_standing rooted standing, List.reverse_append, List.reverse_cons]
    exact .item (next_item got) (yields_prev valid rooted steady standing)

variable {root : Page κ (Node κ δ)} {front back : List (Node κ δ)} {x : Node κ δ} {pre post : List δ} {v : δ}

/-- `MDB_LAST_DUP`: the last value of the node, also without duplicates, where it is an error. -/
theorem moveDup_last (valid : D.Valid db) (rooted : db.root = some root)
    (located : D.mainMeaning.Located root c front x back pre v post) :
    ∃ a pre' w, moveDup D D.mainLevel.last c = some a ∧
      D.mainMeaning.Located root a.cursor front x back pre' w [] := by
  have wf := located.wellFormed (valid.tree root rooted)
  have onto := located.onto
  obtain ⟨nodes, i, outer, stacked⟩ := located.stacked
  have here : nodes[i]? = some x := by
    simpa [Level.nodeptr, stacked] using Level.Meaning.nodeptr_of_spot located.spot
  cases dup : x.data.dupdata with
  | false =>
    rw [Level.Meaning.Onto, if_neg (by simp [Database.mainLevel, dup])] at onto
    obtain ⟨_, _, rfl⟩ := onto
    cases sorts : D.dupSort with
    | false => exact ⟨.fail mdbIncompatible c, pre, v, by simp [moveDup, located.initialized, sorts], located⟩
    | true =>
      exact ⟨⟨0, some x.key, (D.mainLevel.read x).map .value, c⟩, pre, v,
        by simp [moveDup, located.initialized, sorts, stacked, here, dup], located⟩
  | true =>
    rw [Level.Meaning.Onto, if_pos (by simp [Database.mainLevel, dup])] at onto
    obtain ⟨⟨steady, sub, rooted', same, standing⟩, values⟩ := onto
    obtain ⟨sorts, _, rooted'', tree⟩ := wf dup
    cases rooted'.symm.trans rooted''
    obtain ⟨pre', w, split⟩ := (List.eq_nil_or_concat x.data.values).resolve_left (by
      rw [show x.data.values = pre ++ v :: post from values]
      simp)
    rw [List.concat_eq_append] at split
    obtain ⟨mx, answer, on⟩ := Database.onXCursor_last c.xcursor rooted' tree same steady
      (fun _ => standing.path) split
    refine ⟨⟨0, none, some (.value w), { c with xcursor := mx }⟩, pre', w, ?_, located.initialized,
      located.spot, ?_, ?_⟩
    · have answer' : D.mainLevel.last c.xcursor = some ⟨0, some w, none, mx⟩ := answer
      simp [moveDup, located.initialized, sorts, stacked, here, dup, standing.initialized, answer']
    · rw [Level.Meaning.Onto, if_pos (by simp [Database.mainLevel, dup])]
      exact ⟨on, split⟩
    · exact fun ended => ⟨(located.eof ended).1, rfl⟩

theorem lastDup_located (valid : D.Valid db) (rooted : db.root = some root)
    (located : D.mainMeaning.Located root c front x back pre v post) :
    ∃ answer c' pre' w, get D db none none .lastDup c = some (answer, c') ∧
      D.mainMeaning.Located root c' front x back pre' w [] ∧ c'.del = false := by
  obtain ⟨a, pre', w, moved, located'⟩ := moveDup_last valid rooted located
  have got : get D db none none .lastDup c = some
      (if a.rc = 0 then .ok (a.key.map .written, valToSlice none a.data) else .error (.fromErrCode a.rc),
        { a.cursor with del := false }) := by
    simp [get, mdbCursorGet, getOp, moved, Answer.mapCursor]
  exact ⟨_, _, pre', w, got, located'.setDel false, rfl⟩

end Ends

def threeItems : MainDb ℕ ℕ := ⟨some (.leaf [⟨1, .single 5⟩, ⟨2, .subPage [3, 4]⟩]), 3⟩

theorem threeItems_valid : sorted.Valid threeItems where
  fixed := nofun
  tree := by
    rintro _ ⟨⟩
    refine ⟨⟨0, .leaf (by simp)⟩, .leaf, by simp [Database.mainLevel], ?_⟩
    intro x here dup
    simp only [Page.nodes_leaf, List.mem_cons, List.not_mem_nil, or_false] at here
    rcases here with rfl | rfl
    · cases dup
    · exact ⟨rfl, .leaf [3, 4], rfl, ⟨0, .leaf (by simp)⟩, .leaf, by simp [Database.subLevel],
        fun _ _ => trivial⟩

section Ranges

variable (D : Database κ δ) (db : MainDb κ δ) (key : κ) (c : MainCursor κ δ) (valid : D.Valid db)
  (ready : Ready db c) (sized : D.keySize key ≠ 0)
include valid ready sized

theorem intoIterFrom_items : ∃ iter, intoIterFrom D db key c = some iter ∧
    iter.Yields D db ((items D db).filter fun item => decide (key ≤ item.1)) := by
  rcases setRange_cases valid ready sized with
    ⟨answer, c', root, x, rest, v, post, got, rooted, from_eq, located, _⟩ | ⟨c', got, _, past, absent⟩
  · refine ⟨_, by rw [intoIterFrom, got], ?_⟩
    rw [items_from valid rooted, from_eq, Level.Meaning.items_cons, located.onto.itemsOf]
    exact yields_current valid rooted (.on located) fun _ standing steady => yields_next valid rooted steady standing
  · refine ⟨_, by rw [intoIterFrom, got], ?_⟩
    have nothing : (items D db).filter (fun item => decide (key ≤ item.1)) = [] := by
      cases rooted : db.root with
      | none => simp [items, rooted]
      | some root => rw [items_from valid rooted, absent root rooted, Level.Meaning.items_nil]
    exact nothing ▸ yields_past past

theorem intoIterFromRev_items : ∃ iter, intoIterFromRev D db key c = some iter ∧
    iter.Yields D db ((items D db).filter fun item => decide (item.1 ≤ key)).reverse := by
  have beyond : ∀ k, key < k → decide (k ≤ key) = false := fun k greater => decide_eq_false (not_le.2 greater)
  have all_below (root : Page κ (Node κ δ)) : (nodesBelow D.mainLevel key root.nodes).filter
      (fun x => decide (x.key ≤ key)) = nodesBelow D.mainLevel key root.nodes := by
    rw [List.filter_eq_self]
    intro x here
    simpa using (key_of_below x here).le
  rcases set_cases valid ready sized with
    ⟨answer, c', root, x, rest, v, post, got, rooted, from_eq, same, located, _⟩ | ⟨c', got, ready', absent⟩
  · obtain ⟨_, c', pre, w, moved, located, _⟩ := lastDup_located valid rooted located
    refine ⟨.ok c' .getCurrent .prev, by rw [intoIterFromRev, got]; simp [moved], ?_⟩
    rw [items_found beyond valid rooted (by simp) from_eq same, all_below root, located.onto.itemsOf, List.map_nil,
      ← List.append_assoc, List.reverse_append]
    exact yields_current valid rooted (.on located) fun _ standing steady => yields_prev valid rooted steady standing
  · rcases setRange_cases valid ready' sized with
      ⟨answer, c', root, x, rest, v, post, got', rooted, from_eq, located, steady⟩ |
        ⟨c', got', ready', _, none_from⟩
    · refine ⟨.ok c' .prev .prev, by rw [intoIterFromRev, got]; simp [got'], ?_⟩
      rw [items_absent beyond valid rooted (absent root rooted), all_below root]
      have yields := yields_prev valid rooted steady (.on located)
      rwa [List.map_nil, List.append_nil] at yields
    · refine ⟨.ok c' .last .prev, by rw [intoIterFromRev, got]; simp [got'], ?_⟩
      have all_items : (items D db).filter (fun item => decide (item.1 ≤ key)) = items D db := by
        cases rooted : db.root with
        | none => simp [items, rooted]
        | some root =>
          rw [items_absent beyond valid rooted (absent root rooted), all_below root, items, rooted]
          conv =>
            rhs
            rw [Option.elim_some, ← nodesBelow_append_nodesFrom (L := D.mainLevel) key root.nodes,
              none_from root rooted, List.append_nil]
      rw [all_items]
      exact yields_last valid ready'

end Ranges

/-- Iterating from a key, and from the start, is the same in all states of the cursor. -/
theorem intoIterFrom_yields (D : Database κ δ) (db : MainDb κ δ) (key : κ) (c : MainCursor κ δ)
    (valid : D.Valid db) (ready : Ready db c) (sized : D.keySize key ≠ 0) :
    (∃ iter, intoIterFrom D db key c = some iter ∧
      iter.Yields D db ((items D db).filter fun item => decide (key ≤ item.1))) ∧
    (intoIterStart c).Yields D db (items D db) ∧ (items D db).Pairwise Before :=
  ⟨intoIterFrom_items D db key c valid ready sized, yields_first valid ready, items_before valid⟩

theorem intoIterFrom_yields_two :
    (∃ iter, intoIterFrom sorted threeItems 2 MainCursor.opened = some iter ∧
      iter.Yields sorted threeItems [(2, 3), (2, 4)]) ∧
    (intoIterStart MainCursor.opened).Yields sorted threeItems [(1, 5), (2, 3), (2, 4)] :=
  have yields := intoIterFrom_yields sorted threeItems 2 MainCursor.opened threeItems_valid nofun (by decide)
  ⟨yields.1, yields.2.1⟩

/-- Iterating back from a key, and from the end, is too. -/
theorem intoIterFromRev_yields (D : Database κ δ) (db : MainDb κ δ) (key : κ) (c : MainCursor κ δ)
    (valid : D.Valid db) (ready : Ready db c) (sized : D.keySize key ≠ 0) :
    (∃ iter, intoIterFromRev D db key c = some iter ∧
      iter.Yields D db ((items D db).filter fun item => decide (item.1 ≤ key)).reverse) ∧
    (intoIterRev c).Yields D db (items D db).reverse ∧ (intoIterStart c).Yields D db (items D db) ∧
    (items D db).Pairwise Before :=
  ⟨intoIterFromRev_items D db key c valid ready sized, yields_last valid ready, yields_first valid ready,
    items_before valid⟩

theorem intoIterFromRev_yields_two :
    (∃ iter, intoIterFromRev sorted threeItems 2 MainCursor.opened = some iter ∧
      iter.Yields sorted threeItems [(2, 4), (2, 3), (1, 5)]) ∧
    (intoIterRev MainCursor.opened).Yields sorted threeItems [(2, 4), (2, 3), (1, 5)] :=
  have yields := intoIterFromRev_yields sorted threeItems 2 MainCursor.opened threeItems_valid nofun (by decide)
  ⟨yields.1, yields.2.1⟩

section Duplicates

variable {D : Database κ δ} {db : MainDb κ δ} {root : Page κ (Node κ δ)} {c : MainCursor κ δ}
  {front back : List (Node κ δ)} {x : Node κ δ} {pre post : List δ} {v : δ}

theorem yields_nextDup (valid : D.Valid db) (rooted : db.root = some root) (sorts : D.dupSort = true)
    (located : D.mainMeaning.Located root c front x back pre v post) (steady : c.del = false) :
    (Iter.ok c .nextDup .nextDup).Yields D db (post.map fun w => (x.key, w)) := by
  have lawful := Database.mainLawful (D := D) valid.fixed
  have tree := valid.tree root rooted
  induction post generalizing c pre v with
  | nil =>
    obtain ⟨c', answer, _⟩ := lawful.nextDup_last tree db sorts located steady
    exact yields_done (by rw [getOp, answer]; rfl)
  | cons w post ih =>
    obtain ⟨c', answer, steady', located'⟩ := lawful.next_within tree db (by decide : StepOp.dup ≠ .nodup)
      located steady
    have got : mdbCursorGet D db .nextDup none none c =
        some ⟨0, some x.key, some (.value w), { c' with del := false }⟩ := by
      simp only [mdbCursorGet, getOp, answer]
      rfl
    refine .item (@next_item κ δ _ _ D db c (x.key, w) .nextDup .nextDup _ got) ?_
    exact ih (located'.setDel false) rfl

/-- It steps on to other keys where the database is not `DUP_SORT`. -/
theorem yields_nextDup_plain (valid : D.Valid db) (rooted : db.root = some root) (plain : D.dupSort = false)
    {before after : List (κ × δ)} {item : κ × δ} (standing : D.mainMeaning.Standing root c before item after)
    (steady : c.del = false) : (Iter.ok c .nextDup .nextDup).Yields D db after := by
  refine yields_steps valid rooted (fun c steady => ?_) steady standing
  rw [getOp, getOp, Level.Meaning.nextDup_plain db plain steady]

theorem yields_behind (valid : D.Valid db) (ready : Ready db c) :
    ∃ answer c', get D db none none .last c = some (answer, c') ∧ (Iter.ok c' .next .next).Yields D db [] := by
  cases rooted : db.root with
  | none =>
    have fresh := ready.fresh rooted
    have got : get D db none none .last c =
        some (.error .notFound, { D.mainLevel.clearXcursor c with del := false }) := by
      simp [get, mdbCursorGet, getOp, Level.Meaning.last_empty rooted fresh, Answer.got, Answer.fail,
        Answer.mapCursor, Error.fromErrCode, mdbNotfound]
    exact ⟨_, _, got, yields_done (by rw [getOp, Level.Meaning.next_empty rooted (by simpa using fresh) rfl]; rfl)⟩
  | some root =>
    obtain ⟨before, item, reached⟩ := (Database.mainLawful valid.fixed).last_standing
      (valid.tree root rooted) rooted (ready.path rooted)
    obtain ⟨c', got, standing, steady⟩ := mdbCursorGet_reaches .last none none rfl reached
    have got' : get D db none none .last c =
        some (.ok (some (.written item.1), .written (.value item.2)), c') := by
      simp [get, got, valToSlice]
    exact ⟨_, _, got', yields_next valid rooted steady standing⟩

end Duplicates

/-- Iterating over the items of one key. Without `DUP_SORT` the iteration does not end with
the key, and is right where the key is not there or nothing is behind it. -/
theorem intoIterDupOf_yields (D : Database κ δ) (db : MainDb κ δ) (key : κ) (c : MainCursor κ δ)
    (valid : D.Valid db) (ready : Ready db c) (sized : D.keySize key ≠ 0) :
    (∃ iter, intoIterDupOf D db key c = some iter ∧
      iter.Yields D db ((items D db).filter fun item => decide (item.1 = key))) ↔
    D.dupSort = true ∨ (∀ item ∈ items D db, item.1 ≠ key) ∨ ∀ item ∈ items D db, item.1 ≤ key := by
  have beyond : ∀ k, key < k → decide (k = key) = false := fun k greater => decide_eq_false greater.ne'
  have none_below (root : Page κ (Node κ δ)) :
      (nodesBelow D.mainLevel key root.nodes).filter (fun x => decide (x.key = key)) = [] := by
    rw [List.filter_eq_nil_iff]
    intro x here
    simpa using (key_of_below x here).ne
  rcases set_cases valid ready sized with
    ⟨answer, c', root, x, rest, v, post, got, rooted, from_eq, same, located, steady⟩ |
      ⟨c', got, ready', absent⟩
  · have called : intoIterDupOf D db key c = some (.ok c' .getCurrent .nextDup) := by rw [intoIterDupOf, got]
    have lawful := Database.mainLawful (D := D) valid.fixed
    have standing := Level.Meaning.Standing.on located
    have current : (items D db).filter (fun item => decide (item.1 = key)) =
        (x.key, v) :: post.map fun w => (x.key, w) := by
      rw [items_found beyond valid rooted (by simp) from_eq same, none_below root, Level.Meaning.items_nil,
        List.nil_append, located.onto.itemsOf]
      rfl
    rw [current]
    cases sorts : D.dupSort with
    | true =>
      obtain ⟨c'', answer, _, located'⟩ := lawful.getCurrent_located (valid.tree root rooted) located
      have first : mdbCursorGet D db .getCurrent none none c' =
          some ⟨0, some x.key, some (.value v), { c'' with del := false }⟩ := by
        simp only [mdbCursorGet, getOp, answer]
        rfl
      have later := yields_nextDup (c := { c'' with del := false }) valid rooted sorts
        (located'.setDel false) rfl
      have yields := Iter.Yields.item (@next_item κ δ _ _ D db c' (x.key, v) .getCurrent .nextDup _ first) later
      exact ⟨fun _ => .inl rfl, fun _ => ⟨_, called, yields⟩⟩
    | false =>
      have yields : (Iter.ok c' .getCurrent .nextDup).Yields D db
          ((x.key, v) :: ((post.map fun w => (x.key, w)) ++ D.mainMeaning.items rest)) :=
        yields_current valid rooted standing
          fun _ standing steady => yields_nextDup_plain valid rooted sorts standing steady
      have present : ¬ ∀ item ∈ items D db, item.1 ≠ key := by
        intro absent
        exact absent (x.key, v) (by rw [items_of_standing rooted standing]; simp [Database.mainLevel]) same
      rw [items_upTo valid rooted from_eq same]
      constructor
      · rintro ⟨iter, called', yields'⟩
        cases called.symm.trans called'
        have behind := yields.unique yields'
        exact .inr (.inr (by simpa using behind))
      · rintro (sorts' | absent | nothing)
        · cases sorts'
        · exact absurd absent present
        · rw [nothing, List.append_nil] at yields
          exact ⟨_, called, yields⟩
  · have nothing : (items D db).filter (fun item => decide (item.1 = key)) = [] := by
      cases rooted : db.root with
      | none => simp [items, rooted]
      | some root =>
        rw [items_absent beyond valid rooted (absent root rooted), none_below root, Level.Meaning.items_nil]
    obtain ⟨_, c'', got', yields⟩ := yields_behind valid ready'
    have called : intoIterDupOf D db key c = some (.ok c'' .next .next) := by
      rw [intoIterDupOf, got]
      simp [got']
    refine ⟨fun _ => .inr (.inl ?_), fun _ => ⟨_, called, nothing ▸ yields⟩⟩
    simpa [List.filter_eq_nil_iff] using nothing

def plain : Database ℕ ℕ := ⟨false, false, id, id⟩

def twoItems : MainDb ℕ ℕ := ⟨some (.leaf [⟨1, .single 5⟩, ⟨2, .single 6⟩]), 2⟩

theorem twoItems_valid : plain.Valid twoItems where
  fixed := nofun
  tree := by
    rintro _ ⟨⟩
    refine ⟨⟨0, .leaf (by simp)⟩, .leaf, by simp [Database.mainLevel], ?_⟩
    intro x here dup
    simp only [Page.nodes_leaf, List.mem_cons, List.not_mem_nil, or_false] at here
    rcases here with rfl | rfl
    · cases dup
    · cases dup

theorem intoIterDupOf_yields_last : ∃ iter, intoIterDupOf plain twoItems 2 MainCursor.opened = some iter ∧
    iter.Yields plain twoItems [(2, 6)] :=
  (intoIterDupOf_yields plain twoItems 2 MainCursor.opened twoItems_valid nofun (by decide)).2 (by decide)

/-- The items of key 1 are followed by those of key 2. -/
theorem intoIterDupOf_next_key :
    (∃ iter, intoIterDupOf plain twoItems 1 MainCursor.opened = some iter ∧
      iter.Yields plain twoItems [(1, 5), (2, 6)]) ∧
    ¬ ∃ iter, intoIterDupOf plain twoItems 1 MainCursor.opened = some iter ∧
      iter.Yields plain twoItems ((items plain twoItems).filter fun item => decide (item.1 = 1)) := by
  obtain ⟨iter, called, yields⟩ : ∃ iter, intoIterDupOf plain twoItems 1 MainCursor.opened = some iter ∧
      iter.Yields plain twoItems [(1, 5), (2, 6)] := ⟨_, rfl, .item rfl (.item rfl (.done rfl))⟩
  refine ⟨⟨iter, called, yields⟩, ?_⟩
  rintro ⟨iter', called', yields'⟩
  cases called.symm.trans called'
  cases yields.unique yields'

end SamLmdb
