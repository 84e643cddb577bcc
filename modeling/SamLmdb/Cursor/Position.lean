import SamLmdb.Cursor.Move

/-!
Where a cursor stands. The nodes of a tree and the duplicates of its nodes make one list
of items; a cursor stands between those before and those after its own, and every
function that moves is a function of this position. The xcursor is an assumption here.
-/

namespace SamLmdb

open PageTree

variable {κ δ ν ξ : Type}

section Spots

variable {root page : Page κ ν} {i : ℕ} {outer : Stack κ ν} {front back : List ν} {x : ν}

theorem path_forward {nodes : List ν} (path : Path root 0 ((.leaf nodes, i) :: outer)) :
    (ahead ((.leaf nodes, i) :: outer) = [] ∧ nodes.length ≤ i + 1 ∧
      mdbCursorSibling true ((.leaf nodes, i) :: outer) = some none) ∨
    ∃ y back stack, ahead ((.leaf nodes, i) :: outer) = y :: back ∧
      Spot root stack (upTo ((.leaf nodes, i) :: outer)) y back ∧
      (i + 1 < nodes.length ∧ stack = (.leaf nodes, i + 1) :: outer ∨
        nodes.length ≤ i + 1 ∧ mdbCursorSibling true ((.leaf nodes, i) :: outer) = some (some stack)) := by
  rw [ahead, upTo]
  rcases Nat.lt_or_ge (i + 1) nodes.length with more | last
  · right
    have next : nodes[i + 1]? = some nodes[i + 1] := List.getElem?_eq_getElem more
    refine ⟨nodes[i + 1], _, _, ?_, Spot.on (path.at (i + 1)) next, .inl ⟨more, rfl⟩⟩
    rw [← List.getElem_cons_drop more, List.cons_append]
  · rcases mdbCursorSibling_right path with ⟨stays, nothing⟩ | ⟨right, outer', moves, path', left_eq, right_eq⟩
    · left
      simp [nothing, last, stays]
    · right
      have leaf := path'.uniform
      cases leaf with
      | @leaf nodes' nonempty =>
      obtain ⟨y, rest, rfl⟩ := List.exists_cons_of_ne_nil nonempty
      have moved := Spot.on (x := y) path' rfl
      refine ⟨y, rest ++ rightOf outer', _, ?_, ?_, .inr ⟨last, moves⟩⟩
      · rw [List.drop_eq_nil_of_le last, ← right_eq]
        simp
      · rw [List.take_of_length_le last]
        rw [Page.nodes_leaf] at left_eq
        simpa [left_eq] using moved

theorem spot_forward (spot : Spot root ((page, i) :: outer) front x back) :
    (back = [] ∧ page.numkeys ≤ i + 1 ∧ mdbCursorSibling true ((page, i) :: outer) = some none) ∨
    ∃ y back' stack, back = y :: back' ∧ Spot root stack (front ++ [x]) y back' ∧
      (i + 1 < page.numkeys ∧ stack = (page, i + 1) :: outer ∨
        page.numkeys ≤ i + 1 ∧ mdbCursorSibling true ((page, i) :: outer) = some (some stack)) := by
  obtain ⟨nodes, rfl, _, path, _, _⟩ := spot.top
  rw [← spot.ahead, ← spot.upTo]
  exact path_forward path

/-- One node to the left of a gap. -/
theorem gap_backward (gap : Gap root ((page, i) :: outer) front back) :
    (front = [] ∧ i = 0 ∧ mdbCursorSibling false ((page, i) :: outer) = some none) ∨
    ∃ y front' stack, front = front' ++ [y] ∧ Spot root stack front' y back ∧
      ((∃ j, i = j + 1 ∧ stack = (page, j) :: outer) ∨
        i = 0 ∧ mdbCursorSibling false ((page, i) :: outer) = some (some stack)) := by
  obtain ⟨nodes, rfl, upTo, path, rfl, rfl⟩ := gap.top
  cases i with
  | succ j =>
    right
    have previous : nodes[j]? = some nodes[j] := List.getElem?_eq_getElem upTo
    refine ⟨nodes[j], _, _, ?_, Spot.on (path.at j) previous, .inl ⟨j, rfl, rfl⟩⟩
    rw [List.append_assoc, List.take_append_getElem upTo]
  | zero =>
    rcases mdbCursorSibling_left path with ⟨stays, nothing⟩ | ⟨left, outer', moves, path', left_eq, right_eq⟩
    · left
      simp [nothing, stays]
    · right
      have leaf := path'.uniform
      cases leaf with
      | @leaf nodes' nonempty =>
      have last : nodes'[nodes'.length - 1]? = some (nodes'.getLast nonempty) := by
        rw [List.getLast_eq_getElem]
        exact List.getElem?_eq_getElem _
      have moved := Spot.on path' last
      refine ⟨nodes'.getLast nonempty, leftOf outer' ++ nodes'.dropLast, _, ?_, ?_, .inr ⟨rfl, moves⟩⟩
      · rw [← left_eq, Page.nodes_leaf, List.take_zero, List.append_nil, List.append_assoc,
          List.dropLast_append_getLast nonempty]
      · have past : nodes'.drop (nodes'.length - 1 + 1) = [] := List.drop_eq_nil_of_le (by omega)
        rw [Page.numkeys_leaf, past, ← List.dropLast_eq_take, right_eq] at moved
        simpa using moved

theorem spot_backward (spot : Spot root ((page, i) :: outer) front x back) :
    (front = [] ∧ i = 0 ∧ mdbCursorSibling false ((page, i) :: outer) = some none) ∨
    ∃ y front' stack, front = front' ++ [y] ∧ Spot root stack front' y (x :: back) ∧
      ((∃ j, i = j + 1 ∧ stack = (page, j) :: outer) ∨
        i = 0 ∧ mdbCursorSibling false ((page, i) :: outer) = some (some stack)) :=
  gap_backward spot.gap

end Spots

/-- What the nodes of a level mean, and when the xcursor stands on a value of one. -/
structure Level.Meaning (L : Level κ δ ν ξ) where
  WellFormed : ν → Prop
  values : ν → List δ
  On : ν → List δ → δ → List δ → ξ → Prop

namespace Level

def shown (L : Level κ δ ν ξ) (v : δ) : Option δ := if L.readsData then some v else none

/-- The functions of the xcursor keep to the meaning. -/
structure Meaning.Lawful {L : Level κ δ ν ξ} (M : L.Meaning) : Prop where
  nonempty : ∀ x, M.WellFormed x → M.values x ≠ []
  single : ∀ x, M.WellFormed x → L.dupdata x = false →
    ∃ v, M.values x = [v] ∧ (L.readsData → L.read x = some v)
  dupsort : ∀ x, M.WellFormed x → L.dupdata x = true → L.dupsort = true
  readsData : ∀ x, M.WellFormed x → L.dupdata x = true → L.readsData = true
  plain : L.readsData = true → L.leaf2 = false
  first : ∀ x ξ v post, M.WellFormed x → L.dupdata x = true → M.values x = v :: post →
    ∃ ξ', L.first (L.init1 x ξ) = some ⟨0, some v, none, ξ'⟩ ∧ M.On x [] v post ξ'
  last : ∀ x ξ pre v, M.WellFormed x → L.dupdata x = true → M.values x = pre ++ [v] →
    ∃ ξ', L.last (L.init1 x ξ) = some ⟨0, some v, none, ξ'⟩ ∧ M.On x pre v [] ξ'
  next : ∀ x ξ pre v w post, M.WellFormed x → M.On x pre v (w :: post) ξ →
    ∃ ξ', L.next ξ = some ⟨0, some w, none, ξ'⟩ ∧ M.On x (pre ++ [v]) w post ξ'
  next_end : ∀ x ξ pre v, M.WellFormed x → M.On x pre v [] ξ →
    ∃ ξ', L.next ξ = some (.fail mdbNotfound ξ') ∧ M.On x pre v [] ξ'
  prev : ∀ x ξ pre u v post, M.WellFormed x → M.On x (pre ++ [u]) v post ξ →
    ∃ ξ', L.prev ξ = some ⟨0, some u, none, ξ'⟩ ∧ M.On x pre u (v :: post) ξ'
  prev_end : ∀ x ξ v post, M.WellFormed x → M.On x [] v post ξ →
    ∃ ξ', L.prev ξ = some (.fail mdbNotfound ξ') ∧ M.On x [] v post ξ'
  getCurrent : ∀ x ξ pre v post, M.WellFormed x → M.On x pre v post ξ →
    ∃ ξ', L.getCurrent ξ = some ⟨0, some v, none, ξ'⟩ ∧ M.On x pre v post ξ'

end Level

namespace Level.Meaning

variable {L : Level κ δ ν ξ} (M : L.Meaning)

def itemsOf (x : ν) : List (κ × δ) := (M.values x).map fun v => (L.key x, v)

def items (nodes : List ν) : List (κ × δ) := nodes.flatMap M.itemsOf

@[simp] theorem items_nil : M.items [] = [] := rfl

@[simp] theorem items_cons (x : ν) (nodes : List ν) : M.items (x :: nodes) = M.itemsOf x ++ M.items nodes := rfl

@[simp] theorem items_append (front back : List ν) : M.items (front ++ back) = M.items front ++ M.items back := by
  simp [items]

/-- The xcursor's part of a position; there is none on a node with one value. -/
def Onto (x : ν) (pre : List δ) (v : δ) (post : List δ) (mx : ξ) : Prop :=
  if L.dupdata x then M.On x pre v post mx ∧ M.values x = pre ++ v :: post
  else M.values x = [v] ∧ pre = [] ∧ post = []

/-- The cursor is on `v` of the node `x`. -/
structure Located (root : Page κ ν) (c : Cursor κ ν ξ) (front : List ν) (x : ν) (back : List ν)
    (pre : List δ) (v : δ) (post : List δ) : Prop where
  initialized : c.initialized = true
  spot : Spot root c.stack front x back
  onto : M.Onto x pre v post c.xcursor
  eof : c.eof = true → back = [] ∧ post = []

/-- The cursor is on `item`, between the items before and after it. -/
inductive Standing (root : Page κ ν) (c : Cursor κ ν ξ) : List (κ × δ) → κ × δ → List (κ × δ) → Prop
  | on {front x back pre v post} : M.Located root c front x back pre v post →
      Standing root c (M.items front ++ pre.map fun v => (L.key x, v)) (L.key x, v)
        ((post.map fun v => (L.key x, v)) ++ M.items back)

structure Tree [LinearOrder κ] (root : Page κ ν) : Prop where
  uniform : ∃ n, root.Uniform n
  separated : root.Separated L.key
  sorted : root.nodes.Pairwise fun x y => L.key x < L.key y
  nodes : ∀ x ∈ root.nodes, M.WellFormed x

def Landed (answer : Option (Answer κ δ (Cursor κ ν ξ))) (c : Cursor κ ν ξ) (x : ν)
    (pre : List δ) (v : δ) (post : List δ) : Prop :=
  ∃ ξ', answer = some ⟨0, some (L.key x), L.shown v, { c with xcursor := ξ' }⟩ ∧ M.Onto x pre v post ξ'

variable {M}

section Fetch

variable (lawful : M.Lawful) {c : Cursor κ ν ξ} {x : ν} {pre post : List δ} {v : δ}
include lawful

theorem Lawful.fetch_single {sub : SubCall δ ξ} (wf : M.WellFormed x) (single : L.dupdata x = false)
    (values : M.values x = [v]) : M.Landed (L.fetch sub x c) c x [] v [] := by
  obtain ⟨w, values', read⟩ := lawful.single x wf single
  cases values.symm.trans values'
  refine ⟨c.xcursor, ?_, by simp [Onto, single, values]⟩
  cases shows : L.readsData with
  | false => simp [fetch, shows, shown]
  | true => simp [fetch, shows, shown, lawful.plain shows, single, read shows]

theorem Lawful.fetch_first (wf : M.WellFormed x) (values : M.values x = v :: post) :
    M.Landed (L.fetch L.first x c) c x [] v post := by
  cases dup : L.dupdata x with
  | false =>
    obtain ⟨w, single, _⟩ := lawful.single x wf dup
    cases values.symm.trans single
    exact lawful.fetch_single wf dup values
  | true =>
    have shows := lawful.readsData x wf dup
    obtain ⟨ξ', answer, on⟩ := lawful.first x c.xcursor v post wf dup values
    refine ⟨ξ', ?_, ?_⟩
    · simp [fetch, shows, shown, lawful.plain shows, dup, answer]
    · simp [Onto, dup, on, values]

theorem Lawful.fetch_last (wf : M.WellFormed x) (values : M.values x = pre ++ [v]) :
    M.Landed (L.fetch L.last x c) c x pre v [] := by
  cases dup : L.dupdata x with
  | false =>
    obtain ⟨w, single, _⟩ := lawful.single x wf dup
    rw [values] at single
    obtain ⟨rfl, same⟩ := List.append_inj' (show pre ++ [v] = [] ++ [w] from single) rfl
    cases same
    exact lawful.fetch_single wf dup values
  | true =>
    have shows := lawful.readsData x wf dup
    obtain ⟨ξ', answer, on⟩ := lawful.last x c.xcursor pre v wf dup values
    refine ⟨ξ', ?_, ?_⟩
    · simp [fetch, shows, shown, lawful.plain shows, dup, answer]
    · simp [Onto, dup, on, values]

end Fetch

section Answers

variable (M)

/-- The call succeeds on `item` and the cursor stands on it. -/
def Reaches (root : Page κ ν) (del : Bool) (answer : Option (Answer κ δ (Cursor κ ν ξ)))
    (before : List (κ × δ)) (item : κ × δ) (after : List (κ × δ)) : Prop :=
  ∃ c, answer = some ⟨0, some item.1, L.shown item.2, c⟩ ∧ M.Standing root c before item after ∧ c.del = del

def Stays (root : Page κ ν) (answer : Option (Answer κ δ (Cursor κ ν ξ)))
    (before : List (κ × δ)) (item : κ × δ) (after : List (κ × δ)) : Prop :=
  ∃ c, answer = some (.fail mdbNotfound c) ∧ M.Standing root c before item after ∧ c.del = false

/-- A step forward: on the item after, unless there is none. -/
def Forward (root : Page κ ν) (answer : Option (Answer κ δ (Cursor κ ν ξ)))
    (before : List (κ × δ)) (item : κ × δ) : List (κ × δ) → Prop
  | [] => M.Stays root answer before item []
  | item' :: after => M.Reaches root false answer (before ++ [item]) item' after

def Backward (root : Page κ ν) (answer : Option (Answer κ δ (Cursor κ ν ξ)))
    (before : List (κ × δ)) (item : κ × δ) (after : List (κ × δ)) : Prop :=
  (before = [] ∧ M.Stays root answer [] item after) ∨
    ∃ before' item', before = before' ++ [item'] ∧ M.Reaches root false answer before' item' (item :: after)

variable {M} {root : Page κ ν} {c : Cursor κ ν ξ} {front back : List ν} {x : ν} {pre post : List δ} {v : δ}

theorem Onto.values {mx : ξ} (onto : M.Onto x pre v post mx) : M.values x = pre ++ v :: post := by
  unfold Onto at onto
  split at onto
  · exact onto.2
  · obtain ⟨values, rfl, rfl⟩ := onto
    exact values

theorem Onto.itemsOf {mx : ξ} (onto : M.Onto x pre v post mx) :
    M.itemsOf x = (pre.map fun v => (L.key x, v)) ++ (L.key x, v) :: post.map fun v => (L.key x, v) := by
  rw [Meaning.itemsOf, onto.values]
  simp

theorem Standing.items_eq {before after : List (κ × δ)} {item : κ × δ}
    (standing : M.Standing root c before item after) : M.items root.nodes = before ++ item :: after := by
  cases standing with
  | on located =>
    rw [located.spot.nodes_eq]
    simp [located.onto.itemsOf]

theorem Reaches.items_eq {answer : Option (Answer κ δ (Cursor κ ν ξ))} {del : Bool}
    {before after : List (κ × δ)} {item : κ × δ} (reached : M.Reaches root del answer before item after) :
    M.items root.nodes = before ++ item :: after := by
  obtain ⟨_, _, standing, _⟩ := reached
  exact standing.items_eq

theorem Standing.initialized {before after : List (κ × δ)} {item : κ × δ}
    (standing : M.Standing root c before item after) : c.initialized = true := by
  cases standing with
  | on located => exact located.initialized

theorem Standing.path {before after : List (κ × δ)} {item : κ × δ}
    (standing : M.Standing root c before item after) : Path root 0 c.stack := by
  cases standing with
  | on located => exact located.spot.path

theorem Standing.exists_located {before after : List (κ × δ)} {key : κ} {v : δ}
    (standing : M.Standing root c before (key, v) after) :
    ∃ front x back pre post, key = L.key x ∧ before = M.items front ++ pre.map (fun v => (L.key x, v)) ∧
      after = (post.map fun v => (L.key x, v)) ++ M.items back ∧ M.Located root c front x back pre v post := by
  generalize named : (key, v) = item at standing
  cases standing with
  | @on front x back pre _ post located =>
    cases named
    exact ⟨front, x, back, pre, post, rfl, rfl, rfl, located⟩

theorem Located.setDel (located : M.Located root c front x back pre v post) (del : Bool) :
    M.Located root { c with del := del } front x back pre v post :=
  ⟨located.initialized, located.spot, located.onto, located.eof⟩

theorem Standing.setDel {before after : List (κ × δ)} {item : κ × δ}
    (standing : M.Standing root c before item after) (del : Bool) :
    M.Standing root { c with del := del } before item after := by
  cases standing with
  | on located => exact .on (located.setDel del)

theorem Landed.reaches {answer : Option (Answer κ δ (Cursor κ ν ξ))} (landed : M.Landed answer c x pre v post)
    (initialized : c.initialized = true) (spot : Spot root c.stack front x back)
    (eof : c.eof = true → back = [] ∧ post = []) :
    M.Reaches root c.del answer (M.items front ++ pre.map fun v => (L.key x, v)) (L.key x, v)
      ((post.map fun v => (L.key x, v)) ++ M.items back) := by
  obtain ⟨ξ', rfl, onto⟩ := landed
  exact ⟨_, rfl, .on ⟨initialized, spot, onto, eof⟩, rfl⟩

theorem nodeptr_of_spot (spot : Spot root c.stack front x back) : nodeptr c = some x := by
  unfold nodeptr
  generalize c.stack = stack at spot
  cases spot with
  | on _ here => exact here

theorem fetchTop_of_spot {sub : SubCall δ ξ} (spot : Spot root c.stack front x back) :
    L.fetchTop sub c = L.fetch sub x c := by
  rw [fetchTop, nodeptr_of_spot spot]

theorem Lawful.consult_within (lawful : M.Lawful) {sub : SubCall δ ξ} {w : δ} {ξ' : ξ} {op : StepOp}
    (stays : op ≠ .nodup) (wf : M.WellFormed x)
    (here : nodeptr c = some x) (dup : L.dupdata x = true) (answer : sub c.xcursor = some ⟨0, some w, none, ξ'⟩) :
    L.consult sub op c =
      some (.inl ⟨0, some (L.key x), L.shown w, { c with xcursor := ξ', eof := false }⟩) := by
  simp [consult, lawful.dupsort x wf dup, here, dup, stays, answer, shown, lawful.readsData x wf dup,
    mdbNotfound_ne_zero.symm]

theorem Lawful.consult_leave (lawful : M.Lawful) {sub : SubCall δ ξ} (wf : M.WellFormed x)
    (here : nodeptr c = some x) (onto : M.Onto x pre v post c.xcursor)
    (ends : L.dupdata x = true → ∃ ξ', sub c.xcursor = some (.fail mdbNotfound ξ') ∧ M.On x pre v post ξ') :
    ∃ ξ', L.consult sub .item c = some (.inr { c with xcursor := ξ' }) ∧ M.Onto x pre v post ξ' := by
  cases dup : L.dupdata x with
  | true =>
    obtain ⟨ξ', answer, on⟩ := ends dup
    rw [Onto, if_pos dup] at onto
    refine ⟨ξ', ?_, by simpa [Onto, dup] using ⟨on, onto.2⟩⟩
    simp [consult, lawful.dupsort x wf dup, here, dup, answer, Answer.fail]
  | false =>
    rw [Onto, if_neg (by simp [dup])] at onto
    cases sorts : L.dupsort with
    | false => exact ⟨c.xcursor, by simp [consult, sorts], by simpa [Onto, dup] using onto⟩
    | true =>
      exact ⟨L.clear c.xcursor, by simp [consult, sorts, here, dup], by simpa [Onto, dup] using onto⟩

end Answers

section Moves

variable [LinearOrder κ] (lawful : M.Lawful) {db : Db κ ν} {root : Page κ ν} {c : Cursor κ ν ξ}
include lawful

omit lawful [LinearOrder κ] in
theorem Located.stacked {front back : List ν} {x : ν} {pre post : List δ} {v : δ}
    (located : M.Located root c front x back pre v post) :
    ∃ nodes i outer, c.stack = (.leaf nodes, i) :: outer := by
  have spot := located.spot
  generalize c.stack = stack at spot
  cases spot with
  | on => exact ⟨_, _, _, rfl⟩

omit lawful [LinearOrder κ] in
theorem Located.wellFormed [LinearOrder κ] (tree : M.Tree root) {front back : List ν} {x : ν}
    {pre post : List δ} {v : δ} (located : M.Located root c front x back pre v post) : M.WellFormed x :=
  tree.nodes x (by rw [located.spot.nodes_eq]; simp)

section Next

variable (tree : M.Tree root) {front back : List ν} {x y : ν} {pre post : List δ} {v w : δ}
include tree

omit lawful tree in
theorem mdbCursorNext_eq (op : StepOp) (initialized : c.initialized = true) (steady : c.del = false)
    (open_ : atEof c = false) :
    mdbCursorNext L db op c =
      (L.consult L.next op { c with eof := false }).bind (Sum.elim some (advance L)) := by
  simp [mdbCursorNext, initialized, steady, open_]

theorem Lawful.next_within (db : Db κ ν) {op : StepOp} (stays : op ≠ .nodup)
    (located : M.Located root c front x back pre v (w :: post)) (steady : c.del = false) :
    ∃ c', mdbCursorNext L db op c = some ⟨0, some (L.key x), L.shown w, c'⟩ ∧ c'.del = false ∧
      M.Located root c' front x back (pre ++ [v]) w post := by
  have wf := located.wellFormed tree
  have open_ : c.eof = false := by
    by_contra ended
    exact absurd (located.eof (by simpa using ended)).2 (by simp)
  obtain ⟨nodes, i, outer, stacked⟩ := located.stacked
  cases dup : L.dupdata x with
  | false => simpa [Onto, dup] using located.onto
  | true =>
    have ⟨on, values⟩ : M.On x pre v (w :: post) c.xcursor ∧ M.values x = pre ++ v :: w :: post := by
      simpa [Onto, dup] using located.onto
    obtain ⟨ξ', answer, on'⟩ := lawful.next x c.xcursor pre v w post wf on
    have consulted := lawful.consult_within (c := { c with eof := false }) stays wf
      (nodeptr_of_spot located.spot) dup answer
    refine ⟨{ c with eof := false, xcursor := ξ' }, ?_, steady, ?_⟩
    · rw [mdbCursorNext_eq _ located.initialized steady (by simp [atEof, stacked, open_]), consulted]
      rfl
    · exact ⟨located.initialized, located.spot, by simp [Onto, dup, on', values], nofun⟩

/-- Where the duplicates end, the step goes on from the same node. -/
theorem Lawful.consult_next (located : M.Located root c front x back pre v []) :
    ∃ ξ', L.consult L.next .item { c with eof := false } = some (.inr { c with eof := false, xcursor := ξ' }) ∧
      M.Onto x pre v [] ξ' := by
  have wf := located.wellFormed tree
  refine lawful.consult_leave (c := { c with eof := false }) wf (nodeptr_of_spot located.spot) located.onto ?_
  intro dup
  have ⟨on, _⟩ : M.On x pre v [] c.xcursor ∧ M.values x = pre ++ [v] := by
    simpa [Onto, dup] using located.onto
  exact lawful.next_end x c.xcursor pre v wf on

theorem Lawful.next_leave (db : Db κ ν) (located : M.Located root c front x (y :: back) pre v [])
    (steady : c.del = false) (values : M.values y = w :: post) :
    ∃ c', mdbCursorNext L db .item c = some ⟨0, some (L.key y), L.shown w, c'⟩ ∧ c'.del = false ∧
      M.Located root c' (front ++ [x]) y back [] w post := by
  have open_ : c.eof = false := by
    by_contra ended
    exact absurd (located.eof (by simpa using ended)).1 (by simp)
  obtain ⟨nodes, i, outer, stacked⟩ := located.stacked
  obtain ⟨ξ', consulted, _⟩ := lawful.consult_next tree located
  have spot := located.spot
  rw [stacked] at spot
  rcases spot_forward spot with ⟨nothing, _, _⟩ | ⟨_, _, stack, same, spot', moved⟩
  · cases nothing
  cases same
  have wf : M.WellFormed y := tree.nodes y (by rw [spot'.nodes_eq]; simp)
  have fetched : advance L { c with eof := false, xcursor := ξ' } =
      L.fetch L.first y { c with eof := false, xcursor := ξ', stack := stack } := by
    rcases moved with ⟨more, rfl⟩ | ⟨last, moves⟩
    · rw [Page.numkeys_leaf] at more
      simp only [advance, stacked, steady, Bool.false_eq_true, if_false, Nat.not_le_of_lt more]
      exact fetchTop_of_spot spot'
    · rw [Page.numkeys_leaf] at last
      simp only [advance, stacked, steady, Bool.false_eq_true, if_false, last, if_true, moves]
      exact fetchTop_of_spot spot'
  obtain ⟨ξ'', answer, onto⟩ := lawful.fetch_first
    (c := { c with eof := false, xcursor := ξ', stack := stack }) wf values
  refine ⟨{ c with eof := false, xcursor := ξ'', stack := stack }, ?_, steady, ?_⟩
  · rw [mdbCursorNext_eq _ located.initialized steady (by simp [atEof, stacked, open_]), consulted]
    exact fetched.trans answer
  · exact ⟨located.initialized, spot', onto, nofun⟩

theorem Lawful.next_last (db : Db κ ν) (located : M.Located root c front x [] pre v []) (steady : c.del = false) :
    ∃ c', mdbCursorNext L db .item c = some (.fail mdbNotfound c') ∧ c'.del = false ∧
      M.Located root c' front x [] pre v [] := by
  cases ended : atEof c with
  | true => exact ⟨c, by simp [mdbCursorNext, steady, located.initialized, ended], steady, located⟩
  | false =>
    obtain ⟨nodes, i, outer, stacked⟩ := located.stacked
    obtain ⟨ξ', consulted, onto⟩ := lawful.consult_next tree located
    have spot := located.spot
    rw [stacked] at spot
    rcases spot_forward spot with ⟨_, last, stays⟩ | ⟨_, _, _, nothing, _⟩
    · refine ⟨{ c with eof := true, xcursor := ξ' }, ?_, steady, ?_⟩
      · rw [mdbCursorNext_eq _ located.initialized steady ended, consulted]
        rw [Page.numkeys_leaf] at last
        simp [advance, stacked, steady, last, stays]
      · exact ⟨located.initialized, located.spot, onto, fun _ => ⟨rfl, rfl⟩⟩
    · cases nothing

/-- `MDB_NEXT_DUP` ends with the duplicates of the node. -/
theorem Lawful.nextDup_last (db : Db κ ν) (sorts : L.dupsort = true)
    (located : M.Located root c front x back pre v []) (steady : c.del = false) :
    ∃ c', mdbCursorNext L db .dup c = some (.fail mdbNotfound c') ∧ c'.del = false ∧
      M.Located root c' front x back pre v [] := by
  cases ended : atEof c with
  | true => exact ⟨c, by simp [mdbCursorNext, steady, located.initialized, ended], steady, located⟩
  | false =>
    have wf := located.wellFormed tree
    have here : nodeptr { c with eof := false } = some x := nodeptr_of_spot located.spot
    have onto := located.onto
    rw [mdbCursorNext_eq _ located.initialized steady ended]
    cases dup : L.dupdata x with
    | false =>
      refine ⟨{ c with eof := false, xcursor := L.clear c.xcursor },
        by simp [Level.consult, sorts, here, dup], steady,
        located.initialized, located.spot, ?_, nofun⟩
      simpa [Onto, dup] using onto
    | true =>
      have ⟨on, values⟩ : M.On x pre v [] c.xcursor ∧ M.values x = pre ++ [v] := by
        simpa [Onto, dup] using onto
      obtain ⟨ξ', answer, on'⟩ := lawful.next_end x c.xcursor pre v wf on
      refine ⟨{ c with eof := false, xcursor := ξ' }, by simp [Level.consult, sorts, here, dup, answer,
        Answer.fail], steady,
        located.initialized, located.spot, ?_, nofun⟩
      simpa [Onto, dup] using ⟨on', values⟩

omit lawful tree in
/-- Without duplicates it is `MDB_NEXT`. -/
theorem nextDup_plain (db : Db κ ν) (plain : L.dupsort = false) (steady : c.del = false) :
    mdbCursorNext L db .dup c = mdbCursorNext L db .item c := by
  simp [mdbCursorNext, steady, Level.consult, plain]

end Next

theorem Lawful.next_standing (db : Db κ ν) (tree : M.Tree root) {before after : List (κ × δ)} {item : κ × δ}
    (standing : M.Standing root c before item after) (steady : c.del = false) :
    M.Forward root (mdbCursorNext L db .item c) before item after := by
  cases standing with
  | @on front x back pre v post located =>
  cases post with
  | cons w post =>
    obtain ⟨c', answer, steady', located'⟩ := lawful.next_within tree db (by decide : StepOp.item ≠ .nodup)
      located steady
    have standing := Standing.on located'
    rw [List.map_append, ← List.append_assoc] at standing
    exact ⟨c', answer, standing, steady'⟩
  | nil =>
    cases back with
    | nil =>
      obtain ⟨c', answer, steady', located'⟩ := lawful.next_last tree db located steady
      exact ⟨c', answer, .on located', steady'⟩
    | cons y back =>
      have wf : M.WellFormed y := tree.nodes y (by rw [located.spot.nodes_eq]; simp)
      obtain ⟨w, post, values⟩ := List.exists_cons_of_ne_nil (lawful.nonempty y wf)
      obtain ⟨c', answer, steady', located'⟩ := lawful.next_leave tree db located steady values
      have standing := Standing.on located'
      simp only [items_append, items_cons, items_nil, located.onto.itemsOf, List.map_nil, List.append_nil,
        ← List.append_assoc] at standing
      simp only [List.map_nil, List.nil_append, items_cons, itemsOf, values, List.map_cons, List.cons_append]
      exact ⟨c', answer, standing, steady'⟩

section Prev

variable (tree : M.Tree root) {front back : List ν} {x y : ν} {pre post : List δ} {u v : δ}
include tree

theorem Lawful.prev_within (located : M.Located root c front x back (pre ++ [u]) v post) :
    ∃ c', prevFrom L .item c = some ⟨0, some (L.key x), L.shown u, c'⟩ ∧ c'.del = c.del ∧
      M.Located root c' front x back pre u (v :: post) := by
  have wf := located.wellFormed tree
  cases dup : L.dupdata x with
  | false => simpa [Onto, dup] using located.onto
  | true =>
    have ⟨on, values⟩ : M.On x (pre ++ [u]) v post c.xcursor ∧ M.values x = pre ++ [u] ++ v :: post := by
      simpa [Onto, dup] using located.onto
    obtain ⟨ξ', answer, on'⟩ := lawful.prev x c.xcursor pre u v post wf on
    have consulted := lawful.consult_within (by decide : StepOp.item ≠ .nodup) wf (nodeptr_of_spot located.spot)
      dup answer
    refine ⟨{ c with eof := false, xcursor := ξ' }, ?_, rfl, ?_⟩
    · rw [prevFrom, consulted]
      rfl
    · exact ⟨located.initialized, located.spot, by simp [Onto, dup, on', values], nofun⟩

theorem Lawful.consult_prev (located : M.Located root c front x back [] v post) :
    ∃ ξ', L.consult L.prev .item c = some (.inr { c with xcursor := ξ' }) ∧ M.Onto x [] v post ξ' := by
  have wf := located.wellFormed tree
  refine lawful.consult_leave wf (nodeptr_of_spot located.spot) located.onto ?_
  intro dup
  have ⟨on, _⟩ : M.On x [] v post c.xcursor ∧ M.values x = v :: post := by
    simpa [Onto, dup] using located.onto
  exact lawful.prev_end x c.xcursor v post wf on

theorem Lawful.prev_leave (located : M.Located root c (front ++ [y]) x back [] v post)
    (values : M.values y = pre ++ [u]) :
    ∃ c', prevFrom L .item c = some ⟨0, some (L.key y), L.shown u, c'⟩ ∧ c'.del = false ∧
      M.Located root c' front y (x :: back) pre u [] := by
  obtain ⟨nodes, i, outer, stacked⟩ := located.stacked
  obtain ⟨ξ', consulted, _⟩ := lawful.consult_prev tree located
  have spot := located.spot
  rw [stacked] at spot
  rcases spot_backward spot with ⟨nothing, _, _⟩ | ⟨_, _, stack, same, spot', moved⟩
  · simp at nothing
  obtain ⟨rfl, last⟩ := List.append_inj' same rfl
  cases last
  have wf : M.WellFormed y := tree.nodes y (by rw [spot'.nodes_eq]; simp)
  have fetched : retreat L { c with xcursor := ξ' } =
      L.fetch L.last y { c with eof := false, del := false, xcursor := ξ', stack := stack } := by
    rcases moved with ⟨j, rfl, rfl⟩ | ⟨rfl, moves⟩
    · simp only [retreat, stacked]
      exact fetchTop_of_spot spot'
    · simp only [retreat, stacked, moves]
      exact fetchTop_of_spot spot'
  obtain ⟨ξ'', answer, onto⟩ := lawful.fetch_last
    (c := { c with eof := false, del := false, xcursor := ξ', stack := stack }) wf values
  refine ⟨{ c with eof := false, del := false, xcursor := ξ'', stack := stack }, ?_, rfl, ?_⟩
  · rw [prevFrom, consulted]
    exact fetched.trans answer
  · exact ⟨located.initialized, spot', onto, nofun⟩

theorem Lawful.prev_first (located : M.Located root c [] x back [] v post) :
    ∃ c', prevFrom L .item c = some (.fail mdbNotfound c') ∧ c'.del = false ∧
      M.Located root c' [] x back [] v post := by
  obtain ⟨nodes, i, outer, stacked⟩ := located.stacked
  obtain ⟨ξ', consulted, onto⟩ := lawful.consult_prev tree located
  have spot := located.spot
  rw [stacked] at spot
  rcases spot_backward spot with ⟨_, rfl, stays⟩ | ⟨_, _, _, nothing, _⟩
  · refine ⟨{ c with eof := false, del := false, xcursor := ξ' }, ?_, rfl, ?_⟩
    · rw [prevFrom, consulted]
      simp [retreat, stacked, stays]
    · exact ⟨located.initialized, located.spot, onto, nofun⟩
  · simp at nothing

end Prev

theorem Lawful.prev_standing (tree : M.Tree root) {before after : List (κ × δ)} {item : κ × δ}
    (standing : M.Standing root c before item after) (steady : c.del = false) :
    M.Backward root (prevFrom L .item c) before item after := by
  cases standing with
  | @on front x back pre v post located =>
  rcases List.eq_nil_or_concat pre with rfl | ⟨pre, u, rfl⟩
  · rcases List.eq_nil_or_concat front with rfl | ⟨front, y, rfl⟩
    · obtain ⟨c', answer, steady', located'⟩ := lawful.prev_first tree located
      exact .inl ⟨rfl, c', answer, .on located', steady'⟩
    · rw [List.concat_eq_append] at located
      have wf : M.WellFormed y := tree.nodes y (by rw [located.spot.nodes_eq]; simp)
      obtain ⟨pre, u, values⟩ := List.eq_nil_or_concat (M.values y) |>.resolve_left (lawful.nonempty y wf)
      rw [List.concat_eq_append] at values
      obtain ⟨c', answer, steady', located'⟩ := lawful.prev_leave tree located values
      have standing := Standing.on located'
      simp only [items_cons, located.onto.itemsOf, List.map_nil, List.nil_append, List.cons_append] at standing
      refine .inr ⟨_, (L.key y, u), ?_, c', answer, standing, steady'⟩
      simp [itemsOf, values]
  · rw [List.concat_eq_append] at located
    obtain ⟨c', answer, steady', located'⟩ := lawful.prev_within tree located
    refine .inr ⟨_, (L.key x, u), ?_, c', answer, .on located', steady'.trans steady⟩
    simp

section Ends

variable (tree : M.Tree root) (rooted : db.root = some root)
  (ready : c.initialized = true → Path root 0 c.stack)
include tree rooted ready

omit lawful in
theorem searchEnd_found (target : PageTarget κ) (ends : target = .first ∨ target = .last) :
    ∃ nodes i outer eof, searchEnd db target (L.clearXcursor c) = some (some { L.clearXcursor c with
        stack := (.leaf nodes, i) :: outer, initialized := true, eof := eof }) ∧
      Path root 0 ((.leaf nodes, i) :: outer) ∧ Toward L.key target outer := by
  obtain ⟨n, uniform⟩ := tree.uniform
  rw [searchEnd]
  split
  · obtain ⟨nodes, i, outer, answer, found⟩ := mdbPageSearch_toward (c := L.clearXcursor c) rooted uniform
      tree.separated (by simpa using ready) target
    exact ⟨nodes, i, outer, false, answer, found⟩
  · rename_i positioned
    rw [Level.clearXcursor_initialized, Level.clearXcursor_stack, not_or, Nat.not_lt] at positioned
    have initialized : c.initialized = true := by simpa using positioned.1
    have path := ready initialized
    have short := positioned.2
    have same : (L.clearXcursor c).stack = c.stack := L.clearXcursor_stack c
    generalize c.stack = stack at path short same
    cases path with
    | @root _ i single =>
      have page := single
      cases page with
      | @leaf nodes _ =>
      refine ⟨nodes, i, [], (L.clearXcursor c).eof, ?_, .root single, ?_⟩
      · rw [← same, ← initialized, ← L.clearXcursor_initialized c]
      · rcases ends with rfl | rfl
        · rfl
        · rfl
    | child _ _ => simp at short

theorem Lawful.first_standing :
    ∃ item after, M.Reaches root c.del (mdbCursorFirst L db c) [] item after := by
  obtain ⟨nodes, i, outer, eof, answer, path, nothing⟩ :=
    searchEnd_found tree rooted ready .first (.inl rfl)
  obtain ⟨x, rest, rfl⟩ : ∃ x rest, nodes = x :: rest := by
    cases path.uniform with
    | leaf nonempty => exact List.exists_cons_of_ne_nil nonempty
  have spot := Spot.on (path.at 0) (x := x) rfl
  have wf : M.WellFormed x := tree.nodes x (by rw [spot.nodes_eq]; simp)
  obtain ⟨v, post, values⟩ := List.exists_cons_of_ne_nil (lawful.nonempty x wf)
  have landed := lawful.fetch_first (c := { L.clearXcursor c with
    stack := (.leaf (x :: rest), 0) :: outer, initialized := true, eof := false }) wf values
  have reached := landed.reaches rfl spot nofun
  rw [List.take_zero, List.append_nil, nothing, ← fetchTop_of_spot spot, L.clearXcursor_del] at reached
  have called : mdbCursorFirst L db c = L.fetchTop L.first { L.clearXcursor c with
      stack := (.leaf (x :: rest), 0) :: outer, initialized := true, eof := false } := by
    rw [mdbCursorFirst, answer]
    rfl
  exact ⟨_, _, called ▸ reached⟩

theorem Lawful.last_located :
    ∃ c' front x pre v, mdbCursorLast L db c = some ⟨0, some (L.key x), L.shown v, c'⟩ ∧ c'.del = c.del ∧
      M.Located root c' front x [] pre v [] ∧ M.values x = pre ++ [v] := by
  obtain ⟨nodes, i, outer, eof, answer, path, nothing⟩ :=
    searchEnd_found tree rooted ready .last (.inr rfl)
  obtain ⟨rest, x, rfl⟩ : ∃ rest x, nodes = rest ++ [x] := by
    cases path.uniform with
    | leaf nonempty =>
      obtain ⟨rest, x, same⟩ := (List.eq_nil_or_concat nodes).resolve_left nonempty
      exact ⟨rest, x, by rw [same, List.concat_eq_append]⟩
  have spot := Spot.on (path.at rest.length) (x := x) (by simp)
  have wf : M.WellFormed x := tree.nodes x (by rw [spot.nodes_eq]; simp)
  obtain ⟨pre, v, values⟩ := (List.eq_nil_or_concat (M.values x)).resolve_left (lawful.nonempty x wf)
  rw [List.concat_eq_append] at values
  have past : (rest ++ [x]).drop (rest.length + 1) ++ rightOf outer = [] := by
    rw [List.drop_eq_nil_of_le (by simp), nothing, List.append_nil]
  rw [past] at spot
  obtain ⟨ξ', fetched, onto⟩ := lawful.fetch_last (c := { L.clearXcursor c with
    stack := (.leaf (rest ++ [x]), rest.length) :: outer, initialized := true, eof := true }) wf values
  rw [← fetchTop_of_spot spot] at fetched
  refine ⟨{ L.clearXcursor c with
    stack := (.leaf (rest ++ [x]), rest.length) :: outer, initialized := true, eof := true, xcursor := ξ' },
    _, x, pre, v, ?_, L.clearXcursor_del c, ⟨rfl, spot, onto, fun _ => ⟨rfl, rfl⟩⟩, values⟩
  rw [mdbCursorLast, answer]
  simpa [Cursor.numkeys, Cursor.setIndex] using fetched

theorem Lawful.last_standing :
    ∃ before item, M.Reaches root c.del (mdbCursorLast L db c) before item [] := by
  obtain ⟨c', front, x, pre, v, answer, same, located, _⟩ := lawful.last_located tree rooted ready
  exact ⟨_, _, c', answer, .on located, same⟩

end Ends

section Empty

variable (rooted : db.root = none) (fresh : c.initialized = false)
include rooted fresh

omit lawful in
theorem first_empty : mdbCursorFirst L db c = some (.fail mdbNotfound (L.clearXcursor c)) := by
  simp [mdbCursorFirst, searchEnd, mdbPageSearch, rooted, fresh]

omit lawful in
theorem last_empty : mdbCursorLast L db c = some (.fail mdbNotfound (L.clearXcursor c)) := by
  simp [mdbCursorLast, searchEnd, mdbPageSearch, rooted, fresh]

omit lawful rooted in
theorem next_unpositioned (steady : c.del = false) (op : StepOp) :
    mdbCursorNext L db op c = mdbCursorFirst L db c := by
  simp [mdbCursorNext, fresh, steady]

omit lawful in
theorem next_empty (steady : c.del = false) (op : StepOp) :
    mdbCursorNext L db op c = some (.fail mdbNotfound (L.clearXcursor c)) := by
  rw [next_unpositioned fresh steady, first_empty rooted fresh]

omit lawful in
theorem prev_empty (op : StepOp) : mdbCursorPrev L db op c = some (.fail mdbNotfound (L.clearXcursor c)) := by
  simp [mdbCursorPrev, fresh, last_empty rooted fresh, Answer.fail]

end Empty

theorem Lawful.getCurrent_located (tree : M.Tree root) {front back : List ν} {x : ν} {pre post : List δ} {v : δ}
    (located : M.Located root c front x back pre v post) :
    ∃ c', mdbCursorGetCurrent L c = some ⟨0, some (L.key x), L.shown v, c'⟩ ∧ c'.del = c.del ∧
      M.Located root c' front x back pre v post := by
  have wf := located.wellFormed tree
  obtain ⟨nodes, i, outer, stacked⟩ := located.stacked
  have here : nodes[i]? = some x := by
    simpa [nodeptr, stacked] using nodeptr_of_spot located.spot
  have landed : ∃ ξ', mdbCursorGetCurrent L c =
      some ⟨0, some (L.key x), L.shown v, { c with xcursor := ξ' }⟩ ∧ M.Onto x pre v post ξ' := by
    rw [mdbCursorGetCurrent, if_pos located.initialized]
    simp only [stacked, here]
    cases dup : L.dupdata x with
    | true =>
      have shows := lawful.readsData x wf dup
      have ⟨on, values⟩ : M.On x pre v post c.xcursor ∧ M.values x = pre ++ v :: post := by
        simpa [Onto, dup] using located.onto
      obtain ⟨ξ', answer, on'⟩ := lawful.getCurrent x c.xcursor pre v post wf on
      refine ⟨ξ', ?_, by simp [Onto, dup, on', values]⟩
      simp [shows, lawful.plain shows, answer, shown, ← stacked]
    | false =>
      obtain ⟨w, values, read⟩ := lawful.single x wf dup
      have onto := located.onto
      simp only [Onto, dup, Bool.false_eq_true, if_false] at onto
      obtain ⟨values', rfl, rfl⟩ := onto
      cases values.symm.trans values'
      refine ⟨c.xcursor, ?_, by simp [Onto, dup, values]⟩
      cases shows : L.readsData with
      | false => simp [shown, shows, ← stacked]
      | true => simp [shown, shows, lawful.plain shows, read shows, ← stacked]
  obtain ⟨ξ', answer, onto⟩ := landed
  exact ⟨_, answer, rfl, ⟨located.initialized, located.spot, onto, located.eof⟩⟩

theorem Lawful.getCurrent_standing (tree : M.Tree root) {before after : List (κ × δ)} {item : κ × δ}
    (standing : M.Standing root c before item after) :
    M.Reaches root c.del (mdbCursorGetCurrent L c) before item after := by
  cases standing with
  | on located =>
    obtain ⟨c', answer, same, located'⟩ := lawful.getCurrent_located tree located
    exact ⟨c', answer, .on located', same⟩

omit lawful in
theorem mdbCursorPrev_eq (db : Db κ ν) (initialized : c.initialized = true) (op : StepOp) :
    mdbCursorPrev L db op c = prevFrom L op c := by
  simp [mdbCursorPrev, initialized]

theorem Lawful.prev_unpositioned (tree : M.Tree root) (rooted : db.root = some root) (plain : L.dupsort = false)
    (fresh : c.initialized = false) :
    ∃ before item, M.Reaches root false (mdbCursorPrev L db .item c) before item [] := by
  obtain ⟨c', front, x, pre, v, answer, _, located, values⟩ :=
    lawful.last_located (c := c) tree rooted (by simp [fresh])
  have wf := located.wellFormed tree
  obtain ⟨nodes, i, outer, stacked⟩ := located.stacked
  have spot := located.spot
  rw [stacked] at spot
  have landed := lawful.fetch_last
    (c := { c' with eof := false, del := false, stack := (.leaf nodes, i) :: outer }) wf values
  rw [← fetchTop_of_spot spot] at landed
  have reached := landed.reaches located.initialized spot nofun
  have called : mdbCursorPrev L db .item c =
      L.fetchTop L.last { c' with eof := false, del := false, stack := (.leaf nodes, i) :: outer } := by
    simp [mdbCursorPrev, fresh, answer, stacked, prevFrom, Level.consult, plain, retreat]
  exact ⟨_, _, called ▸ reached⟩

/-- With duplicates it looks at the node behind the last one first. -/
theorem Lawful.prev_unpositioned_faults (tree : M.Tree root) (rooted : db.root = some root)
    (sorts : L.dupsort = true) (fresh : c.initialized = false) (op : StepOp) : mdbCursorPrev L db op c = none := by
  obtain ⟨c', front, x, pre, v, answer, _, located, _⟩ :=
    lawful.last_located (c := c) tree rooted (by simp [fresh])
  obtain ⟨nodes, i, outer, stacked⟩ := located.stacked
  have spot := located.spot
  rw [stacked] at spot
  obtain ⟨nodes', same, here, _, _, nothing⟩ := spot.top
  cases same
  have behind : nodes[i + 1]? = none := by
    rw [List.getElem?_eq_none_iff, ← List.drop_eq_nil_iff]
    exact (List.append_eq_nil_iff.1 nothing.symm).1
  simp [mdbCursorPrev, fresh, answer, stacked, prevFrom, Level.consult, sorts, nodeptr, behind]

end Moves

end Level.Meaning

end SamLmdb
