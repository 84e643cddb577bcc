import SamLmdb.Cursor.Slices
import SamLmdb.Cursor.Range

/-!
`Cursor::get` tells whether LMDB has reported a key by the pointer in the `MDB_val`, which
LMDB replaces by one into the memory map. A key of the caller may have been taken from there.
-/

namespace SamLmdb

open PageTree

variable {κ δ ν ξ : Type}

structure KeyBuffer (κ : Type) where
  addr : ℕ
  key : κ

section Wrapper

variable [LinearOrder κ] [LinearOrder δ] (D : Database κ δ) (db : MainDb κ δ) (addr : κ → ℕ)

/-- `Cursor::get`, where `addr` says where the stored keys are, and null is 0. -/
def getAt (key : Option (KeyBuffer κ)) (data : Option δ) (op : CursorOp) (c : MainCursor κ δ) :
    Option (Except Error (Option κ × DataSlice δ) × MainCursor κ δ) :=
  let keyPtr := key.elim 0 KeyBuffer.addr
  (mdbCursorGet D db op (key.map KeyBuffer.key) data c).map fun a =>
    (if a.rc = 0 then .ok (if keyPtr ≠ a.key.elim keyPtr addr then a.key else none, valToSlice data a.data)
      else .error (.fromErrCode a.rc), a.cursor)

/-- The key that LMDB reports, wherever the argument is. -/
def landingKey (key : Option κ) (data : Option δ) (op : CursorOp) (c : MainCursor κ δ) : Option κ :=
  (mdbCursorGet D db op key data c).bind fun a => if a.rc = 0 then a.key else none

/-- With the argument outside of the stored keys no key is missed. -/
theorem getAt_eq_get (key : Option (KeyBuffer κ)) (data : Option δ) (op : CursorOp) (c : MainCursor κ δ)
    (outside : ∀ w, key.elim 0 KeyBuffer.addr ≠ addr w) :
    (getAt D db addr key data op c).map (fun r => (r.1.map fun s => (s.1.map Slice.written, s.2), r.2)) =
      get D db (key.map KeyBuffer.key) data op c := by
  rw [getAt, get, Option.map_map]
  congr 1
  funext a
  cases reported : a.key with
  | none => by_cases success : a.rc = 0 <;> simp [success, reported, Except.map]
  | some w => by_cases success : a.rc = 0 <;> simp [success, reported, Except.map, outside]

end Wrapper

section Reports

variable [LinearOrder κ] {L : Level κ δ ν ξ}

omit [LinearOrder κ] in
theorem settleOn_key {op : SetOp} (reports : op = .setRange ∨ op = .setKey) {data : Option δ} {x : ν}
    {c : Cursor κ ν ξ} {a : Answer κ δ (Cursor κ ν ξ)} (answer : settleOn L op data x c = some a) :
    a.key = some (L.key x) := by
  have single : ¬(op = .getBoth ∨ op = .getBothRange) := by rcases reports with rfl | rfl <;> decide
  simp only [settleOn, if_pos reports, if_neg single] at answer
  split at answer
  · cases answer
    rfl
  · split at answer
    · cases answer
      rfl
    · split at answer
      · obtain ⟨_, _, rfl⟩ := Option.map_eq_some_iff.1 answer
        rfl
      · cases answer
        rfl

theorem mdbCursorSet_key {db : Db κ ν} {op : SetOp} (reports : op = .setRange ∨ op = .setKey) {exactp : Bool}
    {key : κ} {data : Option δ} {c : Cursor κ ν ξ} {a : Answer κ δ (Cursor κ ν ξ)}
    (answer : mdbCursorSet L db op exactp key data c = some a) (success : a.rc = 0) : a.key.isSome = true := by
  unfold mdbCursorSet at answer
  split at answer
  · cases answer
    simp [Answer.fail, mdbBadValsize] at success
  obtain ⟨outcome, sought, answer⟩ := Option.bind_eq_some_iff.1 answer
  cases outcome with
  | inl a' =>
    cases answer
    exact absurd success (seek_fails sought)
  | inr c' =>
    change settle L op data c' = some a at answer
    unfold settle at answer
    split at answer
    · rw [settleOn_key reports answer]
      rfl
    · cases answer

end Reports

section Results

variable [LinearOrder κ] [LinearOrder δ] {D : Database κ δ} {db : MainDb κ δ} {addr : κ → ℕ} {key : κ}
    {data : Option δ}
  {op : CursorOp} {c : MainCursor κ δ}

theorem landingKey_isSome (reports : op = .setRange ∨ op = .setKey) {a : Got κ δ}
    (got : mdbCursorGet D db op (some key) data c = some a) (success : a.rc = 0) : a.key.isSome = true := by
  obtain ⟨a', called, rfl⟩ := Option.map_eq_some_iff.1 got
  rcases reports with rfl | rfl
  · obtain ⟨a'', answer, rfl⟩ := Option.map_eq_some_iff.1
      (called : getSet D db .setRange (some key) data c = some a')
    have reported := mdbCursorSet_key (.inl rfl) answer success
    exact reported
  · obtain ⟨a'', answer, rfl⟩ := Option.map_eq_some_iff.1
      (called : getSet D db .setKey (some key) data c = some a')
    have reported := mdbCursorSet_key (.inr rfl) answer success
    exact reported

omit [LinearOrder κ] [LinearOrder δ] in
theorem settle_data {L : Level κ δ ν ξ} {op : SetOp} (reports : op = .setRange ∨ op = .setKey)
    (data : Option δ) :
    settle L op data = settle L op none := by
  have single : ¬(op = .getBoth ∨ op = .getBothRange) := by rcases reports with rfl | rfl <;> decide
  funext c
  simp [settle, settleOn, single]

variable (data) in
theorem landingKey_set {setOp : SetOp} (reports : setOp = .setRange ∨ setOp = .setKey)
    (called : getOp D db op (some key) data c = getSet D db setOp (some key) data c) :
    landingKey D db (some key) data op c =
      (mdbCursorSet D.mainLevel db setOp (setOp ≠ .setRange) key none c).bind
        fun a => if a.rc = 0 then a.key else none := by
  rw [landingKey, mdbCursorGet, called, getSet, mdbCursorSet, settle_data reports, ← mdbCursorSet, Option.map_map,
    Option.bind_map]
  rfl

section Landing

variable {root : Page κ (Node κ δ)} {x : Node κ δ} {rest : List (Node κ δ)} (valid : D.Valid db)
  (ready : Ready db c) (sized : D.keySize key ≠ 0)

theorem mem_of_from (from_eq : nodesFrom D.mainLevel key root.nodes = x :: rest) : x ∈ root.nodes := by
  rw [← nodesBelow_append_nodesFrom (L := D.mainLevel) key root.nodes, from_eq]
  simp

include valid in
theorem head_itemsOf (rooted : db.root = some root) (inside : x ∈ root.nodes) (after : List (κ × δ)) :
    (D.mainMeaning.itemsOf x ++ after).head?.map Prod.fst = some x.key := by
  have wf : D.mainMeaning.WellFormed x := (valid.tree root rooted).nodes x inside
  obtain ⟨v, post, values⟩ := List.exists_cons_of_ne_nil ((Database.mainLawful valid.fixed).nonempty x wf)
  rw [Level.Meaning.itemsOf, values]
  rfl

include valid ready sized

theorem landingKey_setRange (data : Option δ) : landingKey D db (some key) data .setRange c =
    ((items D db).find? fun item => decide (key ≤ item.1)).map Prod.fst := by
  rw [landingKey_set data (.inl rfl) rfl, ← List.head?_filter]
  simp only [ne_eq, not_true_eq_false, decide_false]
  cases rooted : db.root with
  | none =>
    have empty : items D db = [] := by rw [items, rooted]; rfl
    simp [empty, Level.Meaning.set_empty (L := D.mainLevel) rooted (ready.fresh rooted) sized, Answer.fail, mdbNotfound]
  | some root =>
    have tree := valid.tree root rooted
    rw [items_from valid rooted]
    cases from_eq : nodesFrom D.mainLevel key root.nodes with
    | nil =>
      obtain ⟨c', missed, _⟩ := Level.Meaning.set_missing D.mainMeaning .setRange false tree rooted
        (ready.path rooted) sized (by simp) (fun x here => by simp [from_eq] at here)
      simp [missed, Answer.fail, mdbNotfound]
    | cons x rest =>
      obtain ⟨c', v, _, found, _⟩ := (Database.mainLawful valid.fixed).set_found .setRange false tree rooted
        (ready.path rooted) sized (by decide) (by simp) from_eq (by simp)
      rw [Level.Meaning.items_cons, head_itemsOf valid rooted (mem_of_from from_eq), found]
      rfl

theorem landingKey_setKey (data : Option δ) : landingKey D db (some key) data .setKey c =
    ((items D db).find? fun item => decide (item.1 = key)).map Prod.fst := by
  rw [landingKey_set data (.inr rfl) rfl, ← List.head?_filter]
  simp only [ne_eq, reduceCtorEq, not_false_eq_true, decide_true]
  cases rooted : db.root with
  | none =>
    have empty : items D db = [] := by rw [items, rooted]; rfl
    simp [empty, Level.Meaning.set_empty (L := D.mainLevel) rooted (ready.fresh rooted) sized, Answer.fail, mdbNotfound]
  | some root =>
    have tree := valid.tree root rooted
    have beyond (k : κ) (greater : key < k) : decide (k = key) = false := by simp [greater.ne']
    have below : (nodesBelow D.mainLevel key root.nodes).filter (fun x => decide (x.key = key)) = [] := by
      rw [List.filter_eq_nil_iff]
      intro x here
      simp [(key_of_below x here).ne]
    by_cases present : ∃ x rest, nodesFrom D.mainLevel key root.nodes = x :: rest ∧ x.key = key
    · obtain ⟨x, rest, from_eq, same⟩ := present
      obtain ⟨c', v, _, found, _⟩ := (Database.mainLawful valid.fixed).set_found .setKey true tree rooted
        (ready.path rooted) sized (by decide) (by simp) from_eq fun _ => same
      rw [items_found beyond valid rooted (by simp) from_eq same, below, Level.Meaning.items_nil, List.nil_append,
        ← List.append_nil (D.mainMeaning.itemsOf x), head_itemsOf valid rooted (mem_of_from from_eq), found]
      rfl
    · have absent (x : Node κ δ) (here : (nodesFrom D.mainLevel key root.nodes).head? = some x) : x.key ≠ key := by
        intro same
        obtain ⟨rest, from_eq⟩ := List.head?_eq_some_iff.1 here
        exact present ⟨x, rest, from_eq, same⟩
      obtain ⟨c', missed, _⟩ := Level.Meaning.set_missing D.mainMeaning .setKey true tree rooted (ready.path rooted)
        sized (by simp) fun x here => ⟨rfl, absent x here⟩
      rw [items_absent beyond valid rooted absent, below, Level.Meaning.items_nil, missed]
      simp [Answer.fail, mdbNotfound]

end Landing

end Results

/-- Two arguments with the same bytes get the same result just if the key that LMDB reports,
where it does, is stored at both addresses or at neither; and a success of `MDB_SET_KEY` or
`MDB_SET_RANGE` returns the key just if it is not stored at the argument's address. -/
theorem getAt_same_iff [LinearOrder κ] [LinearOrder δ] (D : Database κ δ) (db : MainDb κ δ) (addr : κ → ℕ)
    (key : κ) (data : Option δ) (op : CursorOp) (c : MainCursor κ δ) (p q : ℕ) :
    ((getAt D db addr (some ⟨p, key⟩) data op c).map Prod.fst =
      (getAt D db addr (some ⟨q, key⟩) data op c).map Prod.fst ↔
      ∀ w ∈ landingKey D db (some key) data op c, p = addr w ↔ q = addr w) ∧
    (op = .setRange ∨ op = .setKey → ∀ out d c', getAt D db addr (some ⟨p, key⟩) data op c =
      some (.ok (out, d), c') →
      ∃ w ∈ landingKey D db (some key) data op c, out = some w ↔ p ≠ addr w) := by
  constructor
  · simp only [getAt, landingKey, Option.map_some, Option.elim_some, Option.map_map]
    cases got : mdbCursorGet D db op (some key) data c with
    | none => simp
    | some a =>
      by_cases success : a.rc = 0
      · cases reported : a.key with
        | none => simp [success, reported]
        | some w =>
          by_cases at_p : p = addr w <;> by_cases at_q : q = addr w <;> simp [success, reported, at_p, at_q]
      · simp [success]
  · intro reports out d c' returned
    obtain ⟨a, got, answer⟩ := Option.map_eq_some_iff.1 returned
    by_cases success : a.rc = 0
    · obtain ⟨w, reported⟩ := Option.isSome_iff_exists.1 (landingKey_isSome reports got success)
      rw [if_pos success, reported] at answer
      refine ⟨w, ?_, ?_⟩
      · rw [landingKey, show mdbCursorGet D db op (some key) data c = some a from got]
        simp [success, reported]
      · cases answer
        by_cases at_p : p = addr w <;> simp [at_p]
    · rw [if_neg success] at answer
      cases answer

/-- The one key is stored at 4096. `MDB_SET_KEY` with a copy of it at 8192 reports it, and with
the stored key itself it does not. -/
theorem setKey_borrowed :
    (getAt sorted oneItem (fun _ => 4096) (some ⟨8192, 1⟩) none .setKey MainCursor.opened).map Prod.fst =
        some (.ok (some 1, .written (.value 2))) ∧
      (getAt sorted oneItem (fun _ => 4096) (some ⟨4096, 1⟩) none .setKey MainCursor.opened).map Prod.fst =
        some (.ok (none, .written (.value 2))) ∧
      (getAt sorted oneItem (fun _ => 4096) (some ⟨8192, 1⟩) none .setKey MainCursor.opened).map Prod.fst ≠
        (getAt sorted oneItem (fun _ => 4096) (some ⟨4096, 1⟩) none .setKey MainCursor.opened).map Prod.fst := by
  have copied :
      (getAt sorted oneItem (fun _ => 4096) (some ⟨8192, 1⟩) none .setKey MainCursor.opened).map Prod.fst =
        some (.ok (some 1, .written (.value 2))) := rfl
  have borrowed :
      (getAt sorted oneItem (fun _ => 4096) (some ⟨4096, 1⟩) none .setKey MainCursor.opened).map Prod.fst =
        some (.ok (none, .written (.value 2))) := rfl
  refine ⟨copied, borrowed, ?_⟩
  rw [copied, borrowed]
  intro same
  cases same

end SamLmdb
