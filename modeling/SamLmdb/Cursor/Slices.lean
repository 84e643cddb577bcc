import SamLmdb.Cursor.Walk

/-!
Which slices of a successful call are LMDB's. `*key` and `*data` are followed through
every exit of the cursor functions, from any state of the cursor.
-/

namespace SamLmdb

open PageTree

variable {κ δ ν ξ γ : Type}

namespace Level

/-- A success has written the key, and the data where there is any to read. -/
def Fills (L : Level κ δ ν ξ) (answer : Option (Answer κ δ γ)) : Prop :=
  ∀ a, answer = some a → a.rc = 0 → a.key.isSome = true ∧ a.data.isSome = (L.readsData && !L.leaf2)

/-- A success on the xcursor has written its key. -/
def SubFills (call : SubCall δ ξ) : Prop := ∀ mx a, call mx = some a → a.rc = 0 → a.key.isSome = true

/-- What the functions of a level take for granted. -/
structure Filling (L : Level κ δ ν ξ) : Prop where
  read : L.readsData = true → ∀ x, L.dupdata x = false → (L.read x).isSome = true
  dupsort : L.dupsort = true → L.readsData = true ∧ L.leaf2 = false
  first : SubFills L.first
  last : SubFills L.last
  next : SubFills L.next
  prev : SubFills L.prev
  getCurrent : SubFills L.getCurrent
  set : ∀ exactp data, SubFills (L.set exactp data)

variable {L : Level κ δ ν ξ} (filling : L.Filling) {sub : SubCall δ ξ} (fills : SubFills sub)

theorem fills_fail {rc : ℤ} (failed : rc ≠ 0) (c : γ) : L.Fills (some (.fail rc c)) := by
  rintro a ⟨⟩ success
  exact absurd success failed

include filling

theorem fetch_fills (fills : SubFills sub) (x : ν) (c : Cursor κ ν ξ) : L.Fills (L.fetch sub x c) := by
  intro a answer success
  unfold fetch at answer
  split at answer
  · rename_i keyOnly
    cases answer
    rcases keyOnly with leaf2 | noData
    · simp [leaf2]
    · simp [noData]
  · rename_i reads
    rw [not_or, Bool.not_eq_true, Bool.not_eq_false] at reads
    split at answer
    · obtain ⟨a', called, rfl⟩ := Option.map_eq_some_iff.1 answer
      exact ⟨by simp [show a'.rc = 0 from success], by simp [reads, fills _ a' called success]⟩
    · rename_i single
      cases answer
      exact ⟨rfl, by simp [reads, filling.read reads.2 x (by simpa using single)]⟩

theorem fetchTop_fills (fills : SubFills sub) (c : Cursor κ ν ξ) : L.Fills (L.fetchTop sub c) := by
  unfold fetchTop
  split
  · exact fetch_fills filling fills _ c
  · rintro a ⟨⟩

theorem consult_fills (fills : SubFills sub) (op : StepOp) (c : Cursor κ ν ξ)
    {rest : Cursor κ ν ξ → Option (Answer κ δ (Cursor κ ν ξ))} (goes : ∀ c, L.Fills (rest c)) :
    L.Fills ((L.consult sub op c).bind (Sum.elim some rest)) := by
  intro a answer success
  obtain ⟨outcome, consulted, answer⟩ := Option.bind_eq_some_iff.1 answer
  cases outcome with
  | inr c' => exact goes c' a answer success
  | inl a' =>
    cases answer
    unfold consult at consulted
    split at consulted
    · rename_i sorts
      have ⟨reads, values⟩ := filling.dupsort sorts
      split at consulted
      · cases consulted
      · split at consulted
        · split at consulted
          · cases consulted
          · obtain ⟨a', called, ended⟩ := Option.map_eq_some_iff.1 consulted
            split at ended
            · cases ended
              exact ⟨by simp [show a'.rc = 0 from success], by simp [reads, values, fills _ a' called success]⟩
            · cases ended
        · split at consulted
          · cases consulted
            exact absurd success mdbNotfound_ne_zero
          · cases consulted
    · cases consulted

end Level

section Moves

open Level

variable [LinearOrder κ] {L : Level κ δ ν ξ} (filling : L.Filling) (db : Db κ ν)
include filling

theorem mdbCursorFirst_fills (c : Cursor κ ν ξ) : L.Fills (mdbCursorFirst L db c) := by
  unfold mdbCursorFirst
  split
  · rintro a ⟨⟩
  · exact fills_fail mdbNotfound_ne_zero _
  · exact fetchTop_fills filling filling.first _

theorem mdbCursorLast_fills (c : Cursor κ ν ξ) : L.Fills (mdbCursorLast L db c) := by
  unfold mdbCursorLast
  split
  · rintro a ⟨⟩
  · exact fills_fail mdbNotfound_ne_zero _
  · exact fetchTop_fills filling filling.last _

omit [LinearOrder κ] in
theorem advance_fills (c : Cursor κ ν ξ) : L.Fills (advance L c) := by
  unfold advance
  split
  · split
    · exact fetchTop_fills filling filling.first _
    · split
      · split
        · rintro a ⟨⟩
        · exact fills_fail mdbNotfound_ne_zero _
        · exact fetchTop_fills filling filling.first _
      · exact fetchTop_fills filling filling.first _
  · rintro a ⟨⟩

theorem mdbCursorNext_fills (op : StepOp) (c : Cursor κ ν ξ) : L.Fills (mdbCursorNext L db op c) := by
  unfold mdbCursorNext
  split
  · exact fills_fail mdbNotfound_ne_zero _
  · split
    · exact mdbCursorFirst_fills filling db c
    · split
      · exact fills_fail mdbNotfound_ne_zero _
      · exact consult_fills filling filling.next op _ (advance_fills filling)

omit [LinearOrder κ] in
theorem retreat_fills (c : Cursor κ ν ξ) : L.Fills (retreat L c) := by
  unfold retreat
  split
  · split
    · rintro a ⟨⟩
    · exact fills_fail mdbNotfound_ne_zero _
    · exact fetchTop_fills filling filling.last _
  · exact fetchTop_fills filling filling.last _
  · rintro a ⟨⟩

omit [LinearOrder κ] in
theorem prevFrom_fills (op : StepOp) (c : Cursor κ ν ξ) : L.Fills (prevFrom L op c) :=
  consult_fills filling filling.prev op c (retreat_fills filling)

theorem mdbCursorPrev_fills (op : StepOp) (c : Cursor κ ν ξ) : L.Fills (mdbCursorPrev L db op c) := by
  unfold mdbCursorPrev
  split
  · exact prevFrom_fills filling op c
  · have last := mdbCursorLast_fills filling db c
    split
    · rintro a ⟨⟩
    · rename_i a called
      split
      · exact called ▸ last
      · split
        · exact prevFrom_fills filling op _
        · rintro a ⟨⟩

omit [LinearOrder κ] in
theorem mdbCursorGetCurrent_fills (c : Cursor κ ν ξ) : L.Fills (mdbCursorGetCurrent L c) := by
  unfold mdbCursorGetCurrent
  split
  · split
    · split
      · exact fills_fail mdbNotfound_ne_zero _
      · intro a answer success
        split at answer
        · rename_i keyOnly
          cases answer
          rcases keyOnly with leaf2 | noData
          · simp [leaf2]
          · simp [noData]
        · rename_i reads
          rw [not_or, Bool.not_eq_true, Bool.not_eq_false] at reads
          split at answer
          · obtain ⟨a', called, rfl⟩ := Option.map_eq_some_iff.1 answer
            exact ⟨rfl, by simp [reads, filling.getCurrent _ a' called success]⟩
          · rename_i single
            cases answer
            exact ⟨rfl, by simp [reads, filling.read reads.2 _ (by simpa using single)]⟩
    · rintro a ⟨⟩
  · exact fills_fail (by decide) _

end Moves

section Set

open Level

variable [LinearOrder κ] {L : Level κ δ ν ξ}

theorem seekOnPage_fails {exactp : Bool} {key : κ} {c : Cursor κ ν ξ} {a : Answer κ δ (Cursor κ ν ξ)}
    (answer : seekOnPage L exactp key c = some (.inl a)) : a.rc ≠ 0 := by
  unfold seekOnPage at answer
  split at answer
  · simp only at answer
    split at answer
    · cases answer
      exact mdbNotfound_ne_zero
    · split at answer
      · cases answer
      · split at answer
        · cases answer
        · cases answer
          exact mdbNotfound_ne_zero
        · cases answer
  · cases answer

theorem seekFromRoot_fails {db : Db κ ν} {exactp : Bool} {key : κ} {c : Cursor κ ν ξ}
    {a : Answer κ δ (Cursor κ ν ξ)} (answer : seekFromRoot L db exactp key c = some (.inl a)) : a.rc ≠ 0 := by
  unfold seekFromRoot at answer
  split at answer
  · cases answer
  · cases answer
    exact mdbNotfound_ne_zero
  · exact seekOnPage_fails answer

theorem seek_fails {db : Db κ ν} {op : SetOp} {exactp : Bool} {key : κ} {c : Cursor κ ν ξ}
    {a : Answer κ δ (Cursor κ ν ξ)} (answer : seek L db op exactp key c = some (.inl a)) : a.rc ≠ 0 := by
  unfold seek at answer
  split at answer
  · split at answer
    · unfold seekNear at answer
      split at answer
      · split at answer
        · cases answer
        · split at answer
          · cases answer
          · split at answer
            · split at answer
              · cases answer
              · exact seekOnPage_fails answer
            · split at answer
              · cases answer
                exact mdbNotfound_ne_zero
              · exact seekFromRoot_fails answer
        · split at answer
          · split at answer
            · cases answer
            · cases answer
              exact mdbNotfound_ne_zero
          · exact seekFromRoot_fails answer
      · cases answer
        exact mdbNotfound_ne_zero
    · cases answer
  · exact seekFromRoot_fails answer

omit [LinearOrder κ] in
theorem settleOn_fills (filling : L.Filling) (op : SetOp) (data : Option δ) (x : ν) (c : Cursor κ ν ξ)
    (a : Answer κ δ (Cursor κ ν ξ)) (answer : settleOn L op data x c = some a) (success : a.rc = 0) :
    a.data.isSome = (L.readsData && !L.leaf2) ∧ (op = .setRange → a.key.isSome = true) := by
  unfold settleOn at answer
  simp only at answer
  split at answer
  · rename_i leaf2
    cases answer
    exact ⟨by simp [leaf2], fun range => by simp [range]⟩
  · rename_i values
    rw [Bool.not_eq_true] at values
    split at answer
    · rename_i noData
      cases answer
      exact ⟨by simp [noData], fun range => by simp [range]⟩
    · rename_i reads
      rw [Bool.not_eq_false] at reads
      split at answer
      · split at answer
        · rename_i both
          obtain ⟨a', called, rfl⟩ := Option.map_eq_some_iff.1 answer
          exact ⟨by simp [reads, values, filling.set _ _ _ a' called success], fun range => by simp [range] at both⟩
        · obtain ⟨a', called, rfl⟩ := Option.map_eq_some_iff.1 answer
          exact ⟨by simp [reads, values, filling.first _ a' called success], fun range => by simp [range]⟩
      · rename_i single
        have read := filling.read reads x (by simpa using single)
        split at answer
        · rename_i both
          split at answer
          · cases answer
            exact ⟨by simp [reads, values, read], fun range => by simp [range] at both⟩
          · split at answer
            · cases answer
              exact absurd success mdbNotfound_ne_zero
            · cases answer
              exact ⟨by simp [reads, values, read], fun range => by simp [range] at both⟩
          · cases answer
            exact absurd success mdbNotfound_ne_zero
          · cases answer
        · cases answer
          exact ⟨by simp [reads, values, read], fun range => by simp [range]⟩

/-- `*data` is written as by the other functions, and `*key` by `MDB_SET_RANGE`. -/
theorem mdbCursorSet_fills (filling : L.Filling) (db : Db κ ν) (op : SetOp) (exactp : Bool) (key : κ)
    (data : Option δ) (c : Cursor κ ν ξ) (a : Answer κ δ (Cursor κ ν ξ))
    (answer : mdbCursorSet L db op exactp key data c = some a) (success : a.rc = 0) :
    a.data.isSome = (L.readsData && !L.leaf2) ∧ (op = .setRange → a.key.isSome = true) := by
  unfold mdbCursorSet at answer
  split at answer
  · cases answer
    simp [Answer.fail, mdbBadValsize] at success
  obtain ⟨outcome, sought, answer⟩ := Option.bind_eq_some_iff.1 answer
  cases outcome with
  | inl a' =>
    cases answer
    exact absurd success (seek_fails sought)
  | inr c' =>
    change settle L op data c' = some a at answer
    unfold settle at answer
    split at answer
    · exact settleOn_fills filling op data _ _ a answer success
    · cases answer

end Set

section Levels

variable [LinearOrder δ] (D : Database κ δ)

omit [LinearOrder δ] in
theorem subLevel_filling : D.subLevel.Filling where
  read := nofun
  dupsort := nofun
  first := nofun
  last := nofun
  next := nofun
  prev := nofun
  getCurrent := nofun
  set := nofun

omit [LinearOrder δ] in
theorem onXCursor_fills {f : Db δ δ → Cursor δ δ Unit → Option (Answer δ Unit (Cursor δ δ Unit))}
    (fills : ∀ db c a, f db c = some a → a.rc = 0 → a.key.isSome = true) :
    Level.SubFills (Database.onXCursor f) := by
  intro mx a answer success
  obtain ⟨db, _, answer⟩ := Option.bind_eq_some_iff.1 answer
  obtain ⟨a', called, rfl⟩ := Option.map_eq_some_iff.1 answer
  exact fills _ _ a' called success

theorem mainLevel_filling : D.mainLevel.Filling where
  read := by
    intro _ x single
    cases data : x.data with
    | single value => simp [Database.mainLevel, data]
    | subPage values => simp [Database.mainLevel, data, NodeData.dupdata] at single
    | subDb db => simp [Database.mainLevel, data, NodeData.dupdata] at single
  dupsort := by
    intro sorts
    have sorts : D.dupSort = true := sorts
    exact ⟨rfl, by simp [Database.mainLevel, sorts]⟩
  first := onXCursor_fills fun db c a answer success =>
    (mdbCursorFirst_fills (subLevel_filling D) db c a answer success).1
  last := onXCursor_fills fun db c a answer success =>
    (mdbCursorLast_fills (subLevel_filling D) db c a answer success).1
  next := onXCursor_fills fun db c a answer success =>
    (mdbCursorNext_fills (subLevel_filling D) db .item c a answer success).1
  prev := onXCursor_fills fun db c a answer success =>
    (mdbCursorPrev_fills (subLevel_filling D) db .item c a answer success).1
  getCurrent := by
    intro mx a answer success
    obtain ⟨a', called, rfl⟩ := Option.map_eq_some_iff.1 answer
    exact (mdbCursorGetCurrent_fills (subLevel_filling D) mx.cursor a' called success).1
  set := by
    intro exactp data
    cases data with
    | none =>
      rintro mx a ⟨⟩ success
      simp [Answer.fail, mdbBadValsize] at success
    | some data =>
      exact onXCursor_fills fun db c a answer success =>
        (mdbCursorSet_fills (subLevel_filling D) db .setRange exactp data none c a answer success).2 rfl

end Levels

/-- When a call that succeeds has written `*data`: always, but for an exit of
`MDB_GET_MULTIPLE` and for databases whose keys are on `P_LEAF2` pages. -/
def WritesData (D : Database κ δ) (c : MainCursor κ δ) : CursorOp → Prop
  | .getMultiple => c.xcursor.cursor.initialized = true ∧ c.xcursor.cursor.eof = false
  | _ => ¬ (D.dupFixed = true ∧ D.dupSort = false)

section Get

variable [LinearOrder δ] {D : Database κ δ} {db : MainDb κ δ} {c : MainCursor κ δ} {a : Got κ δ}

omit [LinearOrder δ] in
theorem leaf2_iff (written : Bool) (same : written = (true && !(D.dupFixed && !D.dupSort))) :
    written = true ↔ ¬ (D.dupFixed = true ∧ D.dupSort = false) := by
  rw [same]
  cases D.dupFixed <;> cases D.dupSort <;> simp

theorem fills_data {answer : Option (Answer κ δ (MainCursor κ δ))} (fills : D.mainLevel.Fills answer)
    (got : answer.map Answer.got = some a) (success : a.rc = 0) :
    a.key.isSome = true ∧ (a.data.isSome = true ↔ ¬ (D.dupFixed = true ∧ D.dupSort = false)) := by
  obtain ⟨a', rfl, rfl⟩ := Option.map_eq_some_iff.1 got
  have ⟨key, data⟩ := fills a' rfl success
  exact ⟨key, leaf2_iff _ ((Option.isSome_map ..).trans data)⟩

theorem getSet_data [LinearOrder κ] {op : SetOp} {key : Option κ} {data : Option δ}
    (got : getSet D db op key data c = some a) (success : a.rc = 0) :
    a.data.isSome = true ↔ ¬ (D.dupFixed = true ∧ D.dupSort = false) := by
  unfold getSet at got
  split at got
  · cases got
    simp [Answer.fail, mdbBadValsize] at success
  · obtain ⟨a', called, rfl⟩ := Option.map_eq_some_iff.1 got
    have filled := (mdbCursorSet_fills (mainLevel_filling D) db _ _ _ _ c a' called success).1
    exact leaf2_iff _ ((Option.isSome_map ..).trans filled)

theorem moveDup_data {mfunc : SubCall δ (XCursor δ)} (fills : Level.SubFills mfunc)
    (got : moveDup D mfunc c = some a) (success : a.rc = 0) : D.dupSort = true ∧ a.data.isSome = true := by
  unfold moveDup at got
  split at got
  · cases got
    simp [Answer.fail, einval] at success
  split at got
  · cases got
    simp [Answer.fail, mdbIncompatible] at success
  rename_i sorts
  refine ⟨by simpa using sorts, ?_⟩
  split at got
  · split at got
    · cases got
      exact absurd success mdbNotfound_ne_zero
    · split at got
      · rename_i single
        cases got
        exact (Option.isSome_map ..).trans ((mainLevel_filling D).read rfl _ single)
      · split at got
        · cases got
          simp [Answer.fail, einval] at success
        · obtain ⟨a', called, rfl⟩ := Option.map_eq_some_iff.1 got
          exact (Option.isSome_map ..).trans (fills _ a' called success)
  · cases got

omit [LinearOrder δ] in
theorem fetchMultiple_data {key : Option κ} (got : fetchMultiple key c = some a) : a.data.isSome = true := by
  unfold fetchMultiple at got
  split at got
  · cases got
    rfl
  · cases got

theorem nextMultiple_data [LinearOrder κ] (got : nextMultiple D db c = some a) (success : a.rc = 0) :
    D.dupSort = true ∧ a.data.isSome = true := by
  unfold nextMultiple at got
  split at got
  · cases got
    simp [Answer.fail, mdbIncompatible] at success
  split at got
  · cases got
  split at got
  · rename_i failed
    cases got
    exact absurd success failed
  split at got
  · cases got
  rename_i sorts
  split at got
  · exact ⟨by simpa using sorts, fetchMultiple_data got⟩
  · cases got
    exact absurd success mdbNotfound_ne_zero

theorem prevMultiple_data [LinearOrder κ] (got : prevMultiple D db c = some a) (success : a.rc = 0) :
    D.dupSort = true ∧ a.data.isSome = true := by
  unfold prevMultiple at got
  split at got
  · cases got
    simp [Answer.fail, mdbIncompatible] at success
  split at got
  · cases got
  split at got
  · rename_i failed
    cases got
    exact absurd success failed
  split at got
  · cases got
  rename_i sorts
  split at got
  · split at got
    · cases got
    · cases got
      exact absurd success mdbNotfound_ne_zero
    · exact ⟨by simpa using sorts, fetchMultiple_data got⟩
  · cases got
    exact absurd success mdbNotfound_ne_zero

omit [LinearOrder δ] in
theorem getMultiple_data (got : getMultiple D c = some a) (success : a.rc = 0) :
    a.data.isSome = true ↔ WritesData D c .getMultiple := by
  unfold getMultiple at got
  split at got
  · cases got
    simp [Answer.fail, einval] at success
  split at got
  · cases got
    simp [Answer.fail, mdbIncompatible] at success
  split at got
  · cases got
  split at got
  · rename_i exhausted
    cases got
    constructor
    · intro read
      cases read
    · rintro ⟨initialized, more⟩
      rcases exhausted with fresh | ended
      · exact absurd (initialized.symm.trans fresh) (by decide)
      · exact absurd (ended.symm.trans more) (by decide)
  · rename_i positioned
    rw [not_or, Bool.not_eq_false, Bool.not_eq_true] at positioned
    exact ⟨fun _ => positioned, fun _ => fetchMultiple_data got⟩

theorem getOp_data [LinearOrder κ] {op : CursorOp} {key : Option κ} {data : Option δ}
    (got : getOp D db op key data c = some a) (success : a.rc = 0) :
    a.data.isSome = true ↔ WritesData D c op := by
  have filling := mainLevel_filling D
  have both : D.dupSort = true ∧ a.data.isSome = true →
      (a.data.isSome = true ↔ ¬ (D.dupFixed = true ∧ D.dupSort = false)) := by
    rintro ⟨sorts, written⟩
    simp [sorts, written]
  have ofSet : ∀ {op}, (if D.dupSort then getSet D db op key data c else some (.fail mdbIncompatible c)) = some a →
      (a.data.isSome = true ↔ ¬ (D.dupFixed = true ∧ D.dupSort = false)) := by
    intro op got
    split at got
    · exact getSet_data got success
    · cases got
      simp [Answer.fail, mdbIncompatible] at success
  cases op with
  | first => exact (fills_data (mdbCursorFirst_fills filling db c) got success).2
  | last => exact (fills_data (mdbCursorLast_fills filling db c) got success).2
  | next => exact (fills_data (mdbCursorNext_fills filling db _ c) got success).2
  | nextDup => exact (fills_data (mdbCursorNext_fills filling db _ c) got success).2
  | nextNodup => exact (fills_data (mdbCursorNext_fills filling db _ c) got success).2
  | prev => exact (fills_data (mdbCursorPrev_fills filling db _ c) got success).2
  | prevDup => exact (fills_data (mdbCursorPrev_fills filling db _ c) got success).2
  | prevNodup => exact (fills_data (mdbCursorPrev_fills filling db _ c) got success).2
  | getCurrent => exact (fills_data (mdbCursorGetCurrent_fills filling c) got success).2
  | firstDup => exact both (moveDup_data filling.first got success)
  | lastDup => exact both (moveDup_data filling.last got success)
  | set => exact getSet_data got success
  | setKey => exact getSet_data got success
  | setRange => exact getSet_data got success
  | getBoth => exact ofSet got
  | getBothRange => exact ofSet got
  | nextMultiple => exact both (nextMultiple_data got success)
  | prevMultiple => exact both (prevMultiple_data got success)
  | getMultiple => exact getMultiple_data got success
  | other code =>
    cases got
    simp [Answer.fail, einval] at success

theorem mdbCursorGet_data [LinearOrder κ] {op : CursorOp} {key : Option κ} {data : Option δ}
    (got : mdbCursorGet D db op key data c = some a) (success : a.rc = 0) :
    a.data.isSome = true ↔ WritesData D c op := by
  obtain ⟨a', called, rfl⟩ := Option.map_eq_some_iff.1 got
  have written : a'.data.isSome = true ↔ WritesData D c op := getOp_data called success
  exact written

/-- The operations that an iterator is made of. -/
def iterOps : List CursorOp := [.first, .last, .next, .prev, .getCurrent, .nextDup]

theorem mdbCursorGet_key [LinearOrder κ] {op : CursorOp} {key : Option κ} {data : Option δ}
    (iterates : op ∈ iterOps) (got : mdbCursorGet D db op key data c = some a) (success : a.rc = 0) :
    a.key.isSome = true := by
  obtain ⟨a', called, rfl⟩ := Option.map_eq_some_iff.1 got
  have filling := mainLevel_filling D
  simp only [iterOps, List.mem_cons, List.not_mem_nil, or_false] at iterates
  rcases iterates with rfl | rfl | rfl | rfl | rfl | rfl
  · exact (fills_data (mdbCursorFirst_fills filling db c) called success).1
  · exact (fills_data (mdbCursorLast_fills filling db c) called success).1
  · exact (fills_data (mdbCursorNext_fills filling db _ c) called success).1
  · exact (fills_data (mdbCursorPrev_fills filling db _ c) called success).1
  · exact (fills_data (mdbCursorGetCurrent_fills filling c) called success).1
  · exact (fills_data (mdbCursorNext_fills filling db _ c) called success).1

end Get

/-- The slice is what LMDB has written in this call. -/
def Slice.IsWritten {ι ω : Type} : Slice ι ω → Prop
  | .written _ => True
  | _ => False

theorem valToSlice_isWritten {ι ω : Type} (argument : Option ι) (out : Option ω) :
    (valToSlice argument out).IsWritten ↔ out.isSome = true := by
  cases out with
  | some out => simp [valToSlice, Slice.IsWritten]
  | none => cases argument <;> simp [valToSlice, Slice.IsWritten]

section Results

variable [LinearOrder κ] [LinearOrder δ]

/-- The iterators there are: as `Cursor` makes them, and after calls of `next`. -/
inductive Iter.Made (D : Database κ δ) (db : MainDb κ δ) : Iter κ δ → Prop
  | iter (c : MainCursor κ δ) : Made D db (intoIter c)
  | start (c : MainCursor κ δ) : Made D db (intoIterStart c)
  | rev (c : MainCursor κ δ) : Made D db (intoIterRev c)
  | fromKey {key c iter} : intoIterFrom D db key c = some iter → Made D db iter
  | fromKeyRev {key c iter} : intoIterFromRev D db key c = some iter → Made D db iter
  | dupOf {key c iter} : intoIterDupOf D db key c = some iter → Made D db iter
  | next {iter iter' item} : Made D db iter → iter.next D db = some (item, iter') → Made D db iter'

variable {D : Database κ δ} {db : MainDb κ δ}

theorem Iter.Made.ops {iter : Iter κ δ} (made : Made D db iter) :
    ∀ c op nextOp, iter = .ok c op nextOp → op ∈ iterOps ∧ nextOp ∈ iterOps := by
  induction made with
  | iter c => rintro _ _ _ ⟨⟩; decide
  | start c => rintro _ _ _ ⟨⟩; decide
  | rev c => rintro _ _ _ ⟨⟩; decide
  | fromKey made =>
    rintro c op nextOp rfl
    unfold intoIterFrom at made
    split at made <;> cases made <;> decide
  | fromKeyRev made =>
    rintro c op nextOp rfl
    unfold intoIterFromRev at made
    split at made
    · cases made
    · obtain ⟨_, _, same⟩ := Option.map_eq_some_iff.1 made
      cases same
      decide
    · split at made <;> cases made <;> decide
    · cases made
  | dupOf made =>
    rintro c op nextOp rfl
    unfold intoIterDupOf at made
    split at made
    · cases made
    · cases made
      decide
    · obtain ⟨_, _, same⟩ := Option.map_eq_some_iff.1 made
      cases same
      decide
    · cases made
  | @next iter iter' item _ step ih =>
    rintro c op nextOp rfl
    cases iter with
    | err error => cases step
    | ok c₀ op₀ nextOp₀ =>
      obtain ⟨_, _, same⟩ := Option.map_eq_some_iff.1 step
      cases same
      have ⟨_, later⟩ := ih c₀ op₀ _ rfl
      exact ⟨later, later⟩

theorem get_written {key : Option κ} {data : Option δ} {op : CursorOp} {c c' : MainCursor κ δ}
    {k : Option (KeySlice κ)} {d : DataSlice δ} (got : get D db key data op c = some (.ok (k, d), c')) :
    (∀ s, k = some s → s.IsWritten) ∧ (d.IsWritten ↔ WritesData D c op) := by
  obtain ⟨a, called, answer⟩ := Option.map_eq_some_iff.1 got
  by_cases success : a.rc = 0
  · rw [if_pos success] at answer
    cases answer
    refine ⟨?_, (valToSlice_isWritten ..).trans (mdbCursorGet_data called success)⟩
    intro s written
    obtain ⟨_, _, rfl⟩ := Option.map_eq_some_iff.1 written
    trivial
  · rw [if_neg success] at answer
    cases answer

theorem walk_written {op : CursorOp} {c c' : MainCursor κ δ} {k : KeySlice κ} {d : DataSlice δ}
    (walked : walk D db op c = some (.ok (some (k, d)), c')) :
    k.IsWritten ∧ (d.IsWritten ↔ WritesData D c op) := by
  unfold walk at walked
  split at walked
  · cases walked
  · rename_i got
    cases walked
    have ⟨key, data⟩ := get_written got
    exact ⟨key k rfl, data⟩
  · cases walked
  · cases walked
  · cases walked

theorem next_written {op nextOp : CursorOp} {c : MainCursor κ δ} {k : KeySlice κ} {d : DataSlice δ}
    {iter : Iter κ δ} (iterates : op ∈ iterOps)
    (next : (Iter.ok c op nextOp).next D db = some (some (.ok (k, d)), iter)) :
    k.IsWritten ∧ (d.IsWritten ↔ WritesData D c op) := by
  obtain ⟨a, called, answer⟩ := Option.map_eq_some_iff.1 next
  by_cases success : a.rc = 0
  · rw [if_pos success] at answer
    cases answer
    exact ⟨(valToSlice_isWritten ..).2 (mdbCursorGet_key iterates called success),
      (valToSlice_isWritten ..).trans (mdbCursorGet_data called success)⟩
  · rw [if_neg success] at answer
    split at answer <;> cases answer

end Results

/-- A result holds LMDB's slices only, unless it is that of `MDB_GET_MULTIPLE` where the
sub-cursor has no page to return, or of a database that is `DUP_FIXED` without `DUP_SORT`. -/
theorem slices_written [LinearOrder κ] [LinearOrder δ] (D : Database κ δ) (db : MainDb κ δ)
    (c : MainCursor κ δ) :
    (∀ key data op k d c', get D db key data op c = some (.ok (k, d), c') →
      ((∀ s, k = some s → s.IsWritten) ∧ d.IsWritten ↔ WritesData D c op)) ∧
    (∀ op : WalkOp, ∀ k d c', walk D db op.cursorOp c = some (.ok (some (k, d)), c') →
      (k.IsWritten ∧ d.IsWritten ↔ WritesData D c op.cursorOp)) ∧
    (∀ op nextOp k d iter, (Iter.ok c op nextOp).Made D db →
      (Iter.ok c op nextOp).next D db = some (some (.ok (k, d)), iter) →
      (k.IsWritten ∧ d.IsWritten ↔ WritesData D c op)) := by
  refine ⟨?_, ?_, ?_⟩
  · intro key data op k d c' got
    have ⟨written, exact_⟩ := get_written got
    exact ⟨fun both => exact_.1 both.2, fun writes => ⟨written, exact_.2 writes⟩⟩
  · intro op k d c' walked
    have ⟨written, exact_⟩ := walk_written walked
    exact ⟨fun both => exact_.1 both.2, fun writes => ⟨written, exact_.2 writes⟩⟩
  · intro op nextOp k d iter made next
    have ⟨written, exact_⟩ := next_written (made.ops c op nextOp rfl).1 next
    exact ⟨fun both => exact_.1 both.2, fun writes => ⟨written, exact_.2 writes⟩⟩

section GetMultiple

/-- The first item is `(1, 2)`, and its slices are LMDB's. -/
theorem slices_written_first :
    ∃ k d c, walk sorted oneItem .first MainCursor.opened = some (.ok (some (k, d)), c) ∧
      k.IsWritten ∧ d.IsWritten := by
  obtain ⟨c, walked⟩ : ∃ c, walk sorted oneItem .first MainCursor.opened =
      some (.ok (some (.written 1, .written (.value 2))), c) := ⟨_, rfl⟩
  exact ⟨_, _, c, walked, ((slices_written sorted oneItem MainCursor.opened).2.1 .first _ _ c walked).2
    (by simp [WritesData, WalkOp.cursorOp, sorted])⟩

def sortedFixed : Database ℕ ℕ := { sorted with dupFixed := true }

/-- On the only value of a key `MDB_GET_MULTIPLE` succeeds with a slice of the null pointer. -/
theorem getMultiple_null :
    ∃ c c', walk sortedFixed oneItem .first MainCursor.opened = some (itemAnswer (some (1, 2)), c) ∧
      get sortedFixed oneItem none none .getMultiple c = some (.ok (none, .null), c') ∧
      ¬ (Slice.null : DataSlice ℕ).IsWritten :=
  ⟨_, _, rfl, rfl, id⟩

end GetMultiple

end SamLmdb
