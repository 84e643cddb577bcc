import SamLmdb.Pages.MidlSort

/-!
Every page from the first on has one place: it is in use by the databases, freed by this
transaction, free for it, or beyond the end of the map that is in use.
-/

namespace SamLmdb

/-- The page numbers that a list of pages runs over. -/
def pagesOf (mps : List MdbPage) : List ℕ := mps.flatMap idRange

@[simp] theorem pagesOf_nil : pagesOf [] = [] := rfl

@[simp] theorem count_pagesOf_cons (mp : MdbPage) (mps : List MdbPage) (p : ℕ) :
    (pagesOf (mp :: mps)).count p = (idRange mp).count p + (pagesOf mps).count p := by
  rw [pagesOf, List.flatMap_cons, List.count_append]
  rfl

theorem count_pagesOf_erase {mp : MdbPage} {mps : List MdbPage} (member : mp ∈ mps) (p : ℕ) :
    (pagesOf mps).count p = (idRange mp).count p + (pagesOf (mps.erase mp)).count p := by
  rw [← count_pagesOf_cons]
  exact ((List.perm_cons_erase member).flatMap_right _).count_eq p

theorem mem_pagesOf {mps : List MdbPage} {p : ℕ} : p ∈ pagesOf mps ↔ ∃ mp ∈ mps, p ∈ idRange mp :=
    List.mem_flatMap

theorem mem_pagesOf_erase {mp : MdbPage} {mps : List MdbPage} (member : mp ∈ mps) {p : ℕ}
    (listed : p ∈ pagesOf mps) :
    p ∈ idRange mp ∨ p ∈ pagesOf (mps.erase mp) := by
  rw [← List.one_le_count_iff, ← List.one_le_count_iff]
  have := count_pagesOf_erase member p
  have := List.one_le_count_iff.2 listed
  omega

theorem mem_idRange {mp : MdbPage} {p : ℕ} : p ∈ idRange mp ↔ mp.pgno ≤ p ∧ p < mp.pgno + mp.pages := by
  rw [idRange, List.mem_reverse, List.mem_range'_1]

theorem count_idRange (mp : MdbPage) (p : ℕ) :
    (idRange mp).count p = if mp.pgno ≤ p ∧ p < mp.pgno + mp.pages then 1 else 0 := by
  split
  · rename_i inside
    exact List.count_eq_one_of_mem (List.nodup_reverse.2 List.nodup_range') (mem_idRange.2 inside)
  · rename_i outside
    exact List.count_eq_zero_of_not_mem fun member => outside (mem_idRange.1 member)

/-- The IDs of the records that are too recent for `me_pglast` and older than the transaction. -/
def pendingIds (freeDb : List FreeRecord) (pglast txnid : ℕ) : List ℕ :=
  (freeDb.filter fun r => pglast < r.id ∧ r.id < txnid).flatMap (·.ids)

theorem mem_pendingIds {freeDb : List FreeRecord} {pglast txnid p : ℕ} :
    p ∈ pendingIds freeDb pglast txnid ↔ ∃ r ∈ freeDb, pglast < r.id ∧ r.id < txnid ∧ p ∈ r.ids := by
  simp [pendingIds, and_assoc]

section Records

variable {freeDb : List FreeRecord} {record : FreeRecord} {rest : List FreeRecord} {pglast txnid : ℕ}

theorem filter_next (keys : freeDb.Pairwise (·.id < ·.id)) (left : freeDb.filter (pglast < ·.id) = record :: rest) :
    rest = freeDb.filter (record.id < ·.id) ∧ record ∈ freeDb ∧ pglast < record.id := by
  induction freeDb with
  | nil => simp at left
  | cons first others ih =>
    rw [List.pairwise_cons] at keys
    by_cases after : pglast < first.id
    · rw [List.filter_cons_of_pos (by simpa using after)] at left
      injection left with same left
      subst same
      have all : others.filter (pglast < ·.id) = others := by
        rw [List.filter_eq_self]
        intro r member
        have := keys.1 r member
        simp only [decide_eq_true_eq]
        omega
      have all' : others.filter (first.id < ·.id) = others := by
        rw [List.filter_eq_self]
        intro r member
        simpa using keys.1 r member
      refine ⟨?_, List.mem_cons_self, after⟩
      rw [List.filter_cons_of_neg (by simp), all', ← left, all]
    · rw [List.filter_cons_of_neg (by simpa using after)] at left
      obtain ⟨tail, member, later⟩ := ih keys.2 left
      refine ⟨?_, List.mem_cons_of_mem _ member, later⟩
      rw [List.filter_cons_of_neg (by simp; omega), tail]

theorem pendingIds_next (keys : freeDb.Pairwise (·.id < ·.id))
    (left : freeDb.filter (pglast < ·.id) = record :: rest) (older : record.id < txnid) :
    pendingIds freeDb pglast txnid = record.ids ++ pendingIds freeDb record.id txnid := by
  have split_filter : ∀ from_id, freeDb.filter (fun r => from_id < r.id ∧ r.id < txnid) =
      (freeDb.filter (from_id < ·.id)).filter (·.id < txnid) := by
    intro from_id
    rw [List.filter_filter]
    refine List.filter_congr fun r _ => ?_
    rw [Bool.decide_and, Bool.and_comm]
  obtain ⟨tail, _, _⟩ := filter_next keys left
  rw [pendingIds, pendingIds, split_filter, split_filter, left, ← tail,
    List.filter_cons_of_pos (by simpa using older),
    List.flatMap_cons]

end Records

section Fetch

/-- How `mdb_page_alloc` moves along the records. -/
structure Advanced (freeDb : List FreeRecord) (found : Option ℕ) (pg pg' : Pgstate) : Prop where
  last : pg'.pglast = pg.pglast ∨ pg.pglast < pg'.pglast ∧ (∃ r ∈ freeDb, r.id = pg'.pglast) ∧
    ∃ oldest, (oldest = pg.pgoldest ∨ found = some oldest) ∧ pg'.pglast < oldest
  oldest : pg'.pgoldest = pg.pgoldest ∨ found = some pg'.pgoldest
  head : (pg.pghead = none ↔ pg.pglast = 0) → (pg'.pghead = none ↔ pg'.pglast = 0)

/-- The IDs of the records it passes come into `me_pghead`. -/
structure RecordsFetched (freeDb : List FreeRecord) (txnid : ℕ) (found : Option ℕ) (pg pg' : Pgstate) : Prop extends
    Advanced freeDb found pg pg' where
  ids : ∀ p, (pg'.pghead.getD []).count p + (pendingIds freeDb pg'.pglast txnid).count p =
    (pg.pghead.getD []).count p + (pendingIds freeDb pg.pglast txnid).count p
  sorted : (pg'.pghead.getD []).Pairwise (· ≥ ·)

theorem tooRecent_some {found : Option ℕ} {last pgoldest oldest : ℕ} {recent : Bool}
    (checked : tooRecent found last pgoldest = some (oldest, recent)) :
    (oldest = pgoldest ∨ found = some oldest) ∧ (recent = false → last < oldest) := by
  rw [tooRecent] at checked
  split at checked
  · cases found with
    | none => cases checked
    | some value =>
      cases checked
      exact ⟨.inr rfl, by simp⟩
  · rename_i later
    cases checked
    exact ⟨.inl rfl, fun _ => by omega⟩

theorem tooRecent_twice {found : Option ℕ} {last id pgoldest oldest oldest' : ℕ} {recent recent' : Bool}
    (first : tooRecent found last pgoldest = some (oldest, recent))
    (second : tooRecent found id oldest = some (oldest', recent')) :
    oldest' = pgoldest ∨ found = some oldest' := by
  rcases (tooRecent_some second).1 with rfl | other
  · exact (tooRecent_some first).1
  · exact .inr other

variable {freeDb : List FreeRecord} {txnid : ℕ} {found : Option ℕ}

theorem RecordsFetched.same {pg : Pgstate} {oldest : ℕ} (sorted : (pg.pghead.getD []).Pairwise (· ≥ ·))
    (looked : oldest = pg.pgoldest ∨ found = some oldest) :
    RecordsFetched freeDb txnid found pg { pg with pgoldest := oldest } where
  last := .inl rfl
  oldest := looked
  head := id
  ids := fun _ => rfl
  sorted := sorted

/-- What the loop hands on: the state it fetched, and where a range begins in it. -/
def PagesSought.Fetches (freeDb : List FreeRecord) (txnid : ℕ) (found : Option ℕ) (num : ℕ)
    (pg : Pgstate) : PagesSought → Prop
  | .found pg' i => RecordsFetched freeDb txnid found pg pg' ∧
      seekRange (pg'.pghead.getD []) (num - 1) (pg'.pghead.getD []).length = some i
  | .newPages pg' => RecordsFetched freeDb txnid found pg pg'
  | .awaitsOldest => True

theorem RecordsFetched.next {pg pg' : Pgstate} {record : FreeRecord} {records : List FreeRecord} {oldest : ℕ}
    (keys : freeDb.Pairwise (·.id < ·.id)) (left : freeDb.filter (pg.pglast < ·.id) = record :: records)
    (older : record.id < oldest) (known : oldest ≤ txnid) (looked : oldest = pg.pgoldest ∨ found = some oldest)
    (rest : RecordsFetched freeDb txnid found
      ⟨some (xmerge (pg.pghead.getD []) record.ids), record.id, oldest⟩ pg') :
    RecordsFetched freeDb txnid found pg pg' where
  last := by
    obtain ⟨_, member, later⟩ := filter_next keys left
    rcases rest.last with same | ⟨after, exists_record, limit, known, below⟩
    · exact .inr ⟨same ▸ later, ⟨record, member, same.symm⟩, oldest, looked, same ▸ older⟩
    · refine .inr ⟨Nat.lt_trans later after, exists_record, limit, ?_, below⟩
      rcases known with rfl | other
      · exact looked
      · exact .inr other
  oldest := by
    rcases rest.oldest with same | other
    · rw [same]
      exact looked
    · exact .inr other
  head := by
    intro _
    obtain ⟨_, _, later⟩ := filter_next keys left
    exact rest.head (by simp; omega)
  ids := by
    intro p
    rw [rest.ids, Option.getD_some, (xmerge_perm _ _).count_eq, List.count_append,
      pendingIds_next keys left (by omega), List.count_append, Nat.add_assoc]
  sorted := rest.sorted

theorem allocLoop_fetched (num : ℕ) {records : List FreeRecord} {pg : Pgstate} (retry : ℤ)
    (keys : freeDb.Pairwise (·.id < ·.id)) (ordered : ∀ r ∈ freeDb, r.ids.Pairwise (· ≥ ·))
    (left : freeDb.filter (pg.pglast < ·.id) = records) (sorted : (pg.pghead.getD []).Pairwise (· ≥ ·))
    (known : pg.pgoldest ≤ txnid) (looked : ∀ oldest, found = some oldest → oldest ≤ txnid) :
    (allocLoop num found records pg retry).Fetches freeDb txnid found num pg := by
  fun_induction allocLoop num found records pg retry with
  | case1 records pg retry i seek => exact ⟨.same sorted (.inl rfl), seek⟩
  | case2 => exact .same sorted (.inl rfl)
  | case3 => trivial
  | case4 _ _ _ _ _ _ oldest checked => exact .same sorted (tooRecent_some checked).1
  | case5 _ _ _ _ _ oldest checked => exact .same sorted (tooRecent_some checked).1
  | case6 => trivial
  | case7 pg _ _ _ _ oldest checked record records oldest' checked' =>
    exact .same sorted (tooRecent_twice checked checked')
  | case8 pg _ _ retry _ oldest checked record records oldest' checked' ih =>
    -- the record is old enough, and the loop starts over
    have looked' := tooRecent_twice checked checked'
    have known' : oldest' ≤ txnid := by
      rcases looked' with rfl | other
      · exact known
      · exact looked _ other
    obtain ⟨tail, member, _⟩ := filter_next keys left
    have rest := ih tail.symm (xmerge_sorted sorted (ordered record member)) known'
    have next {pg' : Pgstate} := @RecordsFetched.next freeDb txnid found pg pg' record records oldest' keys left
      ((tooRecent_some checked').2 rfl) known' looked'
    cases result : allocLoop num found records ⟨some (xmerge (pg.pghead.getD []) record.ids), record.id,
      oldest'⟩ retry with
    | found pg' i =>
      rw [result] at rest
      exact ⟨next rest.1, rest.2⟩
    | newPages pg' =>
      rw [result] at rest
      exact next rest
    | awaitsOldest => trivial

end Fetch

section Range

variable {mop : List ℕ}

theorem seekRange_some {n2 i k : ℕ} (seek : seekRange mop n2 i = some k) :
    n2 < k ∧ k ≤ i ∧ mop.getD (k - 1 - n2) 0 = mop.getD (k - 1) 0 + n2 := by
  induction i with
  | zero => cases seek
  | succ i ih =>
    rw [seekRange] at seek
    split at seek
    · split at seek
      · rename_i long contiguous
        cases seek
        exact ⟨long, Nat.le_refl _, contiguous⟩
      · obtain ⟨long, below, contiguous⟩ := ih seek
        exact ⟨long, by omega, contiguous⟩
    · cases seek

theorem descends (strict : mop.Pairwise (· > ·)) {a b : ℕ} (le : a ≤ b) (inside : b < mop.length) :
    mop[b] + (b - a) ≤ mop[a] := by
  induction b with
  | zero =>
    obtain rfl : a = 0 := by omega
    simp
  | succ b ih =>
    rcases Nat.eq_or_lt_of_le le with rfl | lt
    · simp
    · have before := ih (by omega) (by omega)
      have step : mop[b + 1] < mop[b] := List.pairwise_iff_getElem.1 strict b (b + 1) (by omega) inside
        (Nat.lt_succ_self b)
      omega

/-- Two entries as far apart as their addresses have all the IDs between them. -/
theorem contiguous_slice (strict : mop.Pairwise (· > ·)) {a : ℕ} (n2 : ℕ) (inside : a + n2 < mop.length)
    (contiguous : mop[a] = mop[a + n2] + n2) : (mop.drop a).take (n2 + 1) = idRange ⟨mop[a + n2], n2 + 1⟩ := by
  refine List.ext_getElem (by simp [idRange]; omega) fun k k_lt _ => ?_
  rw [List.length_take, List.length_drop] at k_lt
  have above := descends strict (Nat.le_add_right a k) (by omega)
  have below := descends strict (by omega : a + k ≤ a + n2) inside
  simp only [idRange, List.getElem_take, List.getElem_drop, List.getElem_reverse, List.getElem_range',
    List.length_range']
  omega

/-- What `mdb_page_alloc` takes out of the list is what it hands out. -/
theorem count_takeRange (sorted : mop.Pairwise (· ≥ ·)) (nodup : mop.Nodup) {num i : ℕ} (one_le : 1 ≤ num)
    (seek : seekRange mop (num - 1) mop.length = some i) (p : ℕ) :
    mop.count p = (mop.take (i - num) ++ mop.drop i).count p + (idRange ⟨mop.getD (i - 1) 0, num⟩).count p := by
  have strict : mop.Pairwise (· > ·) := (sorted.and nodup).imp fun {x y} both => by
    have := both.2
    omega
  obtain ⟨long, inside, contiguous⟩ := seekRange_some seek
  have start : i - 1 - (num - 1) = i - num := by omega
  have last : i - num + (num - 1) = i - 1 := by omega
  rw [start, List.getD_eq_getElem _ _ (by omega), List.getD_eq_getElem _ _ (by omega)] at contiguous
  have slice := contiguous_slice (a := i - num) strict (num - 1) (by omega) (by simpa only [last] using contiguous)
  have number : num - 1 + 1 = num := by omega
  simp only [last, number] at slice
  have parts : mop = mop.take (i - num) ++ ((mop.drop (i - num)).take num ++ mop.drop i) := by
    have rest : mop.drop i = (mop.drop (i - num)).drop num := by
      rw [List.drop_drop]
      congr 1
      omega
    rw [rest, List.take_append_drop, List.take_append_drop]
  rw [List.getD_eq_getElem _ _ (by omega), ← slice]
  conv_lhs => rw [parts]
  rw [List.count_append, List.count_append, List.count_append]
  omega

theorem takeRange_sublist (mop : List ℕ) (num i : ℕ) : (mop.take (i - num) ++ mop.drop i).Sublist mop := by
  conv_rhs => rw [← List.take_append_drop (i - num) mop]
  exact (List.Sublist.refl _).append (List.drop_sublist_drop_left mop (Nat.sub_le i num))

end Range

def beyond (nextPgno p : ℕ) : ℕ := if nextPgno ≤ p then 1 else 0

/-- How often a page can be had: as a loose one, from `me_pghead` or a record to come, or beyond the end. -/
def available (t : TxnPages) (p : ℕ) : ℕ :=
  t.loosePgs.count p + (t.pghead.getD []).count p + (pendingIds t.freeDb t.pglast t.txnid).count p + beyond t.nextPgno p

def Apart (mp other : MdbPage) : Prop := ∀ p, p ∈ idRange mp → p ∉ idRange other

theorem Apart.symm {mp other : MdbPage} (apart : Apart mp other) : Apart other mp :=
    fun p here there => apart p there here

/-- The places of all pages, and what the lists are like. -/
structure Accounts (t : TxnPages) : Prop where
  once : ∀ p, (pagesOf t.tree).count p + t.freePgs.count p + available t p = if 2 ≤ p then 1 else 0
  keys : t.freeDb.Pairwise (·.id < ·.id)
  positive : ∀ r ∈ t.freeDb, 0 < r.id
  ordered : ∀ r ∈ t.freeDb, r.ids.Pairwise (· ≥ ·)
  sorted : (t.pghead.getD []).Pairwise (· ≥ ·)
  head : t.pghead = none ↔ t.pglast = 0
  last : t.pglast < t.txnid
  oldest : t.pgoldest < t.txnid
  written : ∀ mp ∈ t.dirtyList ++ t.spillPgs, 1 ≤ mp.pages ∧
    ∀ p ∈ idRange mp, p ∈ pagesOf t.tree ∨ p ∈ t.freePgs ∨ p ∈ t.loosePgs
  apart : (t.dirtyList ++ t.spillPgs).Pairwise Apart
  loose : ∀ p ∈ t.loosePgs, ⟨p, 1⟩ ∈ t.dirtyList
  room : t.dirtyRoom + t.dirtyList.length ≤ midlUmMax

/-- A new environment has its two meta pages and nothing else. -/
theorem accounts_init (pgoldest : ℕ) (none_older : pgoldest ≤ 0) :
    Accounts (txnRenew0 0 ⟨0, 1, [], []⟩ pgoldest) where
  once := by
    intro p
    simp [txnRenew0, available, pendingIds, beyond]
  keys := .nil
  positive := by simp [txnRenew0]
  ordered := by simp [txnRenew0]
  sorted := .nil
  head := by simp [txnRenew0]
  last := by simp [txnRenew0]
  oldest := by
    simp only [txnRenew0]
    omega
  written := by simp [txnRenew0]
  apart := .nil
  loose := by simp [txnRenew0]
  room := Nat.le_refl _

/-- All that `mdb_page_alloc` does. -/
structure Allocated (found : Option ℕ) (num : ℕ) (t : TxnPages) (np : MdbPage) (t' : TxnPages) : Prop where
  pages : np.pages = num
  taken : ∀ p, available t p = available t' p + (idRange np).count p
  tree : t'.tree = t.tree
  freePgs : t'.freePgs = t.freePgs
  freeDb : t'.freeDb = t.freeDb
  txnid : t'.txnid = t.txnid
  spillPgs : t'.spillPgs = t.spillPgs
  loose : t'.loosePgs ⊆ t.loosePgs
  left : ∀ p ∈ t.loosePgs, p ∈ t'.loosePgs ∨ p ∈ idRange np
  dirty : np ∈ t.dirtyList ∧ t'.dirtyList = t.dirtyList ∨
    t'.dirtyList = np :: t.dirtyList ∧ t'.loosePgs = t.loosePgs
  room : t'.dirtyRoom + t'.dirtyList.length ≤ midlUmMax
  advanced : Advanced t.freeDb found t.toPgstate t'.toPgstate
  sorted : (t'.pghead.getD []).Pairwise (· ≥ ·)

section Allocation

variable {t : TxnPages} {found : Option ℕ} {num : ℕ}

theorem one_of_once {p : ℕ} (accounts : Accounts t) :
    (pagesOf t.tree).count p + t.freePgs.count p + available t p ≤ 1 := by
  rw [accounts.once]
  split <;> omega

/-- What can be had as new is not on the dirty or the spill list. -/
theorem not_written {p : ℕ} (accounts : Accounts t) (fresh : t.loosePgs.count p < available t p) {mp : MdbPage}
    (member : mp ∈ t.dirtyList ++ t.spillPgs) : p ∉ idRange mp := by
  intro inside
  have one := one_of_once (p := p) accounts
  rcases (accounts.written mp member).2 p inside with in_tree | freed | loosened
  · have := List.one_le_count_iff.2 in_tree
    omega
  · have := List.one_le_count_iff.2 freed
    omega
  · have := List.one_le_count_iff.2 loosened
    omega

theorem mem_idRange_self {mp : MdbPage} (one_le : 1 ≤ mp.pages) : mp.pgno ∈ idRange mp := mem_idRange.2 (by omega)

theorem pgno_not_written {pgno : ℕ} (accounts : Accounts t) (fresh : t.loosePgs.count pgno < available t pgno)
    {mp : MdbPage} (member : mp ∈ t.dirtyList ++ t.spillPgs) : mp.pgno ≠ pgno := by
  intro same
  have inside := mem_idRange_self (accounts.written mp member).1
  exact not_written accounts fresh member (same ▸ inside)

theorem mdbPageDirty_done (mp : MdbPage) (absent : ∀ other ∈ t.dirtyList, other.pgno ≠ mp.pgno)
    (left : t.dirtyRoom ≠ 0) (room : t.dirtyRoom + t.dirtyList.length ≤ midlUmMax) :
    mdbPageDirty t mp = .done { t with dirtyList := mp :: t.dirtyList, dirtyRoom := t.dirtyRoom - 1 } := by
  rw [mdbPageDirty, if_neg]
  rintro (⟨other, member, same⟩ | full)
  · exact absent other member same
  · omega

theorem recordsLeft_eq (accounts : Accounts t) : t.freeDb.filter (t.pglast < ·.id) =
    recordsLeft t.freeDb t.pglast := by
  rw [recordsLeft]
  split
  · rename_i none_yet
    rw [none_yet, List.filter_eq_self]
    intro r member
    simpa using accounts.positive r member
  · rfl

theorem allocPages_allocated (accounts : Accounts t) (one_le : 1 ≤ num)
    (looked : ∀ oldest, found = some oldest → oldest < t.txnid) {maxpg : ℕ} :
    allocPages maxpg found num t ≠ .asserts ∧
      ∀ np t', allocPages maxpg found num t = .done (np, t') → Allocated found num t np t' := by
  rw [allocPages]
  split
  · simp
  · rename_i left
    have loop := allocLoop_fetched num (num * 60) accounts.keys accounts.ordered (recordsLeft_eq accounts)
      accounts.sorted (Nat.le_of_lt accounts.oldest) (fun oldest known => Nat.le_of_lt (looked oldest known))
    have room := accounts.room
    cases sought : allocLoop num found (recordsLeft t.freeDb t.pglast) t.toPgstate (num * 60) with
    | awaitsOldest => simp
    | found pg i =>
      rw [sought] at loop
      obtain ⟨⟨advanced, ids, sorted⟩, seek⟩ := loop
      have one : ∀ p, (pg.pghead.getD []).count p + t.loosePgs.count p ≤ available t p := by
        intro p
        have := ids p
        rw [available]
        omega
      have nodup : (pg.pghead.getD []).Nodup := by
        rw [List.nodup_iff_count_le_one]
        intro p
        have := one p
        have := one_of_once (p := p) accounts
        omega
      have range := count_takeRange sorted nodup one_le seek
      simp only
      generalize (pg.pghead.getD []).getD (i - 1) 0 = pgno at range
      have fresh : t.loosePgs.count pgno < available t pgno := by
        have := one pgno
        have := range pgno
        have : 1 ≤ (idRange ⟨pgno, num⟩).count pgno := List.one_le_count_iff.2 (mem_idRange_self one_le)
        omega
      have kept := sorted.sublist (takeRange_sublist _ num i)
      generalize (pg.pghead.getD []).take (i - num) ++ (pg.pghead.getD []).drop i = rest at range kept
      have dirtied := mdbPageDirty_done (t := { t with toPgstate := { pg with pghead := some rest } }) ⟨pgno, num⟩
        (fun other member => pgno_not_written accounts fresh (List.mem_append_left _ member)) left room
      rw [dirtied]
      refine ⟨by simp [PageOutcome.bind], fun np t' eq => ?_⟩
      cases eq
      refine ⟨rfl, ?_, rfl, rfl, rfl, rfl, rfl, fun _ => id, fun _ => .inl, .inr ⟨rfl, rfl⟩, ?_, ?_, ?_⟩
      · intro p
        have := ids p
        have := range p
        simp only [available, Option.getD_some]
        omega
      · simp only [List.length_cons]
        omega
      · refine ⟨advanced.last, advanced.oldest, fun both => ?_⟩
        have some_left : pg.pghead ≠ none := by
          intro empty
          rw [empty] at seek
          cases seek
        have := advanced.head both
        simp only [reduceCtorEq, false_iff]
        exact fun zero => some_left (this.2 zero)
      · exact kept
    | newPages pg =>
      rw [sought] at loop
      obtain ⟨advanced, ids, sorted⟩ := loop
      simp only
      split
      · simp
      · have fresh : t.loosePgs.count t.nextPgno < available t t.nextPgno := by
          rw [available, beyond, if_pos (Nat.le_refl _)]
          omega
        have dirtied := mdbPageDirty_done (t := { t with toPgstate := pg, nextPgno := t.nextPgno + num })
          ⟨t.nextPgno, num⟩
          (fun other member => pgno_not_written accounts fresh (List.mem_append_left _ member)) left room
        rw [dirtied]
        refine ⟨by simp [PageOutcome.bind], fun np t' eq => ?_⟩
        cases eq
        refine ⟨rfl, ?_, rfl, rfl, rfl, rfl, rfl, fun _ => id,
          fun _ => .inl, .inr ⟨rfl, rfl⟩, ?_, advanced, sorted⟩
        · intro p
          have := ids p
          simp only [available, beyond, count_idRange]
          split <;> split <;> split <;> omega
        · simp only [List.length_cons]
          omega

theorem mdbPageAlloc_allocated (maxpg : ℕ) (accounts : Accounts t) (one_le : 1 ≤ num)
    (looked : ∀ oldest, found = some oldest → oldest < t.txnid) :
    mdbPageAlloc maxpg found num t ≠ .asserts ∧
      ∀ np t', mdbPageAlloc maxpg found num t = .done (np, t') → Allocated found num t np t' := by
  rw [mdbPageAlloc]
  split
  · exact allocPages_allocated accounts one_le looked
  · rename_i pgno loose first
    split
    · rename_i single
      refine ⟨by simp, fun np t' eq => ?_⟩
      cases eq
      have dirty := accounts.loose pgno (by simp [first])
      refine ⟨single.symm, ?_, rfl, rfl, rfl, rfl, rfl, by simp [first], ?_, .inl ⟨dirty, rfl⟩, accounts.room,
        ⟨.inl rfl, .inl rfl, id⟩, accounts.sorted⟩
      · intro p
        simp only [available, first, List.count_cons, count_idRange, beq_iff_eq]
        split <;> split <;> omega
      · intro p member
        rw [first, List.mem_cons] at member
        rcases member with rfl | other
        · exact .inr (mem_idRange_self (Nat.le_refl 1))
        · exact .inl other
    · exact allocPages_allocated accounts one_le looked

end Allocation

end SamLmdb
