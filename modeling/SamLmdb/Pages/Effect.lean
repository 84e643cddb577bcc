import SamLmdb.Pages.Accounts

/-!
What the page operations keep: the place of every page, and the pages that an earlier
version of the databases consists of.
-/

namespace SamLmdb

section InsertRange

variable {mop : List ℕ} {mp : MdbPage}

theorem rdropWhile_append_rtakeWhile (keep : ℕ → Bool)
    (mop : List ℕ) : mop.rdropWhile keep ++ mop.rtakeWhile keep = mop := by
  rw [List.rdropWhile, List.rtakeWhile, ← List.reverse_append, List.takeWhile_append_dropWhile, List.reverse_reverse]

theorem count_insertRange (p : ℕ) : (insertRange mop mp).count p = mop.count p + (idRange mp).count p := by
  conv_rhs => rw [← rdropWhile_append_rtakeWhile (· < mp.pgno) mop]
  rw [insertRange, List.count_append, List.count_append, List.count_append]
  omega

theorem idRange_sorted (mp : MdbPage) : (idRange mp).Pairwise (· ≥ ·) := by
  rw [idRange, List.pairwise_reverse]
  exact List.pairwise_le_range'

theorem insertRange_sorted (sorted : mop.Pairwise (· ≥ ·)) (apart : ∀ p ∈ mop, p ∉ idRange mp) :
    (insertRange mop mp).Pairwise (· ≥ ·) := by
  have before : ∀ p ∈ mop.rdropWhile (· < mp.pgno), mp.pgno + mp.pages ≤ p := by
    intro p member
    have not_empty : mop.rdropWhile (· < mp.pgno) ≠ [] := List.ne_nil_of_mem member
    have last_not := List.rdropWhile_last_not _ _ not_empty
    have ordered := sorted.sublist (List.rdropWhile_prefix (· < mp.pgno) mop).sublist
    have last_le : (mop.rdropWhile (· < mp.pgno)).getLast not_empty ≤ p := by
      rw [← List.dropLast_append_getLast not_empty, List.mem_append, List.mem_singleton] at member
      rcases member with inside | last
      · rw [← List.dropLast_append_getLast not_empty, List.pairwise_append] at ordered
        exact ordered.2.2 p inside _ (List.mem_singleton_self _)
      · exact Nat.le_of_eq last.symm
    have out := apart p ((List.rdropWhile_prefix (· < mp.pgno) mop).subset member)
    rw [mem_idRange] at out
    simp only [decide_eq_true_eq] at last_not
    omega
  have after : ∀ p ∈ mop.rtakeWhile (· < mp.pgno), p < mp.pgno := by
    intro p member
    simpa using List.mem_rtakeWhile_imp member
  rw [insertRange, List.append_assoc, List.pairwise_append, List.pairwise_append]
  refine ⟨sorted.sublist (List.rdropWhile_prefix _ mop).sublist, ⟨idRange_sorted mp,
    sorted.sublist (List.rtakeWhile_suffix _ mop).sublist, ?_⟩, ?_⟩
  · intro p p_in q q_in
    have := after q q_in
    have := (mem_idRange.1 p_in).1
    omega
  · intro p p_in q q_in
    have far := before p p_in
    rcases List.mem_append.1 q_in with q_in | q_in
    · have := (mem_idRange.1 q_in).2
      omega
    · have := after q q_in
      omega

end InsertRange

def Used (t : TxnPages) (p : ℕ) : Prop := p ∈ pagesOf t.tree ∨ p ∈ t.freePgs

/-- A page that this transaction may write to the map. -/
def Written (t : TxnPages) (p : ℕ) : Prop := p ∈ pagesOf (t.dirtyList ++ t.spillPgs)

/-- All that a page operation may change, in `FREE_DBI` or another database. -/
structure Effect (freeDbi : Bool) (found : Option ℕ) (t t' : TxnPages) : Prop where
  freeDb : t'.freeDb = t.freeDb
  txnid : t'.txnid = t.txnid
  advanced : Advanced t.freeDb found t.toPgstate t'.toPgstate
  freed : t.freePgs <+: t'.freePgs
  loose : freeDbi → t'.loosePgs ⊆ t.loosePgs
  kept : ∀ p, Used t p → ¬ Written t p → Used t' p ∧ ¬ Written t' p

section Operations

variable {t t' : TxnPages} {found : Option ℕ} {freeDbi : Bool} {mp np : MdbPage}

theorem Advanced.refl (freeDb : List FreeRecord) (found : Option ℕ) (pg : Pgstate) : Advanced freeDb found pg pg where
  last := .inl rfl
  oldest := .inl rfl
  head := id

theorem Effect.refl (freeDbi : Bool) (found : Option ℕ) (t : TxnPages) : Effect freeDbi found t t where
  freeDb := rfl
  txnid := rfl
  advanced := .refl _ _ _
  freed := List.prefix_refl _
  loose := fun _ _ => id
  kept := fun _ used unwritten => ⟨used, unwritten⟩

theorem Advanced.trans {freeDb : List FreeRecord} {pg pg' pg'' : Pgstate} (first : Advanced freeDb found pg pg')
    (second : Advanced freeDb found pg' pg'') : Advanced freeDb found pg pg'' where
  last := by
    rcases second.last with same | ⟨later, exists_record, bound, known, below⟩
    · rw [same]
      exact first.last
    · have after : pg.pglast < pg''.pglast := by
        rcases first.last with same | ⟨later', _⟩ <;> omega
      refine .inr ⟨after, exists_record, bound, ?_, below⟩
      rcases known with rfl | seen
      · exact first.oldest
      · exact .inr seen
  oldest := by
    rcases second.oldest with same | seen
    · rw [same]
      exact first.oldest
    · exact .inr seen
  head := second.head ∘ first.head

theorem Effect.trans {t'' : TxnPages} (first : Effect freeDbi found t t') (second : Effect freeDbi found t' t'') :
    Effect freeDbi found t t'' where
  freeDb := second.freeDb.trans first.freeDb
  txnid := second.txnid.trans first.txnid
  advanced := first.advanced.trans (first.freeDb ▸ second.advanced)
  freed := first.freed.trans second.freed
  loose := fun inside _ loosened => first.loose inside (second.loose inside loosened)
  kept := fun p used unwritten => second.kept p (first.kept p used unwritten).1 (first.kept p used unwritten).2

theorem not_written_iff {p : ℕ} : ¬ Written t p ↔ ∀ mp ∈ t.dirtyList ++ t.spillPgs, p ∉ idRange mp := by
  rw [Written, mem_pagesOf]
  simp

theorem Accounts.not_available {p : ℕ} (accounts : Accounts t) (used : Used t p) : available t p = 0 := by
  have one := one_of_once (p := p) accounts
  rcases used with in_tree | freed
  · have := List.one_le_count_iff.2 in_tree
    omega
  · have := List.one_le_count_iff.2 freed
    omega

theorem Accounts.dropPage (accounts : Accounts t) (member : mp ∈ t.tree) : Accounts (dropPage mp t) := by
  have counts := count_pagesOf_erase member
  constructor
  · intro p
    rw [← accounts.once p, counts p]
    simp only [SamLmdb.dropPage, available, List.count_append]
    omega
  · exact accounts.keys
  · exact accounts.positive
  · exact accounts.ordered
  · exact accounts.sorted
  · exact accounts.head
  · exact accounts.last
  · exact accounts.oldest
  · intro other listed
    refine ⟨(accounts.written other listed).1, fun p inside => ?_⟩
    rcases (accounts.written other listed).2 p inside with in_tree | freed | loosened
    · rcases mem_pagesOf_erase member in_tree with here | elsewhere
      · exact .inr (.inl (List.mem_append_right _ here))
      · exact .inl elsewhere
    · exact .inr (.inl (List.mem_append_left _ freed))
    · exact .inr (.inr loosened)
  · exact accounts.apart
  · exact accounts.loose
  · exact accounts.room

theorem dropPage_effect (member : mp ∈ t.tree) : Effect freeDbi found t (dropPage mp t) where
  freeDb := rfl
  txnid := rfl
  advanced := .refl _ _ _
  freed := List.prefix_append _ _
  loose := fun _ _ => id
  kept := by
    intro p used unwritten
    refine ⟨?_, unwritten⟩
    rcases used with in_tree | freed
    · rcases mem_pagesOf_erase member in_tree with here | elsewhere
      · exact .inr (List.mem_append_right _ here)
      · exact .inl elsewhere
    · exact .inr (List.mem_append_left _ freed)

theorem Advanced.below {freeDb : List FreeRecord} {pg pg' : Pgstate} {limit : ℕ}
    (advanced : Advanced freeDb found pg pg') (last : pg.pglast < limit) (oldest : pg.pgoldest ≤ limit)
    (looked : ∀ oldest, found = some oldest → oldest ≤ limit) :
    pg'.pglast < limit ∧ pg'.pgoldest ≤ limit := by
  constructor
  · rcases advanced.last with same | ⟨_, _, bound, known, below⟩
    · rwa [same]
    · rcases known with rfl | seen
      · exact Nat.lt_of_lt_of_le below oldest
      · exact Nat.lt_of_lt_of_le below (looked bound seen)
  · rcases advanced.oldest with same | seen
    · rwa [same]
    · exact looked _ seen

/-- A page that was allocated becomes one of the databases. -/
theorem Allocated.accounts {num : ℕ} (allocated : Allocated found num t np t') (accounts : Accounts t)
    (one_le : 1 ≤ num) (looked : ∀ oldest, found = some oldest → oldest < t.txnid) :
    Accounts { t' with tree := np :: t'.tree } := by
  have ⟨pages, taken, tree, freePgs, freeDb, txnid, spillPgs, loose, left, dirty, room, advanced, sorted⟩ :=
    allocated
  have limits : t'.pglast < t.txnid ∧ t'.pgoldest ≤ t.txnid - 1 := by
    have last := accounts.last
    have oldest := accounts.oldest
    refine ⟨(advanced.below last (Nat.le_of_lt oldest) fun oldest seen => Nat.le_of_lt (looked oldest seen)).1, ?_⟩
    rcases advanced.oldest with same | seen
    · rw [same]
      omega
    · have := looked _ seen
      omega
  have last := accounts.last
  have entries : ∀ mp ∈ t'.dirtyList ++ t'.spillPgs, mp = np ∨ mp ∈ t.dirtyList ++ t.spillPgs := by
    intro mp listed
    rw [spillPgs] at listed
    rcases dirty with ⟨_, same⟩ | ⟨added, _⟩
    · exact .inr (same ▸ listed)
    · rw [added, List.cons_append, List.mem_cons] at listed
      exact listed
  constructor
  · intro p
    have := taken p
    rw [← accounts.once p, count_pagesOf_cons, tree, freePgs]
    simp only [available] at this ⊢
    omega
  · exact freeDb ▸ accounts.keys
  · exact freeDb ▸ accounts.positive
  · exact freeDb ▸ accounts.ordered
  · exact sorted
  · exact advanced.head accounts.head
  · exact txnid ▸ limits.1
  · have := limits.2
    simp only [txnid]
    omega
  · intro mp listed
    rcases entries mp listed with rfl | before
    · refine ⟨by omega, fun p inside => .inl ?_⟩
      exact mem_pagesOf.2 ⟨mp, List.mem_cons_self, inside⟩
    · refine ⟨(accounts.written mp before).1, fun p inside => ?_⟩
      rcases (accounts.written mp before).2 p inside with in_tree | freed | loosened
      · rw [← tree] at in_tree
        obtain ⟨other, member, here⟩ := mem_pagesOf.1 in_tree
        exact .inl (mem_pagesOf.2 ⟨other, List.mem_cons_of_mem _ member, here⟩)
      · exact .inr (.inl (freePgs ▸ freed))
      · rcases left p loosened with still | here
        · exact .inr (.inr still)
        · exact .inl (mem_pagesOf.2 ⟨np, List.mem_cons_self, here⟩)
  · simp only [spillPgs]
    rcases dirty with ⟨_, same⟩ | ⟨added, same_loose⟩
    · exact same ▸ accounts.apart
    · rw [added, List.cons_append, List.pairwise_cons]
      refine ⟨fun other listed => ?_, accounts.apart⟩
      intro p inside
      have fresh : t.loosePgs.count p < available t p := by
        have := List.one_le_count_iff.2 inside
        rw [taken, available, same_loose]
        omega
      exact not_written accounts fresh listed
  · intro p loosened
    have before := accounts.loose p (loose loosened)
    rcases dirty with ⟨_, same⟩ | ⟨added, _⟩
    · exact same ▸ before
    · simp only [added]
      exact List.mem_cons_of_mem _ before
  · exact room

theorem Allocated.effect {num : ℕ} (allocated : Allocated found num t np t') (accounts : Accounts t) :
    Effect freeDbi found t { t' with tree := np :: t'.tree } where
  freeDb := allocated.freeDb
  txnid := allocated.txnid
  advanced := allocated.advanced
  freed := by
    simp only [allocated.freePgs]
    exact List.prefix_refl _
  loose := fun _ => allocated.loose
  kept := by
    intro p used unwritten
    have other : p ∉ idRange np := by
      intro inside
      have := allocated.taken p
      have := List.one_le_count_iff.2 inside
      have := accounts.not_available used
      omega
    constructor
    · rcases used with in_tree | freed
      · rw [← allocated.tree] at in_tree
        obtain ⟨mp, member, here⟩ := mem_pagesOf.1 in_tree
        exact .inl (mem_pagesOf.2 ⟨mp, List.mem_cons_of_mem _ member, here⟩)
      · exact .inr (allocated.freePgs ▸ freed)
    · rw [not_written_iff] at unwritten ⊢
      intro mp listed
      simp only [allocated.spillPgs] at listed
      rcases allocated.dirty with ⟨_, same⟩ | ⟨added, _⟩
      · exact unwritten mp (same ▸ listed)
      · rw [added, List.cons_append, List.mem_cons] at listed
        rcases listed with rfl | before
        · exact other
        · exact unwritten mp before

theorem idRange_single (single : mp.pages = 1) : idRange mp = [mp.pgno] := by
  rw [idRange, single]
  rfl

/-- A page on the dirty or the spill list overlaps none but itself there. -/
theorem Accounts.listed_once (accounts : Accounts t) {other : MdbPage} (listed : mp ∈ t.dirtyList ++ t.spillPgs)
    (listed' : other ∈ t.dirtyList ++ t.spillPgs) (differ : mp ≠ other) : Apart mp other := by
  refine List.Pairwise.forall_of_forall_of_flip (R := fun mp other => mp ≠ other →
    Apart mp other) ?_ ?_ ?_ listed listed' differ
  · intro mp _ same
    exact absurd rfl same
  · exact accounts.apart.imp (S := fun mp other => mp ≠ other → Apart mp other) fun apart _ => apart
  · exact accounts.apart.imp (S := fun mp other => other ≠ mp → Apart other mp) fun apart _ => apart.symm

theorem Accounts.rewritten (accounts : Accounts t) {dirtyList spillPgs : List MdbPage} {dirtyRoom : ℕ}
    (same : (dirtyList ++ spillPgs).Perm (t.dirtyList ++ t.spillPgs))
    (loose : ∀ p ∈ t.loosePgs, ⟨p, 1⟩ ∈ dirtyList) (room : dirtyRoom + dirtyList.length ≤ midlUmMax) :
    Accounts { t with dirtyList := dirtyList, dirtyRoom := dirtyRoom, spillPgs := spillPgs } ∧
      Effect freeDbi found t { t with dirtyList := dirtyList, dirtyRoom := dirtyRoom, spillPgs := spillPgs } := by
  refine ⟨{ accounts with
    written := fun mp listed => accounts.written mp (same.mem_iff.1 listed)
    apart := (same.pairwise_iff fun {_ _} => Apart.symm).2 accounts.apart
    loose := loose
    room := room }, { Effect.refl freeDbi found t with kept := ?_ }⟩
  intro p used unwritten
  refine ⟨used, ?_⟩
  rw [not_written_iff] at unwritten ⊢
  exact fun mp listed => unwritten mp (same.mem_iff.1 listed)

theorem mdbPageUnspill_effect (accounts : Accounts t) : mdbPageUnspill mp t ≠ .asserts ∧
    ∀ t', mdbPageUnspill mp t = .done t' → Accounts t' ∧ Effect freeDbi found t t' := by
  rw [mdbPageUnspill]
  split
  · rename_i spilled
    split
    · simp
    · rename_i left
      have room := accounts.room
      have absent : ∀ other ∈ t.dirtyList, other.pgno ≠ mp.pgno := by
        intro other dirty same
        have pages := accounts.written other (List.mem_append_left _ dirty)
        have pages' := accounts.written mp (List.mem_append_right _ spilled)
        have apart : Apart other mp := (List.pairwise_append.1 accounts.apart).2.2 other dirty mp spilled
        exact apart other.pgno (mem_idRange_self pages.1) (same ▸ mem_idRange_self pages'.1)
      have dirtied := mdbPageDirty_done (t := { t with spillPgs := t.spillPgs.erase mp }) mp absent left room
      rw [dirtied]
      refine ⟨by simp, fun t' eq => ?_⟩
      cases eq
      refine accounts.rewritten ?_ (fun p loose => List.mem_cons_of_mem _ (accounts.loose p loose)) ?_
      · exact List.perm_middle.symm.trans ((List.perm_cons_erase spilled).symm.append_left _)
      · simp only [List.length_cons]
        omega
  · refine ⟨by simp, fun t' eq => ?_⟩
    cases eq
    exact ⟨accounts, .refl _ _ _⟩

theorem mdbPageSpill_effect (accounts : Accounts t) {mps : List MdbPage} (allowed : (PageOp.spill mps).Allowed t) :
    Accounts (mdbPageSpill mps t) ∧ Effect freeDbi found t (mdbPageSpill mps t) := by
  obtain ⟨nodup, chosen⟩ := allowed
  have dirty_nodup : t.dirtyList.Nodup := by
    refine (List.pairwise_append.1 accounts.apart).1.imp_of_mem fun {mp other} listed _ apart same => ?_
    have inside := mem_idRange_self (accounts.written mp (List.mem_append_left _ listed)).1
    exact apart mp.pgno inside (same ▸ inside)
  have moved : mps.Perm (t.dirtyList.filter (· ∈ mps)) := by
    refine (List.perm_ext_iff_of_nodup nodup (dirty_nodup.filter _)).2 fun mp => ?_
    simp only [List.mem_filter, decide_eq_true_eq]
    exact ⟨fun member => ⟨(chosen mp member).1, member⟩, And.right⟩
  have parts : (mps ++ t.dirtyList.filter (· ∉ mps)).Perm t.dirtyList := by
    refine (moved.append_right _).trans ?_
    have := List.filter_append_perm (fun mp => decide (mp ∈ mps)) t.dirtyList
    simpa using this
  refine accounts.rewritten ?_ ?_ ?_
  · rw [← List.append_assoc]
    exact (List.perm_append_comm.trans parts).append_right _
  · intro p loose
    rw [List.mem_filter]
    refine ⟨accounts.loose p loose, ?_⟩
    simp only [decide_eq_true_eq]
    exact fun member => (chosen _ member).2 loose
  · have length := parts.length_eq
    rw [List.length_append] at length
    have := accounts.room
    omega

theorem looseDirty_effect (accounts : Accounts t) (member : mp ∈ t.tree) (single : mp.pages = 1)
    (dirty : mp ∈ t.dirtyList) :
    Accounts { t with tree := t.tree.erase mp, loosePgs := mp.pgno :: t.loosePgs } ∧
      Effect false found t { t with tree := t.tree.erase mp, loosePgs := mp.pgno :: t.loosePgs } := by
  have range := idRange_single single
  have itself : (⟨mp.pgno, 1⟩ : MdbPage) = mp := by rw [← single]
  constructor
  · refine { accounts with once := ?_, written := ?_, loose := ?_ }
    · intro p
      have := count_pagesOf_erase member p
      rw [← accounts.once p, this, range]
      simp only [available, List.count_cons, List.count_nil]
      omega
    · intro other listed
      refine ⟨(accounts.written other listed).1, fun p inside => ?_⟩
      rcases (accounts.written other listed).2 p inside with in_tree | freed | loosened
      · rcases mem_pagesOf_erase member in_tree with here | elsewhere
        · rw [range, List.mem_singleton] at here
          exact .inr (.inr (here ▸ List.mem_cons_self))
        · exact .inl elsewhere
      · exact .inr (.inl freed)
      · exact .inr (.inr (List.mem_cons_of_mem _ loosened))
    · intro p loosened
      rcases List.mem_cons.1 loosened with rfl | before
      · exact itself ▸ dirty
      · exact accounts.loose p before
  · refine { Effect.refl false found t with loose := by simp, kept := ?_ }
    intro p used unwritten
    refine ⟨?_, unwritten⟩
    rcases used with in_tree | freed
    · rcases mem_pagesOf_erase member in_tree with here | elsewhere
      · exact absurd here (not_written_iff.1 unwritten mp (List.mem_append_left _ dirty))
      · exact .inl elsewhere
    · exact .inr freed

/-- An overflow page on the dirty or the spill list goes back to `me_pghead`. -/
theorem returned_effect (accounts : Accounts t) (member : mp ∈ t.tree) {mop : List ℕ} (head : t.pghead = some mop)
    {dirtyList spillPgs : List MdbPage} {dirtyRoom : ℕ}
    (others : (mp :: (dirtyList ++ spillPgs)).Perm (t.dirtyList ++ t.spillPgs))
    (dirty : t.dirtyList.erase mp ⊆ dirtyList) (room : dirtyRoom + dirtyList.length ≤ midlUmMax) (t' : TxnPages)
    (after : t' = { t with
      tree := t.tree.erase mp, dirtyList := dirtyList, dirtyRoom := dirtyRoom, spillPgs := spillPgs,
      pghead := some (insertRange mop mp) }) : Accounts t' ∧ Effect freeDbi found t t' := by
  subst after
  have listed : mp ∈ t.dirtyList ++ t.spillPgs := others.subset List.mem_cons_self
  have pages := (accounts.written mp listed).1
  have apart := (others.pairwise_iff fun {_ _} => Apart.symm).2 accounts.apart
  rw [List.pairwise_cons] at apart
  have still : ∀ p, p ∈ pagesOf t.tree → p ∉ idRange mp → p ∈ pagesOf (t.tree.erase mp) :=
    fun p in_tree out =>
    (mem_pagesOf_erase member in_tree).resolve_left out
  constructor
  · refine { accounts with
      once := ?_, sorted := ?_, head := ?_, written := ?_, apart := apart.2, loose := ?_, room := room }
    · intro p
      have := count_pagesOf_erase member p
      rw [← accounts.once p, this]
      simp only [available, head, Option.getD_some, count_insertRange]
      omega
    · have sorted := accounts.sorted
      rw [head, Option.getD_some] at sorted
      refine insertRange_sorted sorted fun p in_mop inside => ?_
      have none_left := accounts.not_available (.inl (mem_pagesOf.2 ⟨mp, member, inside⟩))
      have := List.one_le_count_iff.2 in_mop
      rw [available, head, Option.getD_some] at none_left
      omega
    · have := accounts.head
      rw [head] at this
      simpa using this
    · intro other listed'
      have before : other ∈ t.dirtyList ++ t.spillPgs := others.subset (List.mem_cons_of_mem _ listed')
      refine ⟨(accounts.written other before).1, fun p inside => ?_⟩
      have out : p ∉ idRange mp := fun here => apart.1 other listed' p here inside
      rcases (accounts.written other before).2 p inside with in_tree | freed | loosened
      · exact .inl (still p in_tree out)
      · exact .inr (.inl freed)
      · exact .inr (.inr loosened)
    · intro p loosened
      refine dirty ((List.mem_erase_of_ne ?_).2 (accounts.loose p loosened))
      rintro rfl
      have none_left : available t p = 0 := accounts.not_available
        (.inl (mem_pagesOf.2 ⟨_, member, mem_idRange_self pages⟩))
      have : 1 ≤ t.loosePgs.count p := List.one_le_count_iff.2 loosened
      rw [available] at none_left
      omega
  · refine { Effect.refl freeDbi found t with advanced := ⟨.inl rfl, .inl rfl, fun both => ?_⟩, kept := ?_ }
    · rw [head] at both
      simpa using both
    · intro p used unwritten
      rw [not_written_iff] at unwritten
      constructor
      · rcases used with in_tree | freed
        · exact .inl (still p in_tree (unwritten mp listed))
        · exact .inr freed
      · rw [not_written_iff]
        exact fun other listed' => unwritten other (others.subset (List.mem_cons_of_mem _ listed'))

theorem mdbOvpageFree_effect (accounts : Accounts t) (member : mp ∈ t.tree) :
    Accounts (mdbOvpageFree mp t) ∧ Effect freeDbi found t (mdbOvpageFree mp t) := by
  have dropped : Accounts (dropPage mp t) ∧ Effect freeDbi found t (dropPage mp t) :=
    ⟨accounts.dropPage member, dropPage_effect member⟩
  rw [mdbOvpageFree]
  simp only
  split
  · exact dropped
  · rename_i mop head
    have room := accounts.room
    split
    · rename_i dirty
      have length := List.length_erase_of_mem dirty
      have positive := List.length_pos_of_mem dirty
      exact returned_effect accounts member head ((List.perm_cons_erase dirty).symm.append_right _) (fun _ => id)
        (by omega) _ rfl
    · rename_i not_dirty
      split
      · rename_i spilled
        refine returned_effect accounts member head
          (List.perm_middle.symm.trans ((List.perm_cons_erase spilled).symm.append_left _)) ?_ room _ rfl
        exact List.erase_subset
      · exact dropped

variable (freeDbi found) in
/-- Every page operation keeps the accounts, and none of its assertions fails. -/
theorem PageOp.run_effect (maxpg : ℕ) {op : PageOp} (accounts : Accounts t) (allowed : op.Allowed t)
    (looked : ∀ oldest, found = some oldest → oldest < t.txnid) : op.run maxpg freeDbi found t ≠ .asserts ∧
      ∀ t', op.run maxpg freeDbi found t = .done t' → Accounts t' ∧ Effect freeDbi found t t' := by
  cases op with
  | new num =>
    obtain ⟨holds, allocated⟩ := mdbPageAlloc_allocated maxpg accounts allowed looked
    simp only [PageOp.run, mdbPageNew]
    cases result : mdbPageAlloc maxpg found num t with
    | done pair =>
      refine ⟨by simp [PageOutcome.bind], fun t' eq => ?_⟩
      cases eq
      have spec := allocated _ _ result
      exact ⟨spec.accounts accounts allowed looked, spec.effect accounts⟩
    | awaitsOldest => simp [PageOutcome.bind]
    | failed rc => simp [PageOutcome.bind]
    | asserts => exact absurd result holds
  | touch mp =>
    obtain ⟨member, single⟩ := allowed
    simp only [PageOp.run, mdbPageTouch]
    split
    · refine ⟨by simp, fun t' eq => ?_⟩
      cases eq
      exact ⟨accounts, .refl _ _ _⟩
    · split
      · exact mdbPageUnspill_effect accounts
      · obtain ⟨holds, allocated⟩ := mdbPageAlloc_allocated maxpg accounts (Nat.le_refl 1) looked
        cases result : mdbPageAlloc maxpg found 1 t with
        | done pair =>
          obtain ⟨np, t₁⟩ := pair
          have spec := allocated _ _ result
          have differ : mp.pgno ≠ np.pgno := by
            intro same
            have inside : 1 ≤ (idRange np).count mp.pgno := List.one_le_count_iff.2
              (same ▸ mem_idRange_self (Nat.le_of_eq spec.pages.symm))
            have taken := spec.taken mp.pgno
            have none_left := accounts.not_available
              (.inl (mem_pagesOf.2 ⟨mp, member, mem_idRange_self (Nat.le_of_eq single.symm)⟩))
            omega
          refine ⟨by simp [PageOutcome.bind, differ], fun t' eq => ?_⟩
          simp only [PageOutcome.bind, if_neg differ] at eq
          cases eq
          -- the new page first, then the old one leaves
          have added := spec.accounts accounts (Nat.le_refl 1) looked
          have member' : mp ∈ np :: t₁.tree := List.mem_cons_of_mem _ (spec.tree ▸ member)
          have dropped : Accounts (dropPage mp { t₁ with tree := np :: t₁.tree }) ∧
              Effect freeDbi found t (dropPage mp { t₁ with tree := np :: t₁.tree }) :=
            ⟨added.dropPage member', (spec.effect accounts).trans (dropPage_effect member')⟩
          have order : (np :: t₁.tree).erase mp = np :: t₁.tree.erase mp :=
            List.erase_cons_tail (by simpa using fun same : np = mp => differ (same ▸ rfl))
          rwa [dropPage, idRange_single single, order] at dropped
        | awaitsOldest => simp [PageOutcome.bind]
        | failed rc => simp [PageOutcome.bind]
        | asserts => exact absurd result holds
  | unspill mp => exact mdbPageUnspill_effect accounts
  | loose mp =>
    obtain ⟨member, single⟩ := allowed
    refine ⟨by simp [PageOp.run], fun t' eq => ?_⟩
    cases eq
    rw [mdbPageLoose]
    simp only
    split
    · rename_i both
      obtain ⟨dirty, other_dbi⟩ := both
      obtain rfl : freeDbi = false := by simpa using other_dbi
      exact looseDirty_effect accounts member single dirty
    · have dropped : Accounts (dropPage mp t) ∧ Effect freeDbi found t (dropPage mp t) :=
        ⟨accounts.dropPage member, dropPage_effect member⟩
      rwa [dropPage, idRange_single single] at dropped
  | drop mp =>
    refine ⟨by simp [PageOp.run], fun t' eq => ?_⟩
    cases eq
    exact ⟨accounts.dropPage allowed, dropPage_effect allowed⟩
  | ovpageFree mp =>
    refine ⟨by simp [PageOp.run], fun t' eq => ?_⟩
    cases eq
    exact mdbOvpageFree_effect accounts allowed
  | spill mps =>
    refine ⟨by simp [PageOp.run], fun t' eq => ?_⟩
    cases eq
    exact mdbPageSpill_effect accounts allowed

def spareMeta : MdbMeta := ⟨4, 5, [⟨1, 3, [5, 4, 3]⟩], [⟨2, 1⟩]⟩

theorem accounts_spareMeta : Accounts (txnRenew0 4 spareMeta 0) := by
  refine { accounts_init 0 (Nat.le_refl _) with
    once := ?_, keys := List.pairwise_singleton _ _, positive := ?_, ordered := ?_,
    last := by decide, oldest := by decide, written := by simp [txnRenew0] }
  · intro p
    have records : pendingIds [⟨1, 3, [5, 4, 3]⟩] 0 5 = [5, 4, 3] := rfl
    have pages : pagesOf [⟨2, 1⟩] = [2] := rfl
    simp only [txnRenew0, spareMeta, available, records, pages, beyond, List.count_nil, Option.getD_none,
      List.count_cons, beq_iff_eq]
    grind
  · intro r member
    obtain rfl := List.mem_singleton.1 member
    decide
  · intro r member
    obtain rfl := List.mem_singleton.1 member
    decide

/-- The page operations of a transaction one after another, each with what has been found for it. -/
inductive PageRun (maxpg : ℕ) (t : TxnPages) : TxnPages → Prop
  | start : PageRun maxpg t t
  | next {t' t'' : TxnPages} {op : PageOp} {found : Option ℕ} (freeDbi : Bool) (before : PageRun maxpg t t')
      (allowed : op.Allowed t') (looked : ∀ oldest, found = some oldest → oldest < t'.txnid)
      (done : op.run maxpg freeDbi found t' = .done t'') : PageRun maxpg t t''

theorem PageRun.kept {maxpg : ℕ} (run : PageRun maxpg t t') (accounts : Accounts t) :
    Accounts t' ∧ t'.freeDb = t.freeDb ∧ ∀ p, Used t p → ¬ Written t p → Used t' p ∧ ¬ Written t' p := by
  induction run with
  | start => exact ⟨accounts, rfl, fun _ used unwritten => ⟨used, unwritten⟩⟩
  | next freeDbi before allowed looked done ih =>
    obtain ⟨accounts', freeDb, kept⟩ := ih
    obtain ⟨accounts'', effect⟩ := (PageOp.run_effect _ _ maxpg accounts' allowed looked).2 _ done
    refine ⟨accounts'', effect.freeDb.trans freeDb, fun p used unwritten => ?_⟩
    obtain ⟨used', unwritten'⟩ := kept p used unwritten
    exact effect.kept p used' unwritten'

/-- A transaction copies on write: it writes to no page of the version that it began on, and every
page keeps its one place. -/
theorem pageRun_copies {maxpg mtiTxnid pgoldest : ℕ} {m : MdbMeta}
    (accounts : Accounts (txnRenew0 mtiTxnid m pgoldest)) (run : PageRun maxpg (txnRenew0 mtiTxnid m pgoldest) t) :
    (∀ p, (pagesOf t.tree).count p + t.freePgs.count p + available t p = if 2 ≤ p then 1 else 0) ∧
      (∀ p ∈ pagesOf m.tree, ¬ Written t p ∧ (p ∈ pagesOf t.tree ∨ p ∈ t.freePgs)) ∧
        ∀ (op : PageOp) freeDbi found, op.Allowed t → (∀ oldest, found = some oldest → oldest < t.txnid) →
          op.run maxpg freeDbi found t ≠ .asserts := by
  obtain ⟨accounts', _, kept⟩ := run.kept accounts
  refine ⟨accounts'.once, fun p member => ?_, fun op freeDbi found allowed looked => ?_⟩
  · obtain ⟨used, unwritten⟩ := kept p (.inl member) (not_written_iff.2 (by simp [txnRenew0]))
    exact ⟨unwritten, used⟩
  · exact (PageOp.run_effect found freeDbi maxpg accounts' allowed looked).1

theorem pageRun_copies_touch : ∃ t, PageRun 1000 (txnRenew0 4 spareMeta 0) t ∧ t.tree = [⟨3, 1⟩] ∧
    t.freePgs = [2] ∧
    (∀ p, (pagesOf t.tree).count p + t.freePgs.count p + available t p = if 2 ≤ p then 1 else 0) ∧
      (∀ p ∈ pagesOf spareMeta.tree, ¬ Written t p ∧ (p ∈ pagesOf t.tree ∨ p ∈ t.freePgs)) ∧
        ∀ (op : PageOp) freeDbi found, op.Allowed t → (∀ oldest, found = some oldest → oldest < t.txnid) →
          op.run 1000 freeDbi found t ≠ .asserts := by
  have looked : ∀ oldest, some 4 = some oldest → oldest < 5 := by
    rintro oldest ⟨⟩
    decide
  have run : PageRun 1000 (txnRenew0 4 spareMeta 0) { txnRenew0 4 spareMeta 0 with
      pghead := some [5, 4], pglast := 1, pgoldest := 4, freePgs := [2], dirtyList := [⟨3, 1⟩], dirtyRoom :=
        midlUmMax - 1,
      tree := [⟨3, 1⟩] } :=
    .next false .start (show (PageOp.touch ⟨2, 1⟩).Allowed _ by decide) looked
      (by simp [PageOp.run, mdbPageTouch, mdbPageAlloc, allocPages, allocLoop, xmerge, tooRecent, seekRange,
        recordsLeft, txnRenew0, spareMeta, mdbPageDirty, PageOutcome.bind, midlUmMax])
  exact ⟨_, run, rfl, rfl, pageRun_copies accounts_spareMeta run⟩

end Operations

end SamLmdb
