import SamLmdb.Pages.Shield

/-!
What `mdb_page_flush` writes: a page of the databases that is not dirty is in the map as the
transaction has it.
-/

namespace SamLmdb

variable {β : Type}

/-- The map, after `mdb_page_flush` of these pages. -/
def mdbPageFlush (view map : ℕ → β) (mps : List MdbPage)
    (p : ℕ) : β := if p ∈ pagesOf mps then view p else map p

def PageOp.flushed : PageOp → List MdbPage
  | .spill mps => mps
  | _ => []

/-- The dirty pages that `mdb_page_flush` does not skip as loose ones. -/
def TxnPages.unflushed (t : TxnPages) (loosePgs : List ℕ) : List MdbPage := t.dirtyList.filter (·.pgno ∉ loosePgs)

/-- The pages of the databases are in the map, but for those that are still to be written. -/
def InMap (view map : ℕ → β) (t : TxnPages) (unflushed : List MdbPage) : Prop :=
  ∀ p ∈ pagesOf t.tree, p ∉ pagesOf unflushed → map p = view p

/-- A page of the databases that is dirty stays so, or is written to the map; others come in as dirty ones. -/
def StaysDirty (t t' : TxnPages) (flushed : List MdbPage) : Prop :=
  ∀ p ∈ pagesOf t'.tree, p ∉ pagesOf t'.dirtyList → p ∉ pagesOf flushed →
    p ∈ pagesOf t.tree ∧ p ∉ pagesOf t.dirtyList

theorem PageOp.Allowed.flushed {t : TxnPages} {op : PageOp} (allowed : op.Allowed t) : op.flushed ⊆ t.dirtyList := by
  cases op with
  | spill mps => exact fun mp chosen => (allowed.2 mp chosen).1
  | new num | touch mp | unspill mp | loose mp | drop mp | ovpageFree mp => exact List.nil_subset _

section Flush

variable {view map : ℕ → β} {t t' : TxnPages} {mps : List MdbPage} {mp : MdbPage} {p : ℕ}

theorem mdbPageFlush_other (out : p ∉ pagesOf mps) : mdbPageFlush view map mps p = map p := if_neg out

theorem mdbPageFlush_nil : mdbPageFlush view map [] = map := funext fun _ => if_neg (List.not_mem_nil)

theorem InMap.stays (before : InMap view map t t.dirtyList) {flushed : List MdbPage} (stays : StaysDirty t t' flushed) :
    InMap view (mdbPageFlush view map flushed) t' t'.dirtyList := by
  intro p member clean
  by_cases written : p ∈ pagesOf flushed
  · exact if_pos written
  · obtain ⟨in_tree, was_clean⟩ := stays p member clean written
    rw [mdbPageFlush_other written]
    exact before p in_tree was_clean

theorem InMap.mono (before : InMap view map t mps) (flushed : List MdbPage) :
    InMap view (mdbPageFlush view map flushed) t mps := by
  intro p member clean
  by_cases written : p ∈ pagesOf flushed
  · exact if_pos written
  · rw [mdbPageFlush_other written]
    exact before p member clean

theorem InMap.flush (before : InMap view map t mps) (mp : MdbPage) :
    InMap view (mdbPageFlush view map [mp]) t (mps.erase mp) := by
  intro p member left
  by_cases here : p ∈ pagesOf [mp]
  · exact if_pos here
  · rw [mdbPageFlush_other here]
    refine before p member fun listed => left ?_
    obtain ⟨other, member', inside⟩ := mem_pagesOf.1 listed
    refine mem_pagesOf.2 ⟨other, (List.mem_erase_of_ne ?_).2 member', inside⟩
    rintro rfl
    exact here (mem_pagesOf.2 ⟨other, List.mem_singleton_self _, inside⟩)

theorem pagesOf_mono {mps' : List MdbPage} (subset : mps ⊆ mps') : pagesOf mps ⊆ pagesOf mps' := by
  intro p listed
  obtain ⟨mp, member, inside⟩ := mem_pagesOf.1 listed
  exact mem_pagesOf.2 ⟨mp, subset member, inside⟩

theorem Written.of_dirty (subset : mps ⊆ t.dirtyList) (listed : p ∈ pagesOf mps) : Written t p :=
  pagesOf_mono (List.subset_append_of_subset_left _ subset) listed

end Flush

section Operations

variable {t t' : TxnPages} {found : Option ℕ} {freeDbi : Bool} {mp np : MdbPage} {flushed : List MdbPage}

theorem StaysDirty.of_subset (tree : t'.tree ⊆ t.tree)
    (dirty : t.dirtyList ⊆ t'.dirtyList) : StaysDirty t t' flushed :=
  fun _ member clean _ => ⟨pagesOf_mono tree member, fun listed => clean (pagesOf_mono dirty listed)⟩

theorem Allocated.staysDirty {num : ℕ} (allocated : Allocated found num t np t') {tree : List MdbPage}
    {freePgs : List ℕ} (subset : tree ⊆ t'.tree) :
    StaysDirty t { t' with tree := np :: tree, freePgs := freePgs } flushed := by
  intro p member clean _
  have dirty : np ∈ t'.dirtyList ∧ t.dirtyList ⊆ t'.dirtyList := by
    rcases allocated.dirty with ⟨listed, same⟩ | ⟨added, _⟩
    · rw [same]
      exact ⟨listed, List.Subset.refl _⟩
    · rw [added]
      exact ⟨List.mem_cons_self, List.subset_cons_self _ _⟩
  obtain ⟨other, member, inside⟩ := mem_pagesOf.1 member
  rcases List.mem_cons.1 member with rfl | before
  · exact absurd (mem_pagesOf.2 ⟨other, dirty.1, inside⟩) clean
  · refine ⟨mem_pagesOf.2 ⟨other, allocated.tree ▸ subset before, inside⟩,
      fun listed => clean (pagesOf_mono dirty.2 listed)⟩

/-- An overflow page goes back with all of its numbers, which no other page of its database has. -/
theorem mdbOvpageFree_staysDirty (accounts : Accounts t) (member : mp ∈ t.tree) :
    StaysDirty t (mdbOvpageFree mp t) flushed := by
  rw [mdbOvpageFree]
  simp only
  split
  · exact .of_subset List.erase_subset (List.Subset.refl _)
  · split
    · intro p in_tree clean _
      refine ⟨pagesOf_mono List.erase_subset in_tree, fun listed => ?_⟩
      rcases mem_pagesOf_erase ‹mp ∈ t.dirtyList› listed with inside | other
      · -- the page is in the tree once
        have := one_of_once (p := p) accounts
        have := count_pagesOf_erase member p
        have := List.one_le_count_iff.2 inside
        have : 1 ≤ (pagesOf (t.tree.erase mp)).count p := List.one_le_count_iff.2 in_tree
        omega
      · exact clean other
    · split <;> exact .of_subset List.erase_subset (List.Subset.refl _)

theorem mdbPageUnspill_staysDirty (done : mdbPageUnspill mp t = .done t') : StaysDirty t t' flushed := by
  rw [mdbPageUnspill] at done
  split at done
  · split at done
    · cases done
    · rw [mdbPageDirty] at done
      split at done
      · cases done
      · cases done
        exact .of_subset (List.Subset.refl _) (List.subset_cons_self _ _)
  · cases done
    exact .of_subset (List.Subset.refl _) (List.Subset.refl _)

/-- No page operation drops a dirty page that is in use, `mdb_page_spill` only what it writes. -/
theorem PageOp.run_staysDirty {maxpg : ℕ} {op : PageOp} (accounts : Accounts t) (allowed : op.Allowed t)
    (looked : ∀ oldest, found = some oldest → oldest < t.txnid) (done : op.run maxpg freeDbi found t = .done t') :
    StaysDirty t t' op.flushed := by
  cases op with
  | new num =>
    simp only [PageOp.run, mdbPageNew] at done
    cases result : mdbPageAlloc maxpg found num t with
    | done pair =>
      rw [result] at done
      cases done
      exact ((mdbPageAlloc_allocated maxpg accounts allowed looked).2 _ _ result).staysDirty (List.Subset.refl _)
    | awaitsOldest => simp [result, PageOutcome.bind] at done
    | failed rc => simp [result, PageOutcome.bind] at done
    | asserts => simp [result, PageOutcome.bind] at done
  | touch mp =>
    simp only [PageOp.run, mdbPageTouch] at done
    split at done
    · cases done
      exact .of_subset (List.Subset.refl _) (List.Subset.refl _)
    · split at done
      · exact mdbPageUnspill_staysDirty done
      · cases result : mdbPageAlloc maxpg found 1 t with
        | done pair =>
          rw [result] at done
          simp only [PageOutcome.bind] at done
          split at done
          · cases done
          · cases done
            exact ((mdbPageAlloc_allocated maxpg accounts (Nat.le_refl 1) looked).2 _ _ result).staysDirty
              List.erase_subset
        | awaitsOldest => simp [result, PageOutcome.bind] at done
        | failed rc => simp [result, PageOutcome.bind] at done
        | asserts => simp [result, PageOutcome.bind] at done
  | unspill mp => exact mdbPageUnspill_staysDirty done
  | loose mp =>
    cases done
    rw [mdbPageLoose]
    simp only
    split <;> exact .of_subset List.erase_subset (List.Subset.refl _)
  | drop mp =>
    cases done
    exact .of_subset List.erase_subset (List.Subset.refl _)
  | ovpageFree mp =>
    cases done
    exact mdbOvpageFree_staysDirty accounts allowed
  | spill mps =>
    cases done
    intro p member clean unwritten
    refine ⟨member, fun listed => clean ?_⟩
    obtain ⟨mp, dirty, inside⟩ := mem_pagesOf.1 listed
    refine mem_pagesOf.2 ⟨mp, List.mem_filter.2 ⟨dirty, ?_⟩, inside⟩
    simp only [decide_eq_true_eq]
    exact fun chosen => unwritten (mem_pagesOf.2 ⟨mp, chosen, inside⟩)

end Operations

section Save

variable {v v' : SaveVars} {stage stage' : SaveStage} {t t' : TxnPages} {flushed : List MdbPage} {p : ℕ}

/-- A loose page is on the dirty list by itself, and in use nowhere. -/
theorem Accounts.unflushed (accounts : Accounts t) (in_tree : p ∈ pagesOf t.tree)
    (listed : p ∈ pagesOf t.dirtyList) :
    p ∈ pagesOf (t.unflushed t.loosePgs) := by
  obtain ⟨mp, dirty, inside⟩ := mem_pagesOf.1 listed
  refine mem_pagesOf.2 ⟨mp, List.mem_filter.2 ⟨dirty, ?_⟩, inside⟩
  simp only [decide_eq_true_eq]
  intro loosened
  have dirty' := accounts.loose _ loosened
  have itself : mp = ⟨mp.pgno, 1⟩ := by
    by_contra differ
    refine accounts.listed_once (List.mem_append_left _ dirty) (List.mem_append_left _ dirty') differ mp.pgno ?_ ?_
    · exact mem_idRange_self (accounts.written mp (List.mem_append_left _ dirty)).1
    · exact mem_idRange_self (Nat.le_refl 1)
  rw [itself, idRange_single rfl, List.mem_singleton] at inside
  have none_left := accounts.not_available (.inl in_tree)
  have : 1 ≤ t.loosePgs.count p := List.one_le_count_iff.2 (inside ▸ loosened)
  rw [available] at none_left
  omega

theorem saveStart_staysDirty (accounts : Accounts t) (next : saveStart t = .at stage v t') :
    StaysDirty t t' flushed := by
  rw [saveStart] at next
  split at next
  · cases next
    exact .of_subset (List.Subset.refl _) (List.Subset.refl _)
  · cases returned : looseToFree t with
    | done t'' =>
      rw [returned] at next
      cases next
      rw [looseToFree] at returned
      split at returned
      · split at returned
        · cases returned
          exact fun p in_tree clean _ => ⟨in_tree, fun listed => clean (accounts.unflushed in_tree listed)⟩
        · cases returned
      · cases returned
        exact .of_subset (List.Subset.refl _) (List.Subset.refl _)
    | awaitsOldest => simp [returned] at next
    | failed rc => simp [returned] at next
    | asserts => simp [returned] at next

theorem saveStep_staysDirty {maxfree1pg : ℕ} (next : saveStep maxfree1pg v t stage = .at stage' v' t') :
    StaysDirty t t' flushed := by
  have same : t'.tree = t.tree ∧ t'.dirtyList = t.dirtyList := by
    cases stage with
    | top => exact Shields.saveTop_quiet next ▸ ⟨rfl, rfl⟩
    | puttingFree =>
      rw [saveStep] at next
      split at next <;> cases next <;> exact ⟨rfl, rfl⟩
    | touchFirst | deleting | touchLast | puttingHead =>
      cases next
      exact ⟨rfl, rfl⟩
  exact .of_subset (fun _ => (same.1 ▸ ·)) fun _ => (same.2 ▸ ·)

theorem InMap.saved {view map : ℕ → β} (before : InMap view map t t.dirtyList) (accounts : Accounts t)
    (saved : Saved t t') :
    InMap view map t' (t'.unflushed t.loosePgs) := by
  intro p in_tree clean
  rw [saved.tree] at in_tree
  refine before p in_tree fun listed => clean ?_
  rw [TxnPages.unflushed, saved.dirty.1]
  exact accounts.unflushed in_tree listed

end Save

end SamLmdb
