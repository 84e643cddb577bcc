import SamLmdb.Pages.SaveInvariant

/-!
The pages of a version that may still be read: a write transaction neither writes to them
nor hands them out again.
-/

namespace SamLmdb

/-- Every page of the version `m` is in use still, or freed since, and not to be written. -/
structure Shields (t : TxnPages) (m : MdbMeta) : Prop where
  last : t.pglast ≤ m.txnid
  pages : ∀ p ∈ pagesOf m.tree, Used t p ∧ ¬ Written t p ∨
    ∃ r ∈ t.freeDb, m.txnid < r.id ∧ r.id < t.txnid ∧ p ∈ r.ids

/-- No page of the version is to be written, or to be had as a new one. -/
def Spares (t : TxnPages) (m : MdbMeta) : Prop :=
  ∀ p ∈ pagesOf m.tree, ¬ Written t p ∧ p ∉ t.loosePgs ∧ p ∉ t.pghead.getD [] ∧ p < t.nextPgno

namespace Shields

variable {t t' : TxnPages} {m : MdbMeta} {found : Option ℕ} {freeDbi : Bool}

theorem not_written (shields : Shields t m) (accounts : Accounts t) {p : ℕ}
    (member : p ∈ pagesOf m.tree) : ¬ Written t p := by
  rcases shields.pages p member with ⟨_, unwritten⟩ | ⟨r, in_db, newer, older, inside⟩
  · exact unwritten
  · have last := shields.last
    have pending := List.one_le_count_iff.2 (mem_pendingIds.2 ⟨r, in_db, (by omega : t.pglast < r.id), older,
      inside⟩)
    rw [not_written_iff]
    refine fun mp listed => SamLmdb.not_written accounts ?_ listed
    rw [available]
    omega

theorem spares (shields : Shields t m) (accounts : Accounts t) : Spares t m := by
  intro p member
  have one := one_of_once (p := p) accounts
  have taken : 1 ≤ (pagesOf t.tree).count p + t.freePgs.count p + (pendingIds t.freeDb t.pglast t.txnid).count p := by
    rcases shields.pages p member with ⟨in_tree | freed, _⟩ | ⟨r, in_db, newer, older, inside⟩
    · have := List.one_le_count_iff.2 in_tree
      omega
    · have := List.one_le_count_iff.2 freed
      omega
    · have last := shields.last
      have := List.one_le_count_iff.2 (mem_pendingIds.2 ⟨r, in_db, (by omega : t.pglast < r.id), older, inside⟩)
      omega
  rw [available, beyond] at one
  refine ⟨shields.not_written accounts member, fun loose => ?_, fun head => ?_, ?_⟩
  · have := List.one_le_count_iff.2 loose
    omega
  · have := List.one_le_count_iff.2 head
    omega
  · by_contra outside
    rw [if_pos (by omega)] at one
    omega

/-- A page operation keeps the version, as `mdb_find_oldest` and `me_pgoldest` are no newer. -/
theorem op (shields : Shields t m) (effect : Effect freeDbi found t t') (oldest : t.pgoldest ≤ m.txnid + 1)
    (looked : ∀ oldest, found = some oldest → oldest ≤ m.txnid + 1) : Shields t' m where
  last := Nat.lt_succ_iff.1 (effect.advanced.below (Nat.lt_succ_of_le shields.last) oldest looked).1
  pages := by
    intro p member
    rw [effect.freeDb, effect.txnid]
    exact (shields.pages p member).imp_left fun both => effect.kept p both.1 both.2

/-- What a step of `mdb_freelist_save` leaves as it is. -/
structure Quiet (t t' : TxnPages) : Prop where
  last : t'.pglast = t.pglast
  oldest : t'.pgoldest = t.pgoldest
  txnid : t'.txnid = t.txnid
  kept : ∀ p, Used t p → ¬ Written t p → Used t' p ∧ ¬ Written t' p
  pending : ∀ r ∈ t.freeDb, t.pglast < r.id → r.id < t.txnid → r ∈ t'.freeDb

theorem Quiet.refl (t : TxnPages) : Quiet t t :=
  ⟨rfl, rfl, rfl, fun _ used unwritten => ⟨used, unwritten⟩, fun _ member _ _ => member⟩

theorem quiet (shields : Shields t m) (quiet : Quiet t t') : Shields t' m where
  last := by
    rw [quiet.last]
    exact shields.last
  pages := by
    intro p member
    rcases shields.pages p member with ⟨used, unwritten⟩ | ⟨r, in_db, newer, older, inside⟩
    · exact .inl (quiet.kept p used unwritten)
    · have last := shields.last
      exact .inr ⟨r, quiet.pending r in_db (by omega) older, newer, quiet.txnid ▸ older, inside⟩

variable {v v' : SaveVars} {stage stage' : SaveStage}

theorem saveStart_quiet (accounts : Accounts t) (next : saveStart t = .at stage v t') : Quiet t t' := by
  rw [saveStart] at next
  split at next
  · cases next
    exact .refl t
  · obtain ⟨t'', done, _, _, last, freeDb, txnid, oldest, _, kept⟩ := accounts.looseToFree
    rw [done] at next
    cases next
    exact ⟨last, oldest, txnid, kept, fun r member _ _ => freeDb ▸ member⟩

/-- A record that is written under another key is not among those to come. -/
theorem Quiet.putRecord (record : FreeRecord) (keys : t.freeDb.Pairwise (·.id < ·.id))
    (out : record.id ≤ t.pglast ∨ t.txnid ≤ record.id) :
    Quiet t { t with freeDb := SamLmdb.putRecord record t.freeDb } where
  last := rfl
  oldest := rfl
  txnid := rfl
  kept := fun _ used unwritten => ⟨used, unwritten⟩
  pending := fun r member newer older => (mem_putRecord _ keys r).2 (.inr ⟨member, by omega⟩)

theorem saveReserve_quiet {maxfree1pg : ℕ} {mopLen : ℤ} {v₀ : SaveVars}
    (next : saveReserve maxfree1pg mopLen v₀ t = .at stage' v' t') :
    t' = t := by
  cases next
  rfl

theorem saveTop_quiet {maxfree1pg : ℕ} (next : saveTop maxfree1pg v t = .at stage' v' t') : t' = t := by
  rw [saveTop] at next
  split at next
  · split at next
    · cases next
    · split at next
      · cases next
        rfl
      · cases next
  · split at next
    · split at next <;> cases next <;> rfl
    · simp only at next
      split at next
      · split at next
        · rw [saveFinish] at next
          split at next
          · cases next
          · simp only at next
            split at next <;> cases next
        · exact saveReserve_quiet next
      · split at next <;> exact saveReserve_quiet next

theorem saveStep_quiet {maxfree1pg : ℕ} (inv : SaveInv v t stage)
    (next : saveStep maxfree1pg v t stage = .at stage' v' t') :
    Quiet t t' := by
  cases stage with
  | touchFirst =>
    cases next
    exact .refl t
  | top => exact saveTop_quiet next ▸ .refl t
  | deleting =>
    cases next
    obtain ⟨core, _⟩ := inv
    have reached := core.reached
    refine ⟨rfl, rfl, rfl, fun _ used unwritten => ⟨used, unwritten⟩,
      fun r member newer _ => List.mem_filter.2 ⟨member, ?_⟩⟩
    simp only [decide_eq_true_eq]
    omega
  | touchLast =>
    cases next
    exact .refl t
  | puttingFree =>
    obtain ⟨core, _⟩ := inv
    rw [saveStep] at next
    split at next
    · cases next
      exact .putRecord _ core.accounts.keys (.inr (Nat.le_refl _))
    · cases next
      have put := Quiet.putRecord ⟨t.txnid, v.freecnt, midlSort t.freePgs⟩ core.accounts.keys (.inr (Nat.le_refl _))
      exact ⟨rfl, rfl, rfl, fun p used unwritten => ⟨used.imp_right (midlSort_perm _).mem_iff.2, unwritten⟩,
        put.pending⟩
  | puttingHead =>
    cases next
    obtain ⟨core, _, _, _, _, reserved⟩ := inv
    have reached := core.reached
    have within := reserved.within
    exact .putRecord _ core.accounts.keys (.inl (by simp only; omega))

/-- The version that the transaction leaves behind still accounts for the older one. -/
theorem saved (shields : Shields t m) (accounts : Accounts t) (saved : Saved t t') (older : m.txnid < t.txnid)
    (pgoldest : ℕ) : Shields (txnRenew0 t.txnid t'.writeMeta pgoldest) m ∧ Spares t' m := by
  have none_written : ∀ p, ¬ Written (txnRenew0 t.txnid t'.writeMeta pgoldest) p := fun p =>
    not_written_iff.2 (by simp [txnRenew0])
  refine ⟨⟨Nat.zero_le _, fun p member => ?_⟩, fun p member => ?_⟩
  · rcases shields.pages p member with ⟨in_tree | freed, _⟩ | ⟨r, in_db, newer, before, inside⟩
    · refine .inl ⟨.inl ?_, none_written p⟩
      simp only [txnRenew0, TxnPages.writeMeta, saved.tree]
      exact in_tree
    · obtain ⟨r, in_db, own, inside⟩ := saved.freed p freed
      exact .inr ⟨r, in_db, by omega, by simp only [txnRenew0]; omega, inside⟩
    · have last := shields.last
      exact .inr ⟨r, saved.pending r in_db (by omega), newer, by simp only [txnRenew0]; omega, inside⟩
  · obtain ⟨unwritten, _, not_head, inside⟩ := shields.spares accounts p member
    obtain ⟨none_loose, head, next⟩ := saved.left
    rw [not_written_iff] at unwritten ⊢
    rw [saved.dirty.1, saved.dirty.2, none_loose, head, next]
    exact ⟨unwritten, List.not_mem_nil, not_head, inside⟩

theorem itself {mtiTxnid pgoldest : ℕ} : Shields (txnRenew0 mtiTxnid m pgoldest) m :=
  ⟨Nat.zero_le _, fun _ member => .inl ⟨.inl member, not_written_iff.2 (by simp [txnRenew0])⟩⟩

end Shields

end SamLmdb
