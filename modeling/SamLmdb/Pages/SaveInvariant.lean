import SamLmdb.Pages.FreelistSave

/-!
`mdb_freelist_save` over whole runs: at every stage the records that it has reserved have
the room that it counts, and in the end every free page is in one record.
-/

namespace SamLmdb

section Records

variable {freeDb : List FreeRecord} {record : FreeRecord} {pglast txnid : ℕ}

theorem mem_putRecord (record : FreeRecord) (keys : freeDb.Pairwise (·.id < ·.id)) (r : FreeRecord) :
    r ∈ putRecord record freeDb ↔ r = record ∨ r ∈ freeDb ∧ r.id ≠ record.id := by
  induction freeDb with
  | nil => simp [putRecord]
  | cons first others ih =>
    rw [List.pairwise_cons] at keys
    rw [putRecord]
    split
    · rename_i before
      have later : ∀ r ∈ first :: others, r.id ≠ record.id := by
        intro r member
        rcases List.mem_cons.1 member with rfl | member
        · omega
        · have := keys.1 r member
          omega
      rw [List.mem_cons]
      constructor
      · exact Or.imp_right fun member => ⟨member, later r member⟩
      · exact Or.imp_right And.left
    · split
      · rename_i same
        rw [List.mem_cons, List.mem_cons]
        constructor
        · refine Or.imp_right fun member => ⟨.inr member, ?_⟩
          have := keys.1 r member
          omega
        · refine Or.imp_right fun found => ?_
          rcases found.1 with rfl | member
          · exact absurd same.symm found.2
          · exact member
      · rename_i not_before other
        rw [List.mem_cons, ih keys.2, List.mem_cons]
        constructor
        · rintro (rfl | rfl | ⟨member, differ⟩)
          · exact .inr ⟨.inl rfl, fun same => other same.symm⟩
          · exact .inl rfl
          · exact .inr ⟨.inr member, differ⟩
        · rintro (rfl | ⟨rfl | member, differ⟩)
          · exact .inr (.inl rfl)
          · exact .inl rfl
          · exact .inr (.inr ⟨member, differ⟩)

theorem putRecord_keys (keys : freeDb.Pairwise (·.id < ·.id)) :
    (putRecord record freeDb).Pairwise (·.id < ·.id) := by
  induction freeDb with
  | nil => exact List.pairwise_singleton _ _
  | cons first others ih =>
    have ordered := List.pairwise_cons.1 keys
    rw [putRecord]
    split
    · rename_i before
      refine .cons (fun r member => ?_) keys
      rcases List.mem_cons.1 member with rfl | member
      · exact before
      · exact Nat.lt_trans before (ordered.1 r member)
    · split
      · rename_i same
        exact .cons (fun r member => same ▸ ordered.1 r member) ordered.2
      · rename_i not_before other
        refine .cons (fun r member => ?_) (ih ordered.2)
        rcases (mem_putRecord record ordered.2 r).1 member with rfl | ⟨member, _⟩
        · omega
        · exact ordered.1 r member

theorem filter_putRecord {keep : FreeRecord → Bool} (out : ∀ r : FreeRecord, r.id = record.id → keep r = false) :
    (putRecord record freeDb).filter keep = freeDb.filter keep := by
  induction freeDb with
  | nil => simp [putRecord, out record rfl]
  | cons first others ih =>
    rw [putRecord]
    split
    · rw [List.filter_cons_of_neg (by simp [out record rfl])]
    · split
      · rename_i same
        rw [List.filter_cons_of_neg (by simp [out record rfl]), List.filter_cons_of_neg (by simp [out first same.symm])]
      · simp only [List.filter_cons, ih]

def roomWhere (keep : ℕ → Prop) [DecidablePred keep] : List FreeRecord → ℕ
  | [] => 0
  | first :: others => (if keep first.id then first.room else 0) + roomWhere keep others

variable {keep : ℕ → Prop} [DecidablePred keep]

theorem roomWhere_zero (out : ∀ r ∈ freeDb, ¬ keep r.id) : roomWhere keep freeDb = 0 := by
  induction freeDb with
  | nil => rfl
  | cons first others ih =>
    rw [roomWhere, if_neg (out first List.mem_cons_self), ih fun r member => out r (List.mem_cons_of_mem _ member)]

/-- The room of the record that was there before is gone. -/
theorem roomWhere_putRecord (record : FreeRecord) (keep : ℕ → Prop) [DecidablePred keep]
    (keys : freeDb.Pairwise (·.id < ·.id)) (kept : keep record.id) :
    roomWhere keep (putRecord record freeDb) + roomWhere (· = record.id) freeDb =
      roomWhere keep freeDb + record.room := by
  induction freeDb with
  | nil => simp [putRecord, roomWhere, kept]
  | cons first others ih =>
    rw [List.pairwise_cons] at keys
    rw [putRecord]
    split
    · rename_i before
      have none_there : roomWhere (· = record.id) (first :: others) = 0 := by
        refine roomWhere_zero fun r member => ?_
        rcases List.mem_cons.1 member with rfl | member
        · omega
        · have := keys.1 r member
          omega
      rw [none_there, roomWhere, if_pos kept]
      omega
    · split
      · rename_i same
        have none_there : roomWhere (· = record.id) others = 0 := by
          refine roomWhere_zero fun r member => ?_
          have := keys.1 r member
          omega
        simp only [roomWhere, none_there, ← same, if_pos kept, if_true]
        omega
      · rename_i not_before other
        have := ih keys.2
        simp only [roomWhere, if_neg (fun same : first.id = record.id => other same.symm)]
        omega

theorem roomWhere_putRecord_out (out : ¬ keep record.id) :
    roomWhere keep (putRecord record freeDb) = roomWhere keep freeDb := by
  induction freeDb with
  | nil => simp [putRecord, roomWhere, out]
  | cons first others ih =>
    rw [putRecord]
    split
    · simp [roomWhere, out]
    · split
      · rename_i same
        simp [roomWhere, out, ← same]
      · simp only [roomWhere, ih]

end Records

/-- What holds at every stage. -/
structure SaveCore (v : SaveVars) (t : TxnPages) : Prop where
  accounts : Accounts t
  reached : v.pglast ≤ t.pglast
  consumed : v.pglast < t.pglast → ∃ r ∈ t.freeDb, r.id = t.pglast
  own : ∀ r ∈ t.freeDb, r.id ≤ t.txnid
  loose : t.pghead = none → t.loosePgs = []

/-- The records for `me_pghead`: their room, that of the first, and that they are empty still. -/
structure Reserved (pglast headId : ℕ) (headRoom totalRoom : ℤ) (freeDb : List FreeRecord) : Prop where
  total : (roomWhere (· ≤ pglast) freeDb : ℤ) = totalRoom
  head : (roomWhere (· = headId) freeDb : ℤ) = headRoom
  first : ∀ r ∈ freeDb, r.id ≤ pglast → headId ≤ r.id
  within : headId ≤ pglast
  positive : 0 < pglast → 0 < headId
  empty : ∀ r ∈ freeDb, r.id ≤ pglast → r.ids = []

/-- The record of the pages that this transaction freed, as many of them as it has been written for. -/
structure Recorded (freecnt : ℕ) (t : TxnPages) : Prop where
  count : freecnt ≤ t.freePgs.length
  absent : freecnt = 0 → ∀ r ∈ t.freeDb, r.id ≠ t.txnid
  present : 0 < freecnt → ∃ r ∈ t.freeDb, r.id = t.txnid ∧ r.ids = t.freePgs.take freecnt

def SaveInv (v : SaveVars) (t : TxnPages) : SaveStage → Prop
  | .touchFirst | .top =>
    SaveCore v t ∧ Reserved v.pglast v.headId v.headRoom v.totalRoom t.freeDb ∧ Recorded v.freecnt t
  | .touchLast => SaveCore v t ∧ Reserved v.pglast v.headId v.headRoom v.totalRoom t.freeDb ∧ 0 < t.freePgs.length
  | .deleting => SaveCore v t ∧ Recorded v.freecnt t ∧ (∀ r ∈ t.freeDb, v.pglast ≤ r.id) ∧ 0 < v.pglast ∧
      v.headId = v.pglast ∧ v.headRoom = 0 ∧ v.totalRoom = 0
  | .puttingFree => SaveCore v t ∧ Reserved v.pglast v.headId v.headRoom v.totalRoom t.freeDb ∧
      0 < v.freecnt ∧ v.freecnt ≤ t.freePgs.length
  | .puttingHead => SaveCore v t ∧ Recorded v.freecnt t ∧ 0 < v.headId ∧ 0 ≤ v.headRoom ∧
      ∃ before, Reserved v.pglast v.headId before (v.totalRoom + before) t.freeDb

section Operation

variable {v : SaveVars} {t t' : TxnPages} {found : Option ℕ}

theorem SaveCore.op (core : SaveCore v t) (accounts : Accounts t')
    (effect : Effect true found t t') : SaveCore v t' where
  accounts := accounts
  reached := by
    have := core.reached
    rcases effect.advanced.last with same | ⟨later, _⟩ <;> omega
  consumed := by
    intro behind
    rw [effect.freeDb]
    rcases effect.advanced.last with same | ⟨_, exists_record, _⟩
    · rw [same] at behind ⊢
      exact core.consumed behind
    · exact exists_record
  own := by
    rw [effect.freeDb, effect.txnid]
    exact core.own
  loose := by
    intro none_now
    have zero := accounts.head.1 none_now
    have before : t.pglast = 0 := by
      rcases effect.advanced.last with same | ⟨later, _⟩ <;> omega
    have empty := core.loose (core.accounts.head.2 before)
    have inside := effect.loose rfl
    rw [empty] at inside
    exact List.eq_nil_of_subset_nil inside

theorem Recorded.op {freecnt : ℕ} (recorded : Recorded freecnt t)
    (effect : Effect true found t t') : Recorded freecnt t' where
  count := Nat.le_trans recorded.count effect.freed.length_le
  absent := by
    rw [effect.freeDb, effect.txnid]
    exact recorded.absent
  present := by
    intro positive
    rw [effect.freeDb, effect.txnid]
    obtain ⟨r, member, own, ids⟩ := recorded.present positive
    refine ⟨r, member, own, ?_⟩
    obtain ⟨more, same⟩ := effect.freed
    rw [ids, ← same, List.take_append_of_le_length recorded.count]

/-- A page operation within a cursor call of any stage. -/
theorem SaveInv.op {stage : SaveStage} (inv : SaveInv v t stage) (accounts : Accounts t')
    (effect : Effect true found t t') :
    SaveInv v t' stage := by
  cases stage with
  | touchFirst | top =>
    obtain ⟨core, reserved, recorded⟩ := inv
    exact ⟨core.op accounts effect, effect.freeDb ▸ reserved, recorded.op effect⟩
  | touchLast =>
    obtain ⟨core, reserved, some_freed⟩ := inv
    exact ⟨core.op accounts effect, effect.freeDb ▸ reserved,
      Nat.lt_of_lt_of_le some_freed effect.freed.length_le⟩
  | deleting =>
    obtain ⟨core, recorded, first, rest⟩ := inv
    exact ⟨core.op accounts effect, recorded.op effect, effect.freeDb ▸ first, rest⟩
  | puttingFree =>
    obtain ⟨core, reserved, positive, count⟩ := inv
    exact ⟨core.op accounts effect, effect.freeDb ▸ reserved, positive, Nat.le_trans count effect.freed.length_le⟩
  | puttingHead =>
    obtain ⟨core, recorded, positive, room, before, reserved⟩ := inv
    exact ⟨core.op accounts effect, recorded.op effect, positive, room, before, effect.freeDb ▸ reserved⟩

end Operation

section Steps

variable {v : SaveVars} {t : TxnPages}

theorem Accounts.deleteRecord (accounts : Accounts t) {id : ℕ} (consumed : id ≤ t.pglast) :
    Accounts { t with freeDb := t.freeDb.filter (·.id ≠ id) } := by
  refine { accounts with once := ?_, keys := ?_, positive := ?_, ordered := ?_ }
  · intro p
    have same : pendingIds (t.freeDb.filter (·.id ≠ id)) t.pglast t.txnid =
      pendingIds t.freeDb t.pglast t.txnid := by
      rw [pendingIds, pendingIds, List.filter_filter]
      congr 1
      refine List.filter_congr fun r _ => ?_
      rw [Bool.and_eq_left_iff_imp]
      simp only [decide_eq_true_eq, and_imp]
      intro later _
      omega
    rw [← accounts.once p]
    simp only [available, same]
  · exact accounts.keys.filter _
  · exact fun r member => accounts.positive r (List.mem_filter.1 member).1
  · exact fun r member => accounts.ordered r (List.mem_filter.1 member).1

/-- Writing a record that does not hold pages to come. -/
theorem Accounts.putRecord (accounts : Accounts t) {record : FreeRecord} (positive : 0 < record.id)
    (ordered : record.ids.Pairwise (· ≥ ·)) (out : record.id ≤ t.pglast ∨ t.txnid ≤ record.id) :
    Accounts { t with freeDb := SamLmdb.putRecord record t.freeDb } := by
  have members := mem_putRecord record accounts.keys
  refine { accounts with once := ?_, keys := putRecord_keys accounts.keys, positive := ?_, ordered := ?_ }
  · intro p
    have same : pendingIds (SamLmdb.putRecord record t.freeDb) t.pglast t.txnid =
      pendingIds t.freeDb t.pglast t.txnid := by
      rw [pendingIds, pendingIds, filter_putRecord]
      intro r same
      simp only [decide_eq_false_iff_not]
      omega
    rw [← accounts.once p]
    simp only [available, same]
  · intro r member
    rcases (members r).1 member with rfl | ⟨before, _⟩
    · exact positive
    · exact accounts.positive r before
  · intro r member
    rcases (members r).1 member with rfl | ⟨before, _⟩
    · exact ordered
    · exact accounts.ordered r before

theorem Accounts.sortFreePgs (accounts : Accounts t) : Accounts { t with freePgs := midlSort t.freePgs } := by
  have same := midlSort_perm t.freePgs
  refine { accounts with once := ?_, written := ?_ }
  · intro p
    rw [← accounts.once p, same.count_eq]
    rfl
  · intro mp listed
    refine ⟨(accounts.written mp listed).1, fun p inside => ?_⟩
    exact ((accounts.written mp listed).2 p inside).imp_right (Or.imp_left same.mem_iff.2)

theorem Accounts.looseToFree (accounts : Accounts t) : ∃ t', looseToFree t = .done t' ∧ Accounts t' ∧
    t'.pghead = t.pghead ∧ t'.pglast = t.pglast ∧ t'.freeDb = t.freeDb ∧ t'.txnid = t.txnid ∧
      t'.pgoldest = t.pgoldest ∧
    (t'.pghead = none → t'.loosePgs = []) ∧ ∀ p, Used t p → ¬ Written t p →
      Used t' p ∧ ¬ Written t' p := by
  rw [SamLmdb.looseToFree]
  split
  · rename_i needed
    have listed : ∀ p ∈ t.loosePgs, p ∈ t.dirtyList.map (·.pgno) := fun p loosened =>
      List.mem_map.2 ⟨_, accounts.loose p loosened, rfl⟩
    rw [if_pos listed]
    have fewer : ∀ mp ∈ t.dirtyList.filter (·.pgno ∉ t.loosePgs) ++ t.spillPgs,
      mp ∈ t.dirtyList ++ t.spillPgs := by
      intro mp member
      rw [List.mem_append] at member ⊢
      exact member.imp_left fun kept => (List.mem_filter.1 kept).1
    refine ⟨_, rfl, { accounts with once := ?_, written := ?_, apart := ?_, loose := by simp, room := ?_ }, rfl,
      rfl, rfl,
      rfl, rfl, fun _ => rfl, fun p used unwritten => ⟨?_, ?_⟩⟩
    · intro p
      rw [← accounts.once p]
      simp only [available, List.count_append, List.count_nil]
      omega
    · intro mp member
      refine ⟨(accounts.written mp (fewer mp member)).1, fun p inside => ?_⟩
      rcases (accounts.written mp (fewer mp member)).2 p inside with in_tree | freed | loosened
      · exact .inl in_tree
      · exact .inr (.inl (List.mem_append_left _ freed))
      · exact .inr (.inl (List.mem_append_right _ loosened))
    · exact accounts.apart.sublist (List.filter_sublist.append_right _)
    · exact Nat.le_trans (Nat.add_le_add_left (List.length_filter_le _ _) _) accounts.room
    · exact used.imp_right (List.mem_append_left _)
    · rw [not_written_iff] at unwritten ⊢
      exact fun mp member => unwritten mp (fewer mp member)
  · rename_i not_needed
    refine ⟨t, rfl, accounts, rfl, rfl, rfl, rfl, rfl, fun none_there => ?_,
      fun p used unwritten => ⟨used, unwritten⟩⟩
    by_contra some_left
    exact not_needed ⟨none_there, some_left⟩

/-- The start of the function, in a transaction that has not written its own record. -/
theorem saveStart_inv (accounts : Accounts t) (own : ∀ r ∈ t.freeDb, r.id < t.txnid)
    (consumed : t.pglast ≠ 0 → ∃ r ∈ t.freeDb, r.id = t.pglast) :
    ∃ stage v t', saveStart t = .at stage v t' ∧ SaveInv v t' stage := by
  have reserved : Reserved 0 0 0 0 t.freeDb := by
    have none_there : ∀ r ∈ t.freeDb, ¬ r.id ≤ 0 := fun r member => by
      have := accounts.positive r member
      omega
    refine ⟨?_, ?_, fun r member zero => absurd zero (none_there r member), Nat.le_refl 0, by omega,
      fun r member zero => absurd zero (none_there r member)⟩
    · rw [roomWhere_zero none_there]
      rfl
    · rw [roomWhere_zero fun r member zero => none_there r member (Nat.le_of_eq zero)]
      rfl
  rw [saveStart]
  split
  · rename_i some_head
    refine ⟨_, _, t, rfl, ⟨accounts, Nat.zero_le _, fun behind => consumed (by simp only at behind; omega),
      fun r member => Nat.le_of_lt (own r member), fun none_there => absurd none_there some_head⟩, reserved,
      ⟨Nat.zero_le _, fun _ r member => Nat.ne_of_lt (own r member), by simp⟩⟩
  · obtain ⟨t', done, accounts', head, last, freeDb, txnid, _, loose, _⟩ := accounts.looseToFree
    rw [done]
    refine ⟨_, _, t', rfl, ⟨accounts', Nat.zero_le _, fun behind => ?_, ?_, loose⟩, ?_,
      ⟨Nat.zero_le _, ?_, by simp⟩⟩
    · rw [last] at behind ⊢
      rw [freeDb]
      exact consumed (by simp only at behind; omega)
    · rw [freeDb, txnid]
      exact fun r member => Nat.le_of_lt (own r member)
    · rw [freeDb]
      exact reserved
    · rw [freeDb, txnid]
      exact fun _ r member => Nat.ne_of_lt (own r member)

theorem SaveInv.delete (inv : SaveInv v t .deleting) :
    SaveInv v { t with freeDb := t.freeDb.filter (·.id ≠ v.pglast) } .top := by
  obtain ⟨core, recorded, first, positive, head, head_room, total⟩ := inv
  have last := core.accounts.last
  have reached := core.reached
  have kept : ∀ r ∈ t.freeDb, r.id ≠ v.pglast → r ∈ t.freeDb.filter (·.id ≠ v.pglast) :=
    fun r member differ =>
    List.mem_filter.2 ⟨member, by simpa using differ⟩
  have above : ∀ r ∈ t.freeDb.filter (·.id ≠ v.pglast), v.pglast < r.id := by
    intro r member
    have := first r (List.mem_filter.1 member).1
    have : r.id ≠ v.pglast := by simpa using (List.mem_filter.1 member).2
    omega
  refine ⟨⟨core.accounts.deleteRecord core.reached, core.reached, fun behind => ?_,
    fun r member => core.own r (List.mem_filter.1 member).1, core.loose⟩, ⟨?_, ?_, ?_, ?_, ?_, ?_⟩,
    ⟨recorded.count, fun zero r member => recorded.absent zero r (List.mem_filter.1 member).1,
      fun some_freed => ?_⟩⟩
  · obtain ⟨r, member, same⟩ := core.consumed behind
    exact ⟨r, kept r member (by simp only at behind; omega), same⟩
  · have none_low : roomWhere (· ≤ v.pglast) (t.freeDb.filter (·.id ≠ v.pglast)) = 0 :=
      roomWhere_zero fun r member => Nat.not_le_of_lt (above r member)
    simp only [none_low, total]
    rfl
  · have none_first : roomWhere (· = v.headId) (t.freeDb.filter (·.id ≠ v.pglast)) = 0 :=
      roomWhere_zero fun r member => by have := above r member; omega
    simp only [none_first, head_room]
    rfl
  · intro r member below
    exact absurd (above r member) (Nat.not_lt_of_le below)
  · exact Nat.le_of_eq head
  · exact fun _ => head ▸ positive
  · intro r member below
    exact absurd (above r member) (Nat.not_lt_of_le below)
  · obtain ⟨r, member, own, ids⟩ := recorded.present some_freed
    exact ⟨r, kept r member (by omega), own, ids⟩

theorem SaveInv.putFree (inv : SaveInv v t .puttingFree) {ids : List ℕ} (ordered : ids.Pairwise (· ≥ ·)) :
    SaveCore v { t with freeDb := putRecord ⟨t.txnid, v.freecnt, ids⟩ t.freeDb } ∧
      Reserved v.pglast v.headId v.headRoom v.totalRoom (putRecord ⟨t.txnid, v.freecnt, ids⟩ t.freeDb) := by
  obtain ⟨core, reserved, positive, count⟩ := inv
  have last := core.accounts.last
  have reached := core.reached
  have within := reserved.within
  have members := mem_putRecord ⟨t.txnid, v.freecnt, ids⟩ core.accounts.keys
  have below : ∀ r ∈ putRecord ⟨t.txnid, v.freecnt, ids⟩ t.freeDb, r.id ≤ v.pglast → r ∈ t.freeDb := by
    intro r member low
    rcases (members r).1 member with rfl | ⟨before, _⟩
    · simp only at low
      omega
    · exact before
  refine ⟨⟨core.accounts.putRecord (by simp only; omega) ordered (.inr (Nat.le_refl _)), reached,
      fun behind => ?_, ?_, core.loose⟩,
    ⟨?_, ?_, fun r member low => reserved.first r (below r member low) low, within, reserved.positive,
      fun r member low => reserved.empty r (below r member low) low⟩⟩
  · obtain ⟨r, member, same⟩ := core.consumed behind
    exact ⟨r, (members r).2 (.inr ⟨member, by simp only; omega⟩), same⟩
  · intro r member
    rcases (members r).1 member with rfl | ⟨before, _⟩
    · exact Nat.le_refl _
    · exact core.own r before
  · rw [roomWhere_putRecord_out (by simp only; omega)]
    exact reserved.total
  · rw [roomWhere_putRecord_out (by simp only; omega)]
    exact reserved.head

theorem SaveInv.putHead (inv : SaveInv v t .puttingHead) :
    SaveInv { v with totalRoom := v.totalRoom + v.headRoom }
      { t with freeDb := putRecord ⟨v.headId, v.headRoom.toNat, []⟩ t.freeDb } .top := by
  obtain ⟨core, recorded, positive, room, before, reserved⟩ := inv
  have last := core.accounts.last
  have reached := core.reached
  have within := reserved.within
  have members := mem_putRecord ⟨v.headId, v.headRoom.toNat, []⟩ core.accounts.keys
  have keys := core.accounts.keys
  refine ⟨⟨core.accounts.putRecord positive List.Pairwise.nil (.inl (by simp only; omega)), reached,
      fun behind => ?_, ?_, core.loose⟩,
    ⟨?_, ?_, ?_, within, reserved.positive, ?_⟩, ⟨recorded.count, ?_, ?_⟩⟩
  · obtain ⟨r, member, same⟩ := core.consumed behind
    exact ⟨r, (members r).2 (.inr ⟨member, by simp only at behind ⊢; omega⟩), same⟩
  · intro r member
    rcases (members r).1 member with rfl | ⟨old, _⟩
    · simp only
      omega
    · exact core.own r old
  · have counted := roomWhere_putRecord ⟨v.headId, v.headRoom.toNat, []⟩ (· ≤ v.pglast) keys within
    have total := reserved.total
    have head := reserved.head
    simp only at counted ⊢
    omega
  · have counted := roomWhere_putRecord ⟨v.headId, v.headRoom.toNat, []⟩ (· = v.headId) keys rfl
    simp only at counted ⊢
    omega
  · intro r member low
    rcases (members r).1 member with rfl | ⟨old, _⟩
    · exact Nat.le_refl _
    · exact reserved.first r old low
  · intro r member low
    rcases (members r).1 member with rfl | ⟨old, _⟩
    · rfl
    · exact reserved.empty r old low
  · intro zero r member
    rcases (members r).1 member with rfl | ⟨old, _⟩
    · simp only
      omega
    · exact recorded.absent zero r old
  · intro some_freed
    obtain ⟨r, member, own, ids⟩ := recorded.present some_freed
    exact ⟨r, (members r).2 (.inr ⟨member, by simp only; omega⟩), own, ids⟩

end Steps

section Fill

variable {freeDb freeDb' : List FreeRecord} {mop : List ℕ} {pglast txnid : ℕ}

structure Filled (pglast : ℕ) (freeDb : List FreeRecord) (mop : List ℕ) (freeDb' : List FreeRecord) : Prop where
  keys : freeDb'.map (·.id) = freeDb.map (·.id)
  ids : ∀ p, (freeDb'.flatMap (·.ids)).count p = (freeDb.flatMap (·.ids)).count p + mop.count p
  others : ∀ r ∈ freeDb, pglast < r.id → r ∈ freeDb'
  ordered : ∀ r ∈ freeDb', r.ids.Pairwise (· ≥ ·)

theorem fillRecords_filled (keys : freeDb.Pairwise (·.id < ·.id))
    (ordered : ∀ r ∈ freeDb, r.ids.Pairwise (· ≥ ·))
    (empty : ∀ r ∈ freeDb, r.id ≤ pglast → r.ids = []) (sorted : mop.Pairwise (· ≥ ·))
    (room : mop.length ≤ roomWhere (· ≤ pglast) freeDb) :
    ∃ freeDb', fillRecords pglast freeDb mop = .done freeDb' ∧ Filled pglast freeDb mop freeDb' := by
  induction freeDb generalizing mop with
  | nil =>
    obtain rfl : mop = [] := List.eq_nil_of_length_eq_zero (Nat.le_zero.1 room)
    exact ⟨[], rfl, rfl, by simp, by simp, by simp⟩
  | cons record records ih =>
    cases mop with
    | nil => exact ⟨record :: records, rfl, rfl, by simp, fun r member _ => member, ordered⟩
    | cons id ids =>
      rw [List.pairwise_cons] at keys
      have low : record.id ≤ pglast := by
        by_contra high
        have none_low : roomWhere (· ≤ pglast) (record :: records) = 0 := by
          refine roomWhere_zero fun r member => ?_
          rcases List.mem_cons.1 member with rfl | member
          · exact high
          · have := keys.1 r member
            omega
        rw [none_low] at room
        simp at room
      rw [fillRecords, if_pos low]
      generalize id :: ids = mop at sorted room
      have rest : (mop.take (mop.length - min record.room mop.length)).length ≤
        roomWhere (· ≤ pglast) records := by
        rw [roomWhere, if_pos low] at room
        rw [List.length_take]
        omega
      obtain ⟨records', done, filled⟩ := ih keys.2 (fun r member => ordered r (List.mem_cons_of_mem _ member))
        (fun r member => empty r (List.mem_cons_of_mem _ member)) (sorted.sublist (List.take_sublist _ _)) rest
      simp only [done, PageOutcome.bind]
      refine ⟨_, rfl, ?_, fun p => ?_, fun r member later => ?_, fun r member => ?_⟩
      · simp only [List.map_cons, filled.keys]
      · have parts := List.take_append_drop (mop.length - min record.room mop.length) mop
        conv_rhs => rw [← parts]
        simp only [List.flatMap_cons, List.count_append, filled.ids, empty record List.mem_cons_self low,
          List.count_nil]
        omega
      · rcases List.mem_cons.1 member with rfl | member
        · omega
        · exact List.mem_cons_of_mem _ (filled.others r member later)
      · rcases List.mem_cons.1 member with rfl | member
        · exact sorted.sublist (List.drop_sublist _ _)
        · exact filled.ordered r member

/-- Where the IDs are once all is consumed: in records to come, and in the transaction's own. -/
theorem count_ids (empty : ∀ r ∈ freeDb, r.id ≤ pglast → r.ids = []) (own : ∀ r ∈ freeDb, r.id ≤ txnid)
    (last : pglast < txnid) (p : ℕ) : (freeDb.flatMap (·.ids)).count p = (pendingIds freeDb pglast txnid).count p +
      ((freeDb.filter (·.id = txnid)).flatMap (·.ids)).count p := by
  induction freeDb with
  | nil => rfl
  | cons record records ih =>
    have rest := ih (fun r member => empty r (List.mem_cons_of_mem _ member))
      (fun r member => own r (List.mem_cons_of_mem _ member))
    have below := own record List.mem_cons_self
    rw [pendingIds] at rest ⊢
    rw [List.flatMap_cons, List.count_append, rest]
    by_cases low : record.id ≤ pglast
    · rw [List.filter_cons_of_neg (by simp only [decide_eq_true_eq]; omega),
        List.filter_cons_of_neg (by simp only [decide_eq_true_eq]; omega), empty record List.mem_cons_self low,
        List.count_nil, Nat.zero_add]
    · by_cases itself : record.id = txnid
      · rw [List.filter_cons_of_neg (by simp only [decide_eq_true_eq]; omega),
          List.filter_cons_of_pos (by simpa using itself), List.flatMap_cons, List.count_append]
        omega
      · rw [List.filter_cons_of_pos (by simp only [decide_eq_true_eq]; omega),
          List.filter_cons_of_neg (by simpa using itself), List.flatMap_cons, List.count_append]
        omega

theorem filter_key (keys : freeDb.Pairwise (·.id < ·.id)) {record : FreeRecord} (member : record ∈ freeDb) :
    freeDb.filter (·.id = record.id) = [record] := by
  induction freeDb with
  | nil => cases member
  | cons first others ih =>
    rw [List.pairwise_cons] at keys
    rcases List.mem_cons.1 member with rfl | later
    · rw [List.filter_cons_of_pos (by simp), List.filter_eq_nil_iff.2]
      intro r inside
      have := keys.1 r inside
      simp only [decide_eq_true_eq]
      omega
    · have := keys.1 record later
      rw [List.filter_cons_of_neg (by simp only [decide_eq_true_eq]; omega), ih keys.2 later]

end Fill

section Finish

variable {v : SaveVars} {t t' : TxnPages}

/-- The transaction's pages are all in the version that it leaves behind. -/
structure Saved (t t' : TxnPages) : Prop where
  accounts : ∀ pgoldest, pgoldest ≤ t.txnid → Accounts (txnRenew0 t.txnid t'.writeMeta pgoldest)
  own : ∀ r ∈ t'.freeDb, r.id ≤ t.txnid
  txnid : t'.txnid = t.txnid
  oldest : t'.pgoldest = t.pgoldest
  tree : t'.tree = t.tree
  pending : ∀ r ∈ t.freeDb, t.pglast < r.id → r ∈ t'.freeDb
  freed : ∀ p ∈ t.freePgs, ∃ r ∈ t'.freeDb, r.id = t.txnid ∧ p ∈ r.ids
  dirty : t'.dirtyList = t.dirtyList ∧ t'.spillPgs = t.spillPgs
  left : t'.loosePgs = [] ∧ t'.pghead = t.pghead ∧ t'.nextPgno = t.nextPgno

theorem Recorded.count_own {freecnt : ℕ} (recorded : Recorded freecnt t) (keys : t.freeDb.Pairwise (·.id < ·.id))
    (whole : t.freePgs.take freecnt = t.freePgs) (p : ℕ) :
    ((t.freeDb.filter (·.id = t.txnid)).flatMap (·.ids)).count p = t.freePgs.count p := by
  rcases Nat.eq_zero_or_pos freecnt with zero | positive
  · have none_freed : t.freePgs = [] := by rw [← whole, zero, List.take_zero]
    have none_there : t.freeDb.filter (·.id = t.txnid) = [] :=
      List.filter_eq_nil_iff.2 fun r member => by simpa using recorded.absent zero r member
    rw [none_there, none_freed]
    rfl
  · obtain ⟨r, member, own, ids⟩ := recorded.present positive
    rw [← own, filter_key keys member, List.flatMap_cons, List.flatMap_nil, List.append_nil, ids, whole]

theorem saveFinish_saved (inv : SaveInv v t .top) (all_consumed : ¬ v.pglast < t.pglast)
    (all_recorded : ¬ v.freecnt < t.freePgs.length)
    (room : ((t.pghead.getD []).length + t.loosePgs.length : ℤ) ≤ v.totalRoom) :
    ∃ t', saveFinish t = .saved t' ∧ Saved t t' := by
  obtain ⟨core, reserved, recorded⟩ := inv
  have ⟨accounts, reached, consumed, own, loose⟩ := core
  have same_last : v.pglast = t.pglast := by omega
  have returned : ¬ (t.pghead = none ∧ t.loosePgs ≠ []) := fun both => both.2 (loose both.1)
  have total := reserved.total
  rw [same_last] at total
  rw [saveFinish, if_neg returned]
  -- the loose pages and those of the list, in order
  obtain ⟨mop, mop_eq, perm, sorted⟩ : ∃ mop, (if t.loosePgs = [] then t.pghead.getD []
      else xmerge (t.pghead.getD []) (midlSort t.loosePgs)) = mop ∧
      mop.Perm (t.pghead.getD [] ++ t.loosePgs) ∧ mop.Pairwise (· ≥ ·) := by
    refine ⟨_, rfl, ?_⟩
    split
    · rename_i none_loose
      rw [none_loose, List.append_nil]
      exact ⟨.refl _, accounts.sorted⟩
    · exact ⟨(xmerge_perm _ _).trans ((midlSort_perm _).append_left _),
        xmerge_sorted accounts.sorted (midlSort_sorted _)⟩
  have length := perm.length_eq
  rw [List.length_append] at length
  obtain ⟨freeDb', done, filled⟩ := fillRecords_filled accounts.keys accounts.ordered
    (fun r member low => reserved.empty r member (same_last ▸ low)) sorted (by omega)
  simp only [mop_eq, done]
  have keys' : (freeDb'.map (·.id)).Pairwise (· < ·) := by
    rw [filled.keys, List.pairwise_map]
    exact accounts.keys
  rw [List.pairwise_map] at keys'
  have ids_in : ∀ r ∈ freeDb', ∃ r' ∈ t.freeDb, r'.id = r.id := by
    intro r member
    have listed : r.id ∈ freeDb'.map (·.id) := List.mem_map_of_mem member
    rw [filled.keys, List.mem_map] at listed
    exact listed
  have own' : ∀ r ∈ freeDb', r.id ≤ t.txnid := by
    intro r member
    obtain ⟨r', member', same⟩ := ids_in r member
    exact same ▸ own r' member'
  have count_eq := recorded.count
  have last := accounts.last
  have whole : t.freePgs.take v.freecnt = t.freePgs := List.take_of_length_le (by omega)
  have positive' : ∀ r ∈ freeDb', 0 < r.id := by
    intro r member
    obtain ⟨r', member', same⟩ := ids_in r member
    exact same ▸ accounts.positive r' member'
  refine ⟨_, rfl, fun pgoldest older => ?_, own', rfl, rfl, rfl, filled.others, ?_, ⟨rfl, rfl⟩, rfl, rfl, rfl⟩
  · refine ⟨fun p => ?_, keys', positive', filled.ordered, List.Pairwise.nil, by simp [txnRenew0],
      Nat.succ_pos _, Nat.lt_succ_of_le older, by simp [txnRenew0], List.Pairwise.nil, by simp [txnRenew0],
      Nat.le_refl _⟩
    have everything : pendingIds freeDb' 0 (t.txnid + 1) = freeDb'.flatMap (·.ids) := by
      rw [pendingIds, List.filter_eq_self.2]
      intro r member
      have := own' r member
      have := positive' r member
      simp only [decide_eq_true_eq]
      omega
    have counted := count_ids (fun r member low => reserved.empty r member (same_last ▸ low)) own last p
    have recorded_count := recorded.count_own accounts.keys whole p
    have filled_count := filled.ids p
    have end_eq : t.nextPgno - 1 + 1 = t.nextPgno := by
      have none_zero := accounts.once 0
      simp only [available, beyond] at none_zero
      split at none_zero
      · simp at none_zero
      · omega
    have once := accounts.once p
    rw [perm.count_eq, List.count_append] at filled_count
    simp only [available] at once
    simp only [available, txnRenew0, TxnPages.writeMeta, everything, end_eq, List.count_nil, Option.getD_none,
      pagesOf] at once ⊢
    omega
  · intro p member
    have some_freed := List.length_pos_of_mem member
    obtain ⟨r, in_db, itself, ids⟩ := recorded.present (by omega)
    exact ⟨r, filled.others r in_db (by omega), itself, ids ▸ whole.symm ▸ member⟩

theorem headRoomFor_nonneg (maxfree1pg headId : ℕ) (headRoom : ℤ) :
    0 ≤ headRoomFor maxfree1pg headId headRoom := by
  rw [headRoomFor]
  split
  · rename_i long
    have quotient : 0 ≤ headRoom / headId := Int.ediv_nonneg (by omega) (by omega)
    have remainder := Int.emod_lt_of_pos (headRoom / headId) (show (0 : ℤ) < maxfree1pg + 1 by omega)
    omega
  · split <;> omega

/-- A record for `me_pghead` is only reserved under a key that a record had which is used up. -/
theorem SaveInv.reserve (core : SaveCore v t) (recorded : Recorded v.freecnt t)
    (reserved : Reserved v.pglast v.headId v.headRoom v.totalRoom t.freeDb) (positive : 0 < v.headId)
    (maxfree1pg : ℕ) (mopLen : ℤ) :
    ∃ v' t', saveReserve maxfree1pg mopLen v t = .at .puttingHead v' t' ∧ SaveInv v' t' .puttingHead := by
  refine ⟨_, t, rfl, ⟨core.accounts, core.reached, core.consumed, core.own, core.loose⟩, recorded, positive,
    headRoomFor_nonneg _ _ _, v.headRoom, ?_⟩
  simpa using reserved

theorem Reserved.before {pglast headId : ℕ} {headRoom totalRoom : ℤ} {freeDb : List FreeRecord}
    (reserved : Reserved pglast headId headRoom totalRoom freeDb) (room : 1 < headId) :
    Reserved pglast (headId - 1) 0 totalRoom freeDb := by
  have within := reserved.within
  have none_there : roomWhere (· = headId - 1) freeDb = 0 := by
    refine roomWhere_zero fun r member same => ?_
    have := reserved.first r member (by omega)
    omega
  refine { reserved with head := ?_, first := fun r member low => ?_, within := by omega, positive := by omega }
  · rw [none_there]
    rfl
  · have := reserved.first r member low
    omega

/-- One way from a stage: to another, or to the end with every page saved. -/
def Saving.Keeps (t : TxnPages) : Saving → Prop
  | .at stage v' t' => SaveInv v' t' stage
  | .saved t' => Saved t t'
  | .failed _ => False
  | .asserts => False

theorem saveTop_keeps (inv : SaveInv v t .top) (maxfree1pg : ℕ) : (saveTop maxfree1pg v t).Keeps t := by
  have whole := inv
  obtain ⟨core, reserved, recorded⟩ := inv
  rw [saveTop]
  split
  · rename_i behind
    obtain ⟨last, member, same⟩ := core.consumed behind
    cases freeDb : t.freeDb with
    | nil => simp [freeDb] at member
    | cons first others =>
      have keys := core.accounts.keys
      rw [freeDb, List.pairwise_cons] at keys
      have least : ∀ r ∈ t.freeDb, first.id ≤ r.id := by
        intro r in_db
        rw [freeDb, List.mem_cons] at in_db
        rcases in_db with rfl | later
        · exact Nat.le_refl _
        · exact Nat.le_of_lt (keys.1 r later)
      have low : first.id ≤ t.pglast := same ▸ least last member
      simp only [if_pos low]
      have positive := core.accounts.positive first (by simp [freeDb])
      exact ⟨⟨core.accounts, low, fun _ => ⟨last, member, same⟩, core.own, core.loose⟩, recorded, least,
        positive, rfl, rfl, rfl⟩
  · rename_i all_consumed
    split
    · rename_i grown
      split
      · exact ⟨core, reserved, by omega⟩
      · exact ⟨⟨core.accounts, core.reached, core.consumed, core.own, core.loose⟩, reserved,
          by simp only; omega, Nat.le_refl _⟩
    · rename_i all_recorded
      have reached := core.reached
      -- with nothing consumed there is no list, so no room is wanted
      have some_head : v.totalRoom ≠ (t.pghead.getD []).length + t.loosePgs.length → 0 < v.headId := by
        intro wanted
        refine reserved.positive (Nat.pos_of_ne_zero fun zero => wanted ?_)
        have none_there := core.accounts.head.2 (by omega)
        have none_low : roomWhere (· ≤ v.pglast) t.freeDb = 0 := roomWhere_zero fun r member => by
          have := core.accounts.positive r member
          omega
        have total := reserved.total
        rw [none_low] at total
        rw [none_there, core.loose none_there, ← total]
        rfl
      simp only
      split
      · rename_i enough
        split
        · obtain ⟨t', done, saved⟩ := saveFinish_saved whole all_consumed all_recorded enough
          rw [done]
          exact saved
        · rename_i more
          have core' : SaveCore { v with more := v.more - 1 } t :=
            ⟨core.accounts, core.reached, core.consumed, core.own, core.loose⟩
          obtain ⟨v', t', next, inv'⟩ := SaveInv.reserve core' recorded reserved
            (some_head fun same => more (.inl same)) maxfree1pg ((t.pghead.getD []).length + t.loosePgs.length)
          rw [next]
          exact inv'
      · rename_i short
        split
        · rename_i full
          have core' : SaveCore { v with headId := v.headId - 1, headRoom := 0 } t :=
            ⟨core.accounts, core.reached, core.consumed, core.own, core.loose⟩
          have room : 1 < v.headId := full.2
          obtain ⟨v', t', next, inv'⟩ := SaveInv.reserve core' recorded (reserved.before room) (by simp only; omega)
            maxfree1pg ((t.pghead.getD []).length + t.loosePgs.length)
          rw [next]
          exact inv'
        · obtain ⟨v', t', next, inv'⟩ := SaveInv.reserve core recorded reserved (some_head (by omega))
            maxfree1pg ((t.pghead.getD []).length + t.loosePgs.length)
          rw [next]
          exact inv'

/-- No stage of `mdb_freelist_save` fails, none of its assertions does, and it ends with every page saved. -/
theorem saveStep_keeps {stage : SaveStage} (inv : SaveInv v t stage) (maxfree1pg : ℕ) :
    (saveStep maxfree1pg v t stage).Keeps t := by
  cases stage with
  | touchFirst => exact inv
  | top => exact saveTop_keeps inv maxfree1pg
  | deleting => exact inv.delete
  | touchLast =>
    obtain ⟨core, reserved, some_freed⟩ := inv
    exact ⟨⟨core.accounts, core.reached, core.consumed, core.own, core.loose⟩, reserved, some_freed,
      Nat.le_refl _⟩
  | puttingFree =>
    have whole := inv
    obtain ⟨core, reserved, positive, count⟩ := inv
    rw [saveStep]
    split
    · obtain ⟨core', reserved'⟩ := whole.putFree List.Pairwise.nil
      exact ⟨⟨core'.accounts, core'.reached, core'.consumed, core'.own, core'.loose⟩, reserved',
        by simp only; omega, Nat.le_refl _⟩
    · rename_i written_for
      have length := (midlSort_perm t.freePgs).length_eq
      have sorted : SaveInv v { t with freePgs := midlSort t.freePgs } .puttingFree :=
        ⟨⟨core.accounts.sortFreePgs, core.reached, core.consumed, core.own, core.loose⟩, reserved, positive,
          by simp only; omega⟩
      obtain ⟨core', reserved'⟩ := sorted.putFree (midlSort_sorted t.freePgs)
      refine ⟨core', reserved', by simp only; omega, fun zero => by omega, fun _ => ?_⟩
      refine ⟨⟨t.txnid, v.freecnt, midlSort t.freePgs⟩, (mem_putRecord _ core.accounts.keys _).2 (.inl rfl),
        rfl, ?_⟩
      exact (List.take_of_length_le (show (midlSort t.freePgs).length ≤ v.freecnt by omega)).symm
  | puttingHead => exact inv.putHead

end Finish

end SamLmdb
