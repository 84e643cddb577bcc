import SamLmdb.Pages.Versions

/-!
The slots of the reader table: what a transaction finds in its own, whatever the others do.
-/

namespace SamLmdb

open Interleaving

variable {ι β : Type}

/-- Slot `i` of the reader table is the actor's. -/
structure Slot (s : TxnInfo ι β) (a : Actor ι β) (i : ℕ) : Prop where
  pid : (s.mtiReaders i).pid = a.pid
  tid : (s.mtiReaders i).tid = some a.id
  inside : i < s.mtiNumreaders

/-- What is done of a claim, before the next step of it. -/
def Claim.Done (s : TxnInfo ι β) (a : Actor ι β) (i : ℕ) : Claim → Prop
  | .clearPid => (s.mtiReaders i).pid = 0 ∨ i = s.mtiNumreaders
  | .clearTxnid => (s.mtiReaders i).pid = 0
  | .setTid => (s.mtiReaders i).pid = 0 ∧ (s.mtiReaders i).txnid = none
  | .countSlot => (s.mtiReaders i).pid = 0 ∧ (s.mtiReaders i).txnid = none ∧ (s.mtiReaders i).tid = some a.id
  | .setPid => (s.mtiReaders i).pid = 0 ∧ (s.mtiReaders i).txnid = none ∧ (s.mtiReaders i).tid = some a.id ∧
      i < s.mtiNumreaders

/-- What an actor has in the reader table, or is about to. -/
def TableInv (s : TxnInfo ι β) (a : Actor ι β) : Prop :=
  match a.point with
  | .outside | .writing => True
  | .seeking i nr => s.rmutex = some a.id ∧ nr = s.mtiNumreaders ∧ i ≤ nr
  | .claiming next i nr =>
    s.rmutex = some a.id ∧ (next ≠ .setPid → nr = s.mtiNumreaders ∧ i ≤ nr) ∧ next.Done s a i
  | .claimed i => s.rmutex = some a.id ∧ Slot s a i ∧ (s.mtiReaders i).txnid = none
  | .full => s.rmutex = some a.id
  | .parked i | .ended i => Slot s a i ∧ (s.mtiReaders i).txnid = none
  | .renewing i | .loaded i _ => Slot s a i
  | .stored i txnid | .settled i txnid | .reading i txnid _ => Slot s a i ∧ (s.mtiReaders i).txnid = some txnid
  | .badRslot _ => False

/-- The slot that an actor has or is about to have. -/
def TxnPoint.slot : TxnPoint β → Option ℕ
  | .claiming _ i _ | .claimed i | .parked i | .renewing i | .loaded i _ | .stored i _ | .settled i _ | .reading i _ _
  | .ended i | .badRslot i => some i
  | .outside | .seeking _ _ | .full | .writing => none

section Table

variable {s s' : TxnInfo ι β} {a a' u : Actor ι β} {limits : Limits} {point : TxnPoint β}

theorem TableInv.slot (inv : TableInv s a) {i : ℕ} (here : a.point.slot = some i) :
    Slot s a i ∨ s.rmutex = some a.id ∧ ((s.mtiReaders i).pid = 0 ∨ s.mtiNumreaders ≤ i) := by
  rw [TableInv] at inv
  cases point : a.point with
  | outside | seeking _ _ | full | writing => simp [point, TxnPoint.slot] at here
  | claiming next k nr =>
    rw [point] at inv here
    cases here
    refine .inr ⟨inv.1, ?_⟩
    cases next with
    | clearPid => exact inv.2.2.imp_right fun last => Nat.le_of_eq last.symm
    | clearTxnid => exact .inl inv.2.2
    | setTid | countSlot | setPid => exact .inl inv.2.2.1
  | claimed k =>
    rw [point] at inv here
    cases here
    exact .inl inv.2.1
  | renewing k | loaded k _ =>
    rw [point] at inv here
    cases here
    exact .inl inv
  | parked k | stored k _ | settled k _ | reading k _ _ | ended k =>
    rw [point] at inv here
    cases here
    exact .inl inv.1
  | badRslot k =>
    rw [point] at inv
    exact inv.elim

theorem slots_differ (inv : TableInv s a) (inv' : TableInv s u) (differ : a.id ≠ u.id) (alive : a.pid ≠ 0)
    (alive' : u.pid ≠ 0) {i : ℕ} (here : a.point.slot = some i) : u.point.slot ≠ some i := by
  intro there
  rcases inv.slot here with mine | ⟨locked, free⟩ <;> rcases inv'.slot there with others | ⟨locked', free'⟩
  · exact differ (Option.some.inj (mine.tid.symm.trans others.tid))
  · have := mine.pid
    have := mine.inside
    omega
  · have := others.pid
    have := others.inside
    omega
  · exact differ (Option.some.inj (locked.symm.trans locked'))

/-- What others do to the table leaves the actor's own slot alone. -/
theorem TableInv.watch (inv : TableInv s u) (slot : ∀ i, u.point.slot = some i → s'.mtiReaders i = s.mtiReaders i)
    (more : s.mtiNumreaders ≤ s'.mtiNumreaders)
    (mutex : s.rmutex = some u.id → s'.rmutex = some u.id ∧ s'.mtiNumreaders = s.mtiNumreaders) : TableInv s' u := by
  have kept {i : ℕ} (same : s'.mtiReaders i = s.mtiReaders i) (mine : Slot s u i) : Slot s' u i :=
    ⟨(congrArg MdbReader.pid same).trans mine.pid, (congrArg MdbReader.tid same).trans mine.tid,
      Nat.lt_of_lt_of_le mine.inside more⟩
  rw [TableInv] at inv ⊢
  cases point : u.point with
  | outside | writing => trivial
  | seeking k nr =>
    rw [point] at inv
    obtain ⟨locked, count, below⟩ := inv
    exact ⟨(mutex locked).1, (mutex locked).2.symm ▸ count, below⟩
  | full =>
    rw [point] at inv
    exact (mutex inv).1
  | claiming next k nr =>
    rw [point] at inv
    obtain ⟨locked, count, done⟩ := inv
    have same := slot k (by rw [point]; rfl)
    have number := (mutex locked).2
    refine ⟨(mutex locked).1, fun early => number.symm ▸ count early, ?_⟩
    cases next <;> simp only [Claim.Done, same, number] at done ⊢ <;> exact done
  | claimed k =>
    rw [point] at inv
    have same := slot k (by rw [point]; rfl)
    exact ⟨(mutex inv.1).1, kept same inv.2.1, (congrArg MdbReader.txnid same).trans inv.2.2⟩
  | renewing k | loaded k _ =>
    rw [point] at inv
    exact kept (slot k (by rw [point]; rfl)) inv
  | parked k | stored k _ | settled k _ | reading k _ _ | ended k =>
    rw [point] at inv
    have same := slot k (by rw [point]; rfl)
    exact ⟨kept same inv.1, (congrArg MdbReader.txnid same).trans inv.2⟩
  | badRslot k =>
    rw [point] at inv
    exact inv

/-- What an actor's step does to the table: it keeps the actor's own slot and those of all who watch. -/
structure TableStep (s : TxnInfo ι β) (a : Actor ι β) (s' : TxnInfo ι β) (a' : Actor ι β) : Prop where
  id : a'.id = a.id
  pid : a'.pid = a.pid
  own : TableInv s' a'
  watch : ∀ u : Actor ι β, u.id ≠ a.id → u.pid ≠ 0 → TableInv s u → TableInv s' u

theorem TableStep.table (mine : TableInv s a) (alive : a.pid ≠ 0)
    (slots : ∀ i, a.point.slot ≠ some i → s'.mtiReaders i = s.mtiReaders i)
    (more : s.mtiNumreaders ≤ s'.mtiNumreaders)
    (mutex : ∀ j, j ≠ a.id → s.rmutex = some j → s'.rmutex = some j ∧ s'.mtiNumreaders = s.mtiNumreaders)
    (own : TableInv s' (a.goes point)) : TableStep s a s' (a.goes point) where
  id := rfl
  pid := rfl
  own := own
  watch := by
    intro u differ alive' before
    refine before.watch (fun i there => slots i fun here => ?_) more (mutex u.id differ)
    exact slots_differ mine before differ.symm alive alive' here there

theorem TableStep.setReader (mine : TableInv s a) (alive : a.pid ≠ 0) {i : ℕ} (here : a.point.slot = some i)
    (r : MdbReader ι) (own : TableInv (s.setReader i r) (a.goes point)) :
    TableStep s a (s.setReader i r) (a.goes point) := by
  refine .table mine alive (fun k other => Function.update_of_ne ?_ _ _) (Nat.le_refl _)
    (fun _ _ locked => ⟨locked, rfl⟩) own
  rintro rfl
  exact other here

/-- The table stays as it is. -/
theorem TableStep.stays (readers : s'.mtiReaders = s.mtiReaders) (numreaders : s'.mtiNumreaders = s.mtiNumreaders)
    (rmutex : s'.rmutex = s.rmutex) (id : a'.id = a.id) (pid : a'.pid = a.pid) (own : TableInv s' a') :
    TableStep s a s' a' where
  id := id
  pid := pid
  own := own
  watch := fun _ _ _ before => before.watch (fun _ _ => by rw [readers]) (Nat.le_of_eq numreaders.symm)
    fun locked => ⟨rmutex.trans locked, numreaders⟩

theorem writerStep_table {w : Writer β} {action : TxnAction β} {pid : ℕ}
    (moved : s.writerStep limits pid w action = some s') :
    s'.mtiReaders = s.mtiReaders ∧ s'.mtiNumreaders = s.mtiNumreaders ∧ s'.rmutex = s.rmutex := by
  revert moved
  fun_cases TxnInfo.writerStep limits s pid w action <;> intro moved <;> cases moved <;> exact ⟨rfl, rfl, rfl⟩

theorem writing_step {action : TxnAction β}
    (moved : (s.txn.bind fun w => (s.writerStep limits a.pid w action).map fun s => (s, a)) = some (s', a')) :
    ∃ w, s.txn = some w ∧ s.writerStep limits a.pid w action = some s' ∧ a' = a := by
  rw [Option.bind_eq_some_iff] at moved
  obtain ⟨w, txn, moved⟩ := moved
  rw [Option.map_eq_some_iff] at moved
  obtain ⟨_, moved, same⟩ := moved
  cases same
  exact ⟨w, txn, moved, rfl⟩

@[simp] theorem setReader_self (s : TxnInfo ι β) (i : ℕ) (r : MdbReader ι) : (s.setReader i r).mtiReaders i = r :=
  Function.update_self ..

theorem Slot.setTxnid {i : ℕ} (slot : Slot s a i) (txnid : Option ℕ) :
    Slot (s.setReader i { s.mtiReaders i with txnid := txnid }) (a.goes point) i where
  pid := by simpa [Actor.goes] using slot.pid
  tid := by simpa [Actor.goes] using slot.tid
  inside := slot.inside

theorem Slot.goes {i : ℕ} (slot : Slot s a i) : Slot s (a.goes point) i := ⟨slot.pid, slot.tid, slot.inside⟩

/-- A search ends at a slot that is free, or behind the last one. -/
theorem TableInv.seek (mine : TableInv s a) {i nr : ℕ} (point : a.point = .seeking i nr)
    (stop : ¬ (i < nr ∧ (s.mtiReaders i).pid ≠ 0)) : TableInv s (a.goes (.claiming .clearPid i nr)) := by
  rw [TableInv, point] at mine
  obtain ⟨locked, count, below⟩ := mine
  refine ⟨locked, fun _ => ⟨count, below⟩, ?_⟩
  by_cases free : (s.mtiReaders i).pid = 0
  · exact .inl free
  · have : ¬ i < nr := fun inside => stop ⟨inside, free⟩
    exact .inr (by omega)

/-- `mti_numreaders` grows where the slot was beyond it; no one else claims one meanwhile. -/
theorem TableStep.countSlot (mine : TableInv s a) (alive : a.pid ≠ 0) {i nr : ℕ}
    (point : a.point = .claiming .countSlot i nr) :
    TableStep s a { s with mtiNumreaders := if i = nr then nr + 1 else s.mtiNumreaders }
      (a.goes (.claiming .setPid i nr)) := by
  have claiming := mine
  rw [TableInv, point] at claiming
  obtain ⟨locked, count, free, no_txnid, tid⟩ := claiming
  obtain ⟨same, below⟩ := count (by simp)
  refine .table mine alive (fun _ _ => rfl) ?_ (fun j differ other => ?_)
    ⟨locked, fun late => absurd rfl late, free, no_txnid, tid, ?_⟩
  · simp only
    split <;> omega
  · exact absurd (Option.some.inj (other.symm.trans locked)) differ
  · simp only
    split <;> omega

/-- One case for each step of a transaction; finding a kept slot changed is the one that never is. -/
theorem Actor.step_table (mine : TableInv s a) (alive : a.pid ≠ 0) {action : TxnAction β}
    (moved : a.step limits s action = some (s', a')) : TableStep s a s' a' := by
  have own := mine
  rw [TableInv] at own
  revert moved
  fun_cases Actor.step limits s a action <;> intro moved
  all_goals first
    | cases moved; done
    | skip
  case case1 here free =>
    cases moved
    refine .table mine alive (fun _ _ => rfl) (Nat.le_refl _) (fun j _ locked => ?_) ⟨rfl, rfl, Nat.zero_le _⟩
    exact absurd (free.symm.trans locked) (by simp)
  case case3 i nr here used =>
    cases moved
    rw [here] at own
    exact .stays rfl rfl rfl rfl rfl ⟨own.1, own.2.1, used.1⟩
  case case4 nr here stop =>
    cases moved
    rw [here] at own
    exact .stays rfl rfl rfl rfl rfl own.1
  case case5 i nr here stop _ =>
    cases moved
    exact .stays rfl rfl rfl rfl rfl (mine.seek here stop)
  case case6 i nr here =>
    cases moved
    rw [here] at own
    refine .setReader mine alive (by rw [here]; rfl) _ ⟨own.1, fun _ => own.2.1 (by simp), ?_⟩
    simp [Claim.Done]
  case case7 i nr here =>
    cases moved
    rw [here] at own
    refine .setReader mine alive (by rw [here]; rfl) _ ⟨own.1, fun _ => own.2.1 (by simp), ?_⟩
    simpa [Claim.Done] using own.2.2
  case case8 i nr here =>
    cases moved
    rw [here] at own
    refine .setReader mine alive (by rw [here]; rfl) _ ⟨own.1, fun _ => own.2.1 (by simp), ?_⟩
    simpa [Claim.Done, Actor.goes] using own.2.2
  case case9 i nr here =>
    cases moved
    exact .countSlot mine alive here
  case case10 i nr here =>
    cases moved
    rw [here] at own
    obtain ⟨locked, _, _, no_txnid, tid, inside⟩ := own
    exact .setReader mine alive (by rw [here]; rfl) _
      ⟨locked, ⟨by simp [Actor.goes], by simpa [Actor.goes] using tid, inside⟩, by simpa using no_txnid⟩
  case case11 i here =>
    cases moved
    rw [here] at own
    refine .table mine alive (fun _ _ => rfl) (Nat.le_refl _) (fun j differ locked => ?_)
      ⟨own.2.1.pid, own.2.1.tid, own.2.1.inside⟩
    exact absurd (Option.some.inj (locked.symm.trans own.1)) differ
  case case12 here =>
    cases moved
    rw [here] at own
    refine .table mine alive (fun _ _ => rfl) (Nat.le_refl _) (fun j differ locked => ?_) trivial
    exact absurd (Option.some.inj (locked.symm.trans own)) differ
  case case13 i here changed =>
    rw [here] at own
    exact absurd changed (by simp [own.1.pid, own.2])
  case case14 i here _ | case18 i _ here _ =>
    cases moved
    rw [here] at own
    exact .stays rfl rfl rfl rfl rfl own.1.goes
  case case15 i here =>
    cases moved
    rw [here] at own
    exact .stays rfl rfl rfl rfl rfl own.goes
  case case16 i txnid here =>
    cases moved
    rw [here] at own
    exact .setReader mine alive (by rw [here]; rfl) _ ⟨own.setTxnid _, by simp⟩
  case case17 i txnid here _ | case20 i txnid here _ =>
    cases moved
    rw [here] at own
    exact .stays rfl rfl rfl rfl rfl ⟨own.1.goes, own.2⟩
  case case19 i txnid here _ =>
    cases moved
    rw [here] at own
    exact .setReader mine alive (by rw [here]; rfl) _ ⟨own.1.setTxnid _, by simp⟩
  case case21 i txnid m here =>
    cases moved
    exact .stays rfl rfl rfl rfl rfl mine
  case case22 i txnid m endSlot here =>
    cases moved
    rw [here] at own
    obtain ⟨slot, _⟩ := own
    refine .setReader mine alive (by rw [here]; rfl) _ ?_
    cases endSlot <;> exact ⟨slot.setTxnid _, by simp⟩
  case case23 i here | case24 i here =>
    cases moved
    exact .setReader mine alive (by rw [here]; rfl) _ trivial
  case case25 here _ =>
    cases moved
    exact .stays rfl rfl rfl rfl rfl mine
  case case26 here _ _ _ =>
    cases moved
    exact .stays rfl rfl rfl rfl rfl trivial
  case case28 here w txn ends =>
    cases moved
    exact .stays rfl rfl rfl rfl rfl trivial
  case case31 here _ =>
    obtain ⟨w, txn, moved, rfl⟩ := writing_step moved
    obtain ⟨readers, numreaders, rmutex⟩ := writerStep_table moved
    refine .stays readers numreaders rmutex rfl rfl ?_
    rw [TableInv, here]
    trivial

end Table

/-- Every actor has its ID, and what it found in the table is there. -/
structure Seated (c : Config ι (TxnInfo ι β) (Actor ι β)) (j : ι) : Prop where
  id : (c.threads j).id = j
  pid : (c.threads j).pid ≠ 0
  table : TableInv c.shared (c.threads j)

section Runs

variable {c d : Config ι (TxnInfo ι β) (Actor ι β)} {limits : Limits}
  {P : Guard ι (TxnInfo ι β) (Actor ι β) (TxnAction β)}

theorem Created.seated (created : Created c) (j : ι) : Seated c j := by
  obtain ⟨id, pid, outside⟩ := created.actors j
  refine ⟨id, pid, ?_⟩
  rw [TableInv, outside]
  trivial

theorem Seated.step {j : ι} {action : TxnAction β} (before : ∀ k, Seated c k)
    (step : Step (txnSteps limits) c j action d) (k : ι) : Seated d k := by
  obtain ⟨id, alive, mine⟩ := before j
  have moves := Actor.step_table mine alive step.moves
  by_cases same : k = j
  · subst same
    exact ⟨moves.id.trans id, moves.pid ▸ alive, moves.own⟩
  · obtain ⟨id', alive', others⟩ := before k
    have watched := moves.watch _ (by rwa [id', id]) alive' others
    rw [← step.others k same] at id' alive' watched
    exact ⟨id', alive', watched⟩

theorem Created.seated_run (created : Created c) (run : Run (txnSteps limits) P c d) (j : ι) : Seated d j :=
  run.invariant (I := fun c => ∀ j, Seated c j) created.seated (fun _ before step => Seated.step before step) j

end Runs

end SamLmdb
