import Mathlib.Data.List.Nodup
import SamLmdb.Transaction.Handles

/-!
Every program that owns transactions by value keeps the rules: each live handle
belongs to exactly one value, together with exactly one guard that is held.
-/

namespace SamLmdb

def RwTransaction.handles (txns : List RwTransaction) : List TxnPtr := txns.flatMap (·.txn.toList)

namespace Owned

def handles : Owned → List TxnPtr
  | .ro txn => txn.txn.toList
  | .inactive txn => txn.txn.toList
  | .rw txn outer => RwTransaction.handles (txn :: outer)

def guards : Owned → List GuardId
  | .ro txn => [txn.guard]
  | .inactive txn => [txn.guard]
  | .rw txn outer => (txn :: outer).map (·.guard)

end Owned

namespace Handles

structure Holds (h : Handles) (txn : Option TxnPtr) (guard : GuardId) (p : TxnPtr) (state : HandleState) : Prop where
  pointer : txn = some p
  handle : h.handle p = state
  held : h.guard guard = .held
  guarded : h.guarded guard = some p

/-- Nested transactions from the inside out; `child` is the one nested in the first. -/
def HoldsChain (h : Handles) : Option TxnPtr → List RwTransaction → Prop
  | _, [] => True
  | child, txn :: outer =>
    (∃ p, h.Holds txn.txn txn.guard p (.write (outer.head?.bind (·.txn)) child)) ∧ h.HoldsChain txn.txn outer

end Handles

def Owned.Ok (h : Handles) : Owned → Prop
  | .ro txn => ∃ p, h.Holds txn.txn txn.guard p .active
  | .inactive txn => ∃ p, h.Holds txn.txn txn.guard p .reset
  | .rw txn outer => h.HoldsChain none (txn :: outer)

structure Program.Sound (w : Program) (h : Handles) : Prop where
  accepted : Monitor.run Handles.step Handles.start w.log = some h
  values : ∀ v ∈ w.owned, v.Ok h
  handles_nodup : (w.owned.flatMap Owned.handles).Nodup
  guards_nodup : (w.owned.flatMap Owned.guards).Nodup
  fresh_handles : ∀ p, w.nextTxn ≤ p → h.handle p = .unborn
  fresh_guards : ∀ g, w.nextGuard ≤ g → h.guard g = .unborn ∧ h.guarded g = none
  live_owned : ∀ p, h.handle p ≠ .unborn → h.handle p ≠ .ended → p ∈ w.owned.flatMap Owned.handles

section Frame

variable {h h' : Handles}

theorem Handles.HoldsChain.frame {txns : List RwTransaction} {child : Option TxnPtr} (holds : h.HoldsChain child txns)
    (handles : ∀ p ∈ RwTransaction.handles txns, h'.handle p = h.handle p)
    (guards : ∀ g ∈ txns.map (·.guard), h'.guard g = h.guard g ∧ h'.guarded g = h.guarded g) :
    h'.HoldsChain child txns := by
  induction txns generalizing child with
  | nil => trivial
  | cons txn outer ih =>
    obtain ⟨⟨p, pointer, handle, held, guarded⟩, rest⟩ := holds
    have here := guards txn.guard (by simp)
    refine ⟨⟨p, pointer, ?_, here.1.trans held, here.2.trans guarded⟩, ih rest ?_ ?_⟩
    · exact (handles p (by simp [RwTransaction.handles, pointer])).trans handle
    · intro q member
      refine handles q ?_
      simp only [RwTransaction.handles, List.flatMap_cons, List.mem_append] at member ⊢
      exact .inr member
    · intro g member
      exact guards g (List.mem_cons_of_mem _ member)

/-- A value is fine as long as nothing happens to its own handles and guards. -/
theorem Owned.Ok.frame {v : Owned} (ok : v.Ok h) (handles : ∀ p ∈ v.handles, h'.handle p = h.handle p)
    (guards : ∀ g ∈ v.guards, h'.guard g = h.guard g ∧ h'.guarded g = h.guarded g) : v.Ok h' := by
  cases v with
  | ro txn | inactive txn =>
    obtain ⟨p, pointer, handle, held, guarded⟩ := ok
    have here := guards txn.guard (by simp [Owned.guards])
    exact ⟨p, pointer, (handles p (by simp [Owned.handles, pointer])).trans handle, here.1.trans held,
      here.2.trans guarded⟩
  | rw txn outer => exact Handles.HoldsChain.frame ok handles guards

theorem Handles.HoldsChain.live {txns : List RwTransaction} {child : Option TxnPtr} (holds : h.HoldsChain child txns) :
    (∀ p ∈ RwTransaction.handles txns, h.handle p ≠ .unborn ∧ h.handle p ≠ .ended) ∧
      ∀ g ∈ txns.map (·.guard), h.guard g = .held := by
  induction txns generalizing child with
  | nil => simp [RwTransaction.handles]
  | cons txn outer ih =>
    obtain ⟨⟨p, pointer, handle, held, _⟩, rest⟩ := holds
    obtain ⟨handles, guards⟩ := ih rest
    constructor
    · intro q member
      simp only [RwTransaction.handles, List.flatMap_cons, List.mem_append, pointer, Option.toList_some,
        List.mem_singleton] at member
      rcases member with rfl | member
      · simp [handle]
      · exact handles q member
    · intro g member
      rcases List.mem_cons.1 member with rfl | member
      · exact held
      · exact guards g member

theorem Owned.Ok.live {v : Owned} (ok : v.Ok h) :
    (∀ p ∈ v.handles, h.handle p ≠ .unborn ∧ h.handle p ≠ .ended) ∧
      ∀ g ∈ v.guards, h.guard g = .held := by
  cases v with
  | ro txn | inactive txn =>
    obtain ⟨p, pointer, handle, held, _⟩ := ok
    simp [Owned.handles, Owned.guards, pointer, handle, held]
  | rw txn outer => exact Handles.HoldsChain.live ok

end Frame

/-- Some values are exchanged for others; `bornTxns` and `bornGuards` are new names. -/
structure Exchange (w w' : Program) (h h' : Handles) (front old new back : List Owned) (bornTxns : List TxnPtr)
    (bornGuards : List GuardId) : Prop where
  before : w.owned = front ++ old ++ back
  after : w'.owned = front ++ new ++ back
  accepted : Monitor.run Handles.step Handles.start w'.log = some h'
  values : ∀ v ∈ new, v.Ok h'
  txns_born : ∀ p ∈ bornTxns, w.nextTxn ≤ p ∧ p < w'.nextTxn
  guards_born : ∀ g ∈ bornGuards, w.nextGuard ≤ g ∧ g < w'.nextGuard
  names_grow : w.nextTxn ≤ w'.nextTxn ∧ w.nextGuard ≤ w'.nextGuard
  handles_from : ∀ p ∈ new.flatMap Owned.handles, p ∈ old.flatMap Owned.handles ∨ p ∈ bornTxns
  guards_from : ∀ g ∈ new.flatMap Owned.guards, g ∈ old.flatMap Owned.guards ∨ g ∈ bornGuards
  handles_nodup : (new.flatMap Owned.handles).Nodup
  guards_nodup : (new.flatMap Owned.guards).Nodup
  handles_kept : ∀ p, p ∉ old.flatMap Owned.handles → p ∉ bornTxns → h'.handle p = h.handle p
  guards_kept : ∀ g, g ∉ old.flatMap Owned.guards → g ∉ bornGuards →
    h'.guard g = h.guard g ∧ h'.guarded g = h.guarded g
  gone : ∀ p, p ∈ old.flatMap Owned.handles ∨ p ∈ bornTxns →
    p ∈ new.flatMap Owned.handles ∨ h'.handle p = .ended

theorem nodup_exchange {α : Type*} {front old new back : List α} (nodup : (front ++ old ++ back).Nodup)
    (newNodup : new.Nodup) (apart : ∀ x ∈ new, x ∈ front ∨ x ∈ back → x ∈ old) :
    (front ++ new ++ back).Nodup := by
  simp only [List.append_assoc, List.nodup_append, List.mem_append] at nodup ⊢
  grind

theorem Exchange.sound {w w' : Program} {h h' : Handles} (front old new back : List Owned) (bornTxns : List TxnPtr)
    (bornGuards : List GuardId) (exchange : Exchange w w' h h' front old new back bornTxns bornGuards)
    (sound : w.Sound h) : w'.Sound h' := by
  have handlesNodup := sound.handles_nodup
  have guardsNodup := sound.guards_nodup
  have values := sound.values
  rw [exchange.before] at handlesNodup guardsNodup values
  simp only [List.flatMap_append] at handlesNodup guardsNodup
  have named {v : Owned} (member : v ∈ front ∨ v ∈ back) :
      (∀ p ∈ v.handles, p ∉ bornTxns) ∧ ∀ g ∈ v.guards, g ∉ bornGuards := by
    have ok := values v (by simp; tauto)
    refine ⟨fun p here born => ?_, fun g here born => ?_⟩
    · exact (ok.live.1 p here).1 (sound.fresh_handles p (exchange.txns_born p born).1)
    · have held := ok.live.2 g here
      rw [(sound.fresh_guards g (exchange.guards_born g born).1).1] at held
      cases held
  have apart {v : Owned} (member : v ∈ front ∨ v ∈ back) :
      (∀ p ∈ v.handles, p ∉ old.flatMap Owned.handles) ∧
        ∀ g ∈ v.guards, g ∉ old.flatMap Owned.guards := by
    simp only [List.append_assoc, List.nodup_append, List.mem_append, List.mem_flatMap] at handlesNodup guardsNodup
    simp only [List.mem_flatMap]
    rcases member with member | member
    · exact ⟨fun p here there => handlesNodup.2.2 p ⟨v, member, here⟩ p (.inl there) rfl,
        fun g here there => guardsNodup.2.2 g ⟨v, member, here⟩ g (.inl there) rfl⟩
    · exact ⟨fun p here there => handlesNodup.2.1.2.2 p there p ⟨v, member, here⟩ rfl,
        fun g here there => guardsNodup.2.1.2.2 g there g ⟨v, member, here⟩ rfl⟩
  refine ⟨exchange.accepted, ?_, ?_, ?_, ?_, ?_, ?_⟩
  · intro v member
    rw [exchange.after] at member
    simp only [List.append_assoc, List.mem_append] at member
    have frame (outside : v ∈ front ∨ v ∈ back) : v.Ok h' := by
      refine (values v (by simp; tauto)).frame ?_ ?_
      · exact fun p here => exchange.handles_kept p ((apart outside).1 p here) ((named outside).1 p here)
      · exact fun g here => exchange.guards_kept g ((apart outside).2 g here) ((named outside).2 g here)
    rcases member with member | member | member
    · exact frame (.inl member)
    · exact exchange.values v member
    · exact frame (.inr member)
  · rw [exchange.after]
    simp only [List.flatMap_append]
    refine nodup_exchange handlesNodup exchange.handles_nodup ?_
    intro p here elsewhere
    refine (exchange.handles_from p here).resolve_right fun born => ?_
    rcases elsewhere with outside | outside
    all_goals
      obtain ⟨v, member, here⟩ := List.mem_flatMap.1 outside
      exact (named (by tauto)).1 p here born
  · rw [exchange.after]
    simp only [List.flatMap_append]
    refine nodup_exchange guardsNodup exchange.guards_nodup ?_
    intro g here elsewhere
    refine (exchange.guards_from g here).resolve_right fun born => ?_
    rcases elsewhere with outside | outside
    all_goals
      obtain ⟨v, member, here⟩ := List.mem_flatMap.1 outside
      exact (named (by tauto)).2 g here born
  · intro p unborn
    have grow := exchange.names_grow.1
    have fresh := sound.fresh_handles p (Nat.le_trans grow unborn)
    rw [← fresh]
    refine exchange.handles_kept p (fun here => ?_) (fun born => ?_)
    · obtain ⟨v, member, here⟩ := List.mem_flatMap.1 here
      exact ((values v (by simp [member])).live.1 p here).1 fresh
    · exact absurd unborn (Nat.not_le.2 (exchange.txns_born p born).2)
  · intro g unborn
    have grow := exchange.names_grow.2
    have fresh := sound.fresh_guards g (Nat.le_trans grow unborn)
    have kept := exchange.guards_kept g (fun here => ?_) (fun born => ?_)
    · rw [kept.1, kept.2]
      exact fresh
    · obtain ⟨v, member, here⟩ := List.mem_flatMap.1 here
      have held := (values v (by simp [member])).live.2 g here
      rw [fresh.1] at held
      cases held
    · exact absurd unborn (Nat.not_le.2 (exchange.guards_born g born).2)
  · intro p born live
    rw [exchange.after]
    simp only [List.flatMap_append, List.mem_append]
    by_cases touched : p ∈ old.flatMap Owned.handles ∨ p ∈ bornTxns
    · rcases exchange.gone p touched with here | ended
      · exact .inl (.inr here)
      · exact absurd ended live
    · rw [not_or] at touched
      have same := exchange.handles_kept p touched.1 touched.2
      have owned := sound.live_owned p (same ▸ born) (same ▸ live)
      rw [exchange.before] at owned
      simp only [List.flatMap_append, List.mem_append] at owned
      tauto

end SamLmdb
