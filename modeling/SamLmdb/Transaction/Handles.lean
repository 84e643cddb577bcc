import Mathlib.Data.List.Induction
import Mathlib.Logic.Function.Basic
import SamLmdb.Lib.Monitor
import SamLmdb.Transaction.Types

/-!
The rules of LMDB's transaction handles as a monitor of the calls, and what a trace
that the monitor accepts says about every single handle.
-/

namespace SamLmdb

inductive HandleState where
  | unborn
  | active
  | reset
  /-- the parent it is nested in, and `mt_child` -/
  | write (parent child : Option TxnPtr)
  | ended
  deriving DecidableEq, Repr

inductive GuardState where
  | unborn
  | held
  | released
  deriving DecidableEq, Repr

/-- What LMDB and the counter know after a trace. -/
structure Handles where
  handle : TxnPtr → HandleState
  guard : GuardId → GuardState
  guarded : GuardId → Option TxnPtr

namespace Handles

def start : Handles := ⟨fun _ => .unborn, fun _ => .unborn, fun _ => none⟩

def set (h : Handles) (p : TxnPtr) (state : HandleState) : Handles :=
  { h with handle := Function.update h.handle p state }

def setGuard (h : Handles) (g : GuardId) (state : GuardState) : Handles :=
  { h with guard := Function.update h.guard g state }

/-- A live handle without a live child ends, and its parent can be used again. -/
def finish (h : Handles) (p : TxnPtr) : Option Handles :=
  match h.handle p with
  | .active | .reset | .write none none => some (h.set p .ended)
  | .write (some q) none =>
    match h.handle q with
    | .write parent _ => some ((h.set q (.write parent none)).set p .ended)
    | _ => none
  | _ => none

/-- The rules of the API; `none` where a call breaks them. A guard may be released
only after the handle it protects has ended. -/
def step (h : Handles) : TxnEvent → Option Handles
  | .begin p true none => if h.handle p = .unborn then some (h.set p .active) else none
  | .begin p false none => if h.handle p = .unborn then some (h.set p (.write none none)) else none
  | .begin p false (some q) =>
    match h.handle q with
    | .write parent none =>
      if h.handle p = .unborn then some ((h.set q (.write parent (some p))).set p (.write (some q) none)) else none
    | _ => none
  | .commit (some p) => if h.handle p = .reset then none else h.finish p
  | .abort (some p) => h.finish p
  | .reset (some p) => if h.handle p = .active then some (h.set p .reset) else none
  | .renew (some p) success =>
    if h.handle p = .reset then some (h.set p (if success then .active else .reset)) else none
  | .guardNew g => if h.guard g = .unborn then some (h.setGuard g .held) else none
  | .guardDrop g =>
    if h.guard g = .held ∧ ∀ p ∈ h.guarded g, h.handle p = .ended then some (h.setGuard g .released) else none
  | .value (some p) g =>
    if h.guard g = .held ∧ (∀ q ∈ h.guarded g, q = p) then
      some { h with guarded := Function.update h.guarded g (some p) }
    else none
  | _ => none

end Handles

namespace TxnEvent

def ends (p : TxnPtr) : TxnEvent → Bool
  | .commit txn | .abort txn => txn == some p
  | _ => false

def uses (p : TxnPtr) : TxnEvent → Bool
  | .begin txn _ parent => txn == p || parent == some p
  | .commit txn | .abort txn | .reset txn | .renew txn _ => txn == some p
  | _ => false

/-- makes `p` an active read-only handle -/
def activates (p : TxnPtr) : TxnEvent → Bool
  | .begin txn rdonly _ => txn == p && rdonly
  | .renew txn success => txn == some p && success
  | _ => false

/-- leaves `p` a reset read-only handle -/
def deactivates (p : TxnPtr) : TxnEvent → Bool
  | .reset txn => txn == some p
  | .renew txn success => txn == some p && !success
  | _ => false

end TxnEvent

def LastUse (log : List TxnEvent) (p : TxnPtr) (kind : TxnEvent → Prop) : Prop :=
  ∃ front e back, log = front ++ e :: back ∧ kind e ∧ ∀ e ∈ back, ¬e.uses p

/-- The calls on every pointer, when the values in `alive` still exist. -/
structure HandlesLinear (log : List TxnEvent) (alive : List TxnPtr) : Prop where
  ended_once : ∀ p rdonly parent, .begin p rdonly parent ∈ log →
    log.countP (·.ends p) = if p ∈ alive then 0 else 1
  silent_after_end : ∀ front e back p, log = front ++ e :: back → e.ends p → ∀ e ∈ back, ¬e.uses p
  reset_active : ∀ front txn back, log = front ++ .reset txn :: back →
    ∃ p, txn = some p ∧ LastUse front p (·.activates p)
  renew_reset : ∀ front txn success back, log = front ++ .renew txn success :: back →
    ∃ p, txn = some p ∧ LastUse front p (·.deactivates p)
  guard_after_end : ∀ front g back p, log = front ++ .guardDrop g :: back → .value (some p) g ∈ log →
    ∃ e ∈ front, e.ends p

namespace Handles

section Step

variable {h h' : Handles} {e : TxnEvent} {p q : TxnPtr} {g : GuardId}

@[simp] theorem set_handle (state : HandleState) : (h.set p state).handle q = if q = p then state else h.handle q := by
  simp [set, Function.update_apply]

@[simp] theorem set_guard (state : HandleState) : (h.set p state).guard = h.guard := rfl

@[simp] theorem set_guarded (state : HandleState) : (h.set p state).guarded = h.guarded := rfl

@[simp] theorem setGuard_guard (state : GuardState) {k : GuardId} :
    (h.setGuard g state).guard k = if k = g then state else h.guard k := by
  simp [setGuard, Function.update_apply]

@[simp] theorem setGuard_handle (state : GuardState) : (h.setGuard g state).handle = h.handle := rfl

@[simp] theorem setGuard_guarded (state : GuardState) : (h.setGuard g state).guarded = h.guarded := rfl

def StaysWrite (h h' : Handles) (p : TxnPtr) : Prop :=
  ∃ parent child child', h.handle p = .write parent child ∧ h'.handle p = .write parent child'

/-- Only the parent's `mt_child` changes besides the handle that ends. -/
theorem finish_handle (finished : h.finish p = some h') :
    h.handle p ≠ .unborn ∧ h.handle p ≠ .ended ∧ h'.handle p = .ended ∧ h'.guard = h.guard ∧
      h'.guarded = h.guarded ∧
      ∀ q ≠ p, h'.handle q = h.handle q ∨ h.StaysWrite h' q := by
  unfold finish at finished
  split at finished
  · cases finished
    simp_all
  · cases finished
    simp_all
  · cases finished
    simp_all
  · rename_i q nested
    split at finished
    · rename_i parent child outer
      cases finished
      refine ⟨by simp [nested], by simp [nested], by simp, rfl, rfl, ?_⟩
      intro r differ
      by_cases same : r = q
      · subst same
        exact .inr ⟨parent, child, none, outer, by simp [differ]⟩
      · left
        simp [differ, same]
    · cases finished
  · cases finished

/-- What an event does to one handle. -/
inductive Effect (h h' : Handles) (p : TxnPtr) (e : TxnEvent) : Prop
  | ends (used : e.ends p) (born : h.handle p ≠ .unborn) (live : h.handle p ≠ .ended) (after : h'.handle p = .ended)
  | activates (used : e.activates p) (notEnd : ¬e.ends p) (live : h.handle p ≠ .ended)
    (after : h'.handle p = .active)
  | deactivates (used : e.deactivates p) (notEnd : ¬e.ends p) (live : h.handle p ≠ .ended)
      (after : h'.handle p = .reset)
  | writes (parent child : Option TxnPtr) (notEnd : ¬e.ends p) (live : h.handle p ≠ .ended)
      (after : h'.handle p = .write parent child)
  | keeps (unused : ¬e.uses p) (same : h'.handle p = h.handle p)

theorem finish_effect (finished : h.finish q = some h') (ends : ∀ p, e.ends p = (q == p))
    (uses : ∀ p, e.uses p = (q == p)) (p : TxnPtr) : h.Effect h' p e := by
  obtain ⟨born, live, after, _, _, others⟩ := finish_handle finished
  by_cases same : q = p
  · subst same
    exact .ends (by simp [ends]) born live after
  · rcases others p (Ne.symm same) with kept | ⟨parent, child, child', before, after⟩
    · exact .keeps (by simpa [uses] using same) kept
    · exact .writes parent child' (by simpa [ends] using same) (by simp [before]) after

theorem step_effect (moved : h.step e = some h') (p : TxnPtr) : h.Effect h' p e := by
  unfold step at moved
  split at moved
  · rename_i q
    split at moved <;> cases moved
    rename_i unborn
    by_cases same : q = p
    · subst same
      exact .activates (by simp [TxnEvent.activates]) (by simp [TxnEvent.ends]) (by simp [unborn]) (by simp)
    · exact .keeps (by simp [TxnEvent.uses, same]) (by simp [Ne.symm same])
  · rename_i q
    split at moved <;> cases moved
    rename_i unborn
    by_cases same : q = p
    · subst same
      exact .writes none none (by simp [TxnEvent.ends]) (by simp [unborn]) (by simp)
    · exact .keeps (by simp [TxnEvent.uses, same]) (by simp [Ne.symm same])
  · rename_i q outer
    split at moved
    · rename_i parent around
      split at moved <;> cases moved
      rename_i unborn
      by_cases same : q = p
      · subst same
        exact .writes (some outer) none (by simp [TxnEvent.ends]) (by simp [unborn]) (by simp)
      · by_cases parentOf : outer = p
        · subst parentOf
          exact .writes parent (some q) (by simp [TxnEvent.ends]) (by simp [around]) (by simp [Ne.symm same])
        · exact .keeps (by simp [TxnEvent.uses, same, parentOf]) (by simp [Ne.symm same, Ne.symm parentOf])
    · cases moved
  · split at moved
    · cases moved
    · exact finish_effect moved (by simp [TxnEvent.ends]) (by simp [TxnEvent.uses]) p
  · exact finish_effect moved (by simp [TxnEvent.ends]) (by simp [TxnEvent.uses]) p
  · rename_i q
    split at moved <;> cases moved
    rename_i active
    by_cases same : q = p
    · subst same
      exact .deactivates (by simp [TxnEvent.deactivates]) (by simp [TxnEvent.ends]) (by simp [active]) (by simp)
    · exact .keeps (by simp [TxnEvent.uses, same]) (by simp [Ne.symm same])
  · rename_i q success
    split at moved <;> cases moved
    rename_i inactive
    by_cases same : q = p
    · subst same
      cases success with
      | true =>
        exact .activates (by simp [TxnEvent.activates]) (by simp [TxnEvent.ends]) (by simp [inactive]) (by simp)
      | false =>
        exact .deactivates (by simp [TxnEvent.deactivates]) (by simp [TxnEvent.ends]) (by simp [inactive]) (by simp)
    · exact .keeps (by simp [TxnEvent.uses, same]) (by simp [Ne.symm same])
  · split at moved <;> cases moved
    exact .keeps (by simp [TxnEvent.uses]) rfl
  · split at moved <;> cases moved
    exact .keeps (by simp [TxnEvent.uses]) rfl
  · split at moved <;> cases moved
    exact .keeps (by simp [TxnEvent.uses]) rfl
  · cases moved

theorem step_ended (ended : h.handle p = .ended) (moved : h.step e = some h') : h'.handle p = .ended := by
  cases step_effect moved p with
  | ends _ _ _ after => exact after
  | activates _ _ live | deactivates _ _ live | writes _ _ _ live => exact absurd ended live
  | keeps _ same => exact same.trans ended

theorem uses_of_ends (ends : e.ends p) : e.uses p := by
  cases e <;> simp_all [TxnEvent.ends, TxnEvent.uses]

theorem step_unused (ended : h.handle p = .ended) (used : e.uses p) : h.step e = none := by
  by_contra legal
  obtain ⟨h', moved⟩ := Option.ne_none_iff_exists'.1 legal
  cases step_effect moved p with
  | ends _ _ live | activates _ _ live | deactivates _ _ live | writes _ _ _ live => exact live ended
  | keeps unused => exact unused used

theorem step_count (moved : h.step e = some h') (p : TxnPtr) :
    (if h'.handle p = .ended then 1 else 0) = (if h.handle p = .ended then 1 else 0) + if e.ends p then 1 else 0 := by
  cases step_effect moved p with
  | ends used _ live after => simp [used, live, after]
  | activates _ notEnd live after | deactivates _ notEnd live after | writes _ _ notEnd live after =>
    simp [notEnd, live, after]
  | keeps unused same =>
    have notEnd : ¬e.ends p := fun ends => unused (uses_of_ends ends)
    simp [notEnd, same]

theorem step_born (born : h.handle p ≠ .unborn) (moved : h.step e = some h') : h'.handle p ≠ .unborn := by
  cases step_effect moved p with
  | ends _ _ _ after | activates _ _ _ after | deactivates _ _ _ after | writes _ _ _ _ after => simp [after]
  | keeps _ same => rwa [same]

/-- A guard keeps the handle it protects, and is not used again once released. -/
theorem step_guard (moved : h.step e = some h') (g : GuardId) :
    (h.guard g = .released → h'.guard g = .released) ∧ (∀ p, h.guarded g = some p → h'.guarded g = some p) := by
  unfold step at moved
  split at moved
  · split at moved <;> cases moved
    simp
  · split at moved <;> cases moved
    simp
  · split at moved
    · split at moved <;> cases moved
      simp
    · cases moved
  · split at moved
    · cases moved
    · obtain ⟨_, _, _, guard, guarded, _⟩ := finish_handle moved
      simp [guard, guarded]
  · obtain ⟨_, _, _, guard, guarded, _⟩ := finish_handle moved
    simp [guard, guarded]
  · split at moved <;> cases moved
    simp
  · split at moved <;> cases moved
    simp
  · rename_i k
    split at moved <;> cases moved
    rename_i unborn
    refine ⟨fun released => ?_, by simp⟩
    have differ : g ≠ k := fun same => by simp [← same, released] at unborn
    simp [differ, released]
  · rename_i k
    split at moved <;> cases moved
    by_cases same : g = k <;> simp [same]
  · rename_i q k
    split at moved <;> cases moved
    rename_i allowed
    refine ⟨fun released => released, fun p kept => ?_⟩
    by_cases same : g = k
    · subst same
      simp [← allowed.2 p kept]
    · simp [same, kept]
  · cases moved

end Step

section Trace

variable {h : Handles} {log : List TxnEvent} {p : TxnPtr}

/-- The state of a read-only handle is what the last call on it made of it. -/
theorem lastUse_of_run (accepted : Monitor.run Handles.step start log = some h) :
    (h.handle p = .active → LastUse log p (·.activates p)) ∧
      (h.handle p = .reset → LastUse log p (·.deactivates p)) := by
  induction log using List.reverseRecOn generalizing h with
  | nil =>
    cases accepted
    simp [start]
  | append_singleton log e ih =>
    obtain ⟨before, after, ran, moved, rest⟩ := Monitor.run_split accepted
    cases rest
    have extend {kind : TxnEvent → Prop} (unused : ¬e.uses p) (last : LastUse log p kind) :
      LastUse (log ++ [e]) p kind := by
      obtain ⟨front, f, back, rfl, used, silent⟩ := last
      refine ⟨front, f, back ++ [e], by simp, used, ?_⟩
      intro e' member
      rcases List.mem_append.1 member with member | member
      · exact silent e' member
      · rw [List.mem_singleton.1 member]
        exact unused
    have here {kind : TxnEvent → Prop} (used : kind e) : LastUse (log ++ [e]) p kind :=
      ⟨log, e, [], rfl, used, fun _ member => by cases member⟩
    cases step_effect moved p with
    | ends _ _ _ after | writes _ _ _ _ after => simp [after]
    | activates used _ _ after => exact ⟨fun _ => here used, by simp [after]⟩
    | deactivates used _ _ after => exact ⟨by simp [after], fun _ => here used⟩
    | keeps unused same =>
      rw [same]
      exact ⟨fun active => extend unused ((ih ran).1 active), fun reset => extend unused ((ih ran).2 reset)⟩

theorem countP_ends (accepted : Monitor.run Handles.step start log = some h) (p : TxnPtr) :
    log.countP (·.ends p) = if h.handle p = .ended then 1 else 0 := by
  have counted := Monitor.run_count (fun h => if h.handle p = .ended then 1 else 0) accepted
    (fun moved => step_count moved p)
  simpa [start] using counted.symm

/-- An accepted trace treats every handle linearly. -/
theorem handlesLinear (accepted : Monitor.run Handles.step start log = some h) {alive : List TxnPtr}
    (owned : ∀ p, h.handle p ≠ .unborn → (h.handle p = .ended ↔ p ∉ alive)) : HandlesLinear log alive where
  ended_once := by
    intro p rdonly parent member
    obtain ⟨front, back, rfl⟩ := List.append_of_mem member
    obtain ⟨before, after, _, moved, rest⟩ := Monitor.run_split accepted
    have born : after.handle p ≠ .unborn := by
      cases step_effect moved p with
      | ends used => cases used
      | activates _ _ _ after | deactivates _ _ _ after | writes _ _ _ _ after => simp [after]
      | keeps unused => simp [TxnEvent.uses] at unused
    have bornLast : h.handle p ≠ .unborn :=
      Monitor.run_invariant (I := fun h => h.handle p ≠ .unborn) rest born fun born moved => step_born born moved
    rw [countP_ends accepted p]
    by_cases live : p ∈ alive
    · have running : h.handle p ≠ .ended := fun ended => (owned p bornLast).1 ended live
      simp [live, running]
    · have ended := (owned p bornLast).2 live
      simp [live, ended]
  silent_after_end := by
    rintro front e back p rfl ends
    obtain ⟨before, after, _, moved, rest⟩ := Monitor.run_split accepted
    have ended : after.handle p = .ended := by
      cases step_effect moved p with
      | ends _ _ _ after => exact after
      | activates _ notEnd | deactivates _ notEnd | writes _ _ notEnd => exact absurd ends notEnd
      | keeps unused => exact absurd (uses_of_ends ends) unused
    exact Monitor.run_forbids (fun h => h.handle p = .ended) (·.uses p) rest ended
      (fun ended moved => step_ended ended moved) fun ended used => step_unused ended used
  reset_active := by
    rintro front txn back rfl
    obtain ⟨before, after, ran, moved, rest⟩ := Monitor.run_split accepted
    cases txn with
    | none => cases moved
    | some p =>
      simp only [step] at moved
      split at moved <;> cases moved
      rename_i active
      exact ⟨p, rfl, (lastUse_of_run ran).1 active⟩
  renew_reset := by
    rintro front txn success back rfl
    obtain ⟨before, after, ran, moved, rest⟩ := Monitor.run_split accepted
    cases txn with
    | none => cases moved
    | some p =>
      simp only [step] at moved
      split at moved <;> cases moved
      rename_i inactive
      exact ⟨p, rfl, (lastUse_of_run ran).2 inactive⟩
  guard_after_end := by
    rintro front g back p rfl member
    obtain ⟨before, after, ran, moved, rest⟩ := Monitor.run_split accepted
    simp only [step] at moved
    split at moved <;> cases moved
    rename_i allowed
    have early : .value (some p) g ∈ front := by
      have silent := Monitor.run_forbids (fun h => h.guard g = .released) (· = .value (some p) g) rest
        (by simp) (fun released moved => (step_guard moved g).1 released) (by
          rintro h e released rfl
          simp [step, released])
      rcases List.mem_append.1 member with early | late
      · exact early
      · rcases List.mem_cons.1 late with same | late
        · cases same
        · exact absurd rfl (silent _ late)
    obtain ⟨first, second, rfl⟩ := List.append_of_mem early
    obtain ⟨_, built, _, moved, rest⟩ := Monitor.run_split ran
    have paired : built.guarded g = some p := by
      simp only [step] at moved
      split at moved <;> cases moved
      simp
    have kept : before.guarded g = some p :=
      Monitor.run_invariant (I := fun h => h.guarded g = some p) rest paired
        fun paired moved => (step_guard moved g).2 p paired
    have ended : before.handle p = .ended := allowed.2 p kept
    have counted := countP_ends ran p
    rw [if_pos ended] at counted
    exact List.countP_pos_iff.1 (counted ▸ Nat.one_pos)

end Trace

end Handles

end SamLmdb
