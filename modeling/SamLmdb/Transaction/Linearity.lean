import SamLmdb.Transaction.Ownership

/-!
Every operation exchanges values as `Ownership` allows, whatever LMDB answers; so do
all sequences of operations.
-/

namespace SamLmdb

theorem split_at {α : Type*} {l : List α} {i : ℕ} {x : α} (found : l[i]? = some x) :
    l = l.take i ++ [x] ++ l.drop (i + 1) := by
  obtain ⟨inside, rfl⟩ := List.getElem?_eq_some_iff.1 found
  rw [List.append_assoc, List.singleton_append, List.getElem_cons_drop, List.take_append_drop]

section Calls

variable {w : Program} {h : Handles} {v : Owned} {i : ℕ} {txn : Option TxnPtr} {guard : GuardId} {p : TxnPtr}
  {state : HandleState} {events : List TxnEvent}

theorem Program.Sound.extend {h' : Handles} (sound : w.Sound h) (ran : Monitor.run Handles.step h events = some h') :
    Monitor.run Handles.step Handles.start (w.log ++ events) = some h' := by
  rw [Monitor.run_append, sound.accepted]
  exact ran

/-- The events of a value's end, whatever ended its handle. -/
theorem Handles.run_close {h' : Handles} {e : TxnEvent} (held : h.guard guard = .held)
    (guarded : h.guarded guard = some p) (ended : h.step e = some h') (finished : h.finish p = some h') :
    Monitor.run Handles.step h [e, .guardDrop guard] = some (h'.setGuard guard .released) := by
  obtain ⟨_, _, after, sameGuard, sameGuarded, _⟩ := finish_handle finished
  have allowed : h'.guard guard = .held ∧ ∀ q ∈ h'.guarded guard, h'.handle q = .ended := by
    rw [sameGuard, sameGuarded, held, guarded]
    refine ⟨rfl, ?_⟩
    rintro q ⟨⟩
    exact after
  have released : h'.step (.guardDrop guard) = some (h'.setGuard guard .released) := if_pos allowed
  simp only [Monitor.run, ended, released, Option.bind_some]

theorem Handles.finish_single (single : h.handle p = .active ∨ h.handle p = .reset) :
    h.finish p = some (h.set p .ended) := by
  unfold finish
  rcases single with active | reset
  · simp only [active]
  · simp only [reset]

theorem Program.Sound.closeSingle (sound : w.Sound h) (found : w.owned[i]? = some v) (handles : v.handles = [p])
    (guards : v.guards = [guard])
    (ran : Monitor.run Handles.step h events = some ((h.set p .ended).setGuard guard .released)) :
    (w.replace i [] events).Sound ((h.set p .ended).setGuard guard .released) := by
  refine Exchange.sound (w.owned.take i) [v] [] (w.owned.drop (i + 1)) [] [] ?_ sound
  constructor
  case before => exact split_at found
  case after => rfl
  case accepted => exact sound.extend ran
  case values => simp
  case txns_born => simp
  case guards_born => simp
  case names_grow => exact ⟨Nat.le_refl _, Nat.le_refl _⟩
  case handles_from => simp
  case guards_from => simp
  case handles_nodup => simp
  case guards_nodup => simp
  case handles_kept =>
    intro q other _
    have differ : q ≠ p := by simpa [handles] using other
    simp [differ]
  case guards_kept =>
    intro g other _
    have differ : g ≠ guard := by simpa [guards] using other
    simp [differ]
  case gone =>
    intro q here
    have same : q = p := by simpa [handles] using here
    simp [same]

/-- A handle changes its state and moves, with its guard, into a value of another type. -/
theorem Program.Sound.convert (v' : Owned) (sound : w.Sound h) (found : w.owned[i]? = some v)
    (handles : v.handles = [p]) (guards : v.guards = [guard]) (handles' : v'.handles = [p])
    (guards' : v'.guards = [guard]) (guarded : h.guarded guard = some p) (state : HandleState)
    (ran : Monitor.run Handles.step h events =
      some { h.set p state with guarded := Function.update h.guarded guard (some p) })
    (ok : v'.Ok { h.set p state with guarded := Function.update h.guarded guard (some p) }) :
    (w.replace i [v'] events).Sound { h.set p state with guarded := Function.update h.guarded guard (some p) } := by
  refine Exchange.sound (w.owned.take i) [v] [v'] (w.owned.drop (i + 1)) [] [] ?_ sound
  constructor
  case before => exact split_at found
  case after => rfl
  case accepted => exact sound.extend ran
  case values => simpa using ok
  case txns_born => simp
  case guards_born => simp
  case names_grow => exact ⟨Nat.le_refl _, Nat.le_refl _⟩
  case handles_from => simp [handles, handles']
  case guards_from => simp [guards, guards']
  case handles_nodup => simp [handles']
  case guards_nodup => simp [guards']
  case handles_kept =>
    intro q other _
    have differ : q ≠ p := by simpa [handles] using other
    simp [differ]
  case guards_kept =>
    intro g _ _
    refine ⟨rfl, ?_⟩
    by_cases same : g = guard
    · subst same
      simp [guarded]
    · simp [same]
  case gone =>
    intro q here
    left
    simpa [handles, handles'] using here

theorem Program.Sound.born (sound : w.Sound h) (handles : v.handles = [w.nextTxn]) (guards : v.guards = [w.nextGuard])
    {h' : Handles} (ran : Monitor.run Handles.step h events = some h') (ok : v.Ok h')
    (kept : ∀ q ≠ w.nextTxn, h'.handle q = h.handle q)
    (keptGuard : ∀ g ≠ w.nextGuard, h'.guard g = h.guard g ∧ h'.guarded g = h.guarded g) :
    (w.fresh.replace w.owned.length [v] events).Sound h' := by
  refine Exchange.sound w.owned [] [v] [] [w.nextTxn] [w.nextGuard] ?_ sound
  constructor
  case before => simp
  case after => simp [Program.replace, Program.fresh]
  case accepted => exact sound.extend ran
  case values => simpa using ok
  case txns_born => simp [Program.replace, Program.fresh]
  case guards_born => simp [Program.replace, Program.fresh]
  case names_grow => exact ⟨Nat.le_succ _, Nat.le_succ _⟩
  case handles_from => simp [handles]
  case guards_from => simp [guards]
  case handles_nodup => simp [handles]
  case guards_nodup => simp [guards]
  case handles_kept =>
    intro q _ other
    exact kept q (by simpa using other)
  case guards_kept =>
    intro g _ other
    exact keptGuard g (by simpa using other)
  case gone =>
    intro q here
    left
    simpa [handles] using here

end Calls

section Nested

variable {w : Program} {h : Handles} {txn : RwTransaction} {outer : List RwTransaction} {i : ℕ} {p : TxnPtr}

theorem Handles.HoldsChain.withChild {child child' : Option TxnPtr} {txns : List RwTransaction} {q : TxnPtr}
    (holds : h.HoldsChain child txns) (distinct : (RwTransaction.handles txns).Nodup)
    (head : txns.head?.bind (·.txn) = some q) {h' : Handles}
    (headState : ∀ parent, h.handle q = .write parent child → h'.handle q = .write parent child')
    (kept : ∀ r ∈ RwTransaction.handles txns, r ≠ q → h'.handle r = h.handle r)
    (guards : ∀ g ∈ txns.map (·.guard), h'.guard g = h.guard g ∧ h'.guarded g = h.guarded g) :
    h'.HoldsChain child' txns := by
  cases txns with
  | nil => trivial
  | cons txn outer =>
    obtain ⟨⟨p, pointer, handle, held, guarded⟩, rest⟩ := holds
    have same : p = q := by simpa [pointer] using head
    subst same
    have here := guards txn.guard (by simp)
    simp only [RwTransaction.handles, List.flatMap_cons, pointer, Option.toList_some, List.singleton_append,
      List.nodup_cons] at distinct
    refine ⟨⟨p, pointer, headState _ handle, here.1.trans held, here.2.trans guarded⟩, rest.frame ?_ ?_⟩
    · intro r member
      refine kept r ?_ ?_
      · simp only [RwTransaction.handles, List.flatMap_cons, List.mem_append] at member ⊢
        exact .inr member
      · rintro rfl
        exact distinct.1 member
    · intro g member
      exact guards g (List.mem_cons_of_mem _ member)

theorem Program.Sound.nodup_of_found {v : Owned} (sound : w.Sound h) (found : w.owned[i]? = some v) :
    v.handles.Nodup ∧ v.guards.Nodup := by
  have handles := sound.handles_nodup
  have guards := sound.guards_nodup
  rw [split_at found] at handles guards
  simp only [List.flatMap_append, List.flatMap_cons, List.flatMap_nil, List.append_nil,
    List.nodup_append] at handles guards
  exact ⟨handles.1.2.1, guards.1.2.1⟩

/-- The innermost write transaction ends, and the one around it can be used again. -/
theorem Program.Sound.closeNested (sound : w.Sound h) (found : w.owned[i]? = some (.rw txn outer)) {e : TxnEvent}
    (ends : ∀ p, txn.txn = some p → h.handle p ≠ .reset → h.step e = h.finish p) :
    ∃ h', (w.replace i (Owned.outward outer) [e, .guardDrop txn.guard]).Sound h' := by
  obtain ⟨⟨p, pointer, handle, held, guarded⟩, rest⟩ := sound.values _ (List.mem_of_getElem? found)
  obtain ⟨distinct, apart⟩ := sound.nodup_of_found found
  simp only [Owned.handles, RwTransaction.handles, List.flatMap_cons, pointer, Option.toList_some,
    List.singleton_append,
    List.nodup_cons] at distinct
  simp only [Owned.guards, List.map_cons, List.nodup_cons] at apart
  have notReset : h.handle p ≠ .reset := by simp [handle]
  have exchange {h' : Handles} (finished : h.finish p = some h')
      (kept : ∀ q, q ≠ p → q ∉ RwTransaction.handles outer → h'.handle q = h.handle q)
      (chain : (h'.setGuard txn.guard .released).HoldsChain none outer) :
      ∃ h', (w.replace i (Owned.outward outer) [e, .guardDrop txn.guard]).Sound h' := by
    obtain ⟨_, _, ended, sameGuard, sameGuarded, _⟩ := Handles.finish_handle finished
    have ran := Handles.run_close held guarded ((ends p pointer notReset).trans finished) finished
    refine ⟨h'.setGuard txn.guard .released,
      Exchange.sound (w.owned.take i) [.rw txn outer] (Owned.outward outer) (w.owned.drop (i + 1)) [] [] ?_ sound⟩
    have handles : (Owned.outward outer).flatMap Owned.handles = RwTransaction.handles outer := by
      cases outer <;> simp [Owned.outward, Owned.handles, RwTransaction.handles]
    have guards : (Owned.outward outer).flatMap Owned.guards = outer.map (·.guard) := by
      cases outer <;> simp [Owned.outward, Owned.guards]
    constructor
    case before => exact split_at found
    case after => rfl
    case accepted => exact sound.extend ran
    case values =>
      intro v member
      cases outer with
      | nil => cases member
      | cons next outer =>
        cases List.mem_singleton.1 member
        exact chain
    case txns_born => simp
    case guards_born => simp
    case names_grow => exact ⟨Nat.le_refl _, Nat.le_refl _⟩
    case handles_from =>
      intro q member
      rw [handles] at member
      simp only [RwTransaction.handles] at member
      simp [Owned.handles, RwTransaction.handles, member]
    case guards_from =>
      intro g member
      rw [guards] at member
      left
      simpa [Owned.guards] using .inr (List.mem_map.1 member)
    case handles_nodup =>
      rw [handles]
      exact distinct.2
    case guards_nodup =>
      rw [guards]
      exact apart.2
    case handles_kept =>
      intro q other _
      simp only [List.flatMap_cons, List.flatMap_nil, List.append_nil, Owned.handles, RwTransaction.handles, pointer,
        Option.toList_some, List.singleton_append, List.mem_cons, not_or] at other
      exact kept q other.1 other.2
    case guards_kept =>
      intro g other _
      have differ : g ≠ txn.guard := by
        rintro rfl
        exact other (by simp [Owned.guards])
      simp [differ, sameGuard, sameGuarded]
    case gone =>
      intro q here
      rw [handles]
      by_cases same : q = p
      · right
        simp [same, ended]
      · left
        simpa [Owned.handles, RwTransaction.handles, pointer, same] using here
  have guardsKept : ∀ (h' : Handles), h'.guard = h.guard → h'.guarded = h.guarded →
    ∀ g ∈ outer.map (·.guard),
      (h'.setGuard txn.guard .released).guard g = h.guard g ∧
        (h'.setGuard txn.guard .released).guarded g = h.guarded g := by
    intro h' sameGuard sameGuarded g member
    have differ : g ≠ txn.guard := by
      rintro rfl
      exact apart.1 member
    simp [differ, sameGuard, sameGuarded]
  cases outer with
  | nil =>
    have finished : h.finish p = some (h.set p .ended) := by simp [Handles.finish, handle]
    exact exchange finished (fun q differ _ => by simp [differ]) trivial
  | cons next outer =>
    obtain ⟨⟨q, around, state, _, _⟩, _⟩ := id rest
    have finished : h.finish p = some ((h.set q (.write ((next :: outer).tail.head?.bind (·.txn)) none)).set p
      .ended) := by
      simp [Handles.finish, handle, around, state]
    have differ : q ≠ p := by
      rintro rfl
      exact distinct.1 (by simp [around])
    refine exchange finished ?_ ?_
    · intro r other outside
      have apart : r ≠ q := by
        rintro rfl
        exact outside (by simp [RwTransaction.handles, around])
      simp [other, apart]
    · refine rest.withChild (q := q) distinct.2 (by simp [around]) ?_ ?_ (guardsKept _ rfl rfl)
      · intro parent outer
        rw [state] at outer
        cases outer
        simp [differ]
      · intro r member apart
        have other : r ≠ p := by
          rintro rfl
          exact distinct.1 member
        simp [other, apart]

end Nested

section Begin

variable {w : Program} {h : Handles}

theorem Program.Sound.idle {w' : Program} (sound : w.Sound h) (owned : w'.owned = w.owned) (log : w'.log = w.log)
    (txns : w.nextTxn ≤ w'.nextTxn) (guards : w.nextGuard ≤ w'.nextGuard) : w'.Sound h where
  accepted := log ▸ sound.accepted
  values := owned ▸ sound.values
  handles_nodup := owned ▸ sound.handles_nodup
  guards_nodup := owned ▸ sound.guards_nodup
  fresh_handles p above := sound.fresh_handles p (Nat.le_trans txns above)
  fresh_guards g above := sound.fresh_guards g (Nat.le_trans guards above)
  live_owned := owned ▸ sound.live_owned

theorem Program.Sound.backOut (sound : w.Sound h) :
    (w.fresh.replace w.owned.length [] [.guardNew w.nextGuard, .guardDrop w.nextGuard]).Sound
      ((h.setGuard w.nextGuard .held).setGuard w.nextGuard .released) := by
  obtain ⟨unborn, unguarded⟩ := sound.fresh_guards w.nextGuard (Nat.le_refl _)
  have taken : h.step (.guardNew w.nextGuard) = some (h.setGuard w.nextGuard .held) := if_pos unborn
  have released : (h.setGuard w.nextGuard .held).step (.guardDrop w.nextGuard) =
      some ((h.setGuard w.nextGuard .held).setGuard w.nextGuard .released) :=
    if_pos ⟨by simp, by simp [unguarded]⟩
  have ran : Monitor.run Handles.step h [.guardNew w.nextGuard, .guardDrop w.nextGuard] =
      some ((h.setGuard w.nextGuard .held).setGuard w.nextGuard .released) := by
    simp only [Monitor.run, taken, released, Option.bind_some]
  refine Exchange.sound w.owned [] [] [] [] [w.nextGuard] ?_ sound
  constructor
  case before => simp
  case after => simp [Program.replace, Program.fresh]
  case accepted => exact sound.extend ran
  case values => simp
  case txns_born => simp
  case guards_born => simp [Program.replace, Program.fresh]
  case names_grow => exact ⟨Nat.le_succ _, Nat.le_succ _⟩
  case handles_from => simp
  case guards_from => simp
  case handles_nodup => simp
  case guards_nodup => simp
  case handles_kept => simp
  case guards_kept =>
    intro g _ other
    have differ : g ≠ w.nextGuard := by simpa using other
    simp [differ]
  case gone => simp

def Handles.begun (h : Handles) (p : TxnPtr) (state : HandleState) (g : GuardId) : Handles :=
  { (h.set p state).setGuard g .held with guarded := Function.update h.guarded g (some p) }

@[simp] theorem Handles.begun_handle {p q : TxnPtr} {state : HandleState} {g : GuardId} :
    (h.begun p state g).handle q = if q = p then state else h.handle q := Handles.set_handle state

theorem Handles.begun_guard {p : TxnPtr} {state : HandleState} {g k : GuardId} (differ : k ≠ g) :
    (h.begun p state g).guard k = h.guard k ∧ (h.begun p state g).guarded k = h.guarded k := by
  simp [begun, Handles.setGuard, differ]

theorem Handles.begun_holds {p : TxnPtr} {state : HandleState} {g : GuardId} :
    (h.begun p state g).Holds (some p) g p state :=
  ⟨rfl, by simp, by simp [begun, Handles.setGuard], by simp [begun]⟩

theorem Program.Sound.nest {txn : RwTransaction} {outer : List RwTransaction} {i : ℕ} (sound : w.Sound h)
    (found : w.owned[i]? = some (.rw txn outer)) :
    ∃ h', (w.fresh.replace i [.rw ⟨some w.nextTxn, w.nextGuard⟩ (txn :: outer)]
      [.begin w.nextTxn false txn.txn, .guardNew w.nextGuard, .value (some w.nextTxn) w.nextGuard]).Sound h' := by
  have chain : h.HoldsChain none (txn :: outer) := sound.values _ (List.mem_of_getElem? found)
  obtain ⟨⟨p, pointer, handle, held, guarded⟩, rest⟩ := id chain
  obtain ⟨distinct, apart⟩ := sound.nodup_of_found found
  have freshHandle := sound.fresh_handles w.nextTxn (Nat.le_refl _)
  obtain ⟨freshGuard, unguarded⟩ := sound.fresh_guards w.nextGuard (Nat.le_refl _)
  have old : p ≠ w.nextTxn := by
    rintro rfl
    rw [freshHandle] at handle
    cases handle
  let parent := outer.head?.bind (·.txn)
  let h₁ := h.set p (.write parent (some w.nextTxn))
  have locked : h.step (.begin w.nextTxn false txn.txn) = some (h₁.set w.nextTxn (.write (some p) none)) := by
    rw [pointer]
    simp only [Handles.step, handle]
    exact if_pos freshHandle
  have ran : Monitor.run Handles.step h
      [.begin w.nextTxn false txn.txn, .guardNew w.nextGuard, .value (some w.nextTxn) w.nextGuard] =
      some (h₁.begun w.nextTxn (.write (some p) none) w.nextGuard) := by
    have taken : (h₁.set w.nextTxn (.write (some p) none)).step (.guardNew w.nextGuard) =
        some ((h₁.set w.nextTxn (.write (some p) none)).setGuard w.nextGuard .held) := if_pos freshGuard
    have built : ((h₁.set w.nextTxn (.write (some p) none)).setGuard w.nextGuard .held).step
        (.value (some w.nextTxn) w.nextGuard) = some (h₁.begun w.nextTxn (.write (some p) none) w.nextGuard) :=
      if_pos ⟨by simp, by simp [h₁, unguarded]⟩
    simp only [Monitor.run, locked, taken, built, Option.bind_some]
  have guardsOld : ∀ g ∈ (txn :: outer).map (·.guard), g ≠ w.nextGuard := by
    rintro g member rfl
    rw [chain.live.2 _ member] at freshGuard
    cases freshGuard
  have handlesOld : ∀ q ∈ RwTransaction.handles (txn :: outer), q ≠ w.nextTxn := by
    rintro q member rfl
    exact (chain.live.1 _ member).1 freshHandle
  refine ⟨h₁.begun w.nextTxn (.write (some p) none) w.nextGuard,
    Exchange.sound (w.owned.take i) [.rw txn outer] [.rw ⟨some w.nextTxn, w.nextGuard⟩ (txn :: outer)]
      (w.owned.drop (i + 1)) [w.nextTxn] [w.nextGuard] ?_ sound⟩
  constructor
  case before => exact split_at found
  case after => rfl
  case accepted => exact sound.extend ran
  case values =>
    intro v member
    cases List.mem_singleton.1 member
    refine ⟨⟨w.nextTxn, by simpa [pointer] using Handles.begun_holds⟩, ?_⟩
    refine chain.withChild (q := p) distinct (by simpa using pointer) ?_ ?_ ?_
    · intro parent' state
      rw [handle] at state
      cases state
      simp [h₁, old, parent]
    · intro r member differ
      simp [h₁, differ, handlesOld r member]
    · intro g member
      simpa [h₁] using Handles.begun_guard (h := h₁) (guardsOld g member)
  case txns_born => simp [Program.replace, Program.fresh]
  case guards_born => simp [Program.replace, Program.fresh]
  case names_grow => exact ⟨Nat.le_succ _, Nat.le_succ _⟩
  case handles_from =>
    intro q member
    simp only [List.flatMap_cons, List.flatMap_nil, List.append_nil, Owned.handles, RwTransaction.handles,
      List.mem_append, Option.toList_some, List.mem_singleton] at member ⊢
    tauto
  case guards_from =>
    intro g member
    simp only [List.flatMap_cons, List.flatMap_nil, List.append_nil, Owned.guards, List.map_cons,
      List.mem_cons, List.not_mem_nil, or_false] at member ⊢
    tauto
  case handles_nodup =>
    have apartNew : w.nextTxn ∉ RwTransaction.handles (txn :: outer) := fun member => handlesOld _ member rfl
    simpa [Owned.handles, RwTransaction.handles] using
      (List.nodup_cons.2 ⟨apartNew, distinct⟩ : (w.nextTxn :: RwTransaction.handles (txn :: outer)).Nodup)
  case guards_nodup =>
    have apartNew : w.nextGuard ∉ (txn :: outer).map (·.guard) := fun member => guardsOld _ member rfl
    simpa only [List.flatMap_cons, List.flatMap_nil, List.append_nil, Owned.guards, List.map_cons] using
      (List.nodup_cons.2 ⟨apartNew, apart⟩ : (w.nextGuard :: (txn :: outer).map (·.guard)).Nodup)
  case handles_kept =>
    intro q other fresh
    have differ : q ≠ w.nextTxn := by simpa using fresh
    have apart : q ≠ p := by
      rintro rfl
      exact other (by simp [Owned.handles, RwTransaction.handles, pointer])
    simp [h₁, differ, apart]
  case guards_kept =>
    intro g _ fresh
    simpa [h₁] using Handles.begun_guard (h := h₁) (show g ≠ w.nextGuard by simpa using fresh)
  case gone =>
    intro q here
    left
    simp only [List.flatMap_cons, List.flatMap_nil, List.append_nil, Owned.handles, RwTransaction.handles,
      List.mem_append, Option.toList_some, List.mem_singleton] at here ⊢
    tauto

end Begin

section Run

variable {w w' : Program} {h : Handles} {op : TxnOp}

theorem Handles.run_beginRo {p : TxnPtr} {g : GuardId} (freshHandle : h.handle p = .unborn)
    (freshGuard : h.guard g = .unborn) (unguarded : h.guarded g = none) :
    Monitor.run Handles.step h [.guardNew g, .begin p true none, .value (some p) g] =
      some (h.begun p .active g) := by
    have taken : h.step (.guardNew g) = some (h.setGuard g .held) := if_pos freshGuard
    have begun : (h.setGuard g .held).step (.begin p true none) =
        some ((h.setGuard g .held).set p .active) := if_pos freshHandle
    have built : ((h.setGuard g .held).set p .active).step
        (.value (some p) g) = some (h.begun p .active g) :=
      if_pos ⟨by simp, by simp [unguarded]⟩
    simp only [Monitor.run, taken, begun, built, Option.bind_some]

theorem Handles.run_beginRw {p : TxnPtr} {g : GuardId} (freshHandle : h.handle p = .unborn)
    (freshGuard : h.guard g = .unborn) (unguarded : h.guarded g = none) :
    Monitor.run Handles.step h [.begin p false none, .guardNew g, .value (some p) g] =
      some (h.begun p (.write none none) g) := by
    have begun : h.step (.begin p false none) = some (h.set p (.write none none)) :=
      if_pos freshHandle
    have taken : (h.set p (.write none none)).step (.guardNew g) =
        some ((h.set p (.write none none)).setGuard g .held) := if_pos freshGuard
    have built : ((h.set p (.write none none)).setGuard g .held).step
        (.value (some p) g) = some (h.begun p (.write none none) g) :=
      if_pos ⟨by simp, by simp [unguarded]⟩
    simp only [Monitor.run, taken, begun, built, Option.bind_some]

theorem Program.step_sound (sound : w.Sound h) (moved : w.step op = some w') : ∃ h', w'.Sound h' := by
  have freshHandle := sound.fresh_handles w.nextTxn (Nat.le_refl _)
  obtain ⟨freshGuard, unguarded⟩ := sound.fresh_guards w.nextGuard (Nat.le_refl _)
  cases op with
  | beginRoTxn success =>
    cases success with
    | false =>
      cases moved
      exact ⟨_, sound.backOut⟩
    | true =>
      cases moved
      have ran := Handles.run_beginRo freshHandle freshGuard unguarded
      refine ⟨_, sound.born (v := .ro ⟨some w.nextTxn, w.nextGuard⟩) rfl rfl ran
        ⟨_, Handles.begun_holds⟩ ?_ ?_⟩
      · intro q differ
        simp [differ]
      · intro g differ
        exact Handles.begun_guard differ
  | beginRwTxn success =>
    cases success with
    | false =>
      cases moved
      refine ⟨h, sound.idle ?_ ?_ (Nat.le_succ _) (Nat.le_succ _)⟩
      · simp [Program.replace, Program.fresh]
      · simp [Program.replace, Program.fresh]
    | true =>
      cases moved
      have ran := Handles.run_beginRw freshHandle freshGuard unguarded
      refine ⟨_, sound.born (v := .rw ⟨some w.nextTxn, w.nextGuard⟩ []) rfl rfl ran
        ⟨⟨_, Handles.begun_holds⟩, trivial⟩ ?_ ?_⟩
      · intro q differ
        simp [differ]
      · intro g differ
        exact Handles.begun_guard differ
  | beginNestedTxn i success =>
    simp only [Program.step] at moved
    split at moved
    · rename_i txn outer found
      cases success with
      | false =>
        cases moved
        refine ⟨h, sound.idle (split_at found).symm ?_ (Nat.le_succ _) (Nat.le_succ _)⟩
        simp [Program.replace, Program.fresh, RwTransaction.beginNestedTxn, RwTransaction.begin]
      | true =>
        cases moved
        exact sound.nest found
    · cases moved
  | commit i =>
    simp only [Program.step] at moved
    split at moved
    · rename_i txn found
      cases moved
      obtain ⟨p, pointer, active, held, guarded⟩ := sound.values _ (List.mem_of_getElem? found)
      have finished := Handles.finish_single (.inl active)
      have ended : h.step (.commit (some p)) = some (h.set p .ended) := by
        rw [← finished]
        exact if_neg (by simp [active])
      refine ⟨_, sound.closeSingle (p := p) found (by simp [Owned.handles, pointer]) rfl ?_⟩
      simpa [RoTransaction.commit, RoTransaction.nullify, RoTransaction.drop, dropUnlessNull, pointer] using
        Handles.run_close held guarded ended finished
    · rename_i txn outer found
      cases moved
      simpa [RwTransaction.commit, RwTransaction.nullify, RwTransaction.drop, dropUnlessNull] using
        sound.closeNested found (e := .commit txn.txn) fun p pointer live => by
          rw [pointer]
          exact if_neg live
    · cases moved
  | drop i =>
    simp only [Program.step] at moved
    split at moved
    · rename_i txn found
      cases moved
      obtain ⟨p, pointer, active, held, guarded⟩ := sound.values _ (List.mem_of_getElem? found)
      have finished := Handles.finish_single (.inl active)
      refine ⟨_, sound.closeSingle (p := p) found (by simp [Owned.handles, pointer]) rfl ?_⟩
      simpa [RoTransaction.drop, dropUnlessNull, pointer] using
        Handles.run_close (e := .abort (some p)) held guarded finished finished
    · rename_i txn found
      cases moved
      obtain ⟨p, pointer, inactive, held, guarded⟩ := sound.values _ (List.mem_of_getElem? found)
      have finished := Handles.finish_single (.inr inactive)
      refine ⟨_, sound.closeSingle (p := p) found (by simp [Owned.handles, pointer]) rfl ?_⟩
      simpa [InactiveTransaction.drop, pointer] using
        Handles.run_close (e := .abort (some p)) held guarded finished finished
    · rename_i txn outer found
      cases moved
      obtain ⟨⟨p, pointer, _⟩, _⟩ := sound.values _ (List.mem_of_getElem? found)
      have closed := sound.closeNested found (e := .abort txn.txn) fun p pointer _ => by
        rw [pointer]
        rfl
      simpa [RwTransaction.drop, dropUnlessNull, pointer] using closed
    · cases moved
  | reset i =>
    simp only [Program.step] at moved
    split at moved
    · rename_i txn found
      cases moved
      obtain ⟨p, pointer, active, held, guarded⟩ := sound.values _ (List.mem_of_getElem? found)
      have quiet : h.step (.reset (some p)) = some (h.set p .reset) := if_pos active
      have built : (h.set p .reset).step (.value (some p) txn.guard) =
          some { h.set p .reset with guarded := Function.update h.guarded txn.guard (some p) } :=
        if_pos ⟨held, by simp [guarded]⟩
      refine ⟨_, sound.convert _ found (by simp [Owned.handles, pointer]) rfl
        (by simp [Owned.handles, RoTransaction.reset, pointer])
        rfl guarded .reset ?_ ?_⟩
      · simp only [RoTransaction.reset, pointer, Monitor.run, quiet, built, Option.bind_some]
      · exact ⟨p, by simp [RoTransaction.reset, pointer], by simp [Handles.set], held,
          by simp [RoTransaction.reset]⟩
    · cases moved
  | renew i success =>
    simp only [Program.step] at moved
    split at moved
    · rename_i txn found
      cases moved
      obtain ⟨p, pointer, inactive, held, guarded⟩ := sound.values _ (List.mem_of_getElem? found)
      cases success with
      | true =>
        have again : h.step (.renew (some p) true) = some (h.set p .active) := if_pos inactive
        have built : (h.set p .active).step (.value (some p) txn.guard) =
            some { h.set p .active with guarded := Function.update h.guarded txn.guard (some p) } :=
          if_pos ⟨held, by simp [guarded]⟩
        refine ⟨_, sound.convert (.ro ⟨txn.txn, txn.guard⟩) found (by simp [Owned.handles, pointer]) rfl
          (by simp [Owned.handles, pointer]) rfl guarded .active ?_ ?_⟩
        · simp only [InactiveTransaction.renew, pointer, if_true, Monitor.run, again, built, Option.bind_some]
        · exact ⟨p, by simp [pointer], by simp [Handles.set], held, by simp⟩
      | false =>
        have failed : h.step (.renew (some p) false) = some (h.set p .reset) := if_pos inactive
        have same : h.set p .reset = h := by
          simp [Handles.set, ← inactive]
        rw [same] at failed
        have finished := Handles.finish_single (.inr inactive)
        refine ⟨_, sound.closeSingle (p := p) found (by simp [Owned.handles, pointer]) rfl ?_⟩
        have closed := Handles.run_close (e := .abort (some p)) held guarded finished finished
        have first : Monitor.run Handles.step h (.renew (some p) false :: [.abort (some p), .guardDrop txn.guard]) =
            some ((h.set p .ended).setGuard txn.guard .released) := by
          rw [Monitor.run, failed]
          exact closed
        simpa [InactiveTransaction.renew, pointer] using first
    · cases moved

theorem Program.start_sound : Program.start.Sound Handles.start := by
  constructor <;> simp [Program.start, Handles.start, Monitor.run]

theorem Program.run_sound {ops : List TxnOp} (sound : w.Sound h) (ran : w.run ops = some w') : ∃ h', w'.Sound h' := by
  induction ops generalizing w h with
  | nil =>
    cases ran
    exact ⟨h, sound⟩
  | cons op ops ih =>
    obtain ⟨next, moved, rest⟩ := Option.bind_eq_some_iff.1 ran
    obtain ⟨h', after⟩ := Program.step_sound sound moved
    exact ih after rest

/-- Whatever safe code does with its transactions, and whatever LMDB answers, every
handle is used linearly and outlived by its guard. -/
theorem Program.run_linear (ops : List TxnOp) (w : Program) (ran : Program.start.run ops = some w) :
    HandlesLinear w.log (w.owned.flatMap Owned.handles) := by
  obtain ⟨h, sound⟩ := Program.run_sound Program.start_sound ran
  refine Handles.handlesLinear sound.accepted fun p born => ?_
  constructor
  · intro ended member
    obtain ⟨v, owned, here⟩ := List.mem_flatMap.1 member
    exact ((sound.values v owned).live.1 p here).2 ended
  · intro gone
    by_contra live
    exact gone (sound.live_owned p born live)

theorem Program.run_linear_failed_renew :
    HandlesLinear
      [.guardNew 0, .begin 0 true none, .value (some 0) 0, .begin 1 false none, .guardNew 1, .value (some 1) 1,
        .begin 2 false (some 1), .guardNew 2, .value (some 2) 2, .commit (some 2), .guardDrop 2,
        .reset (some 0), .value (some 0) 0, .renew (some 0) false, .abort (some 0), .guardDrop 0]
      [1] :=
  Program.run_linear [.beginRoTxn true, .beginRwTxn true, .beginNestedTxn 1 true, .commit 1, .reset 0, .renew 0 false]
    ⟨3, 3, [.rw ⟨some 1, 1⟩ []], _⟩ rfl

end Run

end SamLmdb
