import Mathlib.Data.List.Basic

/-!
# Traces accepted by a monitor

A monitor reads a trace event by event and gives up at the first event that is not
allowed. The rules below read facts about whole traces off facts about one step:
what precedes and follows an event, what a closed state rules out from then on, and
how often an event occurs.
-/

namespace Monitor

variable {μ ε : Type*} {step : μ → ε → Option μ} {m m' : μ} {trace front back : List ε} {e : ε}

def run (step : μ → ε → Option μ) : μ → List ε → Option μ
  | m, [] => some m
  | m, e :: trace => (step m e).bind fun m => run step m trace

theorem run_append : run step m (front ++ back) = (run step m front).bind fun m => run step m back := by
  induction front generalizing m with
  | nil => rfl
  | cons e front ih =>
    simp only [List.cons_append, run, Option.bind_assoc]
    congr 1
    funext m
    exact ih

/-- The state in which an event of an accepted trace is read. -/
theorem run_split (accepted : run step m (front ++ e :: back) = some m') :
    ∃ before after, run step m front = some before ∧ step before e = some after ∧
      run step after back = some m' := by
  rw [run_append] at accepted
  obtain ⟨before, first, rest⟩ := Option.bind_eq_some_iff.1 accepted
  obtain ⟨after, moved, last⟩ := Option.bind_eq_some_iff.1 rest
  exact ⟨before, after, first, moved, last⟩

theorem run_invariant {I : μ → Prop} (accepted : run step m trace = some m') (base : I m)
    (keeps : ∀ {m e m'}, I m → step m e = some m' → I m') : I m' := by
  induction trace generalizing m with
  | nil =>
    cases accepted
    exact base
  | cons e trace ih =>
    obtain ⟨next, moved, rest⟩ := Option.bind_eq_some_iff.1 accepted
    exact ih rest (keeps base moved)

/-- A state that stays closed and refuses a kind of event never sees one again. -/
theorem run_forbids (closed : μ → Prop) (kind : ε → Prop) (accepted : run step m trace = some m')
    (base : closed m) (keeps : ∀ {m e m'}, closed m → step m e = some m' → closed m')
    (refuses : ∀ {m e}, closed m → kind e → step m e = none) : ∀ e ∈ trace, ¬kind e := by
  induction trace generalizing m with
  | nil =>
    intro e member
    cases member
  | cons head trace ih =>
    obtain ⟨next, moved, rest⟩ := Option.bind_eq_some_iff.1 accepted
    intro e member
    rcases List.mem_cons.1 member with rfl | member
    · intro bad
      rw [refuses base bad] at moved
      cases moved
    · exact ih rest (keeps base moved) e member

/-- A reading that goes up by one at each event of a kind counts these events. -/
theorem run_count (read : μ → ℕ) {kind : ε → Bool} (accepted : run step m trace = some m')
    (books : ∀ {m e m'}, step m e = some m' → read m' = read m + if kind e then 1 else 0) :
    read m' = read m + trace.countP kind := by
  induction trace generalizing m with
  | nil =>
    cases accepted
    rfl
  | cons e trace ih =>
    obtain ⟨next, moved, rest⟩ := Option.bind_eq_some_iff.1 accepted
    rw [ih rest, books moved, List.countP_cons, Nat.add_assoc, Nat.add_comm (trace.countP kind)]

end Monitor
