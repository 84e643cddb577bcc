import SamLmdb.Lib.Interleaving
import SamLmdb.Env.Thread

/-!
`open_db` and `create_db` of src/environment.rs, `Database::new` of src/database.rs:
what every thread has on its stack from `dbi_open_mutex.lock()` to the end of the
scope. Beginning a transaction may wait, fail or panic at any time, and a resize
callback under `create_db` may itself open databases.
-/

namespace SamLmdb

open Interleaving

/-- A local variable that has something to drop. -/
inductive DbiLocal where
  /-- the result of `lock()`: both cases carry the guard, and neither is looked at -/
  | mutex (poisoned : Bool)
  /-- the transaction, and whether `mdb_dbi_open` has been called in it -/
  | txn (entered : Bool)
  deriving DecidableEq, Repr

inductive DbiPoint where
  | lock
  | begin
  | cName
  | dbiOpen
  | inDbiOpen
  | commit
  | dropMutex
  /-- the scope is left early, by `?` or by a panic, or at its end -/
  | leave (panicking : Bool)
  deriving DecidableEq, Repr

/-- One call in progress; the newest local comes first. -/
structure DbiFrame where
  f : DbiCall
  point : DbiPoint
  locals : List DbiLocal
  deriving DecidableEq, Repr

abbrev DbiThread := List DbiFrame

structure DbiMutex where
  held : Bool
  poisoned : Bool
  deriving DecidableEq, Repr

inductive DbiAction where
  | call (f : DbiCall)
  | lock
  | begin (success : Bool)
  | cName (success : Bool)
  | callDbiOpen
  | dbiOpen (success : Bool)
  | commit (success : Bool)
  | drop
  | panic
  | exit
  deriving DecidableEq, Repr

def DbiLocal.drop (panicking : Bool) (s : DbiMutex) : DbiLocal → Option DbiMutex
  | .txn _ => some s
  | .mutex _ => if s.held then some ⟨false, panicking || s.poisoned⟩ else none

namespace DbiFrame

def start (f : DbiCall) : DbiFrame := ⟨f, .lock, []⟩

def goto (frame : DbiFrame) (point : DbiPoint) : DbiFrame := { frame with point }

def question (frame : DbiFrame) (success : Bool) (point : DbiPoint) : DbiFrame :=
  frame.goto (if success then point else .leave false)

def push (frame : DbiFrame) (x : DbiLocal) : DbiFrame := { frame with locals := x :: frame.locals }

def pop (frame : DbiFrame) : DbiFrame := { frame with locals := frame.locals.tail }

/-- Locals drop in the reverse order of their declaration. -/
def dropNewest (frame : DbiFrame) (panicking : Bool) (s : DbiMutex)
    (point : DbiPoint) : Option (DbiMutex × DbiFrame) :=
  match frame.locals with
  | [] => none
  | x :: _ => (x.drop panicking s).map fun s => (s, frame.pop.goto point)

/-- The running call; `none` where it has to wait or the action is not its next one. -/
def step (frame : DbiFrame) (s : DbiMutex) (a : DbiAction) : Option (DbiMutex × DbiFrame) :=
  match frame.point, a with
  | .lock, .lock =>
    if s.held then none else some ({ s with held := true }, (frame.push (.mutex s.poisoned)).goto .begin)
  | .begin, .begin success =>
    some (s, if success then (frame.push (.txn false)).goto .cName else frame.goto (.leave false))
  | .cName, .cName success => some (s, frame.question success .dbiOpen)
  | .dbiOpen, .callDbiOpen => some (s, (frame.pop.push (.txn true)).goto .inDbiOpen)
  | .inDbiOpen, .dbiOpen success => some (s, frame.question success .commit)
  -- `commit` takes the transaction by value, so it is gone also on an error
  | .commit, .commit success => some (s, frame.pop.question success .dropMutex)
  | .dropMutex, .drop => frame.dropNewest false s (.leave false)
  | .leave panicking, .drop => frame.dropNewest panicking s (.leave panicking)
  | .leave _, .panic => none
  | _, .panic => some (s, frame.goto (.leave true))
  | _, _ => none

end DbiFrame

/-- A thread outside any call may call; so may the resize callback that the begin of
a write transaction runs. -/
def DbiThread.step (s : DbiMutex) (t : DbiThread) (a : DbiAction) : Option (DbiMutex × DbiThread) :=
  match t, a with
  | [], .call f => some (s, [.start f])
  | ⟨.createDb, .begin, locals⟩ :: callers, .call f =>
    some (s, .start f :: ⟨.createDb, .begin, locals⟩ :: callers)
  | ⟨_, .leave _, []⟩ :: callers, .exit => some (s, callers)
  | frame :: callers, a => (frame.step s a).map fun (s, frame) => (s, frame :: callers)
  | _, _ => none

def dbiSteps : LocalStep DbiMutex DbiThread DbiAction := ofFun DbiThread.step

def DbiLocal.holdsMutex : DbiLocal → Bool
  | .mutex _ => true
  | .txn _ => false

/-- A transaction between its `mdb_dbi_open` call and its commit or abort. -/
def DbiLocal.opening : DbiLocal → Bool
  | .mutex _ => false
  | .txn entered => entered

def DbiThread.count (kind : DbiLocal → Bool) (t : DbiThread) : ℕ :=
    (t.map fun frame => frame.locals.countP kind).sum

structure DbiIdle (c : Config ι DbiMutex DbiThread) : Prop where
  free : c.shared.held = false
  idle : ∀ i, c.threads i = []

/-- What a call has on its stack at each point. -/
inductive DbiFrame.Ok : DbiFrame → Prop
  | lock (f) : Ok ⟨f, .lock, []⟩
  | begin (f p) : Ok ⟨f, .begin, [.mutex p]⟩
  | cName (f p) : Ok ⟨f, .cName, [.txn false, .mutex p]⟩
  | dbiOpen (f p) : Ok ⟨f, .dbiOpen, [.txn false, .mutex p]⟩
  | inDbiOpen (f p) : Ok ⟨f, .inDbiOpen, [.txn true, .mutex p]⟩
  | commit (f p) : Ok ⟨f, .commit, [.txn true, .mutex p]⟩
  | dropMutex (f p) : Ok ⟨f, .dropMutex, [.mutex p]⟩
  | leaveTxn (f panicking entered p) : Ok ⟨f, .leave panicking, [.txn entered, .mutex p]⟩
  | leaveMutex (f panicking p) : Ok ⟨f, .leave panicking, [.mutex p]⟩
  | leave (f panicking) : Ok ⟨f, .leave panicking, []⟩

section Frames

variable {frame frame' : DbiFrame} {s s' : DbiMutex} {t t' : DbiThread} {a : DbiAction}

/-- The mutex guard is declared first, so the transaction never outlives it. -/
theorem DbiFrame.Ok.opening_le (ok : frame.Ok) :
    frame.locals.countP DbiLocal.opening ≤ frame.locals.countP DbiLocal.holdsMutex := by
  cases ok with
  | leaveTxn f panicking entered p => cases entered <;> simp [List.countP_cons, DbiLocal.opening, DbiLocal.holdsMutex]
  | _ => simp [List.countP_cons, DbiLocal.opening, DbiLocal.holdsMutex]

theorem DbiFrame.dropNewest_eq {panicking : Bool} {point : DbiPoint}
    (dropped : frame.dropNewest panicking s point = some (s', frame')) :
    ∃ x rest, frame.locals = x :: rest ∧ x.drop panicking s = some s' ∧ frame' = ⟨frame.f, point, rest⟩ := by
  unfold dropNewest at dropped
  split at dropped
  · cases dropped
  · rename_i x rest newest
    obtain ⟨after, released, same⟩ := Option.map_eq_some_iff.1 dropped
    cases same
    exact ⟨x, rest, newest, released, by simp [pop, goto, newest]⟩

theorem DbiFrame.step_ok (ok : frame.Ok) (moved : frame.step s a = some (s', frame')) : frame'.Ok := by
  cases ok with
  | lock f =>
    cases a with
    | lock =>
      simp only [step] at moved
      split at moved <;> cases moved
      exact .begin _ _
    | panic =>
      cases moved
      exact .leave _ _
    | _ => cases moved
  | begin f p =>
    cases a with
    | begin success =>
      cases success <;> cases moved
      · exact .leaveMutex _ _ _
      · exact .cName _ _
    | panic =>
      cases moved
      exact .leaveMutex _ _ _
    | _ => cases moved
  | cName f p =>
    cases a with
    | cName success =>
      cases success <;> cases moved
      · exact .leaveTxn _ _ _ _
      · exact .dbiOpen _ _
    | panic =>
      cases moved
      exact .leaveTxn _ _ _ _
    | _ => cases moved
  | dbiOpen f p =>
    cases a with
    | callDbiOpen =>
      cases moved
      exact .inDbiOpen _ _
    | panic =>
      cases moved
      exact .leaveTxn _ _ _ _
    | _ => cases moved
  | inDbiOpen f p =>
    cases a with
    | dbiOpen success =>
      cases success <;> cases moved
      · exact .leaveTxn _ _ _ _
      · exact .commit _ _
    | panic =>
      cases moved
      exact .leaveTxn _ _ _ _
    | _ => cases moved
  | commit f p =>
    cases a with
    | commit success =>
      cases success <;> cases moved
      · exact .leaveMutex _ _ _
      · exact .dropMutex _ _
    | panic =>
      cases moved
      exact .leaveTxn _ _ _ _
    | _ => cases moved
  | dropMutex f p =>
    cases a with
    | drop =>
      obtain ⟨x, rest, newest, _, rfl⟩ :=
        dropNewest_eq (show dropNewest ⟨f, .dropMutex, [.mutex p]⟩ _ _ _ = _ from moved)
      cases newest
      exact .leave _ _
    | panic =>
      cases moved
      exact .leaveMutex _ _ _
    | _ => cases moved
  | leaveTxn f panicking entered p =>
    cases a with
    | drop =>
      cases moved
      exact .leaveMutex _ _ _
    | _ => cases moved
  | leaveMutex f panicking p =>
    cases a with
    | drop =>
      obtain ⟨x, rest, newest, _, rfl⟩ :=
        dropNewest_eq (show dropNewest ⟨f, .leave panicking, [.mutex p]⟩ _ _ _ = _ from moved)
      cases newest
      exact .leave _ _
    | _ => cases moved
  | leave f panicking => cases a <;> cases moved

theorem DbiFrame.dropNewest_books {panicking : Bool} {point : DbiPoint}
    (dropped : frame.dropNewest panicking s point = some (s', frame')) :
    s'.held.toNat + frame.locals.countP DbiLocal.holdsMutex =
      s.held.toNat + frame'.locals.countP DbiLocal.holdsMutex := by
  obtain ⟨x, rest, newest, released, rfl⟩ := dropNewest_eq dropped
  rw [newest]
  cases x with
  | txn entered =>
    cases released
    rfl
  | mutex poisoned =>
    simp only [DbiLocal.drop] at released
    split at released <;> cases released
    rename_i held
    simp [List.countP_cons, held, DbiLocal.holdsMutex, Nat.add_comm]

theorem DbiFrame.step_books (ok : frame.Ok) (moved : frame.step s a = some (s', frame')) :
    s'.held.toNat + frame.locals.countP DbiLocal.holdsMutex =
      s.held.toNat + frame'.locals.countP DbiLocal.holdsMutex := by
  unfold step at moved
  split at moved
  · split at moved <;> cases moved
    rename_i free
    simp [goto, push, List.countP_cons, DbiLocal.holdsMutex, free, Nat.add_comm]
  · rename_i success here
    cases moved
    cases success <;> rfl
  · cases moved
    rfl
  · rename_i here
    cases moved
    cases ok <;> cases here
    rfl
  · cases moved
    rfl
  · rename_i here
    cases moved
    cases ok <;> cases here
    rfl
  · exact dropNewest_books moved
  · exact dropNewest_books moved
  · cases moved
  · cases moved
    rfl
  · cases moved

theorem DbiThread.step_cases (moved : t.step s a = some (s', t')) :
    (∃ f, s' = s ∧ t' = .start f :: t) ∨
    (∃ f panicking, s' = s ∧ t = ⟨f, .leave panicking, []⟩ :: t') ∨
      ∃ frame frame' callers, t = frame :: callers ∧ t' = frame' :: callers ∧
        frame.step s a = some (s', frame') := by
  unfold DbiThread.step at moved
  split at moved
  · rename_i f
    cases moved
    exact .inl ⟨f, rfl, rfl⟩
  · rename_i f
    cases moved
    exact .inl ⟨f, rfl, rfl⟩
  · rename_i f panicking callers
    cases moved
    exact .inr (.inl ⟨f, panicking, rfl, rfl⟩)
  · rename_i frame callers _ _
    obtain ⟨⟨after, frame'⟩, stepped, same⟩ := Option.map_eq_some_iff.1 moved
    cases same
    exact .inr (.inr ⟨frame, frame', callers, rfl, rfl, stepped⟩)
  · cases moved

theorem DbiThread.step_ok (ok : ∀ frame ∈ t, frame.Ok)
    (moved : t.step s a = some (s', t')) : ∀ frame ∈ t', frame.Ok := by
  rcases step_cases moved with ⟨f, _, rfl⟩ | ⟨f, panicking, _, rfl⟩ |
    ⟨frame, frame', callers, rfl, rfl, stepped⟩
  · exact List.forall_mem_cons.2 ⟨.lock _, ok⟩
  · exact (List.forall_mem_cons.1 ok).2
  · obtain ⟨here, below⟩ := List.forall_mem_cons.1 ok
    exact List.forall_mem_cons.2 ⟨DbiFrame.step_ok here stepped, below⟩

theorem DbiThread.step_books (ok : ∀ frame ∈ t, frame.Ok) (moved : t.step s a = some (s', t')) :
    s'.held.toNat + t.count DbiLocal.holdsMutex = s.held.toNat + t'.count DbiLocal.holdsMutex := by
  rcases step_cases moved with ⟨f, rfl, rfl⟩ | ⟨f, panicking, rfl, rfl⟩ |
    ⟨frame, frame', callers, rfl, rfl, stepped⟩
  · simp [count, DbiFrame.start]
  · simp [count]
  · have books := DbiFrame.step_books (ok frame (by simp)) stepped
    simp only [count, List.map_cons, List.sum_cons]
    omega

theorem DbiThread.opening_le (ok : ∀ frame ∈ t, frame.Ok) :
    t.count DbiLocal.opening ≤ t.count DbiLocal.holdsMutex := by
  induction t with
  | nil => exact Nat.le_refl _
  | cons frame callers ih =>
    obtain ⟨here, below⟩ := List.forall_mem_cons.1 ok
    exact Nat.add_le_add here.opening_le (ih below)

end Frames

section Runs

variable {P : Guard ι DbiMutex DbiThread DbiAction} {c d : Config ι DbiMutex DbiThread}

theorem dbi_ok (run : Run dbiSteps P c d) (idle : DbiIdle c) (i : ι) : ∀ frame ∈ d.threads i, frame.Ok := by
  refine run.forall_threads (I := fun _ t => ∀ frame ∈ t, frame.Ok) ?_ ?_ ?_ i
  · intro i frame member
    rw [idle.idle i] at member
    cases member
  · intro c i a s t _ ok moved
    exact DbiThread.step_ok ok moved
  · intro s t a s' t' u _ ok
    exact ok

/-- The mutex is held exactly when some call in progress carries its guard. -/
theorem dbi_ledger [Fintype ι] [DecidableEq ι] (run : Run dbiSteps P c d) (idle : DbiIdle c) :
    d.shared.held.toNat = total (DbiThread.count DbiLocal.holdsMutex) d := by
  have joint : (∀ i, ∀ frame ∈ d.threads i, frame.Ok) ∧
      d.shared.held.toNat = total (DbiThread.count DbiLocal.holdsMutex) d := by
    refine run.invariant (I := fun c => (∀ i, ∀ frame ∈ c.threads i, frame.Ok) ∧
      c.shared.held.toNat = total (DbiThread.count DbiLocal.holdsMutex) c) ⟨?_, ?_⟩ ?_
    · exact fun i => dbi_ok (P := P) (.refl c) idle i
    · have nothing : total (DbiThread.count DbiLocal.holdsMutex) c = 0 := by
        refine total_eq_zero.2 fun i => ?_
        rw [idle.idle i]
        rfl
      rw [nothing, idle.free]
      rfl
    · rintro c d i a _ ⟨ok, before⟩ step
      refine ⟨fun j => ?_, ?_⟩
      · by_cases same : j = i
        · subst same
          exact DbiThread.step_ok (ok j) step.moves
        · rw [step.others j same]
          exact ok j
      · have books := DbiThread.step_books (ok i) step.moves
        have moved := step.total (DbiThread.count DbiLocal.holdsMutex)
        omega
  exact joint.2

/-- However the calls interleave and fail, and also after a panic has poisoned the
mutex, at most one transaction is between its `mdb_dbi_open` call and its end. -/
theorem dbi_open_serialized [Fintype ι] [DecidableEq ι] (run : Run dbiSteps P c d) (idle : DbiIdle c) :
    total (DbiThread.count DbiLocal.opening) d ≤ 1 := by
  calc total (DbiThread.count DbiLocal.opening) d
      ≤ total (DbiThread.count DbiLocal.holdsMutex) d :=
        Finset.sum_le_sum fun i _ => DbiThread.opening_le (dbi_ok run idle i)
    _ = d.shared.held.toNat := (dbi_ledger run idle).symm
    _ ≤ 1 := Bool.toNat_le _

end Runs

/-- A thread panics inside `create_db`, under the mutex; the next one opens a database. -/
def panicThenOpen : List (Fin 2 × DbiAction) :=
  [(0, .call .createDb), (1, .call .openDb), (0, .lock), (0, .panic), (0, .drop), (1, .lock), (0, .exit),
    (0, .call .createDb), (1, .begin true), (1, .cName true), (1, .callDbiOpen)]

theorem dbi_open_serialized_panic :
    ∃ d : Config (Fin 2) DbiMutex DbiThread, d.shared = ⟨true, true⟩ ∧
      d.threads 1 = [⟨.openDb, .inDbiOpen, [.txn true, .mutex true]⟩] ∧
      total (DbiThread.count DbiLocal.opening) d ≤ 1 := by
  have executed :
      (exec DbiThread.step (fun _ _ _ => True) panicThenOpen ⟨⟨false, false⟩, fun _ => []⟩).isSome := by decide
  obtain ⟨d, ran⟩ := Option.isSome_iff_exists.1 executed
  refine ⟨d, ?_, ?_, dbi_open_serialized (exec_run ran) ⟨rfl, fun _ => rfl⟩⟩
  · cases ran
    rfl
  · cases ran
    rfl

end SamLmdb
