import SamLmdb.Env.ResizeFailure

/-!
`EnvironmentBuilder::open_with_permissions`: the handle that `mdb_env_create` has made, and
the `mdb_env_close` that it is due on each way out.
-/

namespace SamLmdb

inductive EnvCall where
  | create
  | setMaxreaders (readers : ℕ)
  | setMaxdbs (dbs : ℕ)
  | setMapsize (size : ℕ)
  | openAt (path : List UInt8) (flags mode : ℕ)
  | close
  deriving DecidableEq, Repr

abbrev EnvCalls (α : Type) := ExceptT Error (StateM (List EnvCall)) α

def envCall (call : EnvCall) : EnvCalls Unit := modify (· ++ [call])

section Macros

variable (rc : EnvCall → ℤ)

def lmdbTry (call : EnvCall) : EnvCalls Unit := do
  envCall call
  if rc call = mdbSuccess then pure () else throw (.fromErrCode (rc call))

/-- `lmdb_try_with_cleanup!`, whose cleanup is always `mdb_env_close`. -/
def lmdbTryWithCleanup (call : EnvCall) : EnvCalls Unit := do
  envCall call
  if rc call = mdbSuccess then pure ()
  else
    envCall .close
    throw (.fromErrCode (rc call))

end Macros

structure EnvironmentBuilder where
  flags : ℕ
  maxReaders : Option ℕ
  maxDbs : Option ℕ
  mapSize : Option ℕ
  resizeCallback : Bool
  resizeSettings : Option DatabaseResizeSettings

structure Environment where
  txCount : ℕ
  txBlockerCount : ℕ
  resizeCallback : Bool
  resizeSettings : Option DatabaseResizeSettings
  dbPath : List UInt8

def cString (path : List UInt8) : Option (List UInt8) := if 0 ∈ path then none else some path

/-- `rc` is what each call returns. -/
def EnvironmentBuilder.openWithPermissions (b : EnvironmentBuilder) (rc : EnvCall → ℤ) (path : List UInt8)
    (mode : ℕ) :
    EnvCalls Environment := do
  lmdbTry rc .create
  if let some maxReaders := b.maxReaders then
    lmdbTryWithCleanup rc (.setMaxreaders maxReaders)
  if let some maxDbs := b.maxDbs then
    lmdbTryWithCleanup rc (.setMaxdbs maxDbs)
  if let some mapSize := b.mapSize then
    lmdbTryWithCleanup rc (.setMapsize mapSize)
  match cString path with
  | none => throw .invalid
  | some path => lmdbTryWithCleanup rc (.openAt path b.flags mode)
  return ⟨0, 0, b.resizeCallback, b.resizeSettings, path⟩

def Environment.drop (_ : Environment) (calls : List EnvCall) : List EnvCall := calls ++ [.close]

/-- The calls that set an option, before the path is looked at. -/
def EnvironmentBuilder.configured (b : EnvironmentBuilder) : List EnvCall :=
  (b.maxReaders.map .setMaxreaders).toList ++ (b.maxDbs.map .setMaxdbs).toList ++ (b.mapSize.map .setMapsize).toList

/-- A handle that was created is owned by the environment that is returned, whose drop
closes it once, or has been closed once. -/
def ClosedOnce (rc : EnvCall → ℤ) : Except Error Environment × List EnvCall → Prop
  | (.ok env, calls) => calls.count .close = 0 ∧ (env.drop calls).count .close = 1
  | (.error _, calls) => rc .create = mdbSuccess → calls.count .close = 1

section Steps

variable {rc : EnvCall → ℤ} {α β : Type} {calls calls' : List EnvCall}

theorem run_bind_ok {m : EnvCalls α} {a : α} (f : α → EnvCalls β) (ran : m.run calls = (.ok a, calls')) :
    (m >>= f).run calls = (f a).run calls' := by
  change ExceptT.bindCont f (m.run calls).1 (m.run calls).2 = _
  rw [ran]
  rfl

theorem run_bind_error {m : EnvCalls α} {e : Error} (f : α → EnvCalls β) (ran : m.run calls = (.error e, calls')) :
    (m >>= f).run calls = (.error e, calls') := by
  change ExceptT.bindCont f (m.run calls).1 (m.run calls).2 = _
  rw [ran]
  rfl

theorem lmdbTryWithCleanup_run (rc : EnvCall → ℤ) (call : EnvCall) (calls : List EnvCall) :
    (lmdbTryWithCleanup rc call).run calls =
      if rc call = mdbSuccess then (.ok (), calls ++ [call])
      else (.error (.fromErrCode (rc call)), calls ++ [call] ++ [.close]) := by
  unfold lmdbTryWithCleanup
  split
  · rfl
  · rfl

/-- Options are set up to the first failure, and that closes the handle. -/
theorem configure_run (rc : EnvCall → ℤ) (options calls : List EnvCall) :
    ((∀ call ∈ options, rc call = mdbSuccess) ∧
      (forM options (lmdbTryWithCleanup rc) : EnvCalls PUnit).run calls = (.ok (), calls ++ options)) ∨
    ((∃ call ∈ options, rc call ≠ mdbSuccess) ∧ ∃ e done, done <+: options ∧
      (forM options (lmdbTryWithCleanup rc) : EnvCalls PUnit).run calls = (.error e, calls ++ done ++ [.close])) := by
  induction options generalizing calls with
  | nil =>
    left
    rw [List.append_nil]
    exact ⟨nofun, rfl⟩
  | cons call options ih =>
    have first := lmdbTryWithCleanup_run rc call calls
    rw [List.forM_cons]
    by_cases success : rc call = mdbSuccess
    · rw [if_pos success] at first
      rw [run_bind_ok _ first]
      rcases ih (calls ++ [call]) with ⟨all, ran⟩ | ⟨⟨other, member, failed⟩, e, done, before, ran⟩
      · left
        exact ⟨List.forall_mem_cons.2 ⟨success, all⟩, by rw [ran, List.append_assoc, List.singleton_append]⟩
      · right
        refine ⟨⟨other, List.mem_cons_of_mem call member, failed⟩, e, call :: done, ?_, ?_⟩
        · exact List.cons_prefix_cons.2 ⟨rfl, before⟩
        · rw [ran, List.append_assoc calls, List.singleton_append]
    · right
      rw [if_neg success] at first
      rw [run_bind_error _ first]
      exact ⟨⟨call, List.mem_cons_self, success⟩, _, [call],
        List.cons_prefix_cons.2 ⟨rfl, List.nil_prefix⟩, rfl⟩

end Steps

theorem openWithPermissions_eq (b : EnvironmentBuilder) (rc : EnvCall → ℤ) (path : List UInt8) (mode : ℕ) :
    b.openWithPermissions rc path mode = do
      lmdbTry rc .create
      forM b.configured (lmdbTryWithCleanup rc)
      match cString path with
      | none => throw .invalid
      | some path => lmdbTryWithCleanup rc (.openAt path b.flags mode)
      return ⟨0, 0, b.resizeCallback, b.resizeSettings, path⟩ := by
  unfold EnvironmentBuilder.openWithPermissions EnvironmentBuilder.configured
  cases b.maxReaders <;> cases b.maxDbs <;> cases b.mapSize <;> simp

theorem EnvironmentBuilder.close_not_configured (b : EnvironmentBuilder) : EnvCall.close ∉ b.configured := by
  simp [EnvironmentBuilder.configured]

/-- What is left to do once the options are set, with the handle open. -/
theorem openPath_closedOnce {rc : EnvCall → ℤ} {calls : List EnvCall} (env : Environment) (path : List UInt8)
    (flags mode : ℕ) (created : rc .create = mdbSuccess) (unclosed : calls.count .close = 0) :
    ClosedOnce rc ((do
      match cString path with
      | none => throw .invalid
      | some path => lmdbTryWithCleanup rc (.openAt path flags mode)
      return env : EnvCalls Environment).run calls) ↔ 0 ∉ path := by
  by_cases nul : 0 ∈ path
  · have refused : cString path = none := if_pos nul
    simp only [refused]
    change (rc .create = mdbSuccess → calls.count .close = 1) ↔ _
    rw [unclosed]
    exact ⟨fun closed => absurd (closed created) (by decide), fun absent => absurd nul absent⟩
  · have accepted : cString path = some path := if_neg nul
    simp only [accepted]
    refine iff_of_true ?_ nul
    have ran := lmdbTryWithCleanup_run rc (.openAt path flags mode) calls
    by_cases success : rc (.openAt path flags mode) = mdbSuccess
    · rw [if_pos success] at ran
      rw [run_bind_ok _ ran]
      change (calls ++ [_]).count EnvCall.close = 0 ∧ (calls ++ [_] ++ [EnvCall.close]).count EnvCall.close = 1
      simp [List.count_append, unclosed]
    · rw [if_neg success] at ran
      rw [run_bind_error _ ran]
      intro _
      simp [List.count_append, unclosed]

/-- No handle is lost or closed twice just if a path with a NUL byte is met by an earlier failure. -/
theorem closedOnce_iff (b : EnvironmentBuilder) (rc : EnvCall → ℤ) (path : List UInt8) (mode : ℕ) :
    ClosedOnce rc ((b.openWithPermissions rc path mode).run []) ↔
      (0 ∈ path → rc .create = mdbSuccess → ∃ call ∈ b.configured, rc call ≠ mdbSuccess) := by
  rw [openWithPermissions_eq]
  by_cases created : rc .create = mdbSuccess
  · have first : (lmdbTry rc .create).run [] = (.ok (), [.create]) := by
      rw [lmdbTry, if_pos created]
      rfl
    have others := b.close_not_configured
    rw [run_bind_ok _ first]
    rcases configure_run rc b.configured [.create] with ⟨all, ran⟩ | ⟨failed, e, done, before, ran⟩
    · have unclosed : ([EnvCall.create] ++ b.configured).count .close = 0 := by
        rw [List.count_append, List.count_eq_zero.2 others]
        rfl
      rw [run_bind_ok _ ran, openPath_closedOnce _ path _ mode created unclosed]
      constructor
      · intro absent nul
        exact absurd nul absent
      · intro earlier nul
        obtain ⟨call, member, failed⟩ := earlier nul created
        exact failed (all call member)
    · rw [run_bind_error _ ran]
      refine iff_of_true (fun _ => ?_) (fun _ _ => failed)
      have unclosed : done.count .close = 0 := List.count_eq_zero.2 fun member => others (before.subset member)
      simp [List.count_append, unclosed]
  · have first : (lmdbTry rc .create).run [] = (.error (.fromErrCode (rc .create)), [.create]) := by
      rw [lmdbTry, if_neg created]
      rfl
    rw [run_bind_error _ first]
    exact iff_of_true (fun success => absurd success created) (fun _ success => absurd success created)

/-- The path `a` and a NUL byte. -/
theorem nul_path_leaks :
    ¬ClosedOnce (fun _ => mdbSuccess) ((EnvironmentBuilder.openWithPermissions ⟨0, none, none, none, false, none⟩
      (fun _ => mdbSuccess) [97, 0] 420).run []) := by
  intro closed
  exact absurd (closed rfl) (by decide)

end SamLmdb
