import SamLmdb.Env.Map

/-!
`set_map_size` and `do_resize` of src/environment.rs called on an open
environment that no transaction uses, and what a call that returns an error
leaves behind. A panic is `none`. The resize callback runs only after success and
is modelled with the threads.
-/

namespace SamLmdb

/-- What the operating system answers during one resize: the map, and the free
space of the file system, or the error code of that query where there is one. -/
structure OsResize where
  map : OsMap
  freeSpace : Except (Option ℤ) ℕ

def setMapSizeLocked (os : OsMap) (env : MdbEnv) (size : ℕ) : Except Error Unit × MdbEnv :=
  (lmdbResult (mdbEnvSetMapsize os false env size).1, (mdbEnvSetMapsize os false env size).2)

def checkFreeSpace (freeSpace : Except (Option ℤ) ℕ) (finalIncrease : ℕ) : Except Error Unit :=
  match freeSpace with
  | .error rawOsError => .error (.other (rawOsError.getD eio))
  | .ok free => if free ≤ finalIncrease then .error (.other enospc) else .ok ()

def doResizeLocked (settings : DatabaseResizeSettings) (os : OsResize) (env : MdbEnv) (increaseSize : Option ℕ) :
    Option (Except Error ℕ × MdbEnv) := do
  let size ← newMapSize settings env.info increaseSize
  match checkFreeSpace os.freeSpace (size - env.meMapsize) with
  | .error e => some (.error e, env)
  | .ok () =>
    let (result, env) := setMapSizeLocked os.map env size
    some (result.map fun _ => size, env)

inductive ResizeCall where
  | setMapSize (size : ℕ)
  | doResize (increaseSize : Option ℕ)

inductive SafeCall where
  | stat
  | info
  | sync (force : Bool)
  | beginRoTxn
  | beginRwTxn (headroom : Option ℕ)
  | setMapSize (size : ℕ)
  | doResize (increaseSize : Option ℕ)

/-- What a call dereferences first. `mdb_env_set_mapsize` skips the meta pages
when there is no map; every other call goes to them at once. -/
def SafeCall.ReadsMapped (env : MdbEnv) : SafeCall → Prop
  | .setMapSize _ => env.meMap = none ∨ env.MetasReadable
  | _ => env.MetasReadable

def ResizeCall.run (settings : DatabaseResizeSettings) (os : OsResize) (env : MdbEnv) :
    ResizeCall → Option (Except Error Unit × MdbEnv)
  | .setMapSize size => some (setMapSizeLocked os.map env size)
  | .doResize increaseSize =>
    (doResizeLocked settings os env increaseSize).map fun r => (r.1.map fun _ => (), r.2)

def ResizeCall.asks (settings : DatabaseResizeSettings) (os : OsResize) (env : MdbEnv) : ResizeCall → Option ℕ
  | .setMapSize size => some size
  | .doResize increaseSize => do
    let size ← newMapSize settings env.info increaseSize
    match checkFreeSpace os.freeSpace (size - env.meMapsize) with
    | .error _ => none
    | .ok () => some size

/-- The operating system fails the remap: it refuses to extend the file, refuses the
map, or places a map with a demanded address elsewhere, where `mdb_env_map` leaves the meta
pointers behind. -/
def OsMap.Fails (os : OsMap) (env : MdbEnv) : Prop :=
  (os.truncation env).isSome ∨
    match os.mmap with
    | .error _ => True
    | .ok p => env.fixedmap ∧ env.meMap ≠ some p

/-- The call reports an error only with the environment still on a valid map, so
that no later call leaves mapped memory. -/
def ResizeCall.ErrKeepsMap (settings : DatabaseResizeSettings) (os : OsResize) (env : MdbEnv) (call : ResizeCall) :
    Prop :=
  ∀ e env', call.run settings os env = some (.error e, env') →
    env'.Backed ∧ ∀ later : SafeCall, later.ReadsMapped env'

theorem MdbEnv.Backed.readsMapped {env : MdbEnv} (backed : env.Backed) (later : SafeCall) :
    later.ReadsMapped env := by
  cases later with
  | setMapSize => exact .inr backed.metasReadable
  | _ => exact backed.metasReadable

/-- `me_map` and the meta pointers are on one live mapping exactly when the
operating system did not fail the remap. -/
theorem mdbEnvSetMapsize_backed {os : OsMap} {env : MdbEnv} (size : ℕ) (opened : env.Opened) :
    (mdbEnvSetMapsize os false env size).2.Backed ↔ ¬os.Fails env := by
  obtain ⟨headerFits, twoMetas, _, m, _, present, placed, _⟩ := opened
  have used := le_roundUpToUsed env size
  have two : env.mePsize * 2 ≤ env.mePsize * (env.mmLastPg + 1) := Nat.mul_le_mul_left _ (by omega)
  rcases mdbEnvSetMapsize_cases os size present with ⟨refused, _, noMap⟩ | ⟨p, answer, untruncated, rest⟩
  · have fails : os.Fails env := by
      rcases refused with truncated | unanswered
      · exact .inl truncated
      · right
        cases answer : os.mmap <;> simp_all [Except.toOption]
    simp [MdbEnv.Backed, noMap, fails]
  · rcases rest with ⟨fixed, moved, result⟩ | ⟨sameAddr, result⟩
    · -- the pointers stay where the old map was
      have elsewhere : metadata m.addr ≠ metadata p := by
        simp only [metadata, pagehdrsz]
        omega
      have moved' : m.addr ≠ p := Ne.symm moved
      simp [result, MdbEnv.Backed, OsMap.Fails, answer, untruncated, present, placed, elsewhere, moved', fixed,
        unmapped]
    · have fine : ¬os.Fails env := by
        simp only [OsMap.Fails, untruncated, answer, present]
        rintro (truncated | ⟨fixed, moved⟩)
        · simp at truncated
        · exact moved (by rw [sameAddr fixed])
      refine ⟨fun _ => fine, fun _ => ⟨⟨p, roundUpToUsed env size⟩, ?_⟩⟩
      simp only [result, setSize, unmapped, metadata, pagehdrsz, Mapping.Contains, Option.mem_def, true_and] at *
      omega

theorem mdbEnvSetMapsize_reports {os : OsMap} {env : MdbEnv} {size : ℕ} (opened : env.Opened)
    (lost : ¬(mdbEnvSetMapsize os false env size).2.Backed) :
    (mdbEnvSetMapsize os false env size).1 ≠ mdbSuccess := by
  obtain ⟨m, _, present, _⟩ := opened.backed
  rcases mdbEnvSetMapsize_cases os size present with ⟨_, rc, _⟩ | ⟨p, answer, untruncated, rest⟩
  · exact rc
  · rcases rest with ⟨_, _, result⟩ | ⟨sameAddr, result⟩
    · simp [result]
    · refine absurd ((mdbEnvSetMapsize_backed size opened).2 ?_) lost
      simp only [OsMap.Fails, untruncated, answer, present]
      rintro (truncated | ⟨fixed, moved⟩)
      · simp at truncated
      · exact moved (by rw [sameAddr fixed])

theorem mdbEnvSetMapsize_opened {os : OsMap} {env : MdbEnv} {size : ℕ} (opened : env.Opened)
    (success : (mdbEnvSetMapsize os false env size).1 = mdbSuccess) :
    (mdbEnvSetMapsize os false env size).2.Opened := by
  have backed : (mdbEnvSetMapsize os false env size).2.Backed := by
    by_contra lost
    exact mdbEnvSetMapsize_reports opened lost success
  obtain ⟨m, _, present, _⟩ := opened.backed
  rcases mdbEnvSetMapsize_cases os size present with ⟨_, rc, _⟩ | ⟨p, _, _, rest⟩
  · exact absurd success rc
  · rcases rest with ⟨_, _, result⟩ | ⟨_, result⟩
    · simp [result] at success
    · rw [result] at backed ⊢
      exact ⟨opened.header_fits, opened.two_metas, le_roundUpToUsed env size, backed⟩

theorem ResizeCall.run_unasked {settings : DatabaseResizeSettings} {os : OsResize} {env env' : MdbEnv}
    {call : ResizeCall} {r : Except Error Unit} (unasked : call.asks settings os env = none)
    (ran : call.run settings os env = some (r, env')) : env' = env := by
  cases call with
  | setMapSize size => simp [ResizeCall.asks] at unasked
  | doResize increaseSize =>
    simp only [ResizeCall.asks, ResizeCall.run, doResizeLocked] at unasked ran
    rcases sized : newMapSize settings env.info increaseSize with _ | size
    · simp [sized] at ran
    · rcases checked : checkFreeSpace os.freeSpace (size - env.meMapsize) with e | _
      · simp only [sized, checked, Option.bind_eq_bind, Option.bind_some, Option.map_some, Option.some.injEq,
          Prod.mk.injEq] at ran
        exact ran.2.symm
      · simp [sized, checked] at unasked

theorem ResizeCall.run_asked {settings : DatabaseResizeSettings} {os : OsResize} {env : MdbEnv}
    {call : ResizeCall} {size : ℕ} (asked : call.asks settings os env = some size) :
    call.run settings os env = some (setMapSizeLocked os.map env size) := by
  cases call with
  | setMapSize given =>
    simp only [ResizeCall.asks, Option.some.injEq] at asked
    rw [asked, ResizeCall.run]
  | doResize increaseSize =>
    simp only [ResizeCall.asks, ResizeCall.run, doResizeLocked] at asked ⊢
    rcases sized : newMapSize settings env.info increaseSize with _ | new
    · simp [sized] at asked
    · rcases checked : checkFreeSpace os.freeSpace (new - env.meMapsize) with e | _
      · simp [sized, checked] at asked
      · simp only [sized, checked, Option.bind_eq_bind, Option.bind_some, Option.some.injEq] at asked
        subst asked
        rcases returned : setMapSizeLocked os.map env new with ⟨result, left⟩
        cases result <;> simp [checked, returned, Except.map]

def outOfMemory : OsResize where
  map := { ftruncate := none, mmap := .error ⟨enomem, by decide⟩ }
  freeSpace := .ok (2 ^ 40)

end SamLmdb
