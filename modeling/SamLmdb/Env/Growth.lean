import Mathlib.Order.Monotone.Basic
import SamLmdb.Env.ResizeLoop
import SamLmdb.Env.Thread

/-!
The size that a resize asks for and the size that it gets. `mdb_env_set_mapsize` raises a
size below the used pages to them, and another process may have added pages that are not
in this process's map.
-/

namespace SamLmdb

section Asked

variable {s : DatabaseResizeSettings} {info : MapInfo}

/-- `do_resize_locked` has a new size where no number on the way to it is too large. -/
theorem newMapSize_iff (validated : s.Validate) (paged : 1 ≤ info.pageSize) (increaseSize : Option ℕ) (size : ℕ) :
    newMapSize s info increaseSize = some size ↔ ∃ increase,
      givenOrRatio s info.mapSize increaseSize = some increase ∧
      info.pageSize * info.lastPgno < usizeBound ∧ size = roundUp (info.mapSize + s.step increase) info.pageSize ∧
      size < usizeBound := by
  constructor
  · intro settled
    obtain ⟨increase, given, rfl⟩ := newMapSize_eq validated settled
    refine ⟨increase, given, ?_, rfl, ?_⟩
    · by_contra large
      simp [newMapSize, MapInfo.occupiedSize, checkedMul, large] at settled
    · simp only [newMapSize, given, Option.bind_eq_bind, Option.bind_some, Option.bind_eq_some_iff] at settled
      obtain ⟨_, _, sum, sumEq, rounded, roundedEq, _⟩ := settled
      have sum_eq : sum = info.mapSize + s.step increase := checkedAdd_eq sumEq
      have below := checkedAdd_lt sumEq
      rw [← sum_eq, ← roundToPage_eq roundedEq]
      unfold roundToPage at roundedEq
      split at roundedEq
      · exact checkedAdd_lt roundedEq
      · cases roundedEq
        exact below
  · rintro ⟨increase, given, used, rfl, fits⟩
    have larger := le_roundUp (info.mapSize + s.step increase) info.pageSize
    have whole := roundUp_mod (info.mapSize + s.step increase) paged
    have positive := (validated.step_bounds increase).2.2
    have sum : checkedAdd info.mapSize (clamp increase s.minResizeStep s.maxResizeStep) =
        some (info.mapSize + s.step increase) := if_pos (Nat.lt_of_le_of_lt larger fits)
    have occupied : info.occupiedSize = some (info.pageSize * info.lastPgno) := if_pos used
    have rounded : roundToPage (info.mapSize + s.step increase) info.pageSize =
        some (roundUp (info.mapSize + s.step increase) info.pageSize) := by
      unfold roundToPage roundUp checkedAdd
      unfold roundUp at fits
      split <;> rename_i partly
      · rw [if_pos partly] at fits
        rw [if_pos fits]
      · rfl
    have kept : atLeastOnePage (roundUp (info.mapSize + s.step increase) info.pageSize) info.mapSize info.pageSize =
        some (roundUp (info.mapSize + s.step increase) info.pageSize) := if_neg (by omega)
    simp only [newMapSize, given, occupied, sum, rounded, kept, Option.bind_eq_bind, Option.bind_some]
    exact if_pos ⟨whole, by omega⟩

theorem needsResize_sizes {headroom : Option ℕ} {verdict : Bool}
    (checked : needsResize s info headroom = some verdict) :
    info.pageSize * info.lastPgno < usizeBound ∧ ∀ h ∈ headroom,
      h + info.pageSize * info.lastPgno < usizeBound := by
  simp only [needsResize, MapInfo.occupiedSize, Option.bind_eq_bind, Option.bind_eq_some_iff] at checked
  obtain ⟨used, usedEq, checked⟩ := checked
  have used_eq := checkedMul_eq usedEq
  constructor
  · by_contra large
    rw [checkedMul, if_neg large] at usedEq
    cases usedEq
  · rintro h rfl
    obtain ⟨wanted, wantedEq, _⟩ := Option.bind_eq_some_iff.1 checked
    rw [← used_eq, ← checkedAdd_eq wantedEq]
    exact checkedAdd_lt wantedEq

end Asked

def MdbEnv.usedSize (env : MdbEnv) : ℕ := env.mePsize * (env.mmLastPg + 1)

structure Remapped (env env' : MdbEnv) (asked : ℕ) : Prop where
  psize : env'.mePsize = env.mePsize
  last : env'.mmLastPg = env.mmLastPg
  fixedmap : env'.fixedmap = env.fixedmap
  size : env'.meMapsize = max asked env.usedSize
  mapped : env'.meMap.isSome
  there : env.fixedmap → env'.meMap = env.meMap

section Remapped

variable {s : DatabaseResizeSettings} {os : OsResize} {env env' : MdbEnv} {new : ℕ} {increaseSize : Option ℕ}

theorem mdbEnvSetMapsize_remapped {os : OsMap} {size : ℕ} (mapped : env.meMap.isSome) (asked : size ≠ 0)
    (success : (mdbEnvSetMapsize os false env size).1 = mdbSuccess) :
    Remapped env (mdbEnvSetMapsize os false env size).2 size := by
  obtain ⟨old, present⟩ := Option.isSome_iff_exists.1 mapped
  rcases mdbEnvSetMapsize_cases os size present with ⟨_, failed, _⟩ |
    ⟨p, _, _, ⟨_, _, busy⟩ | ⟨same, result⟩⟩
  · exact absurd success failed
  · simp [busy] at success
  · rw [result]
    refine ⟨rfl, rfl, rfl, ?_, rfl, ?_⟩
    · simp only [setSize, roundUpToUsed, asked, if_false, MdbEnv.usedSize, Nat.mul_comm]
    · intro fixed
      rw [present, same fixed]
      rfl

theorem doResizeLocked_remapped (mapped : env.meMap.isSome)
    (resized : doResizeLocked s os env increaseSize = some (.ok new, env')) : Remapped env env' new := by
  obtain ⟨settled, success, rfl⟩ := doResizeLocked_ok resized
  have grows := (newMapSize_grows settled).1
  exact mdbEnvSetMapsize_remapped mapped (by omega) success

end Remapped

/-- What `needs_resize` sees when the map has `size` bytes and nothing else changed. -/
def MdbEnv.infoAt (env : MdbEnv) (size : ℕ) : MapInfo := { env.info with mapSize := size }

/-- The map size after `k` remaps that are each asked for `requiredSpace`. -/
def remappedSize (s : DatabaseResizeSettings) (env : MdbEnv) (requiredSpace : ℕ) : ℕ → ℕ
  | 0 => env.meMapsize
  | k + 1 => max (roundUp (env.meMapsize + s.step requiredSpace) env.mePsize) env.usedSize +
      k * roundUp (s.step requiredSpace) env.mePsize

def askedSize (s : DatabaseResizeSettings) (env : MdbEnv) (requiredSpace k : ℕ) : ℕ :=
  roundUp (remappedSize s env requiredSpace k + s.step requiredSpace) env.mePsize

section Sizes

variable {s : DatabaseResizeSettings} {env : MdbEnv} (requiredSpace : ℕ)

theorem remappedSize_whole (paged : 1 ≤ env.mePsize) (k : ℕ) :
    remappedSize s env requiredSpace (k + 1) % env.mePsize = 0 := by
  have first : max (roundUp (env.meMapsize + s.step requiredSpace) env.mePsize) env.usedSize % env.mePsize = 0 := by
    rcases max_choice (roundUp (env.meMapsize + s.step requiredSpace) env.mePsize) env.usedSize with rounded | used
    · rw [rounded, roundUp_mod _ paged]
    · rw [used, MdbEnv.usedSize, Nat.mul_mod_right]
  rw [remappedSize, Nat.add_mod, first, Nat.mul_mod, roundUp_mod _ paged]
  simp

theorem askedSize_succ (paged : 1 ≤ env.mePsize) (k : ℕ) : askedSize s env requiredSpace (k + 1) =
    remappedSize s env requiredSpace (k + 1) + roundUp (s.step requiredSpace) env.mePsize :=
  roundUp_add (remappedSize_whole requiredSpace paged k) _

theorem remappedSize_succ (paged : 1 ≤ env.mePsize) (k : ℕ) :
    remappedSize s env requiredSpace (k + 1) = max (askedSize s env requiredSpace k) env.usedSize := by
  cases k with
  | zero => simp [remappedSize, askedSize]
  | succ k =>
    rw [askedSize_succ requiredSpace paged]
    simp only [remappedSize, Nat.add_mul, Nat.one_mul]
    omega

theorem askedSize_gt (validated : s.Validate) (k : ℕ) :
    remappedSize s env requiredSpace k < askedSize s env requiredSpace k := by
  have larger := le_roundUp (remappedSize s env requiredSpace k + s.step requiredSpace) env.mePsize
  have positive := (validated.step_bounds requiredSpace).2.2
  rw [askedSize]
  omega

theorem remappedSize_strictMono (validated : s.Validate) (paged : 1 ≤ env.mePsize) :
    StrictMono (remappedSize s env requiredSpace) := by
  apply strictMono_nat_of_lt_succ
  intro k
  rw [remappedSize_succ requiredSpace paged]
  exact lt_max_of_lt_left (askedSize_gt requiredSpace validated k)

end Sizes

structure Reached (s : DatabaseResizeSettings) (first : MdbEnv) (requiredSpace : ℕ) (env : MdbEnv)
    (k : ℕ) : Prop where
  psize : env.mePsize = first.mePsize
  last : env.mmLastPg = first.mmLastPg
  fixedmap : env.fixedmap = first.fixedmap
  size : env.meMapsize = remappedSize s first requiredSpace k
  mapped : env.meMap.isSome
  there : first.fixedmap → env.meMap = first.meMap

section Reached

variable {s : DatabaseResizeSettings} {first env env' : MdbEnv} {requiredSpace new k : ℕ}

theorem Reached.start (mapped : first.meMap.isSome) : Reached s first requiredSpace first 0 :=
  ⟨rfl, rfl, rfl, rfl, mapped, fun _ => rfl⟩

theorem Reached.info (reached : Reached s first requiredSpace env k) :
    env.info = first.infoAt (remappedSize s first requiredSpace k) := by
  simp only [MdbEnv.info, MdbEnv.infoAt, reached.psize, reached.last, reached.size]

theorem Reached.asked (reached : Reached s first requiredSpace env k) :
    roundUp (env.meMapsize + s.step requiredSpace) env.mePsize = askedSize s first requiredSpace k := by
  rw [askedSize, reached.size, reached.psize]

theorem Reached.pass {os : OsResize} (validated : s.Validate) (paged : 1 ≤ first.mePsize)
    (reached : Reached s first requiredSpace env k)
    (resized : doResizeLocked s os env (some requiredSpace) = some (.ok new, env')) :
    Reached s first requiredSpace env' (k + 1) ∧ new = askedSize s first requiredSpace k := by
  have remapped := doResizeLocked_remapped reached.mapped resized
  have new_eq := (pass_of_ok validated resized).size.trans reached.asked
  refine ⟨⟨remapped.psize.trans reached.psize, remapped.last.trans reached.last,
    remapped.fixedmap.trans reached.fixedmap, ?_, remapped.mapped, ?_⟩, new_eq⟩
  · rw [remapped.size, remappedSize_succ requiredSpace paged, new_eq, MdbEnv.usedSize, MdbEnv.usedSize, reached.psize,
      reached.last]
  · intro fixed
    rw [remapped.there (reached.fixedmap.trans fixed), reached.there fixed]

end Reached

/-- Before a pass of the loop with `count` remaps behind it: every check has asked for a
resize, and no size before the last has met the request. -/
structure LoopTrace (s : DatabaseResizeSettings) (first : MdbEnv) (headroom count : ℕ) : Prop where
  needed : ∀ j < count, needsResize s (first.infoAt (remappedSize s first headroom j)) (some headroom) = some true
  unmet : ∀ j, j + 1 < count → askedSize s first headroom j < headroom + first.meMapsize

section Trace

variable {s : DatabaseResizeSettings} {first : MdbEnv} {headroom count : ℕ}

theorem LoopTrace.start (s : DatabaseResizeSettings) (first : MdbEnv) (headroom : ℕ) :
    LoopTrace s first headroom 0 where
  needed := by
    intro j before
    exact absurd before (Nat.not_lt_zero j)
  unmet := by
    intro j before
    exact absurd before (Nat.not_lt_zero _)

theorem LoopTrace.snoc (trace : LoopTrace s first headroom count)
    (unmet : ∀ j, j + 1 = count → askedSize s first headroom j < headroom + first.meMapsize)
    (needed : needsResize s (first.infoAt (remappedSize s first headroom count)) (some headroom) = some true) :
    LoopTrace s first headroom (count + 1) where
  needed := by
    intro j within
    rcases Nat.lt_succ_iff_lt_or_eq.1 within with before | rfl
    · exact trace.needed j before
    · exact needed
  unmet := by
    intro j within
    rcases Nat.lt_succ_iff_lt_or_eq.1 within with before | last
    · exact trace.unmet j before
    · exact unmet j last

theorem LoopTrace.asked (trace : LoopTrace s first headroom (count + 1)) :
    needsResize s first.info (some headroom) = some true :=
  trace.needed 0 (Nat.succ_pos count)

end Trace

/-- The operating system carries out every remap, and the free space stays the same. -/
structure Granted (first : MdbEnv) (freeSpace : ℕ) (os : ℕ → OsResize) : Prop where
  free : ∀ n, (os n).freeSpace = .ok freeSpace
  truncates : ∀ n, (os n).map.ftruncate = none
  maps : ∀ n, ∃ p, (os n).map.mmap = .ok p ∧ (first.fixedmap → first.meMap = some p)

section Granted

variable {s : DatabaseResizeSettings} {first env : MdbEnv} {requiredSpace freeSpace k : ℕ} {os : ℕ → OsResize}

theorem Granted.success (granted : Granted first freeSpace os) (reached : Reached s first requiredSpace env k)
    (n size : ℕ) :
    (mdbEnvSetMapsize (os n).map false env size).1 = mdbSuccess := by
  obtain ⟨old, present⟩ := Option.isSome_iff_exists.1 reached.mapped
  obtain ⟨p, answer, there⟩ := granted.maps n
  have untruncated : (os n).map.truncation env = none := by simp [OsMap.truncation, granted.truncates n]
  rcases mdbEnvSetMapsize_cases (os n).map size present with ⟨refused, _⟩ |
    ⟨q, answered, _, ⟨fixed, moved, _⟩ | ⟨_, result⟩⟩
  · simp [untruncated, answer, Except.toOption] at refused
  · rw [answer] at answered
    cases answered
    have fixed := reached.fixedmap.symm.trans fixed
    have same := (reached.there fixed).symm.trans present
    rw [there fixed] at same
    cases same
    exact absurd rfl moved
  · rw [result]

/-- Three ways out of a step that the operating system grants: a size is too large, the
disk is too small, the map has been replaced. -/
theorem Granted.step (granted : Granted first freeSpace os) (validated : s.Validate) (paged : 1 ≤ first.mePsize)
    (used : first.mePsize * first.mmLastPg < usizeBound) (reached : Reached s first requiredSpace env k) (n : ℕ) :
    (usizeBound ≤ askedSize s first requiredSpace k ∧
      doResizeLocked s (os n) env (some requiredSpace) = none) ∨
    (askedSize s first requiredSpace k < usizeBound ∧
      freeSpace ≤ askedSize s first requiredSpace k - remappedSize s first requiredSpace k ∧
      doResizeLocked s (os n) env (some requiredSpace) = some (.error (.other enospc), env)) ∨
    (askedSize s first requiredSpace k < usizeBound ∧
      askedSize s first requiredSpace k - remappedSize s first requiredSpace k < freeSpace ∧
      ∃ env', doResizeLocked s (os n) env (some requiredSpace) =
        some (.ok (askedSize s first requiredSpace k), env')) := by
  have paged' : 1 ≤ env.info.pageSize := paged.trans_eq reached.psize.symm
  have settles := newMapSize_iff validated paged' (some requiredSpace)
  have used' : env.info.pageSize * env.info.lastPgno < usizeBound := by
    simp only [MdbEnv.info, reached.psize, reached.last]
    exact used
  by_cases fits : askedSize s first requiredSpace k < usizeBound
  · have settled : newMapSize s env.info (some requiredSpace) = some (askedSize s first requiredSpace k) :=
      (settles _).2 ⟨requiredSpace, rfl, used', reached.asked.symm, fits⟩
    right
    by_cases full : freeSpace ≤ askedSize s first requiredSpace k - remappedSize s first requiredSpace k
    · left
      refine ⟨fits, full, ?_⟩
      simp [doResizeLocked, settled, checkFreeSpace, granted.free n, reached.size, full]
    · right
      refine ⟨fits, Nat.lt_of_not_le full, (mdbEnvSetMapsize (os n).map false env
        (askedSize s first requiredSpace k)).2, ?_⟩
      simp [doResizeLocked, settled, checkFreeSpace, granted.free n, reached.size, full, setMapSizeLocked,
        granted.success reached, lmdbResult, Except.map]
  · left
    refine ⟨Nat.le_of_not_lt fits, ?_⟩
    have unsettled : newMapSize s env.info (some requiredSpace) = none := by
      rw [Option.eq_none_iff_forall_ne_some]
      intro size settled
      obtain ⟨increase, given, _, size_eq, below⟩ := (settles size).1 settled
      cases given
      rw [size_eq] at below
      rw [← reached.asked] at fits
      exact fits below
    simp [doResizeLocked, unsettled]

end Granted

def beginRwTxnGeneric (s : DatabaseResizeSettings) (os : ℕ → OsResize) (mdbTxnBegin : ℤ) (headroom : Option ℕ)
    (fuel : ℕ) (env : MdbEnv) : LoopEnd :=
  match resizeDbIfNecessary s os headroom fuel env with
  | .returned (.ok ()) env remaps => .returned (lmdbResult mdbTxnBegin) env remaps
  | ended => ended

/-- `do_resize_locked` with the call of the resize callback at its end. -/
def doResizeReported (s : DatabaseResizeSettings) (resizeCallback : Bool) (os : OsResize) (env : MdbEnv)
    (increaseSize : Option ℕ) : Option (Except Error ℕ × MdbEnv × Option DatabaseResizeInfo) :=
  (doResizeLocked s os env increaseSize).map fun (result, env') =>
    match result with
    | .ok new =>
      (.ok new, env',
        if resizeCallback then some ⟨env.meMapsize, new, env.info.occupiedSize.getD 0⟩ else none)
    | .error e => (.error e, env', none)

/-- The size that is returned, and that the callback is given, is the size in force. -/
def SizeInForce (new : ℕ) (env' : MdbEnv) (reported : Option DatabaseResizeInfo) : Prop :=
  new = env'.meMapsize ∧ ∀ info ∈ reported, info.newSize = env'.meMapsize

/-- It is just if the size that is asked for holds the used pages. -/
theorem sizeInForce_iff {s : DatabaseResizeSettings} {resizeCallback : Bool} {os : OsResize} {env env' : MdbEnv}
    {new : ℕ} {increaseSize : Option ℕ} {reported : Option DatabaseResizeInfo} (validated : s.Validate)
    (mapped : env.meMap.isSome)
    (resized : doResizeReported s resizeCallback os env increaseSize = some (.ok new, env', reported)) :
    SizeInForce new env' reported ↔ ∀ increase ∈ givenOrRatio s env.meMapsize increaseSize,
      env.usedSize ≤ roundUp (env.meMapsize + s.step increase) env.mePsize := by
  obtain ⟨⟨result, env''⟩, locked, answer⟩ := Option.map_eq_some_iff.1 resized
  cases result with
  | error e => cases answer
  | ok size =>
    cases answer
    obtain ⟨increase, given, new_eq⟩ := newMapSize_eq validated (doResizeLocked_ok locked).1
    have size := (doResizeLocked_remapped mapped locked).size
    simp only [MdbEnv.info] at given new_eq
    rw [given, SizeInForce, size]
    constructor
    · rintro ⟨same, _⟩ _ ⟨⟩
      rw [← new_eq]
      exact max_eq_left_iff.1 same.symm
    · intro holds
      have used := holds increase rfl
      rw [← new_eq] at used
      refine ⟨(Nat.max_eq_left used).symm, ?_⟩
      intro info told
      split at told
      · cases told
        exact (Nat.max_eq_left used).symm
      · cases told

theorem sizeInForce_iff_fresh : ∃ env' reported,
    doResizeReported (defaultResizeSettings fun _ _ => false) true grantedResize (freshEnv 65536 4096 (2 ^ 20))
      (some 1) =
        some (.ok (2 ^ 20 + 2 ^ 28), env', reported) ∧
      SizeInForce (2 ^ 20 + 2 ^ 28) env' reported := by
  refine ⟨_, _, rfl, ?_⟩
  refine (sizeInForce_iff (defaultResizeSettings_validate _) rfl (show doResizeReported
    (defaultResizeSettings fun _ _ => false) true grantedResize (freshEnv 65536 4096 (2 ^ 20)) (some 1) =
      some (.ok (2 ^ 20 + 2 ^ 28), _, _) from rfl)).2 ?_
  rintro increase ⟨⟩
  decide

/-- Another process has filled 4 GiB of the file, of which 1 MiB is in this map. -/
def outgrown : MdbEnv := { freshEnv 65536 4096 (2 ^ 20) with mmLastPg := 2 ^ 20, mmMapsize := 2 ^ 33 }

/-- A step to 257 MiB is reported, and the map has the 4 GiB and a page. -/
theorem outgrown_size_misreported : ∃ env',
    doResizeReported (defaultResizeSettings fun _ _ => false) true grantedResize outgrown (some 1) =
        some (.ok (2 ^ 20 + 2 ^ 28), env', some ⟨2 ^ 20, 2 ^ 20 + 2 ^ 28, 2 ^ 32⟩) ∧
      env'.info.mapSize = 2 ^ 32 + 4096 ∧
      ¬SizeInForce (2 ^ 20 + 2 ^ 28) env' (some ⟨2 ^ 20, 2 ^ 20 + 2 ^ 28, 2 ^ 32⟩) := by
  refine ⟨_, rfl, rfl, ?_⟩
  rintro ⟨same, _⟩
  exact absurd same (by decide)

end SamLmdb
