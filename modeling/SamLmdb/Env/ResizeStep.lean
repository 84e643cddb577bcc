import SamLmdb.Env.ResizeFailure

/-!
The size that one resize step settles on: the increase is clamped into the
configured bounds first, and the new total is rounded up to whole pages after that.
-/

namespace SamLmdb

section Rounding

variable {size pageSize : ℕ}

/-- `roundToPage` without its overflow. -/
def roundUp (size pageSize : ℕ) : ℕ :=
  if size % pageSize ≠ 0 then size + (pageSize - size % pageSize) else size

theorem roundToPage_eq {rounded : ℕ} (h : roundToPage size pageSize = some rounded) :
    rounded = roundUp size pageSize := by
  unfold roundToPage at h
  unfold roundUp
  split at h <;> rename_i partly
  · rw [if_pos partly]
    exact checkedAdd_eq h
  · rw [if_neg partly]
    exact (Option.some.inj h).symm

theorem le_roundUp (size pageSize : ℕ) : size ≤ roundUp size pageSize := by
  unfold roundUp
  split <;> omega

theorem roundUp_lt (size : ℕ) (paged : 1 ≤ pageSize) : roundUp size pageSize < size + pageSize := by
  unfold roundUp
  have := Nat.mod_lt size paged
  split <;> omega

theorem roundUp_mod (size : ℕ) (paged : 1 ≤ pageSize) : roundUp size pageSize % pageSize = 0 := by
  unfold roundUp
  split
  · have below := Nat.mod_lt size paged
    have whole : size + (pageSize - size % pageSize) = size / pageSize * pageSize + pageSize := by
      have := Nat.div_add_mod' size pageSize
      omega
    rw [whole, Nat.add_mod_right, Nat.mul_mod_left]
  · omega

theorem roundUp_add {pages : ℕ} (whole : pages % pageSize = 0) (size : ℕ) :
    roundUp (pages + size) pageSize = pages + roundUp size pageSize := by
  have same : (pages + size) % pageSize = size % pageSize := by rw [Nat.add_mod, whole, Nat.zero_add, Nat.mod_mod]
  unfold roundUp
  rw [same]
  split <;> omega

end Rounding

def DatabaseResizeSettings.step (s : DatabaseResizeSettings) (increase : ℕ) : ℕ :=
  clamp increase s.minResizeStep s.maxResizeStep

section Step

variable {s : DatabaseResizeSettings} {info : MapInfo} {increaseSize : Option ℕ}

theorem DatabaseResizeSettings.Validate.step_bounds (validated : s.Validate) (increase : ℕ) :
    s.minResizeStep ≤ s.step increase ∧ s.step increase ≤ s.maxResizeStep ∧ 0 < s.step increase := by
  have positive := validated.min_positive
  have ordered := validated.min_le_max
  simp only [DatabaseResizeSettings.step, clamp]
  omega

/-- The extra page of a size that did not change is never needed. -/
theorem newMapSize_eq (validated : s.Validate) {size : ℕ} (settled : newMapSize s info increaseSize = some size) :
    ∃ increase, givenOrRatio s info.mapSize increaseSize = some increase ∧
      size = roundUp (info.mapSize + s.step increase) info.pageSize := by
  simp only [newMapSize, Option.bind_eq_bind, Option.bind_eq_some_iff] at settled
  obtain ⟨increase, given, _, _, sum, sumEq, rounded, roundedEq, final, finalEq, asserted⟩ := settled
  refine ⟨increase, given, ?_⟩
  have grown := (validated.step_bounds increase).2.2
  have sum_eq : sum = info.mapSize + s.step increase := checkedAdd_eq sumEq
  have rounded_eq := roundToPage_eq roundedEq
  have larger := le_roundUp sum info.pageSize
  have kept : final = rounded := by
    unfold atLeastOnePage at finalEq
    rw [if_neg (by omega)] at finalEq
    exact (Option.some.inj finalEq).symm
  split at asserted
  · rw [← Option.some.inj asserted, kept, rounded_eq, sum_eq]
  · cases asserted

theorem doResizeLocked_ok {os : OsResize} {env env' : MdbEnv} {new : ℕ}
    (resized : doResizeLocked s os env increaseSize = some (.ok new, env')) :
    newMapSize s env.info increaseSize = some new ∧ (mdbEnvSetMapsize os.map false env new).1 = mdbSuccess ∧
      env' = (mdbEnvSetMapsize os.map false env new).2 := by
  simp only [doResizeLocked, Option.bind_eq_bind, Option.bind_eq_some_iff] at resized
  obtain ⟨size, sizeEq, checked⟩ := resized
  split at checked
  · cases checked
  · simp only [setMapSizeLocked, Option.some.injEq, Prod.mk.injEq] at checked
    obtain ⟨returned, kept⟩ := checked
    rcases code : lmdbResult (mdbEnvSetMapsize os.map false env size).1 with e | ⟨⟩
    · simp [code, Except.map] at returned
    · rw [code] at returned
      cases returned
      exact ⟨sizeEq, lmdbResult_ok.1 code, kept.symm⟩

end Step

/-- The rounding leaves the step within `max_resize_step`. -/
def DatabaseResizeSettings.RoundsWithin (s : DatabaseResizeSettings) (env : MdbEnv)
    (increaseSize : Option ℕ) : Prop :=
  ∀ increase ∈ givenOrRatio s env.meMapsize increaseSize,
    let total := env.meMapsize + s.step increase
    total % env.mePsize = 0 ∨ s.step increase + (env.mePsize - total % env.mePsize) ≤ s.maxResizeStep

/-- A whole number of pages, more than before, by a step within the configured bounds. -/
structure DatabaseResizeSettings.StepWithinBounds (s : DatabaseResizeSettings) (pageSize old new : ℕ) : Prop where
  whole_pages : new % pageSize = 0
  grows : old < new
  at_least_min : s.minResizeStep ≤ new - old
  at_most_max : new - old ≤ s.maxResizeStep

theorem stepWithinBounds_iff {s : DatabaseResizeSettings} {os : OsResize} {env env' : MdbEnv} {new : ℕ}
    {increaseSize : Option ℕ} (validated : s.Validate) (paged : 1 ≤ env.mePsize)
    (resized : doResizeLocked s os env increaseSize = some (.ok new, env')) :
    s.StepWithinBounds env.mePsize env.meMapsize new ↔ s.RoundsWithin env increaseSize := by
  obtain ⟨increase, given, new_eq⟩ := newMapSize_eq validated (doResizeLocked_ok resized).1
  simp only [MdbEnv.info] at given new_eq
  have bounds := validated.step_bounds increase
  have larger := le_roundUp (env.meMapsize + s.step increase) env.mePsize
  have whole := roundUp_mod (env.meMapsize + s.step increase) paged
  simp only [DatabaseResizeSettings.RoundsWithin, given, Option.mem_def, Option.some.injEq, forall_eq']
  rw [← new_eq] at larger whole
  unfold roundUp at new_eq
  constructor
  · intro within
    have most := within.at_most_max
    split at new_eq
    · right
      omega
    · left
      omega
  · intro rounds
    refine ⟨whole, by omega, by omega, ?_⟩
    split at new_eq <;> omega

def byteSteps : DatabaseResizeSettings :=
  { defaultResizeSettings fun _ _ => false with minResizeStep := 1, maxResizeStep := 1 }

theorem byteSteps_validate : byteSteps.Validate := by
  constructor <;> simp [byteSteps, defaultResizeSettings]

def grantedResize : OsResize where
  map := ⟨none, .ok 131072⟩
  freeSpace := .ok (2 ^ 40)

theorem stepWithinBounds_default :
    (defaultResizeSettings fun _ _ => false).StepWithinBounds 4096 (2 ^ 20) (2 ^ 20 + 2 ^ 28) := by
  have returned : (doResizeLocked (defaultResizeSettings fun _ _ => false) grantedResize
      (freshEnv 65536 4096 (2 ^ 20)) (some 1)).map (·.1) = some (.ok (2 ^ 20 + 2 ^ 28)) := by
    decide +kernel
  obtain ⟨⟨result, env'⟩, resized, rfl⟩ := Option.map_eq_some_iff.1 returned
  refine (stepWithinBounds_iff (defaultResizeSettings_validate _) (by decide) resized).2 ?_
  intro increase given
  cases given
  left
  decide

/-- A step of at most one byte grows the map by a page. -/
theorem rounding_exceeds_max_step :
    byteSteps.Validate ∧
      (doResizeLocked byteSteps grantedResize (freshEnv 65536 4096 (2 ^ 20)) (some 1)).map (·.1) =
        some (.ok (2 ^ 20 + 4096)) ∧
      ¬byteSteps.StepWithinBounds 4096 (2 ^ 20) (2 ^ 20 + 4096) := by
  refine ⟨byteSteps_validate, rfl, ?_⟩
  intro within
  exact absurd within.at_most_max (by decide)

end SamLmdb
