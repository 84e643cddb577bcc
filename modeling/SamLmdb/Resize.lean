import Mathlib.Algebra.Group.Nat.Defs
import Mathlib.Data.Nat.Basic
import Mathlib.Data.Option.Basic
import Mathlib.Tactic.Common

/-!
Resize settings and the size arithmetic of src/resize/mod.rs and src/environment.rs.

Sizes are `usize` on a 64-bit target. A computation that overflows or fails an
assertion panics, and its value here is `none`.
-/

namespace SamLmdb

def usizeBound : ℕ := 2 ^ 64

def checkedAdd (a b : ℕ) : Option ℕ := if a + b < usizeBound then some (a + b) else none
def checkedMul (a b : ℕ) : Option ℕ := if a * b < usizeBound then some (a * b) else none

/-- The trigger fraction enters only through the comparison
`size_used as f32 / map_size as f32 > fraction`, which is kept as a function of both sizes. -/
structure DatabaseResizeSettings where
  minResizeStep : ℕ
  maxResizeStep : ℕ
  defaultResizeRatioPercentage : ℕ
  crossesTrigger : ℕ → ℕ → Bool

def defaultResizeSettings (crossesTrigger : ℕ → ℕ → Bool) : DatabaseResizeSettings where
  minResizeStep := 2 ^ 28
  maxResizeStep := 2 ^ 31
  defaultResizeRatioPercentage := 100
  crossesTrigger := crossesTrigger

/-- The assertions of `DatabaseResizeSettings::validate`. -/
structure DatabaseResizeSettings.Validate (s : DatabaseResizeSettings) : Prop where
  min_positive : s.minResizeStep ≠ 0
  max_positive : s.maxResizeStep ≠ 0
  min_le_max : s.minResizeStep ≤ s.maxResizeStep
  ratio_positive : s.defaultResizeRatioPercentage ≠ 0

theorem defaultResizeSettings_validate (crossesTrigger : ℕ → ℕ → Bool) :
    (defaultResizeSettings crossesTrigger).Validate := by
  constructor <;> simp [defaultResizeSettings]

def headroomFromRatio (currentMapSize resizeRatio : ℕ) : Option ℕ :=
  if currentMapSize * resizeRatio / 100 < usizeBound then some (currentMapSize * resizeRatio / 100) else none

/-- What `Environment::stat` and `Environment::info` report to the resize code. -/
structure MapInfo where
  pageSize : ℕ
  mapSize : ℕ
  lastPgno : ℕ
  deriving DecidableEq, Repr

def MapInfo.occupiedSize (info : MapInfo) : Option ℕ := checkedMul info.pageSize info.lastPgno

/-- `Environment::needs_resize`: first the requested headroom, then the fill fraction. -/
def needsResize (s : DatabaseResizeSettings) (info : MapInfo) (headroom : Option ℕ) : Option Bool := do
  let sizeUsed ← info.occupiedSize
  match headroom with
  | some given =>
    let wanted ← checkedAdd given sizeUsed
    if info.mapSize < wanted then some true else some (s.crossesTrigger sizeUsed info.mapSize)
  | none => some (s.crossesTrigger sizeUsed info.mapSize)

def givenOrRatio (s : DatabaseResizeSettings) (mapSize : ℕ) : Option ℕ → Option ℕ
  | some given => some given
  | none => headroomFromRatio mapSize s.defaultResizeRatioPercentage

def clamp (x low high : ℕ) : ℕ := max low (min x high)

def roundToPage (size pageSize : ℕ) : Option ℕ :=
  if size % pageSize ≠ 0 then checkedAdd size (pageSize - size % pageSize) else some size

/-- Add a page to a size that did not change, so that a retry cannot loop at one size. -/
def atLeastOnePage (size oldMapSize pageSize : ℕ) : Option ℕ :=
  if size = oldMapSize then checkedAdd size pageSize else some size

def newMapSize (s : DatabaseResizeSettings) (info : MapInfo) (increaseSize : Option ℕ) : Option ℕ := do
  let increase ← givenOrRatio s info.mapSize increaseSize
  let _occupied ← info.occupiedSize
  let sum ← checkedAdd info.mapSize (clamp increase s.minResizeStep s.maxResizeStep)
  let rounded ← roundToPage sum info.pageSize
  let size ← atLeastOnePage rounded info.mapSize info.pageSize
  if size % info.pageSize = 0 ∧ info.mapSize < size then some size else none

theorem checkedAdd_eq {a b c : ℕ} (h : checkedAdd a b = some c) : c = a + b := by
  unfold checkedAdd at h
  split at h <;> simp_all

theorem checkedMul_eq {a b c : ℕ} (h : checkedMul a b = some c) : c = a * b := by
  unfold checkedMul at h
  split at h <;> simp_all

theorem checkedAdd_lt {a b c : ℕ} (h : checkedAdd a b = some c) : c < usizeBound := by
  unfold checkedAdd at h
  split at h <;> simp_all

/-- A check that finds no need to resize has found the requested headroom. -/
theorem needsResize_false {s : DatabaseResizeSettings} {info : MapInfo} {given : ℕ}
    (h : needsResize s info (some given) = some false) :
    info.pageSize * info.lastPgno + given ≤ info.mapSize := by
  simp only [needsResize, MapInfo.occupiedSize, Option.bind_eq_bind, Option.bind_eq_some_iff] at h
  obtain ⟨used, usedEq, wanted, wantedEq, verdict⟩ := h
  have used_eq := checkedMul_eq usedEq
  have wanted_eq := checkedAdd_eq wantedEq
  split at verdict
  · simp at verdict
  · omega

theorem newMapSize_grows {s : DatabaseResizeSettings} {info : MapInfo} {increase : Option ℕ} {size : ℕ}
    (h : newMapSize s info increase = some size) : info.mapSize < size ∧ size % info.pageSize = 0 := by
  simp only [newMapSize, Option.bind_eq_bind, Option.bind_eq_some_iff] at h
  obtain ⟨_, _, _, _, _, _, _, _, final, _, settled⟩ := h
  split at settled
  · rename_i asserted
    simp only [Option.some.injEq] at settled
    subst settled
    exact ⟨asserted.2, asserted.1⟩
  · simp at settled

end SamLmdb
