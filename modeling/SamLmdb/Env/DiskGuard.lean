import SamLmdb.Env.Growth

/-!
The free space is compared with the increase of one step, and a map that has grown takes up
no space on the disk. What a request adds up to over its steps is not compared with it.
-/

namespace SamLmdb

/-- `Ok` after growth by less than the free space, else ENOSPC, and no growth past it. -/
def DiskGuarded (freeSpace : ℕ) (env env' : MdbEnv) : Except Error Unit → Prop
  | .ok () => env'.meMapsize < env.meMapsize + freeSpace
  | .error e => e = .other enospc ∧
      (env'.meMapsize = env.meMapsize ∨ env'.meMapsize < env.meMapsize + freeSpace)

/-- The loop goes no further than `k + 1` remaps. -/
def EnoughAfter (s : DatabaseResizeSettings) (env : MdbEnv) (headroom k : ℕ) : Prop :=
  headroom + env.meMapsize ≤ askedSize s env headroom k ∨
    needsResize s (env.infoAt (remappedSize s env headroom (k + 1))) (some headroom) = some false

/-- The first step is too large for the disk; or some number of steps, smaller than it all
together, is enough, or is followed by a step too large for it. -/
def GrowthFits (s : DatabaseResizeSettings) (env : MdbEnv) (headroom freeSpace : ℕ) : Prop :=
  if needsResize s env.info (some headroom) = some true then
    freeSpace ≤ askedSize s env headroom 0 - env.meMapsize ∨
      ∃ k, remappedSize s env headroom (k + 1) < env.meMapsize + freeSpace ∧
        (EnoughAfter s env headroom k ∨ freeSpace ≤ roundUp (s.step headroom) env.mePsize)
  else 0 < freeSpace

structure Taken (s : DatabaseResizeSettings) (env : MdbEnv) (headroom freeSpace k : ℕ) : Prop
    extends LoopTrace s env headroom k where
  fits : ∀ j < k, askedSize s env headroom j - remappedSize s env headroom j < freeSpace

section Taken

variable {s : DatabaseResizeSettings} {first env : MdbEnv} {headroom freeSpace k : ℕ}

theorem Taken.start (s : DatabaseResizeSettings) (env : MdbEnv) (headroom freeSpace : ℕ) :
    Taken s env headroom freeSpace 0 where
  toLoopTrace := .start s env headroom
  fits := by
    intro j before
    exact absurd before (Nat.not_lt_zero j)

theorem Taken.snoc (taken : Taken s first headroom freeSpace k)
    (unmet : ∀ j, j + 1 = k → askedSize s first headroom j < headroom + first.meMapsize)
    (needed : needsResize s (first.infoAt (remappedSize s first headroom k)) (some headroom) = some true)
    (fits : askedSize s first headroom k - remappedSize s first headroom k < freeSpace) :
    Taken s first headroom freeSpace (k + 1) where
  toLoopTrace := taken.toLoopTrace.snoc unmet needed
  fits := by
    intro j within
    rcases Nat.lt_succ_iff_lt_or_eq.1 within with before | rfl
    · exact taken.fits j before
    · exact fits

theorem Taken.growth_iff (validated : s.Validate) (paged : 1 ≤ first.mePsize)
    (taken : Taken s first headroom freeSpace (k + 1))
    (ends : EnoughAfter s first headroom k ∨ freeSpace ≤ roundUp (s.step headroom) first.mePsize) :
    remappedSize s first headroom (k + 1) < first.meMapsize + freeSpace ↔ GrowthFits s first headroom freeSpace := by
  have increasing : StrictMono (remappedSize s first headroom) := remappedSize_strictMono headroom validated paged
  rw [GrowthFits, if_pos taken.asked]
  constructor
  · intro small
    exact .inr ⟨k, small, ends⟩
  · rintro (large | ⟨i, small, ends'⟩)
    · exact absurd (taken.fits 0 (Nat.succ_pos k)) (Nat.not_lt_of_le large)
    · by_contra past
      have before : i + 1 < k + 1 := by
        rw [← increasing.lt_iff_lt]
        omega
      rcases ends' with (met | unneeded) | large
      · exact absurd (taken.unmet i before) (Nat.not_lt_of_le met)
      · rw [taken.needed (i + 1) before] at unneeded
        cases unneeded
      · have step := taken.fits (i + 1) before
        rw [askedSize_succ headroom paged] at step
        omega

end Taken

section Loop

variable {s : DatabaseResizeSettings} {first env env' : MdbEnv} {headroom freeSpace k fuel : ℕ}
    {os : ℕ → OsResize}
  {remaps sizes : List ℕ} {result : Except Error Unit}

theorem Taken.stop (validated : s.Validate) (paged : 1 ≤ first.mePsize) (taken : Taken s first headroom freeSpace k)
    (unneeded : needsResize s (first.infoAt (remappedSize s first headroom k)) (some headroom) = some false) :
    remappedSize s first headroom k < first.meMapsize + freeSpace ↔ GrowthFits s first headroom freeSpace := by
  cases k with
  | zero =>
    have unasked : needsResize s first.info (some headroom) = some false := unneeded
    rw [GrowthFits, unasked, if_neg (by decide)]
    exact Nat.lt_add_right_iff_pos
  | succ k => exact taken.growth_iff validated paged (.inl (.inr unneeded))

theorem Taken.refused (validated : s.Validate) (paged : 1 ≤ first.mePsize)
    (taken : Taken s first headroom freeSpace k)
    (needed : needsResize s (first.infoAt (remappedSize s first headroom k)) (some headroom) = some true)
    (full : freeSpace ≤ askedSize s first headroom k - remappedSize s first headroom k) :
    (remappedSize s first headroom k = first.meMapsize ∨
      remappedSize s first headroom k < first.meMapsize + freeSpace) ↔ GrowthFits s first headroom freeSpace := by
  cases k with
  | zero =>
    have asked : needsResize s first.info (some headroom) = some true := needed
    rw [GrowthFits, if_pos asked]
    exact ⟨fun _ => .inl full, fun _ => .inl rfl⟩
  | succ k =>
    have grown : first.meMapsize < remappedSize s first headroom (k + 1) :=
      remappedSize_strictMono headroom validated paged (Nat.succ_pos k)
    rw [askedSize_succ headroom paged] at full
    rw [← taken.growth_iff validated paged (.inr (by omega))]
    exact or_iff_right (Nat.ne_of_gt grown)

theorem resizeLoop_guarded (validated : s.Validate) (paged : 1 ≤ first.mePsize) (granted : Granted first freeSpace os)
    (reached : Reached s first headroom env k) (taken : Taken s first headroom freeSpace k)
    (unmet : ∀ j, j + 1 = k → askedSize s first headroom j < headroom + first.meMapsize)
    (returned : resizeLoop s os (some headroom) headroom first.meMapsize fuel env remaps =
      .returned result env' sizes) :
    DiskGuarded freeSpace first env' result ↔ GrowthFits s first headroom freeSpace := by
  induction fuel generalizing env k remaps with
  | zero => cases returned
  | succ fuel ih =>
    simp only [resizeLoop] at returned
    split at returned
    · cases returned
    · rename_i unneeded
      cases returned
      rw [reached.info] at unneeded
      rw [DiskGuarded, reached.size]
      exact taken.stop validated paged unneeded
    · rename_i needed
      rw [reached.info] at needed
      have used := (needsResize_sizes needed).1
      rcases granted.step validated paged used reached remaps.length with
        ⟨_, panics⟩ | ⟨_, full, refused⟩ | ⟨_, fits, after, resized⟩
      · simp [panics] at returned
      · simp only [refused] at returned
        cases returned
        rw [DiskGuarded, reached.size, eq_self, true_and]
        exact taken.refused validated paged needed full
      · obtain ⟨next, _⟩ := reached.pass validated paged resized
        have taken' := taken.snoc unmet needed fits
        simp only [resized] at returned
        split at returned
        · cases returned
        · rename_i sum sumEq
          have sum_eq := checkedAdd_eq sumEq
          split at returned
          · rename_i met
            cases returned
            rw [DiskGuarded, next.size]
            exact taken'.growth_iff validated paged (.inl (.inl (by omega)))
          · rename_i short
            refine ih next taken' ?_ returned
            intro j last
            cases last
            omega

end Loop

def smallDisk : OsResize where
  map := ⟨none, .ok 131072⟩
  freeSpace := .ok (3 * 2 ^ 30)

theorem smallDisk_granted : Granted (freshEnv 65536 4096 (2 ^ 20)) (3 * 2 ^ 30) fun _ => smallDisk where
  free := fun _ => rfl
  truncates := fun _ => rfl
  maps := by
    intro n
    exact ⟨131072, rfl, by simp [freshEnv]⟩

end SamLmdb
