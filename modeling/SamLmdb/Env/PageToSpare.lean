import SamLmdb.Env.Growth

/-!
The occupied size of `map_occupied_size_inner` leaves out one page: page numbers are
0-based, so `last_pgno * page_size` counts every used page but the last. The check of
`begin_rw_txn` can therefore stop within one page of the headroom it was asked for. Where
another process has grown the file past the map, the loop can also break too early.
-/

namespace SamLmdb

/-- Where the check does not ask for a resize at once, the map has a page to spare. Else no
size that the loop goes through and that is too small stops it: the size that was asked
for there does not meet the request, and where `needs_resize` finds the headroom, it finds
the fill fraction crossed. -/
def PageToSpare (s : DatabaseResizeSettings) (env : MdbEnv) (headroom : ℕ) : Prop :=
  if needsResize s env.info (some headroom) = some true then
    ∀ k, remappedSize s env headroom (k + 1) < env.usedSize + headroom →
      askedSize s env headroom k < headroom + env.meMapsize ∧
        (env.mePsize * env.mmLastPg + headroom ≤ remappedSize s env headroom (k + 1) →
          s.crossesTrigger (env.mePsize * env.mmLastPg) (remappedSize s env headroom (k + 1)) = true)
  else env.usedSize + headroom ≤ env.meMapsize

section Verdict

variable {s : DatabaseResizeSettings} {info : MapInfo} {headroom : ℕ}

theorem needsResize_fraction (needed : needsResize s info (some headroom) = some true)
    (offered : info.pageSize * info.lastPgno + headroom ≤ info.mapSize) :
    s.crossesTrigger (info.pageSize * info.lastPgno) info.mapSize = true := by
  simp only [needsResize, MapInfo.occupiedSize, Option.bind_eq_bind, Option.bind_eq_some_iff] at needed
  obtain ⟨used, usedEq, wanted, wantedEq, verdict⟩ := needed
  have used_eq := checkedMul_eq usedEq
  have wanted_eq := checkedAdd_eq wantedEq
  rw [if_neg (by omega), used_eq] at verdict
  exact Option.some.inj verdict

theorem needsResize_false_fraction (unneeded : needsResize s info (some headroom) = some false) :
    s.crossesTrigger (info.pageSize * info.lastPgno) info.mapSize = false := by
  simp only [needsResize, MapInfo.occupiedSize, Option.bind_eq_bind, Option.bind_eq_some_iff] at unneeded
  obtain ⟨used, usedEq, wanted, wantedEq, verdict⟩ := unneeded
  have used_eq := checkedMul_eq usedEq
  split at verdict
  · cases verdict
  · rw [used_eq] at verdict
    exact Option.some.inj verdict

end Verdict

section Trace

variable {s : DatabaseResizeSettings} {first env env' : MdbEnv} {headroom count fuel : ℕ}

/-- With room at the end, the sizes that were too small have not stopped the loop. -/
theorem LoopTrace.spare (validated : s.Validate) (paged : 1 ≤ first.mePsize)
    (trace : LoopTrace s first headroom (count + 1))
    (room : first.usedSize + headroom ≤ remappedSize s first headroom (count + 1)) :
    PageToSpare s first headroom := by
  rw [PageToSpare, if_pos trace.asked]
  intro k tight
  have increasing : StrictMono (remappedSize s first headroom) := remappedSize_strictMono headroom validated paged
  have earlier : k + 1 < count + 1 := increasing.lt_iff_lt.1 (Nat.lt_of_lt_of_le tight room)
  exact ⟨trace.unmet k earlier, needsResize_fraction (trace.needed (k + 1) earlier)⟩

/-- Where the check stops the loop, there is room exactly when the sizes allow it. -/
theorem LoopTrace.stop (validated : s.Validate) (paged : 1 ≤ first.mePsize) (trace : LoopTrace s first headroom count)
    (unneeded : needsResize s (first.infoAt (remappedSize s first headroom count)) (some headroom) = some false) :
    first.usedSize + headroom ≤ remappedSize s first headroom count ↔ PageToSpare s first headroom := by
  cases count with
  | zero =>
    have unasked : needsResize s first.info (some headroom) = some false := unneeded
    rw [PageToSpare, unasked, if_neg (by decide), remappedSize]
  | succ count =>
    refine ⟨trace.spare validated paged, fun spare => ?_⟩
    by_contra tight
    rw [PageToSpare, if_pos trace.asked] at spare
    have crosses := (spare count (Nat.lt_of_not_le tight)).2 (needsResize_false unneeded)
    exact absurd (crosses.symm.trans (needsResize_false_fraction unneeded)) (by decide)

theorem LoopTrace.breaks (validated : s.Validate) (paged : 1 ≤ first.mePsize)
    (trace : LoopTrace s first headroom (count + 1))
    (met : headroom + first.meMapsize ≤ askedSize s first headroom count) :
    first.usedSize + headroom ≤ remappedSize s first headroom (count + 1) ↔ PageToSpare s first headroom := by
  refine ⟨trace.spare validated paged, fun spare => ?_⟩
  by_contra tight
  rw [PageToSpare, if_pos trace.asked] at spare
  exact absurd (spare count (Nat.lt_of_not_le tight)).1 (Nat.not_lt_of_le met)

theorem resizeLoop_pageToSpare {os : ℕ → OsResize} {remaps sizes : List ℕ} (validated : s.Validate)
    (paged : 1 ≤ first.mePsize) (reached : Reached s first headroom env count)
    (trace : LoopTrace s first headroom count)
    (unmet : ∀ j, j + 1 = count → askedSize s first headroom j < headroom + first.meMapsize)
    (returned : resizeLoop s os (some headroom) headroom first.meMapsize fuel env remaps =
      .returned (.ok ()) env' sizes) :
    env'.mePsize = first.mePsize ∧ env'.mmLastPg = first.mmLastPg ∧
      (first.usedSize + headroom ≤ env'.meMapsize ↔ PageToSpare s first headroom) := by
  induction fuel generalizing env count remaps with
  | zero => cases returned
  | succ fuel ih =>
    simp only [resizeLoop] at returned
    split at returned
    · cases returned
    · rename_i unneeded
      cases returned
      rw [reached.info] at unneeded
      rw [reached.size]
      exact ⟨reached.psize, reached.last, trace.stop validated paged unneeded⟩
    · rename_i needed
      rw [reached.info] at needed
      split at returned
      · cases returned
      · cases returned
      · rename_i new after resized
        obtain ⟨next, new_eq⟩ := reached.pass validated paged resized
        have trace' := trace.snoc unmet needed
        split at returned
        · cases returned
        · rename_i sum sumEq
          have sum_eq := checkedAdd_eq sumEq
          split at returned
          · rename_i met
            cases returned
            rw [next.size]
            exact ⟨next.psize, next.last, trace'.breaks validated paged (by omega)⟩
          · refine ih next trace' ?_ returned
            rintro j ⟨⟩
            omega

end Trace

/-- Pages 0 to `last_pgno` are in use, and the headroom fits behind them. -/
def MdbEnv.SpaceBeyondUsed (env : MdbEnv) (headroom : ℕ) : Prop :=
  (env.mmLastPg + 1) * env.mePsize + headroom ≤ env.meMapsize

end SamLmdb
