import SamLmdb.Env.Growth

/-!
The sizes that `begin_rw_txn` and `do_resize` compute are `usize`. Some sums are checked and
panic when they are too large, others are not checked; either way the call has no result, or a
wrong one, and a panic poisons `db_resize_lock`.
-/

namespace SamLmdb

inductive SizedCall where
  | beginRwTxn (headroom : Option ℕ)
  | doResize (increaseSize : Option ℕ)

/-- The call returns `Ok` or `Err`, whatever the operating system and `mdb_txn_begin` answer. -/
def SizedCall.Returns (s : DatabaseResizeSettings) (env : MdbEnv) : SizedCall → Prop
  | .beginRwTxn headroom => ∀ os mdbTxnBegin, ∃ fuel result env' remaps,
      beginRwTxnGeneric s os mdbTxnBegin headroom fuel env = .returned result env' remaps
  | .doResize increaseSize => ∀ os, ∃ result env', doResizeLocked s os env increaseSize = some (result, env')

structure StillShort (s : DatabaseResizeSettings) (env : MdbEnv) (headroom : Option ℕ) (requiredSpace k : ℕ) :
    Prop where
  needed : ∀ j ≤ k, needsResize s (env.infoAt (remappedSize s env requiredSpace j)) headroom = some true
  unmet : ∀ j < k, askedSize s env requiredSpace j < requiredSpace + env.meMapsize

/-- Every number that `begin_rw_txn` can come to is a `usize`. -/
structure BeginFits (s : DatabaseResizeSettings) (env : MdbEnv) (headroom : Option ℕ)
    (requiredSpace : ℕ) : Prop where
  required : givenOrRatio s env.meMapsize headroom = some requiredSpace
  used : env.mePsize * env.mmLastPg < usizeBound
  wanted : ∀ h ∈ headroom, h + env.mePsize * env.mmLastPg < usizeBound
  enough : needsResize s env.info headroom = some true → requiredSpace + env.meMapsize < usizeBound
  asked : ∀ k, StillShort s env headroom requiredSpace k → askedSize s env requiredSpace k < usizeBound

def SizedCall.Fits (s : DatabaseResizeSettings) (env : MdbEnv) : SizedCall → Prop
  | .beginRwTxn headroom => ∃ requiredSpace, BeginFits s env headroom requiredSpace
  | .doResize increaseSize => ∃ increase, givenOrRatio s env.meMapsize increaseSize = some increase ∧
      env.mePsize * env.mmLastPg < usizeBound ∧ roundUp (env.meMapsize + s.step increase) env.mePsize < usizeBound

theorem doResizeLocked_returns {s : DatabaseResizeSettings} {env : MdbEnv} {increaseSize : Option ℕ} {size : ℕ}
    (os : OsResize) (settled : newMapSize s env.info increaseSize = some size) :
    ∃ result env', doResizeLocked s os env increaseSize = some (result, env') := by
  simp only [doResizeLocked, settled, Option.bind_eq_bind, Option.bind_some]
  split
  · exact ⟨_, _, rfl⟩
  · exact ⟨_, _, rfl⟩

section Loop

variable {s : DatabaseResizeSettings} {first env : MdbEnv} {headroom : Option ℕ} {requiredSpace k : ℕ}

theorem StillShort.mono {j : ℕ} (short : StillShort s first headroom requiredSpace k) (before : j ≤ k) :
    StillShort s first headroom requiredSpace j :=
  ⟨fun i below => short.needed i (Nat.le_trans below before),
    fun i below => short.unmet i (Nat.lt_of_lt_of_le below before)⟩

/-- With sizes that fit, every pass ends the loop or brings the map closer to the request. -/
theorem resizeLoop_returns (os : ℕ → OsResize) (validated : s.Validate) (paged : 1 ≤ first.mePsize)
    (fits : BeginFits s first headroom requiredSpace) (reached : Reached s first requiredSpace env k)
    (needed : ∀ j < k, needsResize s (first.infoAt (remappedSize s first requiredSpace j)) headroom = some true)
    (unmet : ∀ j < k, askedSize s first requiredSpace j < requiredSpace + first.meMapsize) {fuel : ℕ}
    (remaps : List ℕ) (enough : requiredSpace + first.meMapsize - env.meMapsize < fuel) :
    ∃ result env' remaps',
      resizeLoop s os headroom requiredSpace first.meMapsize fuel env remaps = .returned result env' remaps' := by
  induction fuel generalizing env k remaps with
  | zero => omega
  | succ fuel ih =>
    have checks : needsResize s env.info headroom ≠ none := by
      rw [reached.info]
      exact needsResize_ne_none fits.used fits.wanted
    cases checked : needsResize s env.info headroom with
    | none => exact absurd checked checks
    | some verdict =>
      cases verdict with
      | false => exact ⟨_, _, _, by simp only [resizeLoop, checked]; rfl⟩
      | true =>
        have short : StillShort s first headroom requiredSpace k := by
          refine ⟨fun j within => ?_, unmet⟩
          rcases Nat.lt_or_eq_of_le within with before | rfl
          · exact needed j before
          · rw [← reached.info]
            exact checked
        have settled : newMapSize s env.info (some requiredSpace) = some (askedSize s first requiredSpace k) := by
          refine (newMapSize_iff validated (paged.trans_eq reached.psize.symm) _ _).2 ?_
          refine ⟨requiredSpace, rfl, ?_, reached.asked.symm, fits.asked k short⟩
          rw [reached.info]
          exact fits.used
        obtain ⟨result, env', resized⟩ := doResizeLocked_returns (os remaps.length) settled
        simp only [resizeLoop, checked, resized]
        cases result with
        | error e => exact ⟨_, _, _, rfl⟩
        | ok new =>
          obtain ⟨next, new_eq⟩ := reached.pass validated paged resized
          have sum := fits.enough (short.needed 0 (Nat.zero_le k))
          simp only [checkedAdd, if_pos sum]
          split
          · exact ⟨_, _, _, rfl⟩
          · rename_i met
            have closer : remappedSize s first requiredSpace k < askedSize s first requiredSpace k :=
              askedSize_gt requiredSpace validated k
            have larger : remappedSize s first requiredSpace (k + 1) = _ := remappedSize_succ requiredSpace paged k
            have size := reached.size
            have size' := next.size
            refine ih next (fun j within => short.needed j (Nat.le_of_lt_succ within)) ?_ _ ?_
            · intro j within
              rcases Nat.lt_succ_iff_lt_or_eq.1 within with before | rfl
              · exact unmet j before
              · omega
            · omega

variable {os : ℕ → OsResize} {freeSpace : ℕ}

/-- A pass that asks for a step and is granted it has sizes that fit, or there is no return. -/
theorem Granted.pass (granted : Granted first freeSpace os) (plenty : usizeBound ≤ freeSpace) (validated : s.Validate)
    (paged : 1 ≤ first.mePsize) (reached : Reached s first requiredSpace env k)
    (needed : needsResize s (first.infoAt (remappedSize s first requiredSpace k)) headroom = some true) {fuel : ℕ}
    {remaps remaps' : List ℕ} {result : Except Error Unit} {env' : MdbEnv}
    (returned : resizeLoop s os headroom requiredSpace first.meMapsize fuel env remaps =
      .returned result env' remaps') :
    askedSize s first requiredSpace k < usizeBound ∧ requiredSpace + first.meMapsize < usizeBound ∧
      (askedSize s first requiredSpace k < requiredSpace + first.meMapsize → ∃ fuel env remaps,
        Reached s first requiredSpace env (k + 1) ∧
        resizeLoop s os headroom requiredSpace first.meMapsize fuel env remaps = .returned result env' remaps') := by
  have used := (needsResize_sizes needed).1
  rw [← reached.info] at needed
  cases fuel with
  | zero => cases returned
  | succ fuel =>
    simp only [resizeLoop, needed] at returned
    rcases granted.step validated paged used reached remaps.length with
      ⟨_, panics⟩ | ⟨fits, full, _⟩ | ⟨fits, _, after, resized⟩
    · simp [panics] at returned
    · omega
    · obtain ⟨next, _⟩ := reached.pass validated paged resized
      simp only [resized] at returned
      split at returned
      · cases returned
      · rename_i sum sumEq
        have sum_eq := checkedAdd_eq sumEq
        have sum_lt := checkedAdd_lt sumEq
        refine ⟨fits, by omega, fun short => ?_⟩
        rw [if_neg (by omega)] at returned
        exact ⟨fuel, after, _, next, returned⟩

theorem Granted.reaches (granted : Granted first freeSpace os) (plenty : usizeBound ≤ freeSpace)
    (validated : s.Validate) (paged : 1 ≤ first.mePsize) (mapped : first.meMap.isSome)
    (short : StillShort s first headroom requiredSpace k) {fuel : ℕ} {remaps : List ℕ}
    {result : Except Error Unit} {env' : MdbEnv}
    (returned : resizeLoop s os headroom requiredSpace first.meMapsize fuel first [] = .returned result env' remaps) :
    ∃ fuel env sizes, Reached s first requiredSpace env k ∧
      resizeLoop s os headroom requiredSpace first.meMapsize fuel env sizes = .returned result env' remaps := by
  induction k with
  | zero => exact ⟨fuel, first, [], .start mapped, returned⟩
  | succ k ih =>
    obtain ⟨fuel, env, sizes, reached, returned⟩ := ih (short.mono (Nat.le_succ k))
    have pass := granted.pass plenty validated paged reached (short.needed k (Nat.le_succ k)) returned
    exact pass.2.2 (short.unmet k (Nat.lt_succ_self k))

end Loop

def boundless (env : MdbEnv) : OsResize where
  map := ⟨none, .ok (env.meMap.getD 0)⟩
  freeSpace := .ok usizeBound

theorem boundless_granted {env : MdbEnv} (mapped : env.meMap.isSome) :
    Granted env usizeBound fun _ => boundless env where
  free := fun _ => rfl
  truncates := fun _ => rfl
  maps := by
    intro n
    obtain ⟨addr, present⟩ := Option.isSome_iff_exists.1 mapped
    exact ⟨addr, by simp [boundless, present], fun _ => present⟩

section Begin

variable {s : DatabaseResizeSettings} {env : MdbEnv} {headroom : Option ℕ}

theorem beginRwTxn_fits (validated : s.Validate) (paged : 1 ≤ env.mePsize) (mapped : env.meMap.isSome)
    (returns : (SizedCall.beginRwTxn headroom).Returns s env) :
    ∃ requiredSpace, BeginFits s env headroom requiredSpace := by
  obtain ⟨fuel, result, env', remaps, returned⟩ := returns (fun _ => boundless env) mdbSuccess
  have granted := boundless_granted mapped
  have looped : ∃ result env', resizeDbIfNecessary s (fun _ => boundless env) headroom fuel env =
      .returned result env' remaps := by
    unfold beginRwTxnGeneric at returned
    split at returned
    · rename_i loop
      cases returned
      exact ⟨_, _, loop⟩
    · exact ⟨_, _, returned⟩
  obtain ⟨result, env', looped⟩ := looped
  unfold resizeDbIfNecessary at looped
  split at looped
  · cases looped
  · rename_i requiredSpace required
    have checked : needsResize s env.info headroom ≠ none := by
      intro panics
      cases fuel <;> simp [resizeLoop, panics] at looped
    obtain ⟨verdict, checked⟩ := Option.ne_none_iff_exists'.1 checked
    have sizes := needsResize_sizes checked
    refine ⟨requiredSpace, required, sizes.1, sizes.2, ?_, ?_⟩
    · intro needed
      exact (granted.pass (Nat.le_refl _) validated paged (.start mapped) needed looped).2.1
    · intro k short
      obtain ⟨fuel, env', sizes, reached, returned⟩ :=
        granted.reaches (Nat.le_refl _) validated paged mapped short looped
      exact (granted.pass (Nat.le_refl _) validated paged reached (short.needed k (Nat.le_refl k)) returned).1

theorem beginRwTxn_returns (validated : s.Validate) (paged : 1 ≤ env.mePsize) (mapped : env.meMap.isSome)
    {requiredSpace : ℕ} (fits : BeginFits s env headroom requiredSpace) :
    (SizedCall.beginRwTxn headroom).Returns s env := by
  intro os mdbTxnBegin
  obtain ⟨result, env', remaps, returned⟩ := resizeLoop_returns os validated paged fits (.start mapped)
    (fun j before => absurd before (Nat.not_lt_zero j)) (fun j before => absurd before (Nat.not_lt_zero j))
    [] (Nat.lt_succ_self _)
  refine ⟨requiredSpace + env.meMapsize - env.meMapsize + 1, ?_⟩
  simp only [beginRwTxnGeneric, resizeDbIfNecessary, fits.required, returned]
  split
  · exact ⟨_, _, _, rfl⟩
  · exact ⟨_, _, _, rfl⟩

end Begin

/-- The call returns just if every number that it can come to is a `usize`. -/
theorem returns_iff_fits {s : DatabaseResizeSettings} {env : MdbEnv} (call : SizedCall) (validated : s.Validate)
    (paged : 1 ≤ env.mePsize) (mapped : env.meMap.isSome) : call.Returns s env ↔ call.Fits s env := by
  cases call with
  | beginRwTxn headroom =>
    constructor
    · exact beginRwTxn_fits validated paged mapped
    · rintro ⟨requiredSpace, fits⟩
      exact beginRwTxn_returns validated paged mapped fits
  | doResize increaseSize =>
    constructor
    · intro returns
      obtain ⟨result, env', resized⟩ := returns (boundless env)
      simp only [doResizeLocked, Option.bind_eq_bind, Option.bind_eq_some_iff] at resized
      obtain ⟨size, settled, _⟩ := resized
      obtain ⟨increase, given, used, rfl, fits⟩ := (newMapSize_iff validated paged _ _).1 settled
      exact ⟨increase, given, used, fits⟩
    · rintro ⟨increase, given, used, fits⟩ os
      exact doResizeLocked_returns os ((newMapSize_iff validated paged _ _).2 ⟨increase, given, used, rfl, fits⟩)

theorem returns_iff_fits_page :
    (SizedCall.beginRwTxn (some 4096)).Returns (defaultResizeSettings fun _ _ => false)
    (freshEnv 65536 4096 (2 ^ 20)) := by
  refine (returns_iff_fits (.beginRwTxn (some 4096)) (defaultResizeSettings_validate _) (by decide) rfl).2
    ⟨4096, ?_⟩
  have unneeded : needsResize (defaultResizeSettings fun _ _ => false) (freshEnv 65536 4096 (2 ^ 20)).info (some 4096) =
      some false := rfl
  refine ⟨rfl, by decide, ?_, ?_, ?_⟩
  · rintro h ⟨⟩
    decide
  · intro needed
    exact absurd (needed.symm.trans unneeded) (by decide)
  · intro k short
    exact absurd ((short.needed 0 (Nat.zero_le k)).symm.trans unneeded) (by decide)

/-- The step of 2 GiB is granted; the request and the initial size then have no sum. -/
theorem request_sum_overflows :
    (doResizeLocked (defaultResizeSettings fun _ _ => false) grantedResize (freshEnv 65536 4096 (2 ^ 20))
        (some (2 ^ 64 - 8192))).map (·.1) = some (.ok (2 ^ 20 + 2 ^ 31)) ∧
      ¬(SizedCall.beginRwTxn (some (2 ^ 64 - 8192))).Returns (defaultResizeSettings fun _ _ => false)
        (freshEnv 65536 4096 (2 ^ 20)) := by
  refine ⟨rfl, fun returns => ?_⟩
  obtain ⟨fuel, result, env', remaps, returned⟩ := returns (fun _ => grantedResize) mdbSuccess
  cases fuel with
  | zero => cases returned
  | succ fuel =>
    have panics : beginRwTxnGeneric (defaultResizeSettings fun _ _ => false) (fun _ => grantedResize) mdbSuccess
        (some (2 ^ 64 - 8192)) (fuel + 1) (freshEnv 65536 4096 (2 ^ 20)) = .panicked := rfl
    rw [panics] at returned
    cases returned

end SamLmdb
