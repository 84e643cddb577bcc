import Mathlib.Data.List.Chain
import SamLmdb.Env.ResizeStep

/-!
`resize_db_if_necessary` with no other activity on the environment: its loop, the
sizes it goes through, and what a return of `Ok` leaves.
-/

namespace SamLmdb

/-- How the loop ends. A panic keeps the map size it happened at. -/
inductive LoopEnd where
  | unfinished
  | panicked
  | returned (result : Except Error Unit) (env : MdbEnv) (remaps : List ℕ)

/-- The `while` loop; `remaps` collects the map sizes it has gone through. -/
def resizeLoop (s : DatabaseResizeSettings) (os : ℕ → OsResize) (headroom : Option ℕ)
    (requiredSpace initialMapSize : ℕ) : ℕ → MdbEnv → List ℕ → LoopEnd
  | 0, _, _ => .unfinished
  | fuel + 1, env, remaps =>
    match needsResize s env.info headroom with
    | none => .panicked
    | some false => .returned (.ok ()) env remaps
    | some true =>
      match doResizeLocked s (os remaps.length) env (some requiredSpace) with
      | none => .panicked
      | some (.error e, env) => .returned (.error e) env remaps
      | some (.ok newMapSize, env) =>
        match checkedAdd requiredSpace initialMapSize with
        | none => .panicked
        | some enough =>
          if enough ≤ newMapSize then .returned (.ok ()) env (remaps ++ [env.meMapsize])
          else resizeLoop s os headroom requiredSpace initialMapSize fuel env (remaps ++ [env.meMapsize])

def resizeDbIfNecessary (s : DatabaseResizeSettings) (os : ℕ → OsResize) (headroom : Option ℕ) (fuel : ℕ)
    (env : MdbEnv) : LoopEnd :=
  match givenOrRatio s env.meMapsize headroom with
  | none => .panicked
  | some requiredSpace => resizeLoop s os headroom requiredSpace env.meMapsize fuel env []

section Pass

variable {s : DatabaseResizeSettings} {os : OsResize} {env env' : MdbEnv} {requiredSpace new : ℕ}

structure Pass (s : DatabaseResizeSettings) (requiredSpace : ℕ) (env env' : MdbEnv) (new : ℕ) : Prop where
  psize : env'.mePsize = env.mePsize
  last : env'.mmLastPg = env.mmLastPg
  size : new = roundUp (env.meMapsize + s.step requiredSpace) env.mePsize
  at_least : new ≤ env'.meMapsize
  at_most : env'.meMapsize ≤ max new (env.mePsize * env.mmLastPg + env.mePsize)

theorem mdbEnvSetMapsize_size {os : OsMap} {size : ℕ} (asked : size ≠ 0)
    (success : (mdbEnvSetMapsize os false env size).1 = mdbSuccess) :
    (mdbEnvSetMapsize os false env size).2.mePsize = env.mePsize ∧
      (mdbEnvSetMapsize os false env size).2.mmLastPg = env.mmLastPg ∧
      size ≤ (mdbEnvSetMapsize os false env size).2.meMapsize ∧
      (mdbEnvSetMapsize os false env size).2.meMapsize ≤ max size (env.mePsize * env.mmLastPg + env.mePsize) := by
  have used : (env.mmLastPg + 1) * env.mePsize = env.mePsize * env.mmLastPg + env.mePsize := by
    rw [Nat.add_mul, Nat.one_mul, Nat.mul_comm]
  rcases present : env.meMap with _ | old
  · simp only [mdbEnvSetMapsize, present, setSize, le_refl, le_max_left, true_and]
  · rcases mdbEnvSetMapsize_cases os size present with ⟨_, failed, _⟩ |
      ⟨p, _, _, ⟨_, _, busy⟩ | ⟨_, result⟩⟩
    · exact absurd success failed
    · simp [busy] at success
    · rw [result]
      simp only [setSize, roundUpToUsed, unmapped, asked, if_false, used, true_and]
      omega

/-- However a step ends, the page size and the used pages stay. -/
theorem doResizeLocked_keeps {result : Except Error ℕ} {increaseSize : Option ℕ}
    (ended : doResizeLocked s os env increaseSize = some (result, env')) :
    env'.mePsize = env.mePsize ∧ env'.mmLastPg = env.mmLastPg := by
  simp only [doResizeLocked, Option.bind_eq_bind, Option.bind_eq_some_iff] at ended
  obtain ⟨size, _, ended⟩ := ended
  split at ended
  · cases ended
    exact ⟨rfl, rfl⟩
  · simp only [setMapSizeLocked, Option.some.injEq, Prod.mk.injEq] at ended
    obtain ⟨_, rfl⟩ := ended
    cases present : env.meMap with
    | none => simp [mdbEnvSetMapsize, present, setSize]
    | some old =>
      simp only [mdbEnvSetMapsize, present, mdbEnvMap]
      repeat' split
      all_goals exact ⟨rfl, rfl⟩

theorem pass_of_ok (validated : s.Validate)
    (resized : doResizeLocked s os env (some requiredSpace) = some (.ok new, env')) :
    Pass s requiredSpace env env' new := by
  obtain ⟨settled, success, rfl⟩ := doResizeLocked_ok resized
  obtain ⟨increase, given, new_eq⟩ := newMapSize_eq validated settled
  cases given
  have positive : new ≠ 0 := by
    have := (newMapSize_grows settled).1
    omega
  obtain ⟨psize, last, atLeast, atMost⟩ := mdbEnvSetMapsize_size positive success
  exact ⟨psize, last, new_eq, atLeast, atMost⟩

theorem Pass.grows (pass : Pass s requiredSpace env env' new) : env.meMapsize + s.step requiredSpace ≤ new := by
  rw [pass.size]
  exact le_roundUp _ _

/-- The check and the step overflow nowhere when the sizes leave some room. -/
theorem doResizeLocked_ne_none (validated : s.Validate) (paged : 1 ≤ env.mePsize)
    (used : env.mePsize * env.mmLastPg < usizeBound)
    (room : env.meMapsize + s.step requiredSpace + env.mePsize < usizeBound) :
    doResizeLocked s os env (some requiredSpace) ≠ none := by
  have larger := le_roundUp (env.meMapsize + s.step requiredSpace) env.mePsize
  have below := roundUp_lt (env.meMapsize + s.step requiredSpace) paged
  have whole := roundUp_mod (env.meMapsize + s.step requiredSpace) paged
  have positive := (validated.step_bounds requiredSpace).2.2
  have rounded : roundToPage (env.meMapsize + s.step requiredSpace) env.mePsize =
      some (roundUp (env.meMapsize + s.step requiredSpace) env.mePsize) := by
    unfold roundToPage roundUp checkedAdd
    unfold roundUp at below
    split <;> rename_i partly
    · rw [if_pos partly] at below
      rw [if_pos (by omega)]
    · rfl
  have sized : newMapSize s env.info (some requiredSpace) =
      some (roundUp (env.meMapsize + s.step requiredSpace) env.mePsize) := by
    have sum : checkedAdd env.meMapsize (clamp requiredSpace s.minResizeStep s.maxResizeStep) =
        some (env.meMapsize + s.step requiredSpace) := by
      unfold checkedAdd
      exact if_pos (show env.meMapsize + s.step requiredSpace < usizeBound by omega)
    have occupied : MapInfo.occupiedSize ⟨env.mePsize, env.meMapsize, env.mmLastPg⟩ =
        some (env.mePsize * env.mmLastPg) := if_pos used
    have kept : atLeastOnePage (roundUp (env.meMapsize + s.step requiredSpace) env.mePsize) env.meMapsize
        env.mePsize = some (roundUp (env.meMapsize + s.step requiredSpace) env.mePsize) := if_neg (by omega)
    simp only [newMapSize, givenOrRatio, occupied, MdbEnv.info, sum, rounded, kept, Option.bind_eq_bind,
      Option.bind_some]
    exact if_pos ⟨whole, by omega⟩
  simp only [doResizeLocked, sized, Option.bind_eq_bind, Option.bind_some]
  split <;> simp

end Pass

/-- The most remaps a request can take: one for each `max_resize_step` in it. -/
def DatabaseResizeSettings.maxRemaps (s : DatabaseResizeSettings) (requiredSpace : ℕ) : ℕ :=
  max 1 ((requiredSpace + s.maxResizeStep - 1) / s.maxResizeStep)

section Count

variable {s : DatabaseResizeSettings} {requiredSpace count : ℕ}

/-- After `maxRemaps` steps the request is met. -/
theorem DatabaseResizeSettings.Validate.steps_suffice (validated : s.Validate)
    (enough : s.maxRemaps requiredSpace ≤ count) : requiredSpace ≤ count * s.step requiredSpace := by
  have maxPositive := validated.max_positive
  have minMax := validated.min_le_max
  have one : 1 ≤ count := le_trans (le_max_left _ _) enough
  by_cases small : requiredSpace ≤ s.maxResizeStep
  · have whole : requiredSpace ≤ s.step requiredSpace := by
      simp only [DatabaseResizeSettings.step, clamp]
      omega
    calc requiredSpace ≤ s.step requiredSpace := whole
      _ ≤ count * s.step requiredSpace := Nat.le_mul_of_pos_left _ one
  · have full : s.step requiredSpace = s.maxResizeStep := by
      simp only [DatabaseResizeSettings.step, clamp]
      omega
    have quotient : (requiredSpace + s.maxResizeStep - 1) / s.maxResizeStep ≤ count :=
      le_trans (le_max_right _ _) enough
    have := (Nat.div_le_iff_le_mul_add_pred (Nat.pos_of_ne_zero maxPositive)).1 quotient
    rw [full, Nat.mul_comm]
    omega

end Count

/-- Room for every sum that the loop may take, and more than it needs. -/
def DatabaseResizeSettings.Room (s : DatabaseResizeSettings) (env : MdbEnv) (headroom : Option ℕ) : Prop :=
  ∃ requiredSpace, givenOrRatio s env.meMapsize headroom = some requiredSpace ∧
    env.meMapsize + requiredSpace + s.step requiredSpace + 2 * env.mePsize < usizeBound

/-- The loop has ended, after few remaps that each enlarge the map, and `Ok` means that the
map has the size of the last of them, and that the requested headroom fits behind the used
size. It panics only where there is no such room. -/
inductive LoopEnd.Bounded (s : DatabaseResizeSettings) (env : MdbEnv) (headroom : Option ℕ) : LoopEnd → Prop
  | panicked (overflows : ¬s.Room env headroom) : Bounded s env headroom .panicked
  | returned {requiredSpace : ℕ} {result : Except Error Unit} {env' : MdbEnv} {remaps : List ℕ}
      (required : givenOrRatio s env.meMapsize headroom = some requiredSpace)
      (grows : (env.meMapsize :: remaps).IsChain (· < ·))
      (few : remaps.length ≤ s.maxRemaps requiredSpace)
      (psize : env'.mePsize = env.mePsize)
      (last : env'.mmLastPg = env.mmLastPg)
      (size : result = .ok () → (env.meMapsize :: remaps).getLast (List.cons_ne_nil _ _) = env'.meMapsize)
      (offers : result = .ok () → ∀ h ∈ headroom, h + env.mePsize * env.mmLastPg ≤ env'.meMapsize) :
      Bounded s env headroom (.returned result env' remaps)

/-- What holds before each pass of the loop that began at `first`. -/
structure LoopInvariant (s : DatabaseResizeSettings) (first : MdbEnv) (requiredSpace : ℕ) (env : MdbEnv)
    (remaps : List ℕ) : Prop where
  psize : env.mePsize = first.mePsize
  last : env.mmLastPg = first.mmLastPg
  chain : (first.meMapsize :: remaps).IsChain (· < ·)
  size : (first.meMapsize :: remaps).getLast (List.cons_ne_nil _ _) = env.meMapsize
  grown : first.meMapsize + remaps.length * s.step requiredSpace ≤ env.meMapsize
  unmet : remaps = [] ∨ remaps.length * s.step requiredSpace < requiredSpace
  bounded : env.meMapsize ≤ first.meMapsize + requiredSpace + first.mePsize

section Loop

variable {s : DatabaseResizeSettings} {first env env' : MdbEnv} {requiredSpace new : ℕ} {remaps : List ℕ}

theorem LoopInvariant.start (s : DatabaseResizeSettings) (first : MdbEnv) (requiredSpace : ℕ) :
    LoopInvariant s first requiredSpace first [] where
  psize := rfl
  last := rfl
  chain := .singleton _
  size := rfl
  grown := by simp
  unmet := .inl rfl
  bounded := by omega

variable (validated : s.Validate) (invariant : LoopInvariant s first requiredSpace env remaps)
include validated invariant

theorem LoopInvariant.few : remaps.length < s.maxRemaps requiredSpace := by
  by_contra many
  have enough := validated.steps_suffice (not_lt.1 many)
  rcases invariant.unmet with rfl | unmet
  · have : 1 ≤ s.maxRemaps requiredSpace := le_max_left _ _
    simp at many
    omega
  · omega

theorem LoopInvariant.chain_snoc (pass : Pass s requiredSpace env env' new) :
    (first.meMapsize :: (remaps ++ [env'.meMapsize])).IsChain (· < ·) := by
  have grows := pass.grows
  have positive := (validated.step_bounds requiredSpace).2.2
  have atLeast := pass.at_least
  rw [← List.cons_append]
  refine List.isChain_append.2 ⟨invariant.chain, .singleton _, ?_⟩
  intro x last y head
  rw [List.getLast?_eq_some_getLast (List.cons_ne_nil _ _), invariant.size] at last
  cases last
  cases head
  omega

/-- A pass that does not meet the request keeps the invariant. -/
theorem LoopInvariant.pass (fits : first.mePsize * first.mmLastPg ≤ first.meMapsize)
    (pass : Pass s requiredSpace env env' new) (unmet : new < requiredSpace + first.meMapsize) :
    LoopInvariant s first requiredSpace env' (remaps ++ [env'.meMapsize]) := by
  have grows := pass.grows
  have grown := invariant.grown
  have atLeast := pass.at_least
  have atMost := pass.at_most
  have count : (remaps ++ [env'.meMapsize]).length * s.step requiredSpace =
      remaps.length * s.step requiredSpace + s.step requiredSpace := by
    rw [List.length_append, List.length_singleton, Nat.add_mul, Nat.one_mul]
  refine ⟨pass.psize.trans invariant.psize, pass.last.trans invariant.last,
    invariant.chain_snoc validated pass, ?_, ?_, .inr ?_, ?_⟩
  · rw [List.getLast_cons (by simp), List.getLast_append_singleton]
  · omega
  · omega
  · rw [invariant.psize, invariant.last] at atMost
    omega

end Loop

theorem needsResize_ne_none {s : DatabaseResizeSettings} {info : MapInfo} {headroom : Option ℕ}
    (used : info.pageSize * info.lastPgno < usizeBound)
    (room : ∀ h ∈ headroom, h + info.pageSize * info.lastPgno < usizeBound) :
    needsResize s info headroom ≠ none := by
  cases headroom with
  | none => simp [needsResize, MapInfo.occupiedSize, checkedMul, used]
  | some h =>
    simp only [needsResize, MapInfo.occupiedSize, checkedMul, checkedAdd, if_pos used, if_pos (room h rfl),
      Option.bind_eq_bind, Option.bind_some]
    split <;> simp

/-- With as much fuel as `maxRemaps` the loop comes to its end. -/
theorem resizeLoop_bounded {s : DatabaseResizeSettings} {first : MdbEnv} {headroom : Option ℕ} {requiredSpace : ℕ}
    (os : ℕ → OsResize) (validated : s.Validate) (paged : 1 ≤ first.mePsize)
    (fits : first.mePsize * first.mmLastPg ≤ first.meMapsize)
    (required : givenOrRatio s first.meMapsize headroom = some requiredSpace) {fuel : ℕ} {env : MdbEnv}
    {remaps : List ℕ} (invariant : LoopInvariant s first requiredSpace env remaps)
    (enough : s.maxRemaps requiredSpace ≤ fuel + remaps.length) :
    (resizeLoop s os headroom requiredSpace first.meMapsize fuel env remaps).Bounded s first headroom := by
  have asked : ∀ h ∈ headroom, h = requiredSpace := by
    rintro h rfl
    exact Option.some.inj required
  induction fuel generalizing env remaps with
  | zero =>
    have few := invariant.few validated
    omega
  | succ fuel ih =>
    have psize := invariant.psize
    have last := invariant.last
    have size := invariant.bounded
    have few := invariant.few validated
    have step := (validated.step_bounds requiredSpace).2.1
    have overflow (room : s.Room first headroom) :
        first.meMapsize + requiredSpace + s.step requiredSpace + 2 * first.mePsize < usizeBound := by
      obtain ⟨given, givenEq, room⟩ := room
      rw [required] at givenEq
      cases givenEq
      exact room
    simp only [resizeLoop]
    split
    · -- the check overflows
      rename_i panics
      refine .panicked fun room => ?_
      have room := overflow room
      refine needsResize_ne_none ?_ ?_ panics
      · simp only [MdbEnv.info, psize, last]
        omega
      · intro h given
        have := asked h given
        simp only [MdbEnv.info, psize, last]
        omega
    · rename_i verdict
      refine .returned required invariant.chain (by omega) psize last (fun _ => invariant.size) ?_
      rintro - h rfl
      have offered := needsResize_false verdict
      simp only [MdbEnv.info, psize, last] at offered
      omega
    · split
      · -- the step overflows
        rename_i panics
        refine .panicked fun room => ?_
        have room := overflow room
        refine doResizeLocked_ne_none validated (by omega) ?_ ?_ panics
        · rw [psize, last]
          omega
        · omega
      · rename_i refused
        have keeps := doResizeLocked_keeps refused
        exact .returned required invariant.chain (by omega) (keeps.1.trans psize) (keeps.2.trans last)
          (fun failed => by cases failed) (fun failed => by cases failed)
      · rename_i new env' resized
        have pass := pass_of_ok validated resized
        split
        · rename_i panics
          refine .panicked fun room => ?_
          have room := overflow room
          simp only [checkedAdd] at panics
          rw [if_pos (by omega)] at panics
          cases panics
        · rename_i sum sumEq
          have sum_eq := checkedAdd_eq sumEq
          split
          · -- the break: the request fits behind the initial map
            refine .returned required (invariant.chain_snoc validated pass) (by simp; omega)
              (pass.psize.trans psize) (pass.last.trans last) (fun _ => ?_) ?_
            · rw [List.getLast_cons (by simp), List.getLast_append_singleton]
            intro _ h given
            have := asked h given
            have := pass.at_least
            omega
          · refine ih (invariant.pass validated fits pass (by omega)) ?_
            simp only [List.length_append, List.length_singleton]
            omega

theorem resizeDbIfNecessary_bounded {s : DatabaseResizeSettings} {env : MdbEnv} (os : ℕ → OsResize)
    (headroom : Option ℕ) {fuel : ℕ} (validated : s.Validate) (paged : 1 ≤ env.mePsize)
    (fits : env.mePsize * env.mmLastPg ≤ env.meMapsize)
    (enough : ∀ requiredSpace ∈ givenOrRatio s env.meMapsize headroom, s.maxRemaps requiredSpace ≤ fuel) :
    (resizeDbIfNecessary s os headroom fuel env).Bounded s env headroom := by
  unfold resizeDbIfNecessary
  split
  · rename_i panics
    refine .panicked ?_
    rintro ⟨requiredSpace, given, _⟩
    rw [panics] at given
    cases given
  · rename_i requiredSpace required
    exact resizeLoop_bounded os validated paged fits required (.start s env requiredSpace)
      (by simpa using enough requiredSpace required)

def megabyteSteps : DatabaseResizeSettings where
  minResizeStep := 2 ^ 20
  maxResizeStep := 2 ^ 21
  defaultResizeRatioPercentage := 50
  crossesTrigger := fun _ _ => false

theorem megabyteSteps_validate : megabyteSteps.Validate := by
  constructor <;> simp [megabyteSteps]

theorem resizeDbIfNecessary_bounded_megabytes :
    (resizeDbIfNecessary megabyteSteps (fun _ => grantedResize) (some (2 ^ 25)) 16
      (freshEnv 65536 4096 (2 ^ 20))).Bounded megabyteSteps (freshEnv 65536 4096 (2 ^ 20)) (some (2 ^ 25)) := by
  refine resizeDbIfNecessary_bounded _ _ megabyteSteps_validate (by decide) (by decide) ?_
  intro requiredSpace given
  rw [givenOrRatio, Option.mem_def, Option.some.injEq] at given
  rw [← given]
  decide

end SamLmdb
