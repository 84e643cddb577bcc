import Mathlib.Logic.Function.Iterate
import SamLmdb.Error
import SamLmdb.Resize

/-!
The memory map of an environment and its replacement: `mdb_env_set_mapsize` and
`mdb_env_map` of mdb.c, `set_map_size_locked` and `do_resize_locked` of
src/environment.rs. The newest record on the file's meta pages is the two fields `mmLastPg`
and `mmMapsize`; `mapping` is what the operating system has mapped.
-/

namespace SamLmdb

def pagehdrsz : ℕ := 16

/-- `METADATA(p)`: the meta record of a meta page starts behind the page header. -/
def metadata (p : ℕ) : ℕ := p + pagehdrsz

structure Mapping where
  addr : ℕ
  size : ℕ
  deriving DecidableEq, Repr

def Mapping.Contains (m : Mapping) (p : ℕ) : Prop := m.addr ≤ p ∧ p < m.addr + m.size

instance (m : Mapping) (p : ℕ) : Decidable (m.Contains p) := inferInstanceAs (Decidable (_ ∧ _))

/-- `meMap = none` is the null pointer. -/
structure MdbEnv where
  mePsize : ℕ
  meMap : Option ℕ
  meMetas : ℕ × ℕ
  meMapsize : ℕ
  meMaxpg : ℕ
  writemap : Bool
  rawpart : Bool
  fixedmap : Bool
  mapping : Option Mapping
  mmLastPg : ℕ
  mmMapsize : ℕ
  deriving DecidableEq, Repr

namespace MdbEnv

def info (env : MdbEnv) : MapInfo := ⟨env.mePsize, env.meMapsize, env.mmLastPg⟩

/-- Both meta pointers are on the meta pages of the map. -/
def MetasPlaced (env : MdbEnv) : Prop :=
  ∃ m ∈ env.mapping, env.meMetas = (metadata m.addr, metadata m.addr + env.mePsize) ∧
    m.Contains env.meMetas.1 ∧ m.Contains env.meMetas.2

/-- The map has moved away under the meta pointers, which are now behind the used pages of a
file that `ftruncate` has extended to the whole map. There are zeros. -/
def MetasZero (env : MdbEnv) : Prop :=
  env.writemap ∧ !env.rawpart ∧ ∃ m ∈ env.mapping,
    m.addr + env.mePsize * (env.mmLastPg + 1) ≤ env.meMetas.1 ∧ m.Contains env.meMetas.1 ∧
      m.Contains env.meMetas.2

/-- `mdb_env_pick_meta` dereferences both meta pointers. Elsewhere in a map they are behind
the end of the file, or on a data page, where the model has no record to read. -/
def MetasReadable (env : MdbEnv) : Prop := env.MetasPlaced ∨ env.MetasZero

instance (env : MdbEnv) : Decidable env.MetasPlaced :=
  decidable_of_iff (env.mapping.any fun m => env.meMetas = (metadata m.addr, metadata m.addr + env.mePsize) ∧
    m.Contains env.meMetas.1 ∧ m.Contains env.meMetas.2) (by
      unfold MetasPlaced
      cases env.mapping <;> simp)

instance (env : MdbEnv) : Decidable env.MetasZero :=
  decidable_of_iff (env.writemap ∧ !env.rawpart ∧ env.mapping.any fun m =>
    m.addr + env.mePsize * (env.mmLastPg + 1) ≤ env.meMetas.1 ∧ m.Contains env.meMetas.1 ∧
      m.Contains env.meMetas.2) (by
      unfold MetasZero
      cases env.mapping <;> simp)

instance (env : MdbEnv) : Decidable env.MetasReadable := inferInstanceAs (Decidable (_ ∨ _))

theorem MetasReadable.mapped {env : MdbEnv} (readable : env.MetasReadable) : ∃ m, env.mapping = some m := by
  rcases readable with ⟨m, mapped, _⟩ | ⟨_, _, m, mapped, _⟩ <;> exact ⟨m, mapped⟩

/-- What `mdb_env_pick_meta` finds. -/
def shown (env : MdbEnv) : MdbEnv := if env.MetasPlaced then env else { env with mmLastPg := 0, mmMapsize := 0 }

section Shown

variable (env : MdbEnv)

@[simp] theorem shown_mePsize : env.shown.mePsize = env.mePsize := by unfold shown; split <;> rfl
@[simp] theorem shown_meMapsize : env.shown.meMapsize = env.meMapsize := by unfold shown; split <;> rfl

theorem shown_mmLastPg_le : env.shown.mmLastPg ≤ env.mmLastPg := by
  unfold shown
  split
  · exact le_refl _
  · exact Nat.zero_le _

variable {env}

theorem MetasPlaced.shown (placed : env.MetasPlaced) : env.shown = env := if_pos placed

end Shown

/-- A live mapping at `me_map`, with both meta pointers on its meta pages. -/
def Backed (env : MdbEnv) : Prop :=
  ∃ m ∈ env.mapping, env.meMap = some m.addr ∧
    env.meMetas = (metadata m.addr, metadata m.addr + env.mePsize) ∧
    m.Contains env.meMetas.1 ∧ m.Contains env.meMetas.2

theorem Backed.placed {env : MdbEnv} (backed : env.Backed) : env.MetasPlaced := by
  obtain ⟨m, mapped, _, placed⟩ := backed
  exact ⟨m, mapped, placed⟩

theorem Backed.metasReadable {env : MdbEnv} (backed : env.Backed) : env.MetasReadable := .inl backed.placed

/-- What `mdb_env_open` establishes and a successful resize keeps. Both meta
pages come before any other page, so the last page number is at least 1. -/
structure Opened (env : MdbEnv) : Prop where
  header_fits : pagehdrsz < env.mePsize
  two_metas : 1 ≤ env.mmLastPg
  data_fits : env.mePsize * (env.mmLastPg + 1) ≤ env.meMapsize
  backed : env.Backed

end MdbEnv

def freshEnv (addr psize size : ℕ) : MdbEnv where
  mePsize := psize
  meMap := some addr
  meMetas := (metadata addr, metadata addr + psize)
  meMapsize := size
  meMaxpg := size / psize
  writemap := false
  rawpart := false
  fixedmap := false
  mapping := some ⟨addr, size⟩
  mmLastPg := 1
  mmMapsize := size

theorem freshEnv_opened {addr psize size : ℕ} (headerFits : pagehdrsz < psize) (fits : psize * 2 ≤ size) :
    (freshEnv addr psize size).Opened := by
  refine ⟨headerFits, le_refl 1, fits, ⟨addr, size⟩, rfl, rfl, rfl, ?_⟩
  simp only [freshEnv, metadata, Mapping.Contains, pagehdrsz] at *
  omega

abbrev Errno := { e : ℤ // e ≠ mdbSuccess }

theorem errno_ne_success (errCode : Errno) : ¬(errCode : ℤ) = mdbSuccess := errCode.2

/-- What the operating system answers to `ftruncate` and `mmap`. -/
structure OsMap where
  ftruncate : Option Errno
  mmap : Except Errno ℕ

/-- The file is extended first when it is written through the map. -/
def OsMap.truncation (os : OsMap) (env : MdbEnv) : Option Errno :=
  if env.writemap && !env.rawpart then os.ftruncate else none

/-- `mdb_env_map(env, addr)`: return code and environment. -/
def mdbEnvMap (os : OsMap) (env : MdbEnv) (addr : Option ℕ) : ℤ × MdbEnv :=
  match os.truncation env, os.mmap with
  | some errCode, _ => (errCode, env)
  | none, .error errCode => (errCode, { env with meMap := none })
  | none, .ok p =>
    let mapped := { env with meMap := some p, mapping := some ⟨p, env.meMapsize⟩ }
    if addr.isSome ∧ some p ≠ addr then (ebusy, mapped)
    else (mdbSuccess, { mapped with meMetas := (metadata p, metadata p + env.mePsize) })

/-- The size asked for: 0 stands for the recorded size, and the used pages must fit. -/
def roundUpToUsed (env : MdbEnv) (size : ℕ) : ℕ :=
  max (if size = 0 then env.mmMapsize else size) ((env.mmLastPg + 1) * env.mePsize)

/-- The last assignments of `mdb_env_set_mapsize`. -/
def setSize (env : MdbEnv) (size : ℕ) : MdbEnv :=
  { env with meMapsize := size, meMaxpg := if env.mePsize ≠ 0 then size / env.mePsize else env.meMaxpg }

/-- `munmap`, and the size written before the new map exists. -/
def unmapped (env : MdbEnv) (size : ℕ) : MdbEnv := { env with mapping := none, meMapsize := size }

section Unmapped

variable (os : OsMap) (env : MdbEnv) (size : ℕ)

@[simp] theorem unmapped_meMap : (unmapped env size).meMap = env.meMap := rfl
@[simp] theorem unmapped_mePsize : (unmapped env size).mePsize = env.mePsize := rfl
@[simp] theorem unmapped_meMapsize : (unmapped env size).meMapsize = size := rfl
@[simp] theorem unmapped_mapping : (unmapped env size).mapping = none := rfl
@[simp] theorem unmapped_fixedmap : (unmapped env size).fixedmap = env.fixedmap := rfl
@[simp] theorem truncation_unmapped : os.truncation (unmapped env size) = os.truncation env := rfl

@[simp] theorem ebusy_ne_success : ¬ebusy = mdbSuccess := by decide

end Unmapped

/-- `mdb_env_set_mapsize(env, size)` where the meta pointers are on the meta pages;
`meTxn` says whether a write transaction is open. -/
def mdbEnvSetMapsize (os : OsMap) (meTxn : Bool) (env : MdbEnv) (size : ℕ) : ℤ × MdbEnv :=
  match env.meMap with
  | none => (mdbSuccess, setSize env size)
  | some _ =>
    if meTxn then (einval, env)
    else
      let size := roundUpToUsed env size
      let (rc, env) := mdbEnvMap os (unmapped env size) (if env.fixedmap then env.meMap else none)
      if rc ≠ mdbSuccess then (rc, env) else (mdbSuccess, setSize env size)

/-- How far a thread inside `mdb_env_set_mapsize` has come. -/
inductive Remap where
  | enter (size : ℕ)
  | unmap (size : ℕ)
  | map (size : ℕ)
  | install (size : ℕ)
  | done (rc : ℤ)
  deriving DecidableEq, Repr

/-- The old map is gone and the new one is not installed yet. -/
def Remap.InWindow : Remap → Prop
  | .map _ => True
  | .install _ => True
  | _ => False

/-- The first action looks at the newest meta page, unless it returns before that. -/
def Remap.ReadsMetas (meTxn : Bool) (env : MdbEnv) : Remap → Bool
  | .enter _ => env.meMap.isSome && !meTxn
  | _ => false

/-- `mdb_env_set_mapsize` one externally visible action at a time, wherever the meta
pointers are. -/
def remapStep (os : OsMap) (meTxn : Bool) (env : MdbEnv) : Remap → MdbEnv × Remap
  | .enter size =>
    match env.meMap with
    | none => (setSize env size, .done mdbSuccess)
    | some _ => if meTxn then (env, .done einval) else (env, .unmap (roundUpToUsed env.shown size))
  | .unmap size => (unmapped env size, .map size)
  | .map size =>
    match os.truncation env, os.mmap with
    | some errCode, _ => (env, .done errCode)
    | none, .error errCode => ({ env with meMap := none }, .done errCode)
    | none, .ok p =>
      let mapped := { env with meMap := some p, mapping := some ⟨p, env.meMapsize⟩ }
      if env.fixedmap ∧ some p ≠ env.meMap then (mapped, .done ebusy) else (mapped, .install size)
  | .install size =>
    let p := env.meMap.getD 0
    (setSize { env with meMetas := (metadata p, metadata p + env.mePsize) } size, .done mdbSuccess)
  | .done rc => (env, .done rc)

/-- The small steps, run alone, are the whole function. -/
theorem remapStep_four (os : OsMap) (meTxn : Bool) {env : MdbEnv} (size : ℕ) (placed : env.MetasPlaced) :
    (fun e : MdbEnv × Remap => remapStep os meTxn e.1 e.2)^[4] (env, .enter size) =
      ((mdbEnvSetMapsize os meTxn env size).2, .done (mdbEnvSetMapsize os meTxn env size).1) := by
  simp only [Function.iterate_succ, Function.iterate_zero, Function.comp_apply, id_eq]
  cases present : env.meMap with
  | none => simp [remapStep, mdbEnvSetMapsize, present]
  | some old =>
    cases meTxn with
    | true => simp [remapStep, mdbEnvSetMapsize, present]
    | false =>
      rcases truncated : os.truncation env with _ | errCode
      · rcases mapped : os.mmap with errCode | p
        · simp [remapStep, mdbEnvSetMapsize, mdbEnvMap, present, truncated, mapped, errno_ne_success, placed.shown]
        · cases fixed : env.fixedmap <;> by_cases same : p = old <;>
            simp [remapStep, mdbEnvSetMapsize, mdbEnvMap, present, truncated, mapped, fixed, same, placed.shown]
      · simp [remapStep, mdbEnvSetMapsize, mdbEnvMap, present, truncated, errno_ne_success, placed.shown]

theorem le_roundUpToUsed (env : MdbEnv) (size : ℕ) :
    env.mePsize * (env.mmLastPg + 1) ≤ roundUpToUsed env size := by
  rw [Nat.mul_comm]
  exact Nat.le_max_right _ _

/-- The three ways out of `mdb_env_set_mapsize` when no write transaction is open:
no map at all, a map at an address other than the demanded one, a new map. -/
theorem mdbEnvSetMapsize_cases (os : OsMap) {env : MdbEnv} {old : ℕ} (size : ℕ) (present : env.meMap = some old) :
    ((os.truncation env).isSome ∨ os.mmap.toOption = none) ∧
        (mdbEnvSetMapsize os false env size).1 ≠ mdbSuccess ∧
        (mdbEnvSetMapsize os false env size).2.mapping = none ∨
      ∃ p, os.mmap = .ok p ∧ os.truncation env = none ∧
        ((env.fixedmap ∧ p ≠ old ∧ mdbEnvSetMapsize os false env size = (ebusy,
            { unmapped env (roundUpToUsed env size) with
              meMap := some p, mapping := some ⟨p, roundUpToUsed env size⟩ })) ∨
          ((env.fixedmap → p = old) ∧ mdbEnvSetMapsize os false env size = (mdbSuccess,
            setSize { unmapped env (roundUpToUsed env size) with
              meMap := some p, mapping := some ⟨p, roundUpToUsed env size⟩,
              meMetas := (metadata p, metadata p + env.mePsize) } (roundUpToUsed env size)))) := by
  rcases truncated : os.truncation env with _ | errCode
  · rcases mapped : os.mmap with errCode | p
    · left
      simp [mdbEnvSetMapsize, mdbEnvMap, present, truncated, mapped, errno_ne_success, Except.toOption]
    · right
      refine ⟨p, rfl, rfl, ?_⟩
      cases fixed : env.fixedmap <;> by_cases same : p = old <;>
        simp [mdbEnvSetMapsize, mdbEnvMap, present, truncated, mapped, fixed, same]
  · left
    simp [mdbEnvSetMapsize, mdbEnvMap, present, truncated, errno_ne_success]

end SamLmdb
