import Mathlib.Data.Int.Notation

/-! Return codes of the C library and the error type they become (src/error.rs). -/

namespace SamLmdb

abbrev mdbSuccess : ℤ := 0
abbrev mdbKeyexist : ℤ := -30799
abbrev mdbNotfound : ℤ := -30798
abbrev mdbMapFull : ℤ := -30792
abbrev mdbReadersFull : ℤ := -30790
abbrev mdbTxnFull : ℤ := -30788
abbrev mdbIncompatible : ℤ := -30784
abbrev mdbBadRslot : ℤ := -30783
abbrev mdbBadTxn : ℤ := -30782
abbrev mdbBadValsize : ℤ := -30781
abbrev eio : ℤ := 5
abbrev enomem : ℤ := 12
abbrev ebusy : ℤ := 16
abbrev einval : ℤ := 22
abbrev enospc : ℤ := 28

@[simp] theorem mdbNotfound_ne_zero : mdbNotfound ≠ 0 := by decide

inductive Error where
  | keyExist | notFound | pageNotFound | corrupted | panic | versionMismatch | invalid
  | mapFull | dbsFull | readersFull | tlsFull | txnFull | cursorFull | pageFull | mapResized
  | incompatible | badRslot | badTxn | badValSize | badDbi
  | other (code : ℤ)
  deriving DecidableEq, Repr

def Error.fromErrCode : ℤ → Error
  | -30799 => .keyExist
  | -30798 => .notFound
  | -30797 => .pageNotFound
  | -30796 => .corrupted
  | -30795 => .panic
  | -30794 => .versionMismatch
  | -30793 => .invalid
  | -30792 => .mapFull
  | -30791 => .dbsFull
  | -30790 => .readersFull
  | -30789 => .tlsFull
  | -30788 => .txnFull
  | -30787 => .cursorFull
  | -30786 => .pageFull
  | -30785 => .mapResized
  | -30784 => .incompatible
  | -30783 => .badRslot
  | -30782 => .badTxn
  | -30781 => .badValSize
  | -30780 => .badDbi
  | errCode => .other errCode

def Error.toErrCode : Error → ℤ
  | .keyExist => -30799
  | .notFound => -30798
  | .pageNotFound => -30797
  | .corrupted => -30796
  | .panic => -30795
  | .versionMismatch => -30794
  | .invalid => -30793
  | .mapFull => -30792
  | .dbsFull => -30791
  | .readersFull => -30790
  | .tlsFull => -30789
  | .txnFull => -30788
  | .cursorFull => -30787
  | .pageFull => -30786
  | .mapResized => -30785
  | .incompatible => -30784
  | .badRslot => -30783
  | .badTxn => -30782
  | .badValSize => -30781
  | .badDbi => -30780
  | .other errCode => errCode

/-- No code is lost on its way through the error type. -/
theorem toErrCode_fromErrCode (errCode : ℤ) : (Error.fromErrCode errCode).toErrCode = errCode := by
  unfold Error.fromErrCode
  split <;> rfl

def lmdbResult (errCode : ℤ) : Except Error Unit :=
  if errCode = mdbSuccess then .ok () else .error (.fromErrCode errCode)

theorem lmdbResult_ok {errCode : ℤ} : lmdbResult errCode = .ok () ↔ errCode = mdbSuccess := by
  unfold lmdbResult
  split <;> simp_all

end SamLmdb
