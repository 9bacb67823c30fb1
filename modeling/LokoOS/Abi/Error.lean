/-!
# System-call errors

Models `sdk/loko-abi/src/error.rs:11–136`: the errors, their stable numbers, and the two
directions of the register convention. An error travels as its negated number in a signed
register of 64 bits.
-/

namespace LokoOS.Abi

/-- The smallest `isize`. -/
def isizeMin : Int := -0x8000000000000000

/-- The largest `isize`. -/
def isizeMax : Int := 0x7FFFFFFFFFFFFFFF

/-- A 64-bit `isize`. -/
@[ext] structure Isize where
  val : Int
  min_le : isizeMin ≤ val
  le_max : val ≤ isizeMax
  deriving DecidableEq, Repr

/-- Checked negation; `none` is the overflow panic. -/
def negIsize (n : Isize) : Option Isize :=
  if h : isizeMin ≤ -n.val ∧ -n.val ≤ isizeMax then some ⟨-n.val, h.1, h.2⟩ else none

private theorem negIsize_eq_none {n : Isize} : negIsize n = none ↔ n.val = isizeMin := by
  have hmin := n.min_le
  have hmax := n.le_max
  unfold negIsize
  split
  · next h =>
    simp only [reduceCtorEq, false_iff]
    simp only [isizeMin, isizeMax] at *
    omega
  · next h =>
    simp only [true_iff]
    simp only [isizeMin, isizeMax] at *
    omega

private theorem negIsize_eq_some {n m : Isize} : negIsize n = some m ↔ m.val = -n.val := by
  unfold negIsize
  split
  · rw [Option.some.injEq, Isize.ext_iff]
    exact eq_comm
  · next h =>
    simp only [reduceCtorEq, false_iff]
    intro he
    exact h ⟨he ▸ m.min_le, he ▸ m.le_max⟩

/-- Why a system call failed; `error.rs:18–69`. -/
inductive Error where
  | invalidArgument
  | badHandle
  | insufficientRights
  | permissionDenied
  | notFound
  | alreadyExists
  | notImplemented
  | outOfMemory
  | wrongObjectType
  | protectedLocation
  | quotaExceeded
  | deviceFault
  | interrupted
  | wouldBlock
  | integrityFailure
  | confirmationRequired
  | runtimeMissing
  | noSuchSyscall
  deriving DecidableEq, Repr

namespace Error

/-- The stable number; `error.rs:98–100`. -/
def code : Error → Int
  | invalidArgument => 1
  | badHandle => 2
  | insufficientRights => 3
  | permissionDenied => 4
  | notFound => 5
  | alreadyExists => 6
  | notImplemented => 7
  | outOfMemory => 8
  | wrongObjectType => 9
  | protectedLocation => 10
  | quotaExceeded => 11
  | deviceFault => 12
  | interrupted => 13
  | wouldBlock => 14
  | integrityFailure => 15
  | confirmationRequired => 16
  | runtimeMissing => 17
  | noSuchSyscall => 18

/-- Every number is positive and small. -/
theorem code_bounds (e : Error) : 1 ≤ e.code ∧ e.code ≤ 18 := by
  cases e <;> decide

/-- The error in the register; `error.rs:104–106`. The negation stays in range. -/
def toRaw (e : Error) : Isize where
  val := -e.code
  min_le := by
    have := e.code_bounds
    simp only [isizeMin]
    omega
  le_max := by
    have := e.code_bounds
    simp only [isizeMax]
    omega

/-- The table of `from_raw`, whose last line is for numbers that are no error's;
`error.rs:116–134`. -/
def ofCode : Int → Error
  | 1 => invalidArgument
  | 2 => badHandle
  | 3 => insufficientRights
  | 4 => permissionDenied
  | 5 => notFound
  | 6 => alreadyExists
  | 7 => notImplemented
  | 8 => outOfMemory
  | 9 => wrongObjectType
  | 10 => protectedLocation
  | 11 => quotaExceeded
  | 12 => deviceFault
  | 13 => interrupted
  | 14 => wouldBlock
  | 15 => integrityFailure
  | 16 => confirmationRequired
  | 17 => runtimeMissing
  | 18 => noSuchSyscall
  | _ => invalidArgument

/-- The error that a register stands for; `error.rs:114–136`. The register is negated with
overflow checks on. -/
def fromRaw (raw : Isize) : Option Error := (negIsize raw).map fun n ↦ ofCode n.val

variable {e : Error} {raw : Isize} {n : Int}

/-- The two tables agree on every error. -/
theorem ofCode_code (e : Error) : ofCode e.code = e := by
  cases e <;> rfl

/-- The table sends a number to its error, or to an invalid argument. -/
theorem ofCode_cases (n : Int) : (ofCode n).code = n ∨ ofCode n = invalidArgument := by
  unfold ofCode
  split
  all_goals first
    | exact .inl rfl
    | exact .inr rfl

/-- A register has no error exactly when it holds the smallest value. -/
theorem fromRaw_eq_none : fromRaw raw = none ↔ raw.val = isizeMin := by
  rw [fromRaw, Option.map_eq_none_iff, negIsize_eq_none]

/-- The error of any other register is the one at the negated number. -/
theorem fromRaw_eq (h : raw.val ≠ isizeMin) : fromRaw raw = some (ofCode (-raw.val)) := by
  rcases hn : negIsize raw with _ | n
  · exact absurd (negIsize_eq_none.mp hn) h
  · rw [fromRaw, hn, Option.map_some, negIsize_eq_some.mp hn]

/-- A register is that of an error exactly when it holds its negated number. -/
theorem toRaw_eq_iff : e.toRaw = raw ↔ e.code = -raw.val := by
  rw [Isize.ext_iff]
  change -e.code = raw.val ↔ _
  omega

/-- The register of an error is negative. -/
theorem toRaw_neg (e : Error) : e.toRaw.val < 0 := by
  have := e.code_bounds
  change -e.code < 0
  omega

/-- An error comes back from its register. -/
theorem fromRaw_toRaw (e : Error) : fromRaw e.toRaw = some e := by
  have hcode : e.code = -e.toRaw.val := toRaw_eq_iff.mp rfl
  have hbounds := e.code_bounds
  rw [fromRaw_eq (by simp only [isizeMin]; omega), ← hcode, ofCode_code]

end Error
end LokoOS.Abi
