import LokoOS.Abi.Error

/-!
# The return value of a system call

Models `sdk/loko-abi/src/lib.rs:61–111`. A register that is not negative holds a payload, a
negative one the number of an error. Encoding loses nothing, and decoding gives every register
its meaning except the smallest, whose negation overflows.
-/

namespace LokoOS.Abi

/-- The register form of a return value; `lib.rs:68–70`. -/
structure RawReturn where
  raw : Isize
  deriving DecidableEq, Repr

namespace RawReturn

/-- Interpret a register; `lib.rs:74–80`. -/
def decode (r : RawReturn) : Option (Except Error Nat) :=
  if r.raw.val ≥ 0 then some (.ok r.raw.val.toNat)
  else (Error.fromRaw r.raw).map .error

/-- The register of a payload, which must fit; `lib.rs:89–95`. -/
def ok (value : Nat) : Option RawReturn :=
  if h : (value : Int) ≤ isizeMax then
    some ⟨value, by simp only [isizeMin]; omega, h⟩
  else none

/-- The register of an error; `lib.rs:99–101`. -/
def err (error : Error) : RawReturn := ⟨error.toRaw⟩

/-- The register of a result; `lib.rs:104–111`. -/
def fromResult : Except Error Nat → Option RawReturn
  | .ok v => ok v
  | .error e => some (err e)

/-- What a register is meant to stand for: its payload, or the error with its number, or an
invalid argument where no error has it. -/
def Denotes (raw : Isize) : Except Error Nat → Prop
  | .ok v => 0 ≤ raw.val ∧ (v : Int) = raw.val
  | .error e => raw.val < 0 ∧
      (e.toRaw = raw ∨ (∀ e' : Error, e'.toRaw ≠ raw) ∧ e = .invalidArgument)

variable {raw : Isize} {v : Nat}

private theorem decode_ok (h : (v : Int) ≤ isizeMax) :
    ∃ encoded, ok v = some encoded ∧ encoded.decode = some (.ok v) := by
  refine ⟨_, dif_pos h, ?_⟩
  have hpos : (v : Int) ≥ 0 := Int.natCast_nonneg v
  rw [decode, if_pos hpos, Int.toNat_natCast]

/-- An error comes back. -/
theorem decode_err (e : Error) : (err e).decode = some (.error e) := by
  have hneg := e.toRaw_neg
  rw [decode, if_neg (by change ¬ e.toRaw.val ≥ 0; omega)]
  change (Error.fromRaw e.toRaw).map _ = _
  rw [Error.fromRaw_toRaw, Option.map_some]

private theorem decode_min (h : raw.val = isizeMin) : (mk raw).decode = none := by
  have hneg : ¬ raw.val ≥ 0 := by
    rw [h]
    decide
  rw [decode, if_neg hneg, Error.fromRaw_eq_none.mpr h, Option.map_none]

private theorem decode_denotes (h : raw.val ≠ isizeMin) :
    ∃ r, (mk raw).decode = some r ∧ Denotes raw r := by
  by_cases hpos : raw.val ≥ 0
  · refine ⟨.ok raw.val.toNat, if_pos hpos, hpos, ?_⟩
    exact Int.toNat_of_nonneg hpos
  · refine ⟨.error (Error.ofCode (-raw.val)), ?_, Int.not_le.mp hpos, ?_⟩
    · rw [decode, if_neg hpos, Error.fromRaw_eq h, Option.map_some]
    · rcases Error.ofCode_cases (-raw.val) with hcode | hunknown
      · exact .inl (Error.toRaw_eq_iff.mpr hcode)
      · by_cases hknown : ∃ e : Error, e.toRaw = raw
        · rcases hknown with ⟨e, he⟩
          rw [← Error.toRaw_eq_iff.mp he, Error.ofCode_code]
          exact .inl he
        · rw [hunknown]
          exact .inr ⟨fun e he ↦ hknown ⟨e, he⟩, rfl⟩

/-- A result with a payload that fits survives its encoding. Decoding a register returns, and
returns what the register stands for, exactly when the register is not the smallest. -/
theorem encoding_lossless_and_total (r : Except Error Nat) (raw : Isize) :
    ((∀ v, r = .ok v → (v : Int) ≤ isizeMax) →
      ∃ encoded, fromResult r = some encoded ∧ encoded.decode = some r) ∧
    ((∃ decoded, (mk raw).decode = some decoded ∧ Denotes raw decoded) ↔
      raw.val ≠ isizeMin) := by
  constructor
  · intro hfits
    cases r with
    | ok v => exact decode_ok (hfits v rfl)
    | error e => exact ⟨err e, rfl, decode_err e⟩
  · constructor
    · rintro ⟨decoded, hdecoded, -⟩ hmin
      rw [decode_min hmin] at hdecoded
      cases hdecoded
    · exact decode_denotes

/-- The register that holds the smallest value is not decoded. -/
theorem decode_panics_smallest :
    ¬ ∃ r, (mk ⟨isizeMin, by decide, by decide⟩).decode = some r ∧
      Denotes ⟨isizeMin, by decide, by decide⟩ r := by
  rintro ⟨r, hr, -⟩
  rw [decode_min rfl] at hr
  cases hr

end RawReturn
end LokoOS.Abi
