import LokoOS.Base.Proc

/-!
# Procedures that do not panic

Library `Base`. A procedure comes back when it ends with a value or an error, on a given
receiver. The rules follow the ways procedures are put together.
-/

namespace LokoOS.Base
namespace Proc

variable {σ ε α β : Type} {s : σ}

/-- The procedure ends with a value or an error. -/
def Returns (x : Proc σ ε α) (s : σ) : Prop := ∃ r s', x s = some (r, s')

/-- A value is returned. -/
theorem Returns.pure (a : α) : Returns (pure a : Proc σ ε α) s := ⟨.ok a, s, rfl⟩

/-- A sequence comes back when its first part does, and its second part does after a value. -/
theorem Returns.bind {x : Proc σ ε α} {f : α → Proc σ ε β} (hx : Returns x s)
    (hf : ∀ a s', x s = some (.ok a, s') → Returns (f a) s') : Returns (x >>= f) s := by
  obtain ⟨r, s', hrun⟩ := hx
  cases r with
  | error e => exact ⟨.error e, s', run_bind_error hrun⟩
  | ok a =>
    obtain ⟨r', s'', hrun'⟩ := hf a s' hrun
    exact ⟨r', s'', by rw [run_bind_ok hrun, hrun']⟩

/-- A check comes back, and what follows it may use that the condition does not hold. -/
theorem Returns.failIf_bind {p : Prop} [Decidable p] {e : ε} {f : Unit → Proc σ ε β}
    (hf : ¬ p → Returns (f ()) s) : Returns (failIf p e >>= f) s := by
  apply Returns.bind
  · unfold failIf Returns
    split
    · exact ⟨_, _, rfl⟩
    · exact ⟨_, _, rfl⟩
  · intro a s' h
    obtain ⟨hp, rfl⟩ := failIf_eq_ok.mp h
    exact hf hp

/-- An optional value or an error comes back, and what follows may use the value. -/
theorem Returns.orFail_bind {x : Option α} {e : ε} {f : α → Proc σ ε β}
    (hf : ∀ a, x = some a → Returns (f a) s) : Returns (orFail x e >>= f) s := by
  apply Returns.bind
  · cases x with
    | none => exact ⟨_, _, rfl⟩
    | some a => exact ⟨_, _, rfl⟩
  · intro a s' h
    obtain ⟨hx, rfl⟩ := orFail_eq_ok.mp h
    exact hf a hx

/-- A checked computation comes back when it has a result. -/
theorem Returns.lift_bind {x : Option α} {a : α} {f : α → Proc σ ε β} (hx : x = some a)
    (hf : Returns (f a) s) : Returns (lift x >>= f) s := by
  rw [hx]
  exact hf

end Proc
end LokoOS.Base
