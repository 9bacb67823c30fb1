import LokoOS.Base.Proc

/-!
# Procedures in step

Library `Base`. Two procedures on related receivers run in step: both panic, or both end with
one result, which satisfies a condition if it is a value, and the receivers are related again.
-/

namespace LokoOS.Base
namespace Proc

variable {σ τ ε α β : Type} {R : σ → τ → Prop} {Q : α → Prop} {Q' : β → Prop} {s : σ} {u : τ}

/-- Both procedures panic, or both end with one result, whose value satisfies a condition, on
related receivers. -/
def InStep (R : σ → τ → Prop) (Q : α → Prop) (x : Proc σ ε α) (y : Proc τ ε α) (s : σ) (u : τ) :
    Prop :=
  (x s = none ∧ y u = none) ∨
    ∃ r s' u', x s = some (r, s') ∧ y u = some (r, u') ∧ R s' u' ∧ ∀ a, r = .ok a → Q a

/-- A value is returned in step. -/
theorem InStep.pure (h : R s u) {a : α} (ha : Q a) :
    InStep R Q (pure a : Proc σ ε α) (pure a) s u := by
  refine .inr ⟨.ok a, s, u, rfl, rfl, h, ?_⟩
  intro b hb
  cases hb
  exact ha

/-- An error is returned in step. -/
theorem InStep.fail (h : R s u) (e : ε) : InStep R Q (fail e : Proc σ ε α) (fail e) s u := by
  refine .inr ⟨.error e, s, u, rfl, rfl, h, ?_⟩
  intro b hb
  cases hb

/-- The receivers are replaced in step. -/
theorem InStep.modify {f : σ → σ} {g : τ → τ} (h : R (f s) (g u)) :
    InStep R (fun _ ↦ True) (modify f : Proc σ ε Unit) (Proc.modify g) s u :=
  .inr ⟨.ok (), f s, g u, rfl, rfl, h, fun _ _ ↦ trivial⟩

/-- Sequences run in step when both of their parts do. -/
theorem InStep.bind {x : Proc σ ε α} {y : Proc τ ε α} {f : α → Proc σ ε β} {g : α → Proc τ ε β}
    (hx : InStep R Q x y s u)
    (hf : ∀ a s' u', Q a → R s' u' → InStep R Q' (f a) (g a) s' u') :
    InStep R Q' (x >>= f) (y >>= g) s u := by
  rcases hx with ⟨hs, hu⟩ | ⟨r, s', u', hs, hu, hr, hq⟩
  · refine .inl ⟨?_, ?_⟩
    · rw [run_bind, hs]
    · rw [run_bind, hu]
  · cases r with
    | error e =>
      refine .inr ⟨.error e, s', u', run_bind_error hs, run_bind_error hu, hr, ?_⟩
      intro b hb
      cases hb
    | ok a =>
      unfold InStep
      rw [run_bind_ok hs, run_bind_ok hu]
      exact hf a s' u' (hq a rfl) hr

/-- Checked computations with one result run in step. -/
theorem InStep.lift_bind {x y : Option α} {f : α → Proc σ ε β} {g : α → Proc τ ε β} (hxy : x = y)
    (hf : ∀ a, x = some a → InStep R Q' (f a) (g a) s u) :
    InStep R Q' (lift x >>= f) (lift y >>= g) s u := by
  rw [← hxy]
  cases x with
  | none => exact .inl ⟨rfl, rfl⟩
  | some a => exact hf a rfl

/-- Reading the receivers: each side goes on with its own. -/
theorem InStep.get_bind {f : σ → Proc σ ε β} {g : τ → Proc τ ε β}
    (hf : InStep R Q' (f s) (g u) s u) : InStep R Q' (get >>= f) (get >>= g) s u := hf

/-- What one side returns the other side returns too. -/
theorem InStep.eq_some {x : Proc σ ε α} {y : Proc τ ε α} (h : InStep R Q x y s u)
    {r : Except ε α} {s' : σ} (hs : x s = some (r, s')) : ∃ u', y u = some (r, u') ∧ R s' u' := by
  rcases h with ⟨hnone, -⟩ | ⟨r₁, s₁, u₁, hs₁, hu₁, hr, -⟩
  · rw [hs] at hnone
    cases hnone
  · rw [hs] at hs₁
    cases hs₁
    exact ⟨u₁, hu₁, hr⟩

end Proc
end LokoOS.Base
