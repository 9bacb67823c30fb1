import LokoOS.Base.Proc

/-!
# What a procedure does not touch

Library `Base`. A procedure keeps a part of its receiver when, however it ends, the part is as
it was. The rules follow the ways procedures are put together.
-/

namespace LokoOS.Base
namespace Proc

variable {σ τ ε δ α β : Type} {part : σ → τ}

/-- However the procedure ends, a part of the receiver is as it was. -/
def Keeps (part : σ → τ) (x : Proc σ ε α) : Prop :=
  ∀ s r s', x s = some (r, s') → part s' = part s

/-- A procedure that leaves the receiver alone keeps every part of it. -/
theorem Keeps.of_same {x : Proc σ ε α} (h : ∀ s r s', x s = some (r, s') → s' = s) :
    Keeps part x := by
  intro s r s' hx
  rw [h s r s' hx]

/-- A returned value keeps every part. -/
theorem Keeps.pure (a : α) : Keeps part (pure a : Proc σ ε α) := by
  apply of_same
  intro s r s' h
  cases h
  rfl

/-- Reading the receiver keeps every part. -/
theorem Keeps.get : Keeps part (get : Proc σ ε σ) := by
  apply of_same
  intro s r s' h
  cases h
  rfl

/-- A checked computation keeps every part. -/
theorem Keeps.lift (x : Option α) : Keeps part (lift x : Proc σ ε α) := by
  apply of_same
  intro s r s' h
  cases x with
  | none => cases h
  | some a =>
    cases h
    rfl

/-- An optional value keeps every part. -/
theorem Keeps.orFail (x : Option α) (e : ε) : Keeps part (orFail x e : Proc σ ε α) := by
  apply of_same
  intro s r s' h
  cases x with
  | none =>
    cases h
    rfl
  | some a =>
    cases h
    rfl

/-- Replacing the receiver keeps the parts that the replacement keeps. -/
theorem Keeps.modify {f : σ → σ} (h : ∀ s, part (f s) = part s) :
    Keeps part (modify f : Proc σ ε Unit) := by
  intro s r s' hx
  cases hx
  exact h s

/-- A sequence keeps what both of its parts keep. -/
theorem Keeps.bind {x : Proc σ ε α} {f : α → Proc σ ε β} (hx : Keeps part x)
    (hf : ∀ a, Keeps part (f a)) : Keeps part (x >>= f) := by
  intro s r s' h
  rw [run_bind] at h
  cases hrun : x s with
  | none =>
    rw [hrun] at h
    cases h
  | some p =>
    obtain ⟨r₁, s₁⟩ := p
    rw [hrun] at h
    have hfirst := hx s r₁ s₁ hrun
    cases r₁ with
    | error e =>
      cases h
      exact hfirst
    | ok a => exact (hf a s₁ r s' h).trans hfirst

/-- Observing the result of a call keeps what the call keeps. -/
theorem Keeps.attempt {x : Proc σ ε α} (hx : Keeps part x) :
    Keeps part (attempt x : Proc σ δ (Except ε α)) := by
  intro s r s' h
  unfold Proc.attempt at h
  rw [Option.map_eq_some_iff] at h
  obtain ⟨p, hrun, he⟩ := h
  cases he
  exact hx s p.1 p.2 hrun

/-- A choice keeps what both branches keep. -/
theorem Keeps.ite {p : Prop} [Decidable p] {x y : Proc σ ε α} (hx : Keeps part x)
    (hy : Keeps part y) : Keeps part (if p then x else y) := by
  split
  · exact hx
  · exact hy

/-- A counted loop keeps what each iteration keeps. -/
theorem Keeps.forRange {n : Nat} {f : Nat → Proc σ ε Unit} (hf : ∀ i, Keeps part (f i)) :
    Keeps part (forRange n f) := by
  induction n with
  | zero => exact .pure ()
  | succ n ih => exact .bind ih fun _ ↦ hf n

/-- A list loop keeps what each iteration keeps. -/
theorem Keeps.forEach {as : List α} {f : α → Proc σ ε Unit} (hf : ∀ a, Keeps part (f a)) :
    Keeps part (forEach as f) := by
  induction as with
  | nil => exact .pure ()
  | cons a as ih => exact .bind (hf a) fun _ ↦ ih

end Proc
end LokoOS.Base
