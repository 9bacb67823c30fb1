import Mathlib.Algebra.Ring.Nat

/-!
# Checked arithmetic and panicking procedures

Library `Base`. Unsigned 64-bit values are naturals; an addition, subtraction or product
that leaves the range has no result, which models a build whose overflow checks panic.
A `Proc` is a method on a mutable receiver: it returns a value or an error, keeps the
receiver it reached in both cases, and has no outcome at all when it panics.
-/

namespace LokoOS.Base

/-- Largest unsigned 64-bit value. -/
def u64Max : Nat := 2 ^ 64 - 1

/-- Checked addition; `none` is the overflow panic. -/
def addU64 (a b : Nat) : Option Nat := if a + b ≤ u64Max then some (a + b) else none

/-- Checked subtraction; `none` is the underflow panic. -/
def subU64 (a b : Nat) : Option Nat := if b ≤ a then some (a - b) else none

/-- Checked product; `none` is the overflow panic. -/
def mulU64 (a b : Nat) : Option Nat := if a * b ≤ u64Max then some (a * b) else none

/-- Checked sum of a list; `none` is the overflow panic. -/
def sumU64 (l : List Nat) : Option Nat := l.foldlM addU64 0

/-- Addition clamped at the largest value. -/
def saturatingAdd (a b : Nat) : Nat := min (a + b) u64Max

/-- Product clamped at the largest value. -/
def saturatingMul (a b : Nat) : Nat := min (a * b) u64Max

/-- Division rounding up. -/
def divCeil (a b : Nat) : Nat := if a % b = 0 then a / b else a / b + 1

/-- A sum in range is computed. -/
theorem addU64_of_le {a b : Nat} (h : a + b ≤ u64Max) : addU64 a b = some (a + b) := by
  simp [addU64, h]

/-- The checked sum is the sum, and it is in range. -/
theorem addU64_eq_some {a b c : Nat} : addU64 a b = some c ↔ a + b ≤ u64Max ∧ a + b = c := by
  unfold addU64
  split <;> simp [*]

private theorem foldlM_addU64 {l : List Nat} {a : Nat} (h : a + l.sum ≤ u64Max) :
    l.foldlM addU64 a = some (a + l.sum) := by
  induction l generalizing a with
  | nil => rfl
  | cons b l ih =>
    rw [List.sum_cons] at h
    rw [List.foldlM_cons, addU64_of_le (by omega), Option.bind_eq_bind, Option.bind_some,
      ih (by omega), List.sum_cons, Nat.add_assoc]

/-- The sum of a list is computed when it is in range: no partial sum is larger. -/
theorem sumU64_of_le {l : List Nat} (h : l.sum ≤ u64Max) : sumU64 l = some l.sum := by
  rw [sumU64, foldlM_addU64 (by omega), Nat.zero_add]

/-- A difference in range is computed. -/
theorem subU64_of_le {a b : Nat} (h : b ≤ a) : subU64 a b = some (a - b) := by
  simp [subU64, h]

/-- The checked difference is the difference, and it does not underflow. -/
theorem subU64_eq_some {a b c : Nat} : subU64 a b = some c ↔ b ≤ a ∧ a - b = c := by
  unfold subU64
  split <;> simp [*]

/-- A product in range is computed. -/
theorem mulU64_of_le {a b : Nat} (h : a * b ≤ u64Max) : mulU64 a b = some (a * b) := by
  simp [mulU64, h]

/-- The checked product is the product, and it is in range. -/
theorem mulU64_eq_some {a b c : Nat} : mulU64 a b = some c ↔ a * b ≤ u64Max ∧ a * b = c := by
  unfold mulU64
  split <;> simp [*]

/-- Rounding up never falls short of the dividend. -/
theorem le_divCeil_mul (a : Nat) {b : Nat} (hb : 0 < b) : a ≤ divCeil a b * b := by
  have hm := Nat.mod_lt a hb
  have he := Nat.div_add_mod a b
  have hc : a / b * b = b * (a / b) := Nat.mul_comm _ _
  unfold divCeil
  split
  · omega
  · rw [Nat.add_mul]
    omega

/-- Rounding up exceeds the dividend by less than the divisor. -/
theorem divCeil_mul_lt (a : Nat) {b : Nat} (hb : 0 < b) : divCeil a b * b < a + b := by
  have he := Nat.div_add_mod a b
  have hc : a / b * b = b * (a / b) := Nat.mul_comm _ _
  unfold divCeil
  split
  · omega
  · rw [Nat.add_mul]
    omega

/-- The quotient of a number below the dividend is below the rounded-up quotient. -/
theorem div_lt_divCeil {a b k : Nat} (h : k < a) (hb : 0 < b) : k / b < divCeil a b :=
  Nat.div_lt_of_lt_mul (Nat.lt_of_lt_of_le h (Nat.mul_comm _ b ▸ le_divCeil_mul a hb))

/-- Each of `n` items of one size ends within them. -/
theorem item_end_le {i n size : Nat} (hi : i < n) : i * size + size ≤ n * size := by
  rw [← Nat.succ_mul]
  exact Nat.mul_le_mul_right _ hi

/-- Items that end within 64 bits start at 64-bit addresses. -/
theorem item_start_le {base i n size : Nat} (hsize : 0 < size) (hi : i < n)
    (hend : base + n * size ≤ 2 ^ 64) : base + i * size ≤ u64Max := by
  have hle : i * size + size ≤ n * size := item_end_le hi
  rw [u64Max]
  omega

/-- An index below the rounded-up quotient starts below the dividend. -/
theorem mul_lt_of_lt_divCeil {a b i : Nat} (h : i < divCeil a b) : i * b < a := by
  have he := Nat.div_add_mod a b
  have hc : a / b * b = b * (a / b) := Nat.mul_comm _ _
  unfold divCeil at h
  split at h
  · have hs : (i + 1) * b ≤ a / b * b := Nat.mul_le_mul_right b h
    have hb : b ≠ 0 := by
      rintro rfl
      simp at h
    rw [Nat.add_mul] at hs
    omega
  · have hs : i * b ≤ a / b * b := Nat.mul_le_mul_right b (Nat.lt_succ_iff.mp h)
    omega

/-- A method on a mutable receiver `σ` with error type `ε`; `none` is a panic. -/
def Proc (σ ε α : Type) : Type := σ → Option (Except ε α × σ)

namespace Proc

variable {σ τ ε δ α β γ : Type}

/-- Return a value and leave the receiver alone. -/
protected def pure (a : α) : Proc σ ε α := fun s ↦ some (.ok a, s)

/-- Sequencing with early return on an error. -/
protected def bind (x : Proc σ ε α) (f : α → Proc σ ε β) : Proc σ ε β := fun s ↦
  match x s with
  | none => none
  | some (.error e, s') => some (.error e, s')
  | some (.ok a, s') => f a s'

instance : Monad (Proc σ ε) where
  pure := Proc.pure
  bind := Proc.bind

/-- Return an error and leave the receiver alone. -/
def fail (e : ε) : Proc σ ε α := fun s ↦ some (.error e, s)

/-- Return an error if a condition holds. -/
def failIf (p : Prop) [Decidable p] (e : ε) : Proc σ ε Unit := fun s ↦
  if p then some (.error e, s) else some (.ok (), s)

/-- The current receiver. -/
def get : Proc σ ε σ := fun s ↦ some (.ok s, s)

/-- Replace the receiver. -/
def modify (f : σ → σ) : Proc σ ε Unit := fun s ↦ some (.ok (), f s)

/-- Use a checked computation; its missing result is a panic. -/
def lift (x : Option α) : Proc σ ε α := fun s ↦ x.map fun a ↦ (.ok a, s)

/-- Use an optional value, returning an error when it is absent. -/
def orFail (x : Option α) (e : ε) : Proc σ ε α := fun s ↦
  match x with
  | none => some (.error e, s)
  | some a => some (.ok a, s)

/-- Observe the result of a call instead of propagating its error. -/
def attempt (x : Proc σ ε α) : Proc σ δ (Except ε α) := fun s ↦
  (x s).map fun p ↦ (.ok p.1, p.2)

/-- A result that was computed already. -/
def ofExcept (x : Except ε α) : Proc σ ε α := fun s ↦ some (x, s)

/-- Translate the error of a call. -/
def mapError (f : ε → δ) (x : Proc σ ε α) : Proc σ δ α := fun s ↦
  (x s).map fun p ↦ (p.1.mapError f, p.2)

/-- Run a procedure on a receiver of its own and return that receiver too. -/
def runOn (t : τ) (x : Proc τ ε α) : Proc σ ε (α × τ) := fun s ↦
  (x t).map fun p ↦ (p.1.map fun a ↦ (a, p.2), s)

/-- Run a body for the indices `0` to `n - 1` in order, stopping at the first error. -/
def forRange : Nat → (Nat → Proc σ ε Unit) → Proc σ ε Unit
  | 0, _ => pure ()
  | n + 1, f => do
    forRange n f
    f n

/-- Run a body for each element of a list in order, stopping at the first error. -/
def forEach : List α → (α → Proc σ ε Unit) → Proc σ ε Unit
  | [], _ => pure ()
  | a :: as, f => do
    f a
    forEach as f

/-- Running a pure computation. -/
@[simp] theorem run_pure (a : α) (s : σ) : (pure a : Proc σ ε α) s = some (.ok a, s) := rfl

/-- Running a sequence runs its first part first. -/
theorem run_bind (x : Proc σ ε α) (f : α → Proc σ ε β) (s : σ) :
    (x >>= f) s =
      match x s with
      | none => none
      | some (.error e, s') => some (.error e, s')
      | some (.ok a, s') => f a s' := rfl

/-- A first part that returns passes its value and receiver on. -/
theorem run_bind_ok {x : Proc σ ε α} {f : α → Proc σ ε β} {s s' : σ} {a : α}
    (h : x s = some (.ok a, s')) : (x >>= f) s = f a s' := by
  rw [run_bind, h]

/-- A first part that fails ends the sequence. -/
theorem run_bind_error {x : Proc σ ε α} {f : α → Proc σ ε β} {s s' : σ} {e : ε}
    (h : x s = some (.error e, s')) : (x >>= f) s = some (.error e, s') := by
  rw [run_bind, h]

/-- Running a failure. -/
@[simp] theorem run_fail (e : ε) (s : σ) : (fail e : Proc σ ε α) s = some (.error e, s) := rfl

/-- Running a receiver access. -/
@[simp] theorem run_get (s : σ) : (get : Proc σ ε σ) s = some (.ok s, s) := rfl

/-- Running a receiver update. -/
@[simp] theorem run_modify (f : σ → σ) (s : σ) :
    (modify f : Proc σ ε Unit) s = some (.ok (), f s) := rfl

/-- Running a checked computation that has a result. -/
@[simp] theorem run_lift_some (a : α) (s : σ) :
    (lift (some a) : Proc σ ε α) s = some (.ok a, s) := rfl

/-- Running a checked computation that panics. -/
@[simp] theorem run_lift_none (s : σ) : (lift none : Proc σ ε α) s = none := rfl

/-- A present optional value is returned. -/
@[simp] theorem run_orFail_some (a : α) (e : ε) (s : σ) :
    (orFail (some a) e : Proc σ ε α) s = some (.ok a, s) := rfl

/-- An absent optional value becomes the error. -/
@[simp] theorem run_orFail_none (e : ε) (s : σ) :
    (orFail none e : Proc σ ε α) s = some (.error e, s) := rfl

/-- A checked computation that has a result passes it on. -/
theorem run_lift_bind {x : Option α} {a : α} {f : α → Proc σ ε β} {s : σ} (h : x = some a) :
    (lift x >>= f) s = f a s := by
  rw [h]
  rfl

/-- A check either ends the sequence with its error or is passed. -/
theorem run_failIf_bind {p : Prop} [Decidable p] {e : ε} {f : Unit → Proc σ ε β} {s : σ} :
    (failIf p e >>= f) s = if p then some (.error e, s) else f () s := by
  by_cases hp : p <;> simp [run_bind, failIf, hp]

/-- Running an observed call. -/
theorem run_attempt (x : Proc σ ε α) (s : σ) :
    (attempt x : Proc σ δ (Except ε α)) s = (x s).map fun p ↦ (.ok p.1, p.2) := rfl

/-- A sequence returns exactly when both parts return. -/
theorem bind_eq_ok {x : Proc σ ε α} {f : α → Proc σ ε β} {s s' : σ} {b : β} :
    (x >>= f) s = some (.ok b, s') ↔
      ∃ a s₁, x s = some (.ok a, s₁) ∧ f a s₁ = some (.ok b, s') := by
  rw [run_bind]
  constructor
  · intro h
    split at h
    · cases h
    · cases h
    · next a s₁ hx => exact ⟨a, s₁, hx, h⟩
  · rintro ⟨a, s₁, hx, hf⟩
    rw [hx]
    exact hf

/-- A checked computation returns exactly its result, with the receiver unchanged. -/
theorem lift_eq_ok {x : Option α} {s s' : σ} {a : α} :
    (lift x : Proc σ ε α) s = some (.ok a, s') ↔ x = some a ∧ s = s' := by
  cases x <;> simp [lift]

/-- A checked computation at the head of a sequence returned, and the rest went on with its
result. -/
theorem lift_bind_eq_ok {x : Option α} {f : α → Proc σ ε β} {s s' : σ} {b : β} :
    (lift x >>= f) s = some (.ok b, s') ↔ ∃ a, x = some a ∧ f a s = some (.ok b, s') := by
  cases x <;> simp [run_bind]

/-- A sequence that starts with a checked sum returned. -/
theorem addU64_bind_eq_ok {m n : Nat} {f : Nat → Proc σ ε β} {s s' : σ} {b : β} :
    (lift (addU64 m n) >>= f) s = some (.ok b, s') ↔
      m + n ≤ u64Max ∧ f (m + n) s = some (.ok b, s') := by
  simp [lift_bind_eq_ok, addU64_eq_some, and_assoc]

/-- A sequence that starts with a checked difference returned. -/
theorem subU64_bind_eq_ok {m n : Nat} {f : Nat → Proc σ ε β} {s s' : σ} {b : β} :
    (lift (subU64 m n) >>= f) s = some (.ok b, s') ↔
      n ≤ m ∧ f (m - n) s = some (.ok b, s') := by
  simp [lift_bind_eq_ok, subU64_eq_some, and_assoc]

/-- A sequence that starts with a checked product returned. -/
theorem mulU64_bind_eq_ok {m n : Nat} {f : Nat → Proc σ ε β} {s s' : σ} {b : β} :
    (lift (mulU64 m n) >>= f) s = some (.ok b, s') ↔
      m * n ≤ u64Max ∧ f (m * n) s = some (.ok b, s') := by
  simp [lift_bind_eq_ok, mulU64_eq_some, and_assoc]

/-- A checked condition lets the procedure go on exactly when it does not hold. -/
theorem failIf_eq_ok {p : Prop} [Decidable p] {e : ε} {s s' : σ} {u : Unit} :
    (failIf p e : Proc σ ε Unit) s = some (.ok u, s') ↔ ¬ p ∧ s = s' := by
  unfold failIf
  split <;> simp [*]

/-- An optional value is returned exactly when it is present. -/
theorem orFail_eq_ok {x : Option α} {e : ε} {s s' : σ} {a : α} :
    (orFail x e : Proc σ ε α) s = some (.ok a, s') ↔ x = some a ∧ s = s' := by
  cases x <;> simp [orFail]

/-- A computed result returns exactly its value. -/
theorem ofExcept_eq_ok {x : Except ε α} {s s' : σ} {a : α} :
    (ofExcept x : Proc σ ε α) s = some (.ok a, s') ↔ x = .ok a ∧ s = s' := by
  simp [ofExcept]

/-- Translating errors changes no returned value. -/
theorem mapError_eq_ok {x : Proc σ ε α} {f : ε → δ} {s s' : σ} {a : α} :
    mapError f x s = some (.ok a, s') ↔ x s = some (.ok a, s') := by
  unfold mapError
  cases x s with
  | none => simp
  | some p =>
    obtain ⟨r, s₁⟩ := p
    cases r <;> simp [Except.mapError]

/-- A procedure on a receiver of its own leaves the other receiver alone. -/
theorem runOn_eq_ok {x : Proc τ ε α} {t t' : τ} {s s' : σ} {a : α} :
    runOn t x s = some (.ok (a, t'), s') ↔ x t = some (.ok a, t') ∧ s = s' := by
  unfold runOn
  cases x t with
  | none => simp
  | some p =>
    obtain ⟨r, t₁⟩ := p
    cases r with
    | error e => simp [Except.map]
    | ok b => simp [Except.map, and_assoc]

/-- Rule for a counted loop that returned: an invariant kept by each returning
iteration holds at the end. -/
theorem forRange_ok_invariant {n : Nat} {f : Nat → Proc σ ε Unit} (P : Nat → σ → Prop)
    (hstep : ∀ i s s', i < n → P i s → f i s = some (.ok (), s') → P (i + 1) s')
    {s s' : σ} (h0 : P 0 s) (h : forRange n f s = some (.ok (), s')) : P n s' := by
  induction n generalizing s' with
  | zero =>
    simp only [forRange, run_pure, Option.some.injEq, Prod.mk.injEq, true_and] at h
    exact h ▸ h0
  | succ n ih =>
    rw [forRange, bind_eq_ok] at h
    obtain ⟨u, s₁, hl, hb⟩ := h
    have hp := ih (fun i s s' hi ↦ hstep i s s' (by omega)) hl
    exact hstep n s₁ s' (by omega) hp hb

/-- Rule for a counted loop that must return: an invariant under which each iteration
returns and re-establishes it makes the loop return. -/
theorem forRange_total {n : Nat} {f : Nat → Proc σ ε Unit} (P : Nat → σ → Prop)
    (hstep : ∀ i s, i < n → P i s → ∃ s', f i s = some (.ok (), s') ∧ P (i + 1) s')
    {s : σ} (h0 : P 0 s) : ∃ s', forRange n f s = some (.ok (), s') ∧ P n s' := by
  induction n with
  | zero => exact ⟨s, rfl, h0⟩
  | succ n ih =>
    obtain ⟨s₁, hl, hp⟩ := ih fun i s hi ↦ hstep i s (by omega)
    obtain ⟨s', hb, hq⟩ := hstep n s₁ (by omega) hp
    exact ⟨s', by rw [forRange, run_bind_ok hl, hb], hq⟩

/-- Rule for a list loop that returned. -/
theorem forEach_ok_invariant {as : List α} {f : α → Proc σ ε Unit} (P : List α → σ → Prop)
    (hstep : ∀ done a s s', done ++ [a] <+: as → P done s → f a s = some (.ok (), s') →
      P (done ++ [a]) s')
    {s s' : σ} (h0 : P [] s) (h : forEach as f s = some (.ok (), s')) : P as s' := by
  suffices hg : ∀ rest done s, done ++ rest = as → P done s →
      forEach rest f s = some (.ok (), s') → P as s' from hg as [] s rfl h0 h
  intro rest
  induction rest with
  | nil =>
    intro done s he hp hr
    simp only [forEach, run_pure, Option.some.injEq, Prod.mk.injEq, true_and] at hr
    rw [List.append_nil] at he
    exact he ▸ hr ▸ hp
  | cons a rest ih =>
    intro done s he hp hr
    rw [forEach, bind_eq_ok] at hr
    obtain ⟨u, s₁, hb, hl⟩ := hr
    have hq := hstep done a s s₁ ⟨rest, by rw [← he]; simp⟩ hp hb
    exact ih (done ++ [a]) s₁ (by rw [← he]; simp) hq hl

/-- Rule for a list loop that must return. -/
theorem forEach_total {as : List α} {f : α → Proc σ ε Unit} (P : List α → σ → Prop)
    (hstep : ∀ done a s, done ++ [a] <+: as → P done s →
      ∃ s', f a s = some (.ok (), s') ∧ P (done ++ [a]) s')
    {s : σ} (h0 : P [] s) : ∃ s', forEach as f s = some (.ok (), s') ∧ P as s' := by
  suffices hg : ∀ rest done s, done ++ rest = as → P done s →
      ∃ s', forEach rest f s = some (.ok (), s') ∧ P as s' from hg as [] s rfl h0
  intro rest
  induction rest with
  | nil =>
    intro done s he hp
    rw [List.append_nil] at he
    exact ⟨s, rfl, he ▸ hp⟩
  | cons a rest ih =>
    intro done s he hp
    obtain ⟨s₁, hb, hq⟩ := hstep done a s ⟨rest, by rw [← he]; simp⟩ hp
    obtain ⟨s', hl, hr⟩ := ih (done ++ [a]) s₁ (by rw [← he]; simp) hq
    exact ⟨s', by rw [forEach, run_bind_ok hb, hl], hr⟩

/-! ### Comparing procedures -/

/-- Whatever `x` returns, `y` returns a related value, with the same effect. -/
def Relates (r : α → β → Prop) (x : Proc σ ε α) (y : Proc σ ε β) : Prop :=
  ∀ s a s', x s = some (.ok a, s') → ∃ b, r a b ∧ y s = some (.ok b, s')

/-- What the one procedure returns, the other answers with a related value. -/
theorem Relates.returns {r : α → β → Prop} {x : Proc σ ε α} {y : Proc σ ε β} {s s' : σ} {a : α}
    (h : Relates r x y) (hx : x s = some (.ok a, s')) : ∃ b, r a b ∧ y s = some (.ok b, s') :=
  h s a s' hx

/-- A procedure returns what it returns. -/
theorem Relates.refl (x : Proc σ ε α) : Relates Eq x x := fun _ a _ h ↦ ⟨a, rfl, h⟩

/-- Sequences whose first parts return the same are compared by their second parts. -/
theorem Relates.bind {r : β → γ → Prop} {x y : Proc σ ε α} {f : α → Proc σ ε β}
    {g : α → Proc σ ε γ} (hx : Relates Eq x y) (hf : ∀ a, Relates r (f a) (g a)) :
    Relates r (x >>= f) (y >>= g) := by
  intro s b s' h
  obtain ⟨a, s₁, hrun, hrest⟩ := bind_eq_ok.mp h
  obtain ⟨_, rfl, hrun'⟩ := hx s a s₁ hrun
  obtain ⟨c, hr, hrest'⟩ := hf a s₁ b s' hrest
  exact ⟨c, hr, bind_eq_ok.mpr ⟨a, s₁, hrun', hrest'⟩⟩

/-- A checked computation may have more results. -/
theorem Relates.lift {x y : Option α} (h : ∀ a, x = some a → y = some a) :
    Relates Eq (lift x : Proc σ ε α) (Proc.lift y) := by
  intro s a s' hx
  obtain ⟨hrun, rfl⟩ := lift_eq_ok.mp hx
  exact ⟨a, rfl, lift_eq_ok.mpr ⟨h a hrun, rfl⟩⟩

/-- A check may fail less often. -/
theorem Relates.failIf {p q : Prop} [Decidable p] [Decidable q] {e : ε} (h : q → p) :
    Relates Eq (failIf p e : Proc σ ε Unit) (Proc.failIf q e) := by
  intro s a s' hx
  obtain ⟨hp, rfl⟩ := failIf_eq_ok.mp hx
  exact ⟨a, rfl, failIf_eq_ok.mpr ⟨fun hq ↦ hp (h hq), rfl⟩⟩

end Proc
end LokoOS.Base
