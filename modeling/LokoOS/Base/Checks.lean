/-!
# Checks that reject

Library `Base`. A validator is a computation in `Except` that rejects with the first error it
meets. These lemmas read off what a validator that accepts has checked, and say which element
of a list a validator that rejects has stopped at.
-/

namespace LokoOS.Base

variable {ε α β : Type}

/-- Reject with an error if a condition holds. -/
def rejectIf (p : Prop) [Decidable p] (e : ε) : Except ε Unit :=
  if p then .error e else .ok ()

/-- A check accepts exactly when its condition fails. -/
theorem rejectIf_eq_ok {p : Prop} [Decidable p] {e : ε} {u : Unit} :
    rejectIf p e = .ok u ↔ ¬ p := by
  unfold rejectIf
  split <;> simp [*]

/-- A sequence accepts exactly when both parts do. -/
theorem bind_eq_ok {x : Except ε α} {f : α → Except ε β} {b : β} :
    x >>= f = .ok b ↔ ∃ a, x = .ok a ∧ f a = .ok b := by
  cases x with
  | error e => simp [bind, Except.bind]
  | ok a => simp [bind, Except.bind]

/-- A check followed by a computation accepts exactly when both do. -/
theorem seq_eq_ok {x : Except ε Unit} {y : Except ε β} {b : β} :
    (x >>= fun _ ↦ y) = .ok b ↔ x = .ok () ∧ y = .ok b := by
  rw [bind_eq_ok]
  constructor
  · rintro ⟨_, hx, hy⟩
    exact ⟨hx, hy⟩
  · rintro ⟨hx, hy⟩
    exact ⟨(), hx, hy⟩

/-- A check of a list accepts exactly when every element passes. -/
theorem forM_eq_ok {f : α → Except ε Unit} {l : List α} {u : Unit} :
    l.forM f = .ok u ↔ ∀ a ∈ l, f a = .ok () := by
  induction l with
  | nil => simp [pure, Except.pure]
  | cons a l ih =>
    have hstep : (a :: l).forM f = f a >>= fun _ ↦ l.forM f := rfl
    rw [hstep, seq_eq_ok, ih, List.forall_mem_cons]

/-- No element of the list is at fault against the ones before it. -/
def Clean (fault : List α → α → ε → Prop) (l : List α) : Prop :=
  ∀ before a after, l = before ++ a :: after → ∀ e, ¬ fault before a e

/-- The first element at fault against the ones before it is at fault with this error. -/
def FirstFault (fault : List α → α → ε → Prop) (l : List α) (e : ε) : Prop :=
  ∃ before a after, l = before ++ a :: after ∧ Clean fault before ∧ fault before a e

variable {fault : List α → α → ε → Prop} {seen l : List α} {a : α} {e : ε}

/-- Nothing is at fault in an empty list. -/
theorem clean_nil : Clean fault [] := by
  intro before a after h
  simp at h

/-- One more element keeps a list clean when it is not at fault itself. -/
theorem Clean.concat (h : Clean fault l) (ha : ∀ e, ¬ fault l a e) : Clean fault (l ++ [a]) := by
  intro before b after heq
  rcases List.eq_nil_or_concat after with rfl | ⟨after, c, rfl⟩
  · obtain ⟨rfl, hb⟩ := List.append_inj' heq rfl
    cases hb
    exact ha
  · rw [List.concat_eq_append, ← List.cons_append, ← List.append_assoc] at heq
    exact h before b after (List.append_inj' heq rfl).1

/-- What a list consists of before an element at fault is not at fault. -/
theorem Clean.not_fault (h : Clean fault (seen ++ a :: l)) : ¬ fault seen a e :=
  h seen a l rfl e

/-- Of a list whose head is not at fault, the first fault is the first one of the rest, which
is judged against one more element. -/
theorem firstFault_step (ha : ∀ e, ¬ fault seen a e) :
    (∃ before b after, a :: l = before ++ b :: after ∧
        Clean fault (seen ++ before) ∧ fault (seen ++ before) b e) ↔
      ∃ before b after, l = before ++ b :: after ∧
        Clean fault (seen ++ [a] ++ before) ∧ fault (seen ++ [a] ++ before) b e := by
  constructor
  · rintro ⟨before, b, after, heq, hclean, hb⟩
    cases before with
    | nil =>
      cases heq
      rw [List.append_nil] at hb
      exact absurd hb (ha e)
    | cons c before =>
      cases heq
      exact ⟨before, b, after, rfl, by simpa using hclean, by simpa using hb⟩
  · rintro ⟨before, b, after, heq, hclean, hb⟩
    exact ⟨a :: before, b, after, by rw [heq]; rfl, by simpa using hclean, by simpa using hb⟩

end LokoOS.Base
