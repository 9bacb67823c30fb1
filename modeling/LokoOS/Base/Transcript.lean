import LokoOS.Base.Proc

/-!
# Transcripts

Library `Base`. A client makes calls on one receiver, one after the other, and goes on after
an error. The transcript lists each call with its answer. A run has no outcome when one of
its calls panics.
-/

namespace LokoOS.Base
namespace Proc

variable {σ ε α κ : Type}

/-- Make the calls in order and list them with their answers. -/
def transcript (apply : κ → Proc σ ε α) :
    List κ → σ → Option (List (κ × Except ε α) × σ)
  | [], s => some ([], s)
  | c :: cs, s =>
    match apply c s with
    | none => none
    | some (answer, s') =>
      (transcript apply cs s').map fun run ↦ ((c, answer) :: run.1, run.2)

variable {apply : κ → Proc σ ε α} {s s' s'' : σ} {c : κ} {cs ds : List κ}
  {answer : Except ε α} {t u : List (κ × Except ε α)}

/-- A first call is made before the others. -/
theorem transcript_cons (h : apply c s = some (answer, s')) :
    transcript apply (c :: cs) s =
      (transcript apply cs s').map fun run ↦ ((c, answer) :: run.1, run.2) := by
  rw [transcript, h]

/-- The outcome of a run that begins with a call. -/
theorem transcript_cons_eq_some : transcript apply (c :: cs) s = some (t, s'') ↔
    ∃ answer s' u, apply c s = some (answer, s') ∧ transcript apply cs s' = some (u, s'') ∧
      t = (c, answer) :: u := by
  rw [transcript]
  constructor
  · intro h
    split at h
    · cases h
    · next answer s' happly =>
      rcases Option.map_eq_some_iff.mp h with ⟨⟨u, s₁⟩, hrun, he⟩
      cases he
      exact ⟨answer, s', u, happly, hrun, rfl⟩
  · rintro ⟨answer, s', u, happly, hrun, rfl⟩
    rw [happly]
    simp only [hrun, Option.map_some]

/-- Runs compose. -/
theorem transcript_append (h : transcript apply cs s = some (t, s'))
    (h' : transcript apply ds s' = some (u, s'')) :
    transcript apply (cs ++ ds) s = some (t ++ u, s'') := by
  induction cs generalizing s t with
  | nil =>
    cases h
    exact h'
  | cons c cs ih =>
    rcases transcript_cons_eq_some.mp h with ⟨answer, s₁, v, happly, hrun, rfl⟩
    exact transcript_cons_eq_some.mpr ⟨answer, s₁, v ++ u, happly, ih hrun, rfl⟩

/-- One more call at the end. -/
theorem transcript_concat (h : transcript apply cs s = some (t, s'))
    (hc : apply c s' = some (answer, s'')) :
    transcript apply (cs ++ [c]) s = some (t ++ [(c, answer)], s'') := by
  apply transcript_append h
  rw [transcript_cons hc]
  rfl

/-- Rule for runs that came back: an invariant that every call keeps holds at the end. -/
theorem transcript_invariant (P : σ → Prop)
    (hstep : ∀ c s answer s', P s → apply c s = some (answer, s') → P s')
    (h : transcript apply cs s = some (t, s')) (hs : P s) : P s' := by
  induction cs generalizing s t with
  | nil =>
    cases h
    exact hs
  | cons c cs ih =>
    rcases transcript_cons_eq_some.mp h with ⟨answer, s₁, v, happly, hrun, rfl⟩
    exact ih hrun (hstep c s answer s₁ hs happly)

/-- Rule for runs: an invariant under which every call returns and keeps it makes the whole
run return and holds at its end. -/
theorem transcript_total (P : σ → Prop)
    (hstep : ∀ c s, P s → ∃ answer s', apply c s = some (answer, s') ∧ P s') (cs : List κ)
    (hs : P s) : ∃ t s', transcript apply cs s = some (t, s') ∧ P s' := by
  induction cs generalizing s with
  | nil => exact ⟨[], s, rfl, hs⟩
  | cons c cs ih =>
    rcases hstep c s hs with ⟨answer, s₁, happly, hs₁⟩
    rcases ih hs₁ with ⟨t, s', hrun, hs'⟩
    exact ⟨(c, answer) :: t, s',
      transcript_cons_eq_some.mpr ⟨answer, s₁, t, happly, hrun, rfl⟩, hs'⟩

/-! ### Receivers on which no call panics -/

variable {τ β : Type}

/-- The transcript of a receiver on which no call panics. -/
def replay (step : κ → τ → β × τ) : List κ → τ → List (κ × β) × τ
  | [], t => ([], t)
  | c :: cs, t => ((c, (step c t).1) :: (replay step cs (step c t).2).1,
      (replay step cs (step c t).2).2)

/-- Rule for refinement: when each call answers as the abstract receiver does and leaves what it
leaves, whole runs do. -/
theorem transcript_refines (P : σ → Prop) (view : σ → τ) (step : κ → τ → Except ε α × τ)
    (hstep : ∀ c s, P s → ∃ s', apply c s = some ((step c (view s)).1, s') ∧
      view s' = (step c (view s)).2 ∧ P s') (cs : List κ) (hs : P s) :
    ∃ s', transcript apply cs s = some ((replay step cs (view s)).1, s') ∧
      view s' = (replay step cs (view s)).2 ∧ P s' := by
  induction cs generalizing s with
  | nil => exact ⟨s, rfl, rfl, hs⟩
  | cons c cs ih =>
    rcases hstep c s hs with ⟨s₁, happly, hview, hs₁⟩
    rcases ih hs₁ with ⟨s', hrun, hview', hs'⟩
    rw [hview] at hrun hview'
    exact ⟨s', transcript_cons_eq_some.mpr ⟨_, s₁, _, happly, hrun, rfl⟩, hview', hs'⟩

/-- Rule for budgets: when each call pays for its cost and for what it adds to a potential, the
costs of a run are covered by what its calls pay and the potential at its start. -/
theorem replay_budget (step : κ → τ → β × τ) (cost : κ × β → Nat) (pays : κ → Nat)
    (potential : τ → Nat)
    (hstep : ∀ c t, cost (c, (step c t).1) + potential (step c t).2 ≤ pays c + potential t)
    (cs : List κ) (t : τ) :
    ((replay step cs t).1.map cost).sum + potential (replay step cs t).2 ≤
      (cs.map pays).sum + potential t := by
  induction cs generalizing t with
  | nil => simp [replay]
  | cons c cs ih =>
    have hfirst := hstep c t
    have hrest := ih (step c t).2
    simp only [replay, List.map_cons, List.sum_cons]
    omega

end Proc
end LokoOS.Base
