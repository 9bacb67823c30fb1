import LokoOS.Security.Consent
import Mathlib.Data.List.Induction

/-!
# What past calls allow

The state of a permission after any sequence of calls, read off the calls. A covert permission
is held in the background only while the last answer for it is a permanent grant from the
settings. A refusal lasts until the settings or an answer to a prompt lift it: an answer is
recorded without looking at the state, so one that arrives after a revocation undoes it.
-/

namespace LokoOS.Security

open Record

variable {p : Permission} {s : State} {r : Record} {c : Call} {calls : List Call}

/-! ### Covert permissions -/

private theorem clamped_ne_always {g : Grant} (hp : p.isCovertCapable = true) :
    g.min p.strongestPromptGrant ≠ .Always := by
  unfold Permission.strongestPromptGrant
  rw [hp]
  cases g <;> decide

private theorem next_eq_always (hp : p.isCovertCapable = true) :
    next true p s c = .Decided .Always ↔
      c = .setFromSettings p .Always ∨ c.answers p = false ∧ s = .Decided .Always := by
  cases c with
  | decide q g =>
    by_cases hq : q = p
    · simp [next, Call.answers, hq, clamped_ne_always hp]
    · simp [next, Call.answers, hq]
  | setFromSettings q g =>
    by_cases hq : q = p
    · simp [next, Call.answers, hq]
    · simp [next, Call.answers, hq]
  | revoke q =>
    by_cases hq : q = p
    · simp [next, Call.answers, hq]
    · simp [next, Call.answers, hq]
  | endSession =>
    by_cases hs : s = .Decided .Once
    · simp [next, Call.answers, hs]
    · simp [next, Call.answers, hs]

private theorem answers_setFromSettings {g : Grant} :
    (Call.setFromSettings p g).answers p = true := beq_self_eq_true p

private theorem stateOf_run_eq_always {declared : List Permission} (hp : p.isCovertCapable = true)
    (hd : p ∈ declared) :
    ((Record.new declared).run calls).stateOf p = .Decided .Always ↔
      (calls.filter (Call.answers p)).getLast? = some (.setFromSettings p .Always) := by
  induction calls using List.reverseRecOn with
  | nil =>
    change (Record.new declared).stateOf p = _ ↔ _
    rw [stateOf_new]
    simp
  | append_singleton calls c ih =>
    have hdeclares : ((Record.new declared).run calls).declares p = true := by
      rw [declares_run]
      exact declares_new.mpr hd
    rw [run_concat, stateOf_apply, hdeclares, next_eq_always hp, ih, List.filter_append,
      List.filter_cons, List.filter_nil]
    cases hc : c.answers p with
    | true => simp
    | false =>
      have hne : c ≠ .setFromSettings p .Always := by
        intro h
        rw [h, answers_setFromSettings] at hc
        cases hc
      simp [hne]

/-- Whatever calls are made on a fresh record, a covert permission is allowed in the background
exactly when it is declared and its last answer is a permanent grant from the settings. The
check of any permission is the same for calls that differ in calls on other permissions. -/
theorem covert_in_background (declared : List Permission) (calls : List Call) :
    (∀ p, p.isCovertCapable = true →
      (((Record.new declared).run calls).check p false true = .Allow ↔
        p ∈ declared ∧
          (calls.filter (Call.answers p)).getLast? = some (.setFromSettings p .Always))) ∧
      ∀ p inForeground enabled calls',
        calls.filter (Call.concerns p) = calls'.filter (Call.concerns p) →
          ((Record.new declared).run calls).check p inForeground enabled =
            ((Record.new declared).run calls').check p inForeground enabled := by
  constructor
  · intro p hp
    rw [check_background, declares_run, declares_new]
    constructor
    · rintro ⟨hd, hs⟩
      exact ⟨hd, (stateOf_run_eq_always hp hd).mp hs⟩
    · rintro ⟨hd, hlast⟩
      exact ⟨hd, (stateOf_run_eq_always hp hd).mpr hlast⟩
  · intro p inForeground enabled calls' hsame
    apply check_congr
    · rw [declares_run, declares_run]
    · rw [← stateOf_run_filter, hsame, stateOf_run_filter]

/-! ### Refusals -/

/-- The user has refused a permission, if the application declares it at all. -/
def Record.Refused (r : Record) (p : Permission) : Prop :=
  r.declares p = true → r.stateOf p = .Decided .Denied

/-- Neither allowed nor prompted for, whatever the circumstances. -/
def Record.Silent (r : Record) (p : Permission) : Prop :=
  ∀ inForeground enabled,
    r.check p inForeground enabled ≠ .Allow ∧ r.check p inForeground enabled ≠ .Prompt

private theorem refused_revoke (r : Record) (p : Permission) : (r.revoke p).Refused p := by
  intro _
  unfold revoke
  rw [stateOf_setState, if_pos rfl]

private theorem refused_decide (r : Record) (p : Permission) : (r.decide p .Denied).Refused p := by
  intro hd
  rw [show r.decide p .Denied = r.apply (.decide p .Denied) from rfl, declares_apply] at hd
  change (r.apply (.decide p .Denied)).stateOf p = _
  rw [stateOf_apply]
  change (if _ then _ else _) = _
  rw [if_pos ⟨rfl, hd⟩]
  cases p <;> rfl

private theorem next_refused {declared : Bool} (hset : ∀ g, c ≠ .setFromSettings p g)
    (hdecide : declared = true → ∀ g, c = .decide p g → g = .Denied) :
    next declared p (.Decided .Denied) c = .Decided .Denied := by
  cases c with
  | decide q g =>
    change (if _ then _ else _) = _
    split
    · next h =>
      have hg := hdecide h.2 g (by rw [h.1])
      rw [hg]
      cases p <;> rfl
    · rfl
  | setFromSettings q g =>
    change (if _ then _ else _) = _
    split
    · next h => exact absurd (by rw [h.1]) (hset g)
    · rfl
  | revoke q =>
    change (if _ then _ else _) = _
    split
    · rfl
    · rfl
  | endSession => rfl

private theorem stateOf_run_refused (hr : r.stateOf p = .Decided .Denied)
    (hset : ∀ g, .setFromSettings p g ∉ calls)
    (hdecide : r.declares p = true → ∀ g, .decide p g ∈ calls → g = .Denied) :
    (r.run calls).stateOf p = .Decided .Denied := by
  induction calls using List.reverseRecOn with
  | nil => exact hr
  | append_singleton calls c ih =>
    have hbefore : (r.run calls).stateOf p = .Decided .Denied := by
      apply ih
      · exact fun g hg ↦ hset g (List.mem_append_left _ hg)
      · exact fun hd g hg ↦ hdecide hd g (List.mem_append_left _ hg)
    rw [run_concat, stateOf_apply, hbefore]
    apply next_refused
    · intro g hc
      exact hset g (by simp [hc])
    · intro hd g hc
      rw [declares_run] at hd
      exact hdecide hd g (by simp [hc])

private theorem clamped_ne_denied {g : Grant} (hg : g ≠ .Denied) :
    g.min p.strongestPromptGrant ≠ .Denied := by
  unfold Permission.strongestPromptGrant
  cases p.isCovertCapable <;> cases g <;> first | exact absurd rfl hg | decide

/-- From a refusal on, over a run without a setting of the permission, the permission is never
allowed or prompted for exactly when it is not declared or no answer to a prompt for it in the
run is a grant. -/
theorem refusal_lasts_iff (hr : r.Refused p) (hset : ∀ g, .setFromSettings p g ∉ calls) :
    (∀ earlier, earlier <+: calls → (r.run earlier).Silent p) ↔
      (r.declares p = true → ∀ g, .decide p g ∈ calls → g = .Denied) := by
  constructor
  · intro hsilent hd g hg
    rcases List.append_of_mem hg with ⟨earlier, later, hcalls⟩
    have hleads : earlier ++ [.decide p g] <+: calls := by
      use later
      rw [hcalls, List.append_assoc, List.singleton_append]
    by_contra hne
    apply (hsilent _ hleads true true).1
    have hstate : (r.run (earlier ++ [.decide p g])).stateOf p =
        .Decided (g.min p.strongestPromptGrant) := by
      rw [run_concat, stateOf_apply, declares_run]
      exact if_pos ⟨rfl, hd⟩
    rw [check_granted (by rw [declares_run, hd]) hstate (clamped_ne_denied hne)]
  · intro hdecide earlier hleads inForeground enabled
    cases hd : r.declares p with
    | false =>
      apply check_undeclared
      rw [declares_run, hd]
    | true =>
      apply check_refused
      apply stateOf_run_refused (hr hd)
      · exact fun g hg ↦ hset g (hleads.subset hg)
      · exact fun hd g hg ↦ hdecide hd g (hleads.subset hg)

/-- After a refused prompt, ended sessions and answers for other permissions change nothing. -/
theorem refusal_lasts_files :
    (((Record.new [.Files]).decide .Files .Denied).run
      [.endSession, .decide .Camera .Always]).Silent .Files := by
  have hset : ∀ g, .setFromSettings .Files g ∉ [Call.endSession, .decide .Camera .Always] := by
    simp
  apply (refusal_lasts_iff (refused_decide (Record.new [.Files]) .Files) hset).mpr
  · simp
  · exact List.prefix_rfl

/-- The answer to a prompt that was open before the revocation is recorded after it. -/
theorem late_answer_lifts_refusal :
    ¬ ∀ (r : Record) (p : Permission) (calls : List Call), r.Refused p →
      (∀ g, .setFromSettings p g ∉ calls) → (r.run calls).Silent p := by
  intro h
  have hsilent := h ((Record.new [.Files]).revoke .Files) .Files [.decide .Files .Always]
    (refused_revoke _ _) (by simp)
  apply (hsilent true true).1
  rfl

end LokoOS.Security
