import LokoOS.Base.Transcript
import LokoOS.Security.History

/-!
# Using permissions

`security/loko-security/src/permission.rs:234–402` over a life of one application. A use is
checked, and when the check says to prompt, the user's answer is recorded. Uses come between
changes from the settings, revocations and ends of sessions, in any order.
-/

namespace LokoOS.Security
open LokoOS.Base Record

/-- What happens to an application: it uses a permission, in some circumstances and with an
answer that the user would give to a prompt, or its record is changed otherwise. -/
inductive Event
  | use (permission : Permission) (inForeground enabledSystemWide : Bool) (answer : Grant)
  | change (call : Call)
  deriving DecidableEq, Repr

/-- A use is checked and a prompt is answered; `permission.rs:234–242`. -/
def react : Event → Record → Option Outcome × Record
  | .use p inForeground enabled answer, r =>
    if r.check p inForeground enabled = .Prompt then (some .Prompt, r.decide p answer)
    else (some (r.check p inForeground enabled), r)
  | .change c, r => (none, r.apply c)

/-- The permission that an event showed a prompt for, counted. -/
def prompts (p : Permission) : Event × Option Outcome → Nat
  | (.use q _ _ _, some .Prompt) => if q = p then 1 else 0
  | _ => 0

/-- The ends of sessions that an event is, counted. -/
def sessions : Event → Nat
  | .change .endSession => 1
  | _ => 0

variable {p : Permission} {r : Record} {c : Call} {calls : List Call} {declared : List Permission}
  {inForeground enabled : Bool}

/-! ### How often the user is asked -/

/-- Whether nothing has been answered for a permission, as a count. -/
def Record.unanswered (r : Record) (p : Permission) : Nat :=
  if r.stateOf p = .NotAsked then 1 else 0

private theorem check_prompt (h : r.check p inForeground enabled = .Prompt) :
    r.declares p = true ∧ r.stateOf p = .NotAsked := by
  unfold check at h
  split at h
  · cases h
  · next hd =>
    split at h
    · cases h
    · split at h
      · next hs => exact ⟨by simpa using hd, hs⟩
      · cases h
      · split at h <;> cases h

private theorem unanswered_apply (r : Record) (c : Call) :
    (r.apply c).unanswered p ≤ sessions (.change c) + r.unanswered p := by
  unfold Record.unanswered
  rw [stateOf_apply]
  cases c with
  | decide q g =>
    simp only [next]
    split <;> simp [sessions]
  | setFromSettings q g =>
    simp only [next]
    split <;> simp [sessions]
  | revoke q =>
    simp only [next]
    split <;> simp [sessions]
  | endSession =>
    simp only [sessions]
    split <;> omega

private theorem unanswered_decide {g : Grant} (hd : r.declares p = true) :
    (r.decide p g).unanswered p = 0 := by
  have hstate : (r.apply (.decide p g)).stateOf p = .Decided (g.min p.strongestPromptGrant) := by
    rw [stateOf_apply]
    exact if_pos ⟨rfl, hd⟩
  have hne : (r.decide p g).stateOf p ≠ .NotAsked := by
    intro h
    rw [show r.decide p g = r.apply (.decide p g) from rfl, hstate] at h
    cases h
  exact if_neg hne

private theorem prompts_of_ne {e : Event} {o : Option Outcome} (h : o ≠ some .Prompt) :
    prompts p (e, o) = 0 := by
  unfold prompts
  split
  · next he => exact absurd (Prod.mk.inj he).2 h
  · rfl

private theorem prompts_react (e : Event) (r : Record) :
    prompts p (e, (react e r).1) + (react e r).2.unanswered p ≤ sessions e + r.unanswered p := by
  cases e with
  | use q inForeground enabled answer =>
    rw [react]
    by_cases hprompt : r.check q inForeground enabled = .Prompt
    · rw [if_pos hprompt]
      obtain ⟨hd, hs⟩ := check_prompt hprompt
      by_cases hq : q = p
      · subst hq
        have hfirst : r.unanswered q = 1 := if_pos hs
        rw [unanswered_decide hd, hfirst]
        simp [prompts]
      · have hkeep : (r.decide q answer).unanswered p ≤
            sessions (.change (.decide q answer)) + r.unanswered p :=
          unanswered_apply r (.decide q answer)
        simpa [prompts, sessions, hq] using hkeep
    · rw [if_neg hprompt, prompts_of_ne fun h ↦ hprompt (Option.some.inj h), Nat.zero_add]
      exact Nat.le_add_left _ _
  | change c =>
    rw [prompts_of_ne (by rw [react]; exact nofun), Nat.zero_add]
    exact unanswered_apply r c

/-- However an application uses its permissions, and whatever else happens to its record, it
makes the user answer for one permission at most once more than sessions have ended. -/
theorem prompts_le_sessions (declared : List Permission) (events : List Event) (p : Permission) :
    ((Proc.replay react events (Record.new declared)).1.map (prompts p)).sum ≤
      (events.map sessions).sum + 1 := by
  have hbudget := Proc.replay_budget react (prompts p) sessions (fun r ↦ r.unanswered p)
    prompts_react events (Record.new declared)
  have hfirst : (Record.new declared).unanswered p ≤ 1 := by
    unfold Record.unanswered
    split <;> omega
  omega

/-! ### What the user's answers allow -/

/-- The grant that a call answers for a permission with. -/
def Call.gives (p : Permission) : Call → Option Grant
  | .decide q g => if q = p then some (g.min p.strongestPromptGrant) else none
  | .setFromSettings q g => if q = p then some g else none
  | .revoke q => if q = p then some .Denied else none
  | .endSession => none

/-- The last answer for a permission is `g`, and if that was for one time then no session has
ended since. -/
def Stands (p : Permission) (calls : List Call) (g : Grant) : Prop :=
  ∃ before c after, calls = before ++ c :: after ∧ c.gives p = some g ∧
    (∀ c' ∈ after, c'.gives p = none) ∧ (g = .Once → .endSession ∉ after)

private theorem not_stands_nil {g : Grant} : ¬ Stands p [] g := by
  rintro ⟨before, c, after, hcalls, -⟩
  cases before <;> cases hcalls

private theorem stands_concat {g : Grant} : Stands p (calls ++ [c]) g ↔
    c.gives p = some g ∨ c.gives p = none ∧ Stands p calls g ∧ (g = .Once → c ≠ .endSession) := by
  constructor
  · rintro ⟨before, c', after, hcalls, hgives, hafter, honce⟩
    rcases List.eq_nil_or_concat after with rfl | ⟨after, last, rfl⟩
    · rw [← List.concat_eq_append, ← List.concat_eq_append, List.concat_inj] at hcalls
      rw [hcalls.2]
      exact .inl hgives
    · rw [List.concat_eq_append, ← List.cons_append, ← List.append_assoc] at hcalls
      rw [List.concat_eq_append] at hafter honce
      obtain ⟨hinit, hlast⟩ := List.append_inj' hcalls rfl
      cases hlast
      refine .inr ⟨hafter c (by simp), ⟨before, c', after, hinit, hgives, ?_, ?_⟩, ?_⟩
      · exact fun d hd ↦ hafter d (List.mem_append_left _ hd)
      · exact fun hg hmem ↦ honce hg (List.mem_append_left _ hmem)
      · rintro hg rfl
        exact honce hg (by simp)
  · rintro (hgives | ⟨hnone, ⟨before, c', after, rfl, hgives, hafter, honce⟩, hsession⟩)
    · exact ⟨calls, c, [], rfl, hgives, by simp, by simp⟩
    · refine ⟨before, c', after ++ [c], by simp, hgives, ?_, ?_⟩
      · intro d hd
        rcases List.mem_append.mp hd with hd | hd
        · exact hafter d hd
        · rw [List.mem_singleton.mp hd]
          exact hnone
      · intro hg hmem
        rcases List.mem_append.mp hmem with hmem | hmem
        · exact honce hg hmem
        · exact hsession hg (List.mem_singleton.mp hmem).symm

private theorem next_eq_decided {s : State} {g : Grant} : next true p s c = .Decided g ↔
    c.gives p = some g ∨
      c.gives p = none ∧ s = .Decided g ∧ (g = .Once → c ≠ .endSession) := by
  cases c with
  | decide q g' => by_cases hq : q = p <;> simp [next, Call.gives, hq]
  | setFromSettings q g' => by_cases hq : q = p <;> simp [next, Call.gives, hq]
  | revoke q => by_cases hq : q = p <;> simp [next, Call.gives, hq]
  | endSession =>
    by_cases hs : s = .Decided .Once
    · subst hs
      simp only [next, Call.gives, if_true]
      cases g <;> simp
    · simp only [next, Call.gives, if_neg hs]
      constructor
      · intro he
        refine .inr ⟨trivial, he, fun hg ↦ ?_⟩
        rw [hg] at he
        exact absurd he hs
      · rintro (h | ⟨-, he, -⟩)
        · cases h
        · exact he

private theorem stateOf_run_eq_decided {g : Grant} (hd : p ∈ declared) :
    ((Record.new declared).run calls).stateOf p = .Decided g ↔ Stands p calls g := by
  induction calls using List.reverseRecOn generalizing g with
  | nil =>
    change (Record.new declared).stateOf p = _ ↔ _
    rw [stateOf_new]
    exact ⟨nofun, fun h ↦ absurd h not_stands_nil⟩
  | append_singleton calls c ih =>
    have hdeclares : ((Record.new declared).run calls).declares p = true := by
      rw [declares_run]
      exact declares_new.mpr hd
    rw [run_concat, stateOf_apply, hdeclares, next_eq_decided, ih, stands_concat]

private theorem check_allow : r.check p inForeground enabled = .Allow ↔
    r.declares p = true ∧ enabled = true ∧
      ∃ g, r.stateOf p = .Decided g ∧ g.permits inForeground = true := by
  unfold check
  cases r.declares p with
  | false => simp
  | true =>
    cases enabled with
    | false => simp
    | true =>
      cases r.stateOf p with
      | NotAsked => simp
      | Decided g => cases g <;> cases inForeground <;> simp [Grant.permits]

/-- The calls that the events made: a prompt makes the call that records its answer. -/
def made : List (Event × Option Outcome) → List Call :=
  List.filterMap fun
    | (.use p _ _ answer, some .Prompt) => some (.decide p answer)
    | (.use _ _ _ _, _) => none
    | (.change c, _) => some c

private theorem replay_eq_run (events : List Event) (r : Record) :
    (Proc.replay react events r).2 = r.run (made (Proc.replay react events r).1) := by
  induction events generalizing r with
  | nil => rfl
  | cons e events ih =>
    rw [Proc.replay]
    simp only
    rw [ih]
    cases e with
    | use p inForeground enabled answer =>
      rw [react]
      by_cases hprompt : r.check p inForeground enabled = .Prompt
      · rw [if_pos hprompt]
        rfl
      · rw [if_neg hprompt, made, List.filterMap_cons_none]
        cases hcheck : r.check p inForeground enabled with
        | Prompt => exact absurd hcheck hprompt
        | Allow => rfl
        | Deny reason => rfl
    | change c => rfl

/-- After any events a use is allowed exactly when the permission is declared and not switched
off, and the last answer for it is a grant that permits the use and has not lapsed, as a grant
for one time does when a session ends. -/
theorem allowed_iff_consented (declared : List Permission) (events : List Event) (p : Permission)
    (inForeground enabled : Bool) :
    (Proc.replay react events (Record.new declared)).2.check p inForeground enabled = .Allow ↔
      p ∈ declared ∧ enabled = true ∧
        ∃ g, Stands p (made (Proc.replay react events (Record.new declared)).1) g ∧
          g.permits inForeground = true := by
  rw [replay_eq_run, check_allow, declares_run, declares_new]
  constructor
  · rintro ⟨hd, henabled, g, hs, hpermits⟩
    exact ⟨hd, henabled, g, (stateOf_run_eq_decided hd).mp hs, hpermits⟩
  · rintro ⟨hd, henabled, g, hs, hpermits⟩
    exact ⟨hd, henabled, g, (stateOf_run_eq_decided hd).mpr hs, hpermits⟩

end LokoOS.Security
