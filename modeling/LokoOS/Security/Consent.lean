import LokoOS.Security.Permission

/-!
# Consent for one permission

What a record says about one permission is a state of its own, changed by the calls on that
permission and by the end of a session. The arrays of the record keep these states apart, so
the check of a permission is a function of its own calls.
-/

namespace LokoOS.Security

variable {p q : Permission} {g : Grant} {s : State} {r : Record} {c : Call} {calls : List Call}

/-! ### Calls and permissions -/

/-- A call answers for a permission when it sets its state. -/
def Call.answers (p : Permission) : Call → Bool
  | .decide q _ | .setFromSettings q _ | .revoke q => q == p
  | .endSession => false

/-- A call concerns a permission unless it is on another one. -/
def Call.concerns (p : Permission) : Call → Bool
  | .decide q _ | .setFromSettings q _ | .revoke q => q == p
  | .endSession => true

/-- The state of a permission after one call. -/
def next (declared : Bool) (p : Permission) (s : State) : Call → State
  | .decide q g =>
    if q = p ∧ declared = true then .Decided (g.min p.strongestPromptGrant) else s
  | .setFromSettings q g => if q = p ∧ declared = true then .Decided g else s
  | .revoke q => if q = p then .Decided .Denied else s
  | .endSession => if s = .Decided .Once then .NotAsked else s

private theorem next_of_not_concerns {declared : Bool} (h : c.concerns p = false) :
    next declared p s c = s := by
  cases c with
  | decide q g => exact if_neg fun hq ↦ beq_eq_false_iff_ne.mp h hq.1
  | setFromSettings q g => exact if_neg fun hq ↦ beq_eq_false_iff_ne.mp h hq.1
  | revoke q => exact if_neg (beq_eq_false_iff_ne.mp h)
  | endSession => cases h

/-! ### The arrays keep permissions apart -/

namespace Record

private theorem all_get_index (p : Permission) : Permission.all.get (index p) = p := by
  cases p <;> rfl

private theorem index_inj : index p = index q ↔ p = q := by
  constructor
  · intro h
    rw [← all_get_index p, h, all_get_index]
  · intro h
    rw [h]

/-- Writing the state of a permission changes no other. -/
theorem stateOf_setState : (r.setState q s).stateOf p = if q = p then s else r.stateOf p := by
  unfold stateOf setState
  rw [Vector.getElem_set]
  simp only [Fin.val_inj, index_inj]

private theorem declares_answer (s : State) :
    (if !r.declares q then r else r.setState q s).declares p = r.declares p := by
  split
  · rfl
  · rfl

/-- No call declares anything. -/
theorem declares_apply : (r.apply c).declares p = r.declares p := by
  cases c with
  | decide q g => exact declares_answer _
  | setFromSettings q g => exact declares_answer _
  | revoke q => rfl
  | endSession => rfl

private theorem stateOf_answer (s : State) :
    (if !r.declares q then r else r.setState q s).stateOf p =
      if q = p ∧ r.declares p = true then s else r.stateOf p := by
  by_cases hq : q = p
  · rw [hq]
    cases r.declares p with
    | false => simp
    | true => simp [stateOf_setState]
  · have hn : ¬ (q = p ∧ r.declares p = true) := fun h ↦ hq h.1
    rw [if_neg hn]
    split
    · rfl
    · rw [stateOf_setState, if_neg hq]

/-- A call changes what the record says about a permission as it changes the state of that
permission alone. -/
theorem stateOf_apply : (r.apply c).stateOf p = next (r.declares p) p (r.stateOf p) c := by
  cases c with
  | decide q g =>
    change Record.stateOf (if !r.declares q then r else _) p = _
    rw [stateOf_answer]
    change _ = if _ then _ else _
    split
    · next h => rw [h.1]
    · rfl
  | setFromSettings q g => exact stateOf_answer (.Decided g)
  | revoke q => exact stateOf_setState
  | endSession =>
    unfold apply endSession stateOf
    rw [Vector.getElem_map]
    rfl

/-! ### Runs -/

/-- A run declares nothing. -/
theorem declares_run : (r.run calls).declares p = r.declares p := by
  unfold run
  induction calls generalizing r with
  | nil => rfl
  | cons c calls ih => rw [List.foldl_cons, ih, declares_apply]

private theorem stateOf_run :
    (r.run calls).stateOf p = calls.foldl (next (r.declares p) p) (r.stateOf p) := by
  unfold run
  induction calls generalizing r with
  | nil => rfl
  | cons c calls ih => rw [List.foldl_cons, List.foldl_cons, ih, declares_apply, stateOf_apply]

/-- One more call. -/
theorem run_concat : r.run (calls ++ [c]) = (r.run calls).apply c := by
  unfold run
  rw [List.foldl_append]
  rfl

/-- Calls on other permissions can be left out. -/
theorem stateOf_run_filter :
    (r.run (calls.filter (Call.concerns p))).stateOf p = (r.run calls).stateOf p := by
  rw [stateOf_run, stateOf_run, List.foldl_filter]
  congr 1
  funext s c
  split
  · rfl
  · next h => exact (next_of_not_concerns (Bool.eq_false_iff.mpr h)).symm

/-- A fresh record declares what the manifest does. -/
theorem declares_new {declared : List Permission} :
    (new declared).declares p = true ↔ p ∈ declared := by
  suffices h : ∀ slots : Vector Bool Permission.all.length,
      (declared.foldl (fun slots q ↦ slots.set (index q).val true) slots)[(index p).val] = true ↔
        slots[(index p).val] = true ∨ p ∈ declared by
    unfold declares new
    rw [h, Vector.getElem_replicate]
    simp
  induction declared with
  | nil => simp
  | cons q declared ih =>
    intro slots
    simp only [List.foldl_cons]
    rw [ih, Vector.getElem_set, List.mem_cons]
    simp only [Fin.val_inj, index_inj]
    by_cases hq : q = p
    · simp [hq]
    · simp [hq, Ne.symm hq]

/-- A fresh record has asked nothing. -/
theorem stateOf_new {declared : List Permission} : (new declared).stateOf p = .NotAsked := by
  unfold stateOf new
  rw [Vector.getElem_replicate]

/-! ### The check -/

/-- The check of a permission reads its declaration and its state. -/
theorem check_congr {r' : Record} {inForeground enabled : Bool}
    (hd : r.declares p = r'.declares p) (hs : r.stateOf p = r'.stateOf p) :
    r.check p inForeground enabled = r'.check p inForeground enabled := by
  unfold check
  rw [hd, hs]

/-- In the background only a permanent grant of a declared permission allows. -/
theorem check_background :
    r.check p false true = .Allow ↔ r.declares p = true ∧ r.stateOf p = .Decided .Always := by
  unfold check
  cases r.declares p with
  | false => simp
  | true =>
    cases r.stateOf p with
    | NotAsked => simp
    | Decided g => cases g <;> simp [Grant.permits]

/-- A refused permission is denied. -/
theorem check_refused {inForeground enabled : Bool} (h : r.stateOf p = .Decided .Denied) :
    r.check p inForeground enabled ≠ .Allow ∧ r.check p inForeground enabled ≠ .Prompt := by
  unfold check
  rw [h]
  cases r.declares p with
  | false => simp
  | true => cases enabled <;> simp

/-- A permission that the manifest does not declare is denied. -/
theorem check_undeclared {inForeground enabled : Bool} (h : r.declares p = false) :
    r.check p inForeground enabled ≠ .Allow ∧ r.check p inForeground enabled ≠ .Prompt := by
  unfold check
  rw [h]
  simp

/-- Any other decision on a declared permission allows in the foreground. -/
theorem check_granted (hd : r.declares p = true) (hs : r.stateOf p = .Decided g)
    (hg : g ≠ .Denied) : r.check p true true = .Allow := by
  unfold check
  rw [hd, hs]
  cases g with
  | Denied => exact absurd rfl hg
  | Once => rfl
  | WhileInUse => rfl
  | Always => rfl

end Record

end LokoOS.Security
