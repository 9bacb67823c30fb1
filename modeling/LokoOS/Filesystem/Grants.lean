import LokoOS.Filesystem.Homes

/-!
# Grants

What grants are for: they open user-owned locations to applications, each the subtree it
names and nothing else. A request that is decided without them is decided the same way
whatever is granted.
-/

namespace LokoOS.Filesystem

open LokoOS.Base

/-- A subject with other grants. -/
def Subject.withGrants (subject : Subject) (grants : List LkoPathRef) : Subject :=
  { subject with grants := grants }

/-- The classes of ordinary applications. -/
def applicationClasses : List SubjectClass := [.UserApp, .AiAgent, .CompatibilityRuntime]

variable {subject : Subject} {p q g : LkoPathRef} {l m : Location} {op : Operation}
  {gs : List LkoPathRef} {d : Decision}

private theorem hasGrantCovering_iff :
    subject.hasGrantCovering p = true ↔ ∃ g ∈ subject.grants, p.isWithin g = true :=
  List.any_eq_true

/-! ### Changes by applications -/

private theorem application_ne {k : SubjectClass} (h : k ∈ applicationClasses) :
    k ∉ systemClasses ∧ k ∉ [SubjectClass.SystemService, .SystemUpdater, .UserShell] := by
  revert k
  decide

private theorem scratch_or_granted (hclass : subject.subjectClass ∈ applicationClasses)
    (hallowed : ∀ reason, evaluate subject p op ≠ .Deny reason) :
    p.root ∈ scratchRoots ∨ Granted subject p op := by
  have hexit := evaluate_exit subject p op
  generalize evaluate subject p op = d at hexit hallowed
  cases hexit with
  | kernel hc | updating hc | driver hc | sandboxed _ hc =>
    simp [applicationClasses, hc] at hclass
  | protectedLocation | internals | crossUser | managed | ungranted =>
    exact absurd rfl (hallowed _)
  | scratch _ _ hroot => exact .inl hroot
  | permissions h | aiChange h | foreignWrite h | granted h => exact .inr h

private theorem Granted.appWritable (h : Granted subject p op)
    (hclass : subject.subjectClass ∈ applicationClasses) (hop : op.isMutating = true) :
    (effectiveProtection p).appWritable = true := by
  cases hprotection : effectiveProtection p with
  | SystemImmutable => exact absurd ⟨hprotection, hop⟩ h.unprotected
  | SystemManaged => exact absurd (h.managed hprotection hop) (application_ne hclass).2
  | UserOwned => rfl
  | Volatile => rfl

private theorem Undecided.actsFor {owner : Text} (h : Undecided subject p op) (hp : p.Names l)
    (hclass : subject.subjectClass ∉ systemClasses) (hhome : InHome owner l.components) :
    subject.ActsFor owner := by
  have hsame := h.sameUser
  rw [Bool.eq_false_iff, ne_eq, crossesUsers_iff hp] at hsame
  apply Classical.byContradiction
  intro huser
  apply hsame
  refine ⟨owner, hhome, huser, ?_⟩
  intro hsystem
  exact hclass (List.mem_cons_of_mem _ hsystem)

private theorem Granted.foreign (h : Granted subject p op)
    (hclass : subject.subjectClass = .CompatibilityRuntime) (hop : op.isMutating = true) :
    ∃ prompt, evaluate subject p op = .Confirm prompt := by
  by_cases hpermissions : op = .ChangePermissions
  · exact ⟨_, evaluate_eq_iff.mpr (.permissions h hpermissions)⟩
  · exact ⟨_, evaluate_eq_iff.mpr (.foreignWrite h hclass hpermissions hop)⟩

/-- An application that is not refused a change is in a location that applications can be
granted. If users own it, then a grant of the subject covers it, and it is in no home but
that of the subject's user; compatibility runtimes have to wait for the user there. -/
theorem changes_confined (hp : Reachable (.borrowed p))
    (hclass : subject.subjectClass ∈ applicationClasses) (hop : op.isMutating = true)
    (hallowed : ∀ reason, evaluate subject p op ≠ .Deny reason) :
    (effectiveProtection p).appWritable = true ∧
      (effectiveProtection p = .UserOwned → ∃ g ∈ subject.grants, p.isWithin g = true) ∧
      (∀ owner, InHome owner p.components → subject.ActsFor owner) ∧
      (subject.subjectClass = .CompatibilityRuntime → effectiveProtection p = .UserOwned →
        ∃ prompt, evaluate subject p op = .Confirm prompt) := by
  rcases reachable_names hp with ⟨l, hl⟩
  rw [hl.components]
  rcases scratch_or_granted hclass hallowed with hscratch | hgranted
  · -- The scratch space belongs to nobody.
    have hvolatile := effectiveProtection_scratch hscratch
    refine ⟨?_, ?_, ?_, ?_⟩
    · rw [hvolatile]
      rfl
    · intro howned
      rw [hvolatile] at howned
      cases howned
    · intro owner hhome
      rw [hl.root, (inHome_iff.mp hhome).1] at hscratch
      exact absurd hscratch (by decide)
    · intro _ howned
      rw [hvolatile] at howned
      cases howned
  · have hsystem := application_ne hclass
    refine ⟨?_, ?_, ?_, ?_⟩
    · exact hgranted.appWritable hclass hop
    · intro howned
      apply hasGrantCovering_iff.mp
      apply (hgranted.owned howned).resolve_left
      intro hshell
      apply hsystem.2
      simp [hshell]
    · intro owner hhome
      exact hgranted.actsFor hl hsystem.1 hhome
    · intro hforeign _
      exact hgranted.foreign hforeign hop

private theorem parse_sheet : LkoPathRef.parse "/Users/Adam/Documents/sheet.xlsx".toList =
    .ok ⟨"/Users/Adam/Documents/sheet.xlsx".toList, some .Users⟩ := rfl

/-- A compatibility runtime of Adam with a grant on a directory. -/
def wine : Subject :=
  (adam .CompatibilityRuntime).withGrants [⟨"LKO/Users/Adam/Documents".toList, some .Users⟩]

/-- The runtime writes a file in that directory. -/
theorem changes_confined_sheet :
    (effectiveProtection ⟨"/Users/Adam/Documents/sheet.xlsx".toList, some .Users⟩).appWritable =
        true ∧
      (effectiveProtection ⟨"/Users/Adam/Documents/sheet.xlsx".toList, some .Users⟩ = .UserOwned →
        ∃ g ∈ wine.grants,
          (⟨"/Users/Adam/Documents/sheet.xlsx".toList, some .Users⟩ : LkoPathRef).isWithin g =
            true) ∧
      (∀ owner, InHome owner (⟨"/Users/Adam/Documents/sheet.xlsx".toList,
        some .Users⟩ : LkoPathRef).components → wine.ActsFor owner) ∧
      (wine.subjectClass = .CompatibilityRuntime →
        effectiveProtection ⟨"/Users/Adam/Documents/sheet.xlsx".toList, some .Users⟩ =
          .UserOwned →
        ∃ prompt, evaluate wine ⟨"/Users/Adam/Documents/sheet.xlsx".toList, some .Users⟩ .Write =
          .Confirm prompt) := by
  apply changes_confined (.parse parse_sheet)
  · decide
  · rfl
  · have hverdict : evaluate wine ⟨"/Users/Adam/Documents/sheet.xlsx".toList, some .Users⟩ .Write =
        .Confirm .ForeignApplicationWrite := by decide
    rw [hverdict]
    simp

/-! ### More grants -/

private theorem Undecided.withGrants (h : Undecided subject p op) (gs : List LkoPathRef) :
    Undecided (subject.withGrants gs) p op :=
  ⟨h.notKernel, h.notDriver, h.unprotected, h.external, h.sameUser, h.notScratch⟩

private theorem hasGrantCovering_mono (hsub : ∀ g ∈ subject.grants, g ∈ gs)
    (h : subject.hasGrantCovering p = true) :
    (subject.withGrants gs).hasGrantCovering p = true := by
  rw [hasGrantCovering_iff] at h ⊢
  rcases h with ⟨g, hg, hwithin⟩
  exact ⟨g, hsub g hg, hwithin⟩

private theorem Granted.withGrants (h : Granted subject p op)
    (hsub : ∀ g ∈ subject.grants, g ∈ gs) : Granted (subject.withGrants gs) p op where
  toUndecided := h.toUndecided.withGrants gs
  notSandboxed := h.notSandboxed
  managed := h.managed
  owned howned := (h.owned howned).imp_right (hasGrantCovering_mono hsub)

private theorem Exit.withGrants (h : Exit subject p op d) (hsub : ∀ g ∈ subject.grants, g ∈ gs)
    (hd : d ≠ .Deny .NoGrant ∨ (subject.withGrants gs).hasGrantCovering p = false) :
    Exit (subject.withGrants gs) p op d := by
  cases h with
  | kernel hclass => exact .kernel hclass
  | updating hclass hopen hprotection hop => exact .updating hclass hopen hprotection hop
  | protectedLocation hkernel hclosed hprotection hop =>
    exact .protectedLocation hkernel hclosed hprotection hop
  | internals hclass hunprotected hroot => exact .internals hclass hunprotected hroot
  | driver hclass hunprotected hd => exact .driver hclass hunprotected hd
  | crossUser hkernel hdriver hcross => exact .crossUser hkernel hdriver hcross
  | scratch hkernel hdriver hroot => exact .scratch hkernel hdriver hroot
  | sandboxed h hclass hd => exact .sandboxed (h.withGrants gs) hclass hd
  | managed h hsandboxed hprotection hop hclass =>
    exact .managed (h.withGrants gs) hsandboxed hprotection hop hclass
  | ungranted h hsandboxed hprotection hclass =>
    exact .ungranted (h.withGrants gs) hsandboxed hprotection hclass (hd.resolve_left (by simp))
  | permissions h hop => exact .permissions (h.withGrants hsub) hop
  | aiChange h hclass hop => exact .aiChange (h.withGrants hsub) hclass hop
  | foreignWrite h hclass hpermissions hop =>
    exact .foreignWrite (h.withGrants hsub) hclass hpermissions hop
  | granted h hpermissions hai hforeign =>
    exact .granted (h.withGrants hsub) hpermissions hai hforeign

private theorem withGrants_opens (hnone : evaluate subject p op = .Deny .NoGrant)
    (hne : evaluate (subject.withGrants gs) p op ≠ .Deny .NoGrant) :
    effectiveProtection p = .UserOwned ∧ subject.hasGrantCovering p = false ∧
      (subject.withGrants gs).hasGrantCovering p = true ∧
      (evaluate (subject.withGrants gs) p op = .Allow ∨
        ∃ prompt, evaluate (subject.withGrants gs) p op = .Confirm prompt) := by
  rw [evaluate_eq_iff] at hnone
  cases hnone with
  | driver _ _ hd => exact absurd hd (driverRule_ne (by decide))
  | sandboxed _ _ hd => exact absurd hd (sandboxRule_ne (by decide))
  | managed h hsandboxed hprotection hop hclass =>
    have hexit : Exit (subject.withGrants gs) p op (.Deny .NoGrant) :=
      .managed (h.withGrants gs) hsandboxed hprotection hop hclass
    exact absurd (evaluate_eq_iff.mpr hexit) hne
  | ungranted h hsandboxed hprotection hclass hgrant =>
    cases hcovering : (subject.withGrants gs).hasGrantCovering p with
    | false =>
      have hexit : Exit (subject.withGrants gs) p op (.Deny .NoGrant) :=
        .ungranted (h.withGrants gs) hsandboxed hprotection hclass hcovering
      exact absurd (evaluate_eq_iff.mpr hexit) hne
    | true =>
      have hgranted : Granted (subject.withGrants gs) p op := {
        h.withGrants gs with
        notSandboxed := hsandboxed
        managed := by simp [hprotection]
        owned := fun _ ↦ .inr hcovering }
      exact ⟨hprotection, hgrant, rfl, hgranted.verdict⟩

/-- One more grant, anywhere in the list, changes a verdict only from a refusal for want of a
grant, on a path within it that users own, and then the request is allowed or put to the
user. A verdict of any other kind stays the same whatever grants are added, repeated or moved
about. -/
theorem grants_local (subject : Subject) (p : LkoPathRef) (op : Operation) :
    (∀ g l₁ l₂, subject.grants = l₁ ++ l₂ →
      evaluate (subject.withGrants (l₁ ++ g :: l₂)) p op ≠ evaluate subject p op →
        p.isWithin g = true ∧ effectiveProtection p = .UserOwned ∧
          evaluate subject p op = .Deny .NoGrant ∧
          (evaluate (subject.withGrants (l₁ ++ g :: l₂)) p op = .Allow ∨
            ∃ prompt, evaluate (subject.withGrants (l₁ ++ g :: l₂)) p op = .Confirm prompt)) ∧
      ∀ gs, (∀ g ∈ subject.grants, g ∈ gs) → evaluate subject p op ≠ .Deny .NoGrant →
        evaluate (subject.withGrants gs) p op = evaluate subject p op := by
  have hother (gs : List LkoPathRef) (hsub : ∀ g ∈ subject.grants, g ∈ gs)
      (hne : evaluate subject p op ≠ .Deny .NoGrant) :
      evaluate (subject.withGrants gs) p op = evaluate subject p op :=
    evaluate_eq_iff.mpr ((evaluate_exit subject p op).withGrants hsub (.inl hne))
  constructor
  · intro g l₁ l₂ hgrants hchanged
    have hsub : ∀ g' ∈ subject.grants, g' ∈ l₁ ++ g :: l₂ := by
      intro g' hg'
      rw [hgrants, List.mem_append] at hg'
      rw [List.mem_append, List.mem_cons]
      exact hg'.imp_right .inr
    have hnone : evaluate subject p op = .Deny .NoGrant :=
      Decidable.of_not_not fun hne ↦ hchanged (hother _ hsub hne)
    rw [hnone] at hchanged
    rcases withGrants_opens hnone hchanged with ⟨howned, huncovered, hcovered, hverdict⟩
    have hwithin : p.isWithin g = true := by
      unfold Subject.hasGrantCovering at huncovered hcovered
      rw [hgrants, List.any_append, Bool.or_eq_false_iff] at huncovered
      change (l₁ ++ g :: l₂).any (fun g ↦ p.isWithin g) = true at hcovered
      rw [List.any_append, List.any_cons, huncovered.1, huncovered.2] at hcovered
      simpa using hcovered
    exact ⟨hwithin, howned, hnone, hverdict⟩
  · exact hother

example :
    evaluate (adam .UserApp) ⟨"LKO/Users/Adam/a".toList, some .Users⟩ .Read = .Deny .NoGrant ∧
      evaluate ((adam .UserApp).withGrants [⟨"LKO/Users/Adam".toList, some .Users⟩])
        ⟨"LKO/Users/Adam/a".toList, some .Users⟩ .Read = .Allow := by decide

end LokoOS.Filesystem
