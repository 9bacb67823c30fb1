import LokoOS.Filesystem.Policy

/-!
# The rules one by one

The ways through the rule list of `policy.rs:295–441`. Every verdict is reached by one of
them, and each of them gives its verdict, so a statement about the policy is a case analysis
over the exits instead of over the list.
-/

namespace LokoOS.Filesystem

open LokoOS.Base

/-- Roots that compatibility runtimes do not reach; `policy.rs:323`. -/
abbrev internalRoots : List (Option Root) :=
  [some .System, some .Drivers, some .Boot, some .Recovery, some .Services]

/-- Roots of the scratch space; `policy.rs:359`. -/
abbrev scratchRoots : List (Option Root) := [some .Temp, some .Cache]

/-- Rules 9 to 11, what is put to the user; `policy.rs:420–440`. -/
def consentRules (subject : Subject) (op : Operation) : Decision :=
  if op = .ChangePermissions then .Confirm .PermissionChange
  else if subject.subjectClass = .AiAgent ∧ op.isDestructive then .Confirm .AiInitiatedChange
  else if subject.subjectClass = .CompatibilityRuntime ∧ op.isMutating then
    .Confirm .ForeignApplicationWrite
  else .Allow

/-- Rules 7 to 11, from the locations that need a grant on; `policy.rs:398–440`. -/
def grantRules (subject : Subject) (p : LkoPathRef) (op : Operation) : Decision :=
  if effectiveProtection p = .SystemManaged ∧ op.isMutating ∧
      subject.subjectClass ∉ [.SystemService, .SystemUpdater, .UserShell] then .Deny .NoGrant
  else if effectiveProtection p = .UserOwned ∧ subject.subjectClass ≠ .UserShell ∧
      ¬ subject.hasGrantCovering p then .Deny .NoGrant
  else consentRules subject op

/-- A request that the first six rules leave open. -/
structure Undecided (subject : Subject) (p : LkoPathRef) (op : Operation) : Prop where
  notKernel : subject.subjectClass ≠ .Kernel
  notDriver : subject.subjectClass ≠ .Driver
  unprotected : ¬ (effectiveProtection p = .SystemImmutable ∧ op.isMutating = true)
  external : ¬ (subject.subjectClass = .CompatibilityRuntime ∧ p.root ∈ internalRoots)
  sameUser : crossesUsers subject p = false
  notScratch : p.root ∉ scratchRoots

/-- A request that the rules about grants leave open as well. -/
structure Granted (subject : Subject) (p : LkoPathRef) (op : Operation) : Prop
    extends Undecided subject p op where
  notSandboxed : subject.subjectClass ≠ .SandboxedApp
  managed : effectiveProtection p = .SystemManaged → op.isMutating = true →
    subject.subjectClass ∈ [SubjectClass.SystemService, .SystemUpdater, .UserShell]
  owned : effectiveProtection p = .UserOwned →
    subject.subjectClass = .UserShell ∨ subject.hasGrantCovering p = true

/-- The exits of the rule list, each with what holds of a request that takes it. -/
inductive Exit (subject : Subject) (p : LkoPathRef) (op : Operation) : Decision → Prop
  | kernel (hclass : subject.subjectClass = .Kernel) : Exit subject p op .Allow
  | updating (hclass : subject.subjectClass = .SystemUpdater)
      (hopen : subject.updateTransactionOpen = true)
      (hprotection : effectiveProtection p = .SystemImmutable) (hop : op.isMutating = true) :
      Exit subject p op .Allow
  | protectedLocation (hkernel : subject.subjectClass ≠ .Kernel)
      (hclosed : ¬ (subject.subjectClass = .SystemUpdater ∧ subject.updateTransactionOpen = true))
      (hprotection : effectiveProtection p = .SystemImmutable) (hop : op.isMutating = true) :
      Exit subject p op (.Deny .ProtectedLocation)
  | internals (hclass : subject.subjectClass = .CompatibilityRuntime)
      (hunprotected : ¬ (effectiveProtection p = .SystemImmutable ∧ op.isMutating = true))
      (hroot : p.root ∈ internalRoots) : Exit subject p op (.Deny .RoleForbidden)
  | driver {d : Decision} (hclass : subject.subjectClass = .Driver)
      (hunprotected : ¬ (effectiveProtection p = .SystemImmutable ∧ op.isMutating = true))
      (hd : driverRule p op = d) : Exit subject p op d
  | crossUser (hkernel : subject.subjectClass ≠ .Kernel) (hdriver : subject.subjectClass ≠ .Driver)
      (hcross : crossesUsers subject p = true) : Exit subject p op (.Deny .CrossUser)
  | scratch (hkernel : subject.subjectClass ≠ .Kernel) (hdriver : subject.subjectClass ≠ .Driver)
      (hroot : p.root ∈ scratchRoots) : Exit subject p op .Allow
  | sandboxed {d : Decision} (h : Undecided subject p op)
      (hclass : subject.subjectClass = .SandboxedApp) (hd : sandboxRule subject p op = d) :
      Exit subject p op d
  | managed (h : Undecided subject p op) (hsandboxed : subject.subjectClass ≠ .SandboxedApp)
      (hprotection : effectiveProtection p = .SystemManaged) (hop : op.isMutating = true)
      (hclass : subject.subjectClass ∉ [SubjectClass.SystemService, .SystemUpdater, .UserShell]) :
      Exit subject p op (.Deny .NoGrant)
  | ungranted (h : Undecided subject p op) (hsandboxed : subject.subjectClass ≠ .SandboxedApp)
      (hprotection : effectiveProtection p = .UserOwned)
      (hclass : subject.subjectClass ≠ .UserShell) (hgrant : subject.hasGrantCovering p = false) :
      Exit subject p op (.Deny .NoGrant)
  | permissions (h : Granted subject p op) (hop : op = .ChangePermissions) :
      Exit subject p op (.Confirm .PermissionChange)
  | aiChange (h : Granted subject p op) (hclass : subject.subjectClass = .AiAgent)
      (hop : op.isDestructive = true) : Exit subject p op (.Confirm .AiInitiatedChange)
  | foreignWrite (h : Granted subject p op) (hclass : subject.subjectClass = .CompatibilityRuntime)
      (hpermissions : op ≠ .ChangePermissions) (hop : op.isMutating = true) :
      Exit subject p op (.Confirm .ForeignApplicationWrite)
  | granted (h : Granted subject p op) (hpermissions : op ≠ .ChangePermissions)
      (hai : ¬ (subject.subjectClass = .AiAgent ∧ op.isDestructive = true))
      (hforeign : ¬ (subject.subjectClass = .CompatibilityRuntime ∧ op.isMutating = true)) :
      Exit subject p op .Allow

variable {subject : Subject} {p : LkoPathRef} {op : Operation} {d : Decision} {r : Root}

/-! ### What decides before the grants -/

private theorem effectiveProtection_root (h : p.root = some r)
    (hr : r ∉ [Root.Config, .Services, .Ai]) : effectiveProtection p = r.protection := by
  unfold effectiveProtection
  rw [h]
  simp only [List.mem_cons, List.not_mem_nil, or_false, not_or] at hr
  simp only [hr, false_and, if_false]

private theorem root_of_crossesUsers (h : crossesUsers subject p = true) :
    p.root = some .Users := by
  unfold crossesUsers at h
  split at h
  · next hroot => exact hroot
  · cases h

/-- The scratch space is volatile. -/
theorem effectiveProtection_scratch (h : p.root ∈ scratchRoots) :
    effectiveProtection p = .Volatile := by
  rw [List.mem_cons, List.mem_singleton] at h
  rcases h with h | h
  · rw [effectiveProtection_root h (by decide)]
    rfl
  · rw [effectiveProtection_root h (by decide)]
    rfl

/-- Homes belong to their users. -/
theorem effectiveProtection_users (h : p.root = some .Users) :
    effectiveProtection p = .UserOwned := by
  rw [effectiveProtection_root h (by decide)]
  rfl

/-- Other roots hold no homes. -/
theorem crossesUsers_of_root (h : p.root ≠ some .Users) : crossesUsers subject p = false := by
  cases hcross : crossesUsers subject p with
  | false => rfl
  | true => exact absurd (root_of_crossesUsers hcross) h

/-- A path without a component below the root is in no home. -/
theorem crossesUsers_root (htail : p.tail = []) : crossesUsers subject p = false := by
  unfold crossesUsers
  rw [htail]
  simp

/-- Sandboxed applications have nothing at a root. -/
theorem sandboxRule_root (htail : p.tail = []) :
    sandboxRule subject p op = .Deny .OutsideSandbox := by
  have happdata : inOwnAppdata subject p = false := by
    unfold inOwnAppdata
    rw [htail]
    split <;> rfl
  have hinstall : inOwnInstallDir subject p = false := by
    unfold inOwnInstallDir
    rw [htail]
    split <;> rfl
  unfold sandboxRule
  rw [happdata, hinstall]
  simp

private theorem crossesUsers_scratch (h : p.root ∈ scratchRoots) :
    crossesUsers subject p = false := by
  apply crossesUsers_of_root
  intro hroot
  rw [hroot] at h
  exact absurd h (by decide)

/-! ### What a verdict depends on -/

/-- Two requests that agree in every fact the rules look at get the same verdict. -/
theorem evaluate_congr {subject' : Subject} {p' : LkoPathRef}
    (hclass : subject.subjectClass = subject'.subjectClass)
    (hopen : subject.updateTransactionOpen = subject'.updateTransactionOpen)
    (hroot : p.root = p'.root) (hprotection : effectiveProtection p = effectiveProtection p')
    (hcross : crossesUsers subject p = crossesUsers subject' p')
    (happdata : inOwnAppdata subject p = inOwnAppdata subject' p')
    (hinstall : inOwnInstallDir subject p = inOwnInstallDir subject' p')
    (hgrant : subject.hasGrantCovering p = subject'.hasGrantCovering p') :
    evaluate subject p op = evaluate subject' p' op := by
  unfold evaluate driverRule sandboxRule
  rw [hclass, hopen, hroot, hprotection, hcross, happdata, hinstall, hgrant]

/-! ### Exits and verdicts -/

private theorem exit_granted (h : Granted subject p op) :
    Exit subject p op (consentRules subject op) := by
  unfold consentRules
  by_cases hpermissions : op = .ChangePermissions
  · rw [if_pos hpermissions]
    exact .permissions h hpermissions
  rw [if_neg hpermissions]
  by_cases hai : subject.subjectClass = .AiAgent ∧ op.isDestructive = true
  · rw [if_pos hai]
    exact .aiChange h hai.1 hai.2
  rw [if_neg hai]
  by_cases hforeign : subject.subjectClass = .CompatibilityRuntime ∧ op.isMutating = true
  · rw [if_pos hforeign]
    exact .foreignWrite h hforeign.1 hpermissions hforeign.2
  · rw [if_neg hforeign]
    exact .granted h hpermissions hai hforeign

private theorem exit_undecided (h : Undecided subject p op)
    (hsandboxed : subject.subjectClass ≠ .SandboxedApp) :
    Exit subject p op (grantRules subject p op) := by
  unfold grantRules
  by_cases hmanaged : effectiveProtection p = .SystemManaged ∧ op.isMutating = true ∧
      subject.subjectClass ∉ [SubjectClass.SystemService, .SystemUpdater, .UserShell]
  · rw [if_pos hmanaged]
    exact .managed h hsandboxed hmanaged.1 hmanaged.2.1 hmanaged.2.2
  rw [if_neg hmanaged]
  by_cases howned : effectiveProtection p = .UserOwned ∧ subject.subjectClass ≠ .UserShell ∧
      ¬ subject.hasGrantCovering p = true
  · rw [if_pos howned]
    exact .ungranted h hsandboxed howned.1 howned.2.1 (Bool.eq_false_iff.mpr howned.2.2)
  rw [if_neg howned]
  apply exit_granted
  constructor
  · exact h
  · exact hsandboxed
  · intro hprotection hop
    exact Decidable.of_not_not fun hclass ↦ hmanaged ⟨hprotection, hop, hclass⟩
  · intro hprotection
    by_cases hclass : subject.subjectClass = .UserShell
    · exact .inl hclass
    · exact .inr (Decidable.of_not_not fun hgrant ↦ howned ⟨hprotection, hclass, hgrant⟩)

/-- Every verdict is that of an exit. -/
theorem evaluate_exit (subject : Subject) (p : LkoPathRef) (op : Operation) :
    Exit subject p op (evaluate subject p op) := by
  -- Down the list: a rule that applies is an exit, one that does not leaves its guard.
  unfold evaluate
  by_cases hkernel : subject.subjectClass = .Kernel
  · rw [if_pos hkernel]
    exact .kernel hkernel
  rw [if_neg hkernel]
  by_cases hprotected : effectiveProtection p = .SystemImmutable ∧ op.isMutating = true
  · rw [if_pos hprotected]
    by_cases hupdating : subject.subjectClass = .SystemUpdater ∧ subject.updateTransactionOpen
    · rw [if_pos hupdating]
      exact .updating hupdating.1 hupdating.2 hprotected.1 hprotected.2
    · rw [if_neg hupdating]
      exact .protectedLocation hkernel hupdating hprotected.1 hprotected.2
  rw [if_neg hprotected]
  by_cases hinternals : subject.subjectClass = .CompatibilityRuntime ∧ p.root ∈ internalRoots
  · rw [if_pos hinternals]
    exact .internals hinternals.1 hprotected hinternals.2
  rw [if_neg hinternals]
  by_cases hdriver : subject.subjectClass = .Driver
  · rw [if_pos hdriver]
    exact .driver hdriver hprotected rfl
  rw [if_neg hdriver]
  by_cases hcross : crossesUsers subject p = true
  · rw [if_pos hcross]
    exact .crossUser hkernel hdriver hcross
  rw [if_neg hcross]
  by_cases hscratch : p.root ∈ scratchRoots
  · rw [if_pos hscratch]
    exact .scratch hkernel hdriver hscratch
  rw [if_neg hscratch]
  have hundecided : Undecided subject p op :=
    ⟨hkernel, hdriver, hprotected, hinternals, Bool.eq_false_iff.mpr hcross, hscratch⟩
  by_cases hsandboxed : subject.subjectClass = .SandboxedApp
  · rw [if_pos hsandboxed]
    exact .sandboxed hundecided hsandboxed rfl
  rw [if_neg hsandboxed]
  exact exit_undecided hundecided hsandboxed

private theorem evaluate_undecided (h : Undecided subject p op)
    (hsandboxed : subject.subjectClass ≠ .SandboxedApp) :
    evaluate subject p op = grantRules subject p op := by
  unfold evaluate
  rw [if_neg h.notKernel, if_neg h.unprotected, if_neg h.external, if_neg h.notDriver,
    if_neg (Bool.eq_false_iff.mp h.sameUser), if_neg h.notScratch, if_neg hsandboxed]
  rfl

private theorem evaluate_granted (h : Granted subject p op) :
    evaluate subject p op = consentRules subject op := by
  have hmanaged : ¬ (effectiveProtection p = .SystemManaged ∧ op.isMutating = true ∧
      subject.subjectClass ∉ [SubjectClass.SystemService, .SystemUpdater, .UserShell]) := by
    rintro ⟨hprotection, hop, hclass⟩
    exact hclass (h.managed hprotection hop)
  have howned : ¬ (effectiveProtection p = .UserOwned ∧ subject.subjectClass ≠ .UserShell ∧
      ¬ subject.hasGrantCovering p = true) := by
    rintro ⟨hprotection, hclass, hgrant⟩
    exact (h.owned hprotection).elim hclass hgrant
  rw [evaluate_undecided h.toUndecided h.notSandboxed, grantRules, if_neg hmanaged, if_neg howned]

private theorem evaluate_crossUser (hkernel : subject.subjectClass ≠ .Kernel)
    (hdriver : subject.subjectClass ≠ .Driver) (hcross : crossesUsers subject p = true) :
    evaluate subject p op = .Deny .CrossUser := by
  have hroot := root_of_crossesUsers hcross
  unfold evaluate
  rw [if_neg hkernel, effectiveProtection_users hroot, if_neg (by simp), hroot,
    if_neg (by simp), if_neg hdriver, if_pos hcross]

private theorem evaluate_scratch (hkernel : subject.subjectClass ≠ .Kernel)
    (hdriver : subject.subjectClass ≠ .Driver) (hroot : p.root ∈ scratchRoots) :
    evaluate subject p op = .Allow := by
  have hinternal : p.root ∉ internalRoots := by
    rw [List.mem_cons, List.mem_singleton] at hroot
    rcases hroot with hroot | hroot <;> rw [hroot] <;> decide
  unfold evaluate
  rw [if_neg hkernel, effectiveProtection_scratch hroot, if_neg (by simp),
    if_neg (fun h ↦ hinternal h.2), if_neg hdriver, crossesUsers_scratch hroot,
    if_neg (by simp), if_pos hroot]

/-- The exits are exactly the verdicts. -/
theorem evaluate_eq_iff : evaluate subject p op = d ↔ Exit subject p op d := by
  constructor
  · intro h
    rw [← h]
    exact evaluate_exit subject p op
  · intro h
    cases h with
    | kernel hclass => exact if_pos hclass
    | updating hclass hopen hprotection hop =>
      unfold evaluate
      rw [if_neg (by simp [hclass]), if_pos ⟨hprotection, hop⟩, if_pos ⟨hclass, hopen⟩]
    | protectedLocation hkernel hclosed hprotection hop =>
      unfold evaluate
      rw [if_neg hkernel, if_pos ⟨hprotection, hop⟩, if_neg hclosed]
    | internals hclass hunprotected hroot =>
      unfold evaluate
      rw [if_neg (by simp [hclass]), if_neg hunprotected, if_pos ⟨hclass, hroot⟩]
    | driver hclass hunprotected hd =>
      unfold evaluate
      rw [if_neg (by simp [hclass]), if_neg hunprotected, if_neg (by simp [hclass]),
        if_pos hclass, hd]
    | crossUser hkernel hdriver hcross => exact evaluate_crossUser hkernel hdriver hcross
    | scratch hkernel hdriver hroot => exact evaluate_scratch hkernel hdriver hroot
    | sandboxed h hclass hd =>
      unfold evaluate
      rw [if_neg h.notKernel, if_neg h.unprotected, if_neg h.external, if_neg h.notDriver,
        if_neg (Bool.eq_false_iff.mp h.sameUser), if_neg h.notScratch, if_pos hclass, hd]
    | managed h hsandboxed hprotection hop hclass =>
      rw [evaluate_undecided h hsandboxed, grantRules, if_pos ⟨hprotection, hop, hclass⟩]
    | ungranted h hsandboxed hprotection hclass hgrant =>
      rw [evaluate_undecided h hsandboxed, grantRules, if_neg (by simp [hprotection]),
        if_pos ⟨hprotection, hclass, Bool.eq_false_iff.mp hgrant⟩]
    | permissions h hop => rw [evaluate_granted h, consentRules, if_pos hop]
    | aiChange h hclass hop =>
      have hpermissions : op ≠ .ChangePermissions := by
        intro heq
        rw [heq] at hop
        cases hop
      rw [evaluate_granted h, consentRules, if_neg hpermissions, if_pos ⟨hclass, hop⟩]
    | foreignWrite h hclass hpermissions hop =>
      rw [evaluate_granted h, consentRules, if_neg hpermissions, if_neg (by simp [hclass]),
        if_pos ⟨hclass, hop⟩]
    | granted h hpermissions hai hforeign =>
      rw [evaluate_granted h, consentRules, if_neg hpermissions, if_neg hai, if_neg hforeign]

/-- A request that was granted is not refused, only put to the user where it has to be. -/
theorem Granted.verdict (h : Granted subject p op) :
    evaluate subject p op = .Allow ∨ ∃ prompt, evaluate subject p op = .Confirm prompt := by
  rw [evaluate_granted h]
  unfold consentRules
  split
  · exact .inr ⟨_, rfl⟩
  · split
    · exact .inr ⟨_, rfl⟩
    · split
      · exact .inr ⟨_, rfl⟩
      · exact .inl rfl

/-- Where no rule with a verdict of its own allows a request, it is allowed if it was granted
and the user has no part in it. -/
theorem evaluate_allow_iff (hkernel : subject.subjectClass ≠ .Kernel)
    (hprotection : effectiveProtection p ≠ .SystemImmutable) (hdriver : driverRule p op ≠ .Allow)
    (hscratch : p.root ∉ scratchRoots) (hsandbox : sandboxRule subject p op ≠ .Allow) :
    evaluate subject p op = .Allow ↔ Granted subject p op ∧ op ≠ .ChangePermissions ∧
      ¬ (subject.subjectClass = .AiAgent ∧ op.isDestructive = true) ∧
        ¬ (subject.subjectClass = .CompatibilityRuntime ∧ op.isMutating = true) := by
  rw [evaluate_eq_iff]
  constructor
  · intro h
    cases h with
    | kernel hclass => exact absurd hclass hkernel
    | updating _ _ himmutable => exact absurd himmutable hprotection
    | driver _ _ hd => exact absurd hd hdriver
    | scratch _ _ hroot => exact absurd hroot hscratch
    | sandboxed _ _ hd => exact absurd hd hsandbox
    | granted h hpermissions hai hforeign => exact ⟨h, hpermissions, hai, hforeign⟩
  · rintro ⟨h, hpermissions, hai, hforeign⟩
    exact .granted h hpermissions hai hforeign

end LokoOS.Filesystem
