import LokoOS.Filesystem.Grants
import LokoOS.Filesystem.Sandbox

/-!
# Promises about roles

Three promises of the policy that its last rules and its list of internal roots carry:
permissions are changed by the user's decision, the AI destroys nothing by itself, and
compatibility runtimes see nothing of the operating system. The rules before them decide
some requests already, so each promise is kept under a condition, which is exact.
-/

namespace LokoOS.Filesystem

open LokoOS.Base

variable {subject : Subject} {p : LkoPathRef} {l : Location} {op : Operation}

/-! ### Permissions -/

private theorem driverRule_permissions :
    driverRule p .ChangePermissions = .Allow ↔ p.root ∈ [some Root.Logs, some .Temp] := by
  unfold driverRule
  cases p.root with
  | none => decide
  | some r => cases r <;> decide

/-- Outside the protected locations, every subject but the kernel has to wait for the user to
change permissions, except drivers in the logs and in `Temp`, other subjects in the scratch
space, and sandboxed applications in their container. -/
theorem permissions_asked_iff (hp : Reachable (.borrowed p))
    (hkernel : subject.subjectClass ≠ .Kernel)
    (hprotection : effectiveProtection p ≠ .SystemImmutable) :
    evaluate subject p .ChangePermissions ≠ .Allow ↔
      ¬ (subject.subjectClass = .Driver ∧ p.root ∈ [some Root.Logs, some .Temp] ∨
        subject.subjectClass ≠ .Driver ∧ p.root ∈ scratchRoots ∨
        subject.subjectClass = .SandboxedApp ∧ ∃ u a, subject.user = some u ∧
          subject.appId = some a ∧ InContainer u a p.components) := by
  rcases reachable_names hp with ⟨l, hl⟩
  rw [hl.components, ne_eq, not_iff_not, evaluate_eq_iff]
  constructor
  · intro h
    cases h with
    | kernel hclass => exact absurd hclass hkernel
    | updating _ _ himmutable => exact absurd himmutable hprotection
    | driver hclass _ hd => exact .inl ⟨hclass, driverRule_permissions.mp hd⟩
    | scratch _ hdriver hroot => exact .inr (.inl ⟨hdriver, hroot⟩)
    | sandboxed _ hclass hd =>
      rw [sandboxRule_eq_allow, inOwnAppdata_iff hl] at hd
      right
      right
      constructor
      · exact hclass
      · exact hd.resolve_right fun hinstall ↦ by cases hinstall.2
    | granted _ hpermissions => exact absurd rfl hpermissions
  · rintro (⟨hclass, hroot⟩ | ⟨hdriver, hroot⟩ | ⟨hclass, hcontainer⟩)
    · apply Exit.driver hclass
      · exact fun h ↦ hprotection h.1
      · exact driverRule_permissions.mpr hroot
    · exact .scratch hkernel hdriver hroot
    · rw [← evaluate_eq_iff, evaluate_sandboxed_iff hl hclass]
      exact .inr (.inl hcontainer)

private theorem parse_log : LkoPathRef.parse "LKO/Logs/gpu.log".toList =
    .ok ⟨"LKO/Logs/gpu.log".toList, some .Logs⟩ := rfl

/-- Adam's shell at a log. -/
theorem permissions_asked_iff_log :
    evaluate (adam .UserShell) ⟨"LKO/Logs/gpu.log".toList, some .Logs⟩ .ChangePermissions ≠
        .Allow ↔
      ¬ (SubjectClass.UserShell = .Driver ∧ some Root.Logs ∈ [some Root.Logs, some .Temp] ∨
        SubjectClass.UserShell ≠ .Driver ∧ some Root.Logs ∈ scratchRoots ∨
        SubjectClass.UserShell = .SandboxedApp ∧ ∃ u a, (adam .UserShell).user = some u ∧
          (adam .UserShell).appId = some a ∧
          InContainer u a (⟨"LKO/Logs/gpu.log".toList, some .Logs⟩ : LkoPathRef).components) := by
  apply permissions_asked_iff (.parse parse_log)
  · decide
  · decide

/-- A driver may change the permissions of a log. -/
theorem permissions_unasked : ¬ ∀ (subject : Subject) (p : LkoPathRef),
    Reachable (.borrowed p) → subject.subjectClass ≠ .Kernel →
      effectiveProtection p ≠ .SystemImmutable →
        evaluate subject p .ChangePermissions ≠ .Allow := by
  intro h
  exact h (.new .Driver) _ (.parse parse_log) (by decide) (by decide) (by decide)

/-! ### The AI -/

/-- The AI has to wait for the user, or is refused, to write, delete or rename anything that
is not in the scratch space. -/
theorem ai_asked_iff (hclass : subject.subjectClass = .AiAgent) (hop : op.isDestructive = true) :
    evaluate subject p op ≠ .Allow ↔ p.root ∉ scratchRoots := by
  rw [ne_eq, not_iff_not, evaluate_eq_iff]
  constructor
  · intro h
    cases h with
    | kernel hc | updating hc | driver hc | sandboxed _ hc =>
      rw [hclass] at hc
      cases hc
    | scratch _ _ hroot => exact hroot
    | granted _ _ hai => exact absurd ⟨hclass, hop⟩ hai
  · intro hroot
    apply Exit.scratch _ _ hroot
    · simp [hclass]
    · simp [hclass]

/-- The AI deletes a report. -/
theorem ai_asked_iff_report :
    evaluate (adam .AiAgent) ⟨"LKO/Users/Adam/report.md".toList, some .Users⟩ .Delete ≠ .Allow ↔
      some Root.Users ∉ scratchRoots :=
  ai_asked_iff rfl rfl

private theorem parse_thumbs : LkoPathRef.parse "LKO/Cache/thumbs".toList =
    .ok ⟨"LKO/Cache/thumbs".toList, some .Cache⟩ := rfl

/-- The AI may delete what is in the cache. -/
theorem ai_unasked : ¬ ∀ (subject : Subject) (p : LkoPathRef) (op : Operation),
    Reachable (.borrowed p) → subject.subjectClass = .AiAgent → op.isDestructive = true →
      evaluate subject p op ≠ .Allow := by
  intro h
  exact h (adam .AiAgent) _ .Delete (.parse parse_thumbs) rfl rfl (by decide)

/-! ### Compatibility runtimes -/

private theorem root_of_immutable (hprotection : effectiveProtection p = .SystemImmutable)
    (hroot : p.root ≠ none) : p.root ∈ internalRoots ∨ p.root = some .Config := by
  unfold effectiveProtection at hprotection
  cases hr : p.root with
  | none => exact absurd hr hroot
  | some r =>
    rw [hr] at hprotection
    dsimp only at hprotection
    generalize isNamed p.tail.head? "Security".toList = security at hprotection
    generalize isNamed p.tail.head? "Memory".toList = memory at hprotection
    revert hprotection
    cases r <;> cases security <;> cases memory <;> decide

/-- Whatever is protected below the volume root is refused to compatibility runtimes, except
that they may look into the protected part of `Config`. -/
theorem internals_hidden_iff (hclass : subject.subjectClass = .CompatibilityRuntime)
    (hroot : p.root ≠ none) (hprotection : effectiveProtection p = .SystemImmutable) :
    (∃ reason, evaluate subject p op = .Deny reason) ↔
      ¬ (p.root = some .Config ∧ op.isMutating = false) := by
  constructor
  · rintro ⟨reason, hdeny⟩ ⟨hconfig, hop⟩
    have hgranted : Granted subject p op := {
      notKernel := by simp [hclass]
      notDriver := by simp [hclass]
      unprotected := by simp [hop]
      external := by simp [hconfig]
      sameUser := crossesUsers_of_root (by simp [hconfig])
      notScratch := by simp [hconfig]
      notSandboxed := by simp [hclass]
      managed := by simp [hprotection]
      owned := by simp [hprotection] }
    rcases hgranted.verdict with hallow | ⟨prompt, hconfirm⟩
    · rw [hallow] at hdeny
      cases hdeny
    · rw [hconfirm] at hdeny
      cases hdeny
  · intro h
    by_cases hop : op.isMutating = true
    · have hclosed : ¬ (subject.subjectClass = .SystemUpdater ∧
          subject.updateTransactionOpen = true) := by simp [hclass]
      have hkernel : subject.subjectClass ≠ .Kernel := by simp [hclass]
      exact ⟨_, evaluate_eq_iff.mpr (.protectedLocation hkernel hclosed hprotection hop)⟩
    · have hinternal : p.root ∈ internalRoots :=
        (root_of_immutable hprotection hroot).resolve_right fun hconfig ↦
          h ⟨hconfig, Bool.eq_false_iff.mpr hop⟩
      exact ⟨_, evaluate_eq_iff.mpr (.internals hclass (fun h ↦ hop h.2) hinternal)⟩

/-- A compatibility runtime at a protected service. -/
theorem internals_hidden_iff_services :
    (∃ reason, evaluate wine ⟨"LKO/Services/Security".toList, some .Services⟩ .Read =
        .Deny reason) ↔
      ¬ (some Root.Services = some .Config ∧ Operation.Read.isMutating = false) :=
  internals_hidden_iff rfl (by decide) (by decide)

private theorem parse_trust : LkoPathRef.parse "LKO/Config/Security/trust".toList =
    .ok ⟨"LKO/Config/Security/trust".toList, some .Config⟩ := rfl

/-- A compatibility runtime may read the trust anchors in `Config/Security`. -/
theorem internals_readable : ¬ ∀ (subject : Subject) (p : LkoPathRef) (op : Operation),
    Reachable (.borrowed p) → subject.subjectClass = .CompatibilityRuntime → p.root ≠ none →
      effectiveProtection p = .SystemImmutable →
        ∃ reason, evaluate subject p op = .Deny reason := by
  intro h
  have hread : evaluate wine ⟨"LKO/Config/Security/trust".toList, some .Config⟩ .Read = .Allow := by
    decide
  rcases h wine _ .Read (.parse parse_trust) rfl (by decide) (by decide) with ⟨reason, hdeny⟩
  rw [hread] at hdeny
  cases hdeny

end LokoOS.Filesystem
