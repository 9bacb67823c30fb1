import LokoOS.Filesystem.PathSpec
import LokoOS.Filesystem.Rules

/-!
# Protected locations

The purpose of the first policy rule: only the kernel and an open update transaction change
the operating system's own locations. The rule is exact for every accepted spelling. It does
not look below the path it is given, which leaves two directories whose removal takes a
protected subtree with it.
-/

namespace LokoOS.Filesystem

open LokoOS.Base

/-- Leading components of the locations that are part of the operating system. -/
def protectedStems : List (List Text) :=
  [["System".toList], ["Drivers".toList], ["Boot".toList], ["Recovery".toList],
    ["Config".toList, "Security".toList], ["Services".toList, "Security".toList]]

/-- Components of the volume root, or of a location at or below a protected one. -/
def Protected (comps : List Text) : Prop :=
  comps = [] ∨ ∃ stem ∈ protectedStems, stem.map Text.lower <+: comps.map Text.lower

/-- The principals that may change a protected location. -/
def Subject.Trusted (subject : Subject) : Prop :=
  subject.subjectClass = .Kernel ∨
    subject.subjectClass = .SystemUpdater ∧ subject.updateTransactionOpen = true

variable {subject : Subject} {p q : LkoPathRef} {l m : Location} {op : Operation}

/-! ### Protection follows the location -/

/-- An optional component has a name when it is present and equal to it up to case. -/
theorem isNamed_iff {component : Option Text} {name : Text} :
    isNamed component name = true ↔ ∃ c, component = some c ∧ c.lower = name.lower := by
  cases component with
  | none => simp [isNamed]
  | some c => simp [isNamed, Text.eqIgnoreAsciiCase_iff]

private theorem protectedStems_eq : protectedStems =
    [[Root.System.name], [Root.Drivers.name], [Root.Boot.name], [Root.Recovery.name],
      [Root.Config.name, "Security".toList], [Root.Services.name, "Security".toList]] := rfl

private theorem stem_prefix {n : Text} {c : Text} {cs : List Text} :
    [n].map Text.lower <+: (c :: cs).map Text.lower ↔ n.lower = c.lower := by
  simp

private theorem stem_security_prefix {n : Text} {c : Text} {cs : List Text} :
    [n, "Security".toList].map Text.lower <+: (c :: cs).map Text.lower ↔
      n.lower = c.lower ∧ isNamed cs.head? "Security".toList = true := by
  rw [isNamed_iff]
  cases cs with
  | nil => simp
  | cons d ds => simp [eq_comm]

private theorem protected_cons {c : Text} {cs : List Text} {r : Root}
    (hc : c.lower = r.name.lower) :
    Protected (c :: cs) ↔
      (r = .System ∨ r = .Drivers ∨ r = .Boot ∨ r = .Recovery) ∨
        (r = .Config ∨ r = .Services) ∧ isNamed cs.head? "Security".toList = true := by
  have hname (r' : Root) : r'.name.lower = c.lower ↔ r = r' := by
    rw [hc, Root.name_lower_inj, eq_comm]
  unfold Protected
  rw [protectedStems_eq]
  simp only [List.mem_cons, List.not_mem_nil, or_false, exists_eq_or_imp, exists_eq_left,
    stem_prefix, stem_security_prefix, hname, reduceCtorEq, false_or]
  simp only [or_and_right, or_assoc]

/-- The protection in force is the strongest exactly at the protected locations. -/
theorem effectiveProtection_iff (h : p.Names l) :
    effectiveProtection p = .SystemImmutable ↔ Protected l.components := by
  unfold effectiveProtection
  rw [h.root, h.tail]
  cases hroot : l.root with
  | none =>
    rw [Location.root_eq_none] at hroot
    simp [Protected, hroot]
  | some r =>
    rcases Location.root_eq_some.mp hroot with ⟨c, cs, hl, hc⟩
    rw [hl, protected_cons hc, List.tail_cons]
    dsimp only
    generalize isNamed cs.head? "Security".toList = security
    generalize isNamed cs.head? "Memory".toList = memory
    cases r <;> cases security <;> cases memory <;> decide

/-! ### The first rule -/

/-- Drivers are refused for their role. -/
theorem driverRule_ne {r : DenyReason} (hr : r ≠ .RoleForbidden) : driverRule p op ≠ .Deny r := by
  unfold driverRule
  split
  · simp
  · simp
  · simp
  · simpa using hr.symm

/-- Sandboxed applications are refused for leaving their container. -/
theorem sandboxRule_ne {r : DenyReason} (hr : r ≠ .OutsideSandbox) :
    sandboxRule subject p op ≠ .Deny r := by
  unfold sandboxRule
  split
  · simp
  · simpa using hr.symm

/-- Only the first rule refuses with this reason, and it refuses exactly changes of protected
locations by other subjects. -/
theorem evaluate_eq_protectedLocation :
    evaluate subject p op = .Deny .ProtectedLocation ↔
      op.isMutating = true ∧ ¬ subject.Trusted ∧ effectiveProtection p = .SystemImmutable := by
  rw [evaluate_eq_iff]
  constructor
  · intro h
    cases h with
    | protectedLocation hkernel hclosed hprotection hop =>
      exact ⟨hop, fun h ↦ h.elim hkernel hclosed, hprotection⟩
    | driver _ _ hd => exact absurd hd (driverRule_ne (by decide))
    | sandboxed _ _ hd => exact absurd hd (sandboxRule_ne (by decide))
  · rintro ⟨hop, huntrusted, hprotection⟩
    apply Exit.protectedLocation _ _ hprotection hop
    · exact fun h ↦ huntrusted (.inl h)
    · exact fun h ↦ huntrusted (.inr h)

/-- A string that parses spells one list of components, and the policy refuses a change of
that location as protected exactly when the list is protected and the subject is not
trusted, whatever its grants, user and application. -/
theorem protected_exact {s : Text} (h : LkoPathRef.parse s = .ok p) :
    ∃ comps, (∀ c, Spells s c ↔ c = comps) ∧ ∀ (subject : Subject) (op : Operation),
      evaluate subject p op = .Deny .ProtectedLocation ↔
        op.isMutating = true ∧ ¬ subject.Trusted ∧ Protected comps := by
  rcases parse_spells h with ⟨l, hspells, hnames⟩
  refine ⟨l.components, hspells, ?_⟩
  intro subject op
  rw [evaluate_eq_protectedLocation, effectiveProtection_iff hnames]

/-- An oddly spelled path below `Config/Security`. -/
theorem protected_exact_config_security :
    LkoPathRef.parse "lko/config/SECURITY/".toList =
        .ok ⟨"lko/config/SECURITY/".toList, some .Config⟩ ∧
      ∃ comps, (∀ c, Spells "lko/config/SECURITY/".toList c ↔ c = comps) ∧
        ∀ (subject : Subject) (op : Operation),
          evaluate subject ⟨"lko/config/SECURITY/".toList, some .Config⟩ op =
              .Deny .ProtectedLocation ↔
            op.isMutating = true ∧ ¬ subject.Trusted ∧ Protected comps :=
  have hparse : LkoPathRef.parse "lko/config/SECURITY/".toList =
      .ok ⟨"lko/config/SECURITY/".toList, some .Config⟩ := rfl
  ⟨hparse, protected_exact hparse⟩

/-! ### Ancestors of protected locations -/

private theorem above_single {n : Text} {comps : List Text} (hne : comps ≠ [])
    (h : comps.map Text.lower <+: [n].map Text.lower) :
    [n].map Text.lower <+: comps.map Text.lower := by
  cases comps with
  | nil => exact absurd rfl hne
  | cons c cs =>
    rw [List.map_cons, List.map_cons, List.cons_prefix_cons] at h
    rw [List.map_cons, List.map_cons, List.cons_prefix_cons]
    exact ⟨h.1.symm, List.nil_prefix⟩

private theorem above_pair {n t : Text} {comps : List Text} (hne : comps ≠ [])
    (h : comps.map Text.lower <+: [n, t].map Text.lower) :
    [n, t].map Text.lower <+: comps.map Text.lower ∨ ∃ c, comps = [c] ∧ c.lower = n.lower := by
  cases comps with
  | nil => exact absurd rfl hne
  | cons c cs =>
    rw [List.map_cons, List.map_cons, List.cons_prefix_cons] at h
    by_cases hcs : cs = []
    · exact .inr ⟨c, by rw [hcs], h.1⟩
    · left
      change n.lower :: [t].map Text.lower <+: c.lower :: cs.map Text.lower
      rw [List.cons_prefix_cons]
      exact ⟨h.1.symm, above_single hcs h.2⟩

private theorem tail_root_of_single {c : Text} {r : Root} (hl : l.components = [c])
    (hc : c.lower = r.name.lower) : l.components.tail = [] ∧ l.root = some r :=
  ⟨by rw [hl, List.tail_cons], Location.root_eq_some.mpr ⟨c, [], hl, hc⟩⟩

private theorem protected_above (hm : Protected m.components) (hwithin : m.Within l) :
    Protected l.components ∨
      l.components.tail = [] ∧ (l.root = some .Config ∨ l.root = some .Services) := by
  by_cases hl : l.components = []
  · exact .inl (.inl hl)
  · rcases hm with hm | ⟨stem, hstem, hm⟩
    · unfold Location.Within at hwithin
      rw [hm, List.map_nil, List.prefix_nil, List.map_eq_nil_iff] at hwithin
      exact absurd hwithin hl
    · rcases List.prefix_or_prefix_of_prefix hm hwithin with habove | hbelow
      · exact .inl (.inr ⟨stem, hstem, habove⟩)
      · -- The location is above the stem, so it is the stem unless the stem is a pair.
        have hstem' := hstem
        rw [protectedStems_eq] at hstem'
        simp only [List.mem_cons, List.not_mem_nil, or_false] at hstem'
        rcases hstem' with rfl | rfl | rfl | rfl | rfl | rfl
        · exact .inl (.inr ⟨_, hstem, above_single hl hbelow⟩)
        · exact .inl (.inr ⟨_, hstem, above_single hl hbelow⟩)
        · exact .inl (.inr ⟨_, hstem, above_single hl hbelow⟩)
        · exact .inl (.inr ⟨_, hstem, above_single hl hbelow⟩)
        · rcases above_pair hl hbelow with habove | ⟨c, hc, hlower⟩
          · exact .inl (.inr ⟨_, hstem, habove⟩)
          · have hroot := tail_root_of_single hc hlower
            exact .inr ⟨hroot.1, .inl hroot.2⟩
        · rcases above_pair hl hbelow with habove | ⟨c, hc, hlower⟩
          · exact .inl (.inr ⟨_, hstem, habove⟩)
          · have hroot := tail_root_of_single hc hlower
            exact .inr ⟨hroot.1, .inr hroot.2⟩

private theorem effectiveProtection_managed_root (htail : p.tail = [])
    (hroot : p.root = some .Config ∨ p.root = some .Services) :
    effectiveProtection p = .SystemManaged := by
  unfold effectiveProtection
  rw [htail]
  rcases hroot with hroot | hroot <;> rw [hroot] <;> rfl

private theorem evaluate_managed_root (htail : p.tail = [])
    (hroot : p.root = some .Config ∨ p.root = some .Services) (hs : ¬ subject.Trusted)
    (hop : op = .Delete ∨ op = .Rename) :
    evaluate subject p op = .Allow ↔ subject.subjectClass ∈
      [SubjectClass.SystemService, .SystemUpdater, .UserShell] := by
  have hprotection := effectiveProtection_managed_root htail hroot
  have hop' : op.isMutating = true ∧ op ≠ .ChangePermissions := by
    rcases hop with rfl | rfl <;> decide
  have houtside : driverRule p op ≠ .Allow ∧ p.root ∉ scratchRoots ∧ p.root ≠ some .Users := by
    unfold driverRule
    rcases hroot with hroot | hroot <;> rw [hroot] <;> simp
  rw [evaluate_allow_iff (fun h ↦ hs (.inl h)) (by simp [hprotection]) houtside.1 houtside.2.1
    (by simp [sandboxRule_root htail])]
  constructor
  · rintro ⟨h, -⟩
    exact h.managed hprotection hop'.1
  · intro hclass
    have hne : subject.subjectClass ≠ .Driver ∧ subject.subjectClass ≠ .SandboxedApp ∧
        subject.subjectClass ≠ .AiAgent ∧ subject.subjectClass ≠ .CompatibilityRuntime := by
      generalize subject.subjectClass = k at hclass
      revert k
      decide
    have hgranted : Granted subject p op := {
      notKernel := fun h ↦ hs (.inl h)
      notDriver := hne.1
      unprotected := by simp [hprotection]
      external := fun h ↦ hne.2.2.2 h.1
      sameUser := crossesUsers_of_root houtside.2.2
      notScratch := houtside.2.1
      notSandboxed := hne.2.1
      managed := fun _ _ ↦ hclass
      owned := by simp [hprotection] }
    refine ⟨hgranted, hop'.2, ?_, ?_⟩
    · exact fun hai ↦ hne.2.2.1 hai.1
    · exact fun hforeign ↦ hne.2.2.2 hforeign.1

/-- Deleting and renaming a directory above a protected location are both not allowed, unless
the directory is the `Config` or the `Services` root and the subject is a system service, the
updater or the shell. -/
theorem ancestor_protected_iff (hp : Reachable (.borrowed p)) (hq : Reachable (.borrowed q))
    (hwithin : q.isWithin p = true) (hprotected : effectiveProtection q = .SystemImmutable)
    (hs : ¬ subject.Trusted) :
    evaluate subject p .Delete ≠ .Allow ∧ evaluate subject p .Rename ≠ .Allow ↔
      ¬ (p.tail = [] ∧ (p.root = some .Config ∨ p.root = some .Services) ∧
        subject.subjectClass ∈ [SubjectClass.SystemService, .SystemUpdater, .UserShell]) := by
  rcases reachable_names hp with ⟨l, hl⟩
  rcases reachable_names hq with ⟨m, hm⟩
  rw [effectiveProtection_iff hm] at hprotected
  rw [isWithin_iff hm hl] at hwithin
  rcases protected_above hprotected hwithin with habove | ⟨htail, hroot⟩
  · rw [← effectiveProtection_iff hl] at habove
    have hdeny {op : Operation} (hop : op.isMutating = true) : evaluate subject p op ≠ .Allow := by
      rw [evaluate_eq_protectedLocation.mpr ⟨hop, hs, habove⟩]
      simp
    constructor
    · rintro - ⟨htail, hroot, -⟩
      rw [effectiveProtection_managed_root htail hroot] at habove
      cases habove
    · intro _
      exact ⟨hdeny rfl, hdeny rfl⟩
  · rw [← hl.tail] at htail
    rw [← hl.root] at hroot
    rw [ne_eq, ne_eq, evaluate_managed_root htail hroot hs (.inl rfl),
      evaluate_managed_root htail hroot hs (.inr rfl), and_self]
    simp only [htail, hroot, true_and]

private theorem parse_config :
    LkoPathRef.parse "LKO/Config".toList = .ok ⟨"LKO/Config".toList, some .Config⟩ := rfl

private theorem parse_security : LkoPathRef.parse "LKO/Config/Security".toList =
    .ok ⟨"LKO/Config/Security".toList, some .Config⟩ := rfl

/-- An application at the `Config` root, above `Config/Security`. -/
theorem ancestor_protected_iff_config :
    (⟨"LKO/Config/Security".toList, some .Config⟩ : LkoPathRef).isWithin
        ⟨"LKO/Config".toList, some .Config⟩ = true ∧
      (evaluate (.new .UserApp) ⟨"LKO/Config".toList, some .Config⟩ .Delete ≠ .Allow ∧
          evaluate (.new .UserApp) ⟨"LKO/Config".toList, some .Config⟩ .Rename ≠ .Allow ↔
        ¬ ((⟨"LKO/Config".toList, some .Config⟩ : LkoPathRef).tail = [] ∧
          (some Root.Config = some .Config ∨ some Root.Config = some .Services) ∧
          SubjectClass.UserApp ∈ [SubjectClass.SystemService, .SystemUpdater, .UserShell])) := by
  constructor
  · decide
  · apply ancestor_protected_iff (.parse parse_config) (.parse parse_security)
    · decide
    · decide
    · rintro (h | ⟨h, -⟩) <;> cases h

/-- The shell may delete the `Config` root, with the protected directory in it. -/
theorem config_deletable : ¬ ∀ (subject : Subject) (p q : LkoPathRef),
    Reachable (.borrowed p) → Reachable (.borrowed q) → q.isWithin p = true →
      effectiveProtection q = .SystemImmutable → ¬ subject.Trusted →
        evaluate subject p .Delete ≠ .Allow ∧ evaluate subject p .Rename ≠ .Allow := by
  intro h
  have huntrusted : ¬ (Subject.new .UserShell).Trusted := by
    rintro (h | ⟨h, -⟩) <;> cases h
  have hdelete := h (.new .UserShell) _ _ (.parse parse_config) (.parse parse_security)
    (by decide) (by decide) huntrusted
  exact hdelete.1 (by decide)

end LokoOS.Filesystem
