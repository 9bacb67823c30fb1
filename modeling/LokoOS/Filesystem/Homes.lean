import LokoOS.Filesystem.PathSpec
import LokoOS.Filesystem.Protection
import LokoOS.Filesystem.Rules

/-!
# Homes

The purpose of the fourth policy rule: what is in the home of a user is out of reach for
everybody who acts for somebody else, whatever was granted. The rule does not look below the
path it is given, so the directory of all homes is decided by other rules.
-/

namespace LokoOS.Filesystem

open LokoOS.Base

/-- Components of a user's home, or of a location in it. -/
def InHome (owner : Text) (comps : List Text) : Prop :=
  [Root.Users.name, owner].map Text.lower <+: comps.map Text.lower

/-- A subject acts for a user. -/
def Subject.ActsFor (subject : Subject) (owner : Text) : Prop :=
  ∃ u, subject.user = some u ∧ u.lower = owner.lower

/-- The principals that serve every user. -/
def systemClasses : List SubjectClass := [.Kernel, .SystemService, .SystemUpdater]

variable {subject : Subject} {p q : LkoPathRef} {l m : Location} {op : Operation} {owner : Text}

/-! ### Leading components -/

/-- A list of names leads another one when the first component has the first name and the
other names lead the rest. -/
theorem leads_cons {n : Text} {ns comps : List Text} :
    (n :: ns).map Text.lower <+: comps.map Text.lower ↔
      isNamed comps.head? n = true ∧ ns.map Text.lower <+: comps.tail.map Text.lower := by
  rw [isNamed_iff]
  cases comps with
  | nil => simp
  | cons c cs =>
    rw [List.map_cons, List.map_cons, List.cons_prefix_cons]
    simp [eq_comm]

/-- A list that begins with the name of a root leads the locations under that root. -/
theorem leads_root {r : Root} {ns : List Text} :
    (r.name :: ns).map Text.lower <+: l.components.map Text.lower ↔
      l.root = some r ∧ ns.map Text.lower <+: l.components.tail.map Text.lower := by
  rw [leads_cons, isNamed_iff, Location.root_eq_some]
  cases l.components with
  | nil => simp
  | cons c cs => simp

/-- A location is in the home that its second component names. -/
theorem inHome_iff : InHome owner l.components ↔
    l.root = some .Users ∧ isNamed l.components.tail.head? owner = true := by
  unfold InHome
  rw [leads_root, leads_cons]
  simp

/-! ### The fourth rule -/

/-- The rule finds the homes of others. -/
theorem crossesUsers_iff (h : p.Names l) : crossesUsers subject p = true ↔
    ∃ owner, InHome owner l.components ∧ ¬ subject.ActsFor owner ∧
      subject.subjectClass ∉ [SubjectClass.SystemService, .SystemUpdater] := by
  unfold crossesUsers
  rw [h.root, h.tail]
  constructor
  · intro hcross
    split at hcross
    · next hroot =>
      split at hcross
      · next o ho =>
        rcases Bool.and_eq_true_iff.mp hcross with ⟨huser, hclass⟩
        rw [Bool.not_eq_true'] at huser
        refine ⟨o, ?_, ?_, ?_⟩
        · rw [inHome_iff, ho, isNamed_iff]
          exact ⟨hroot, o, rfl, rfl⟩
        · rintro ⟨u, hu, hlower⟩
          rw [hu, Option.any_some, ← Bool.not_eq_true, Text.eqIgnoreAsciiCase_iff] at huser
          exact huser hlower
        · simpa using hclass
      · cases hcross
    · cases hcross
  · rintro ⟨owner, hhome, huser, hclass⟩
    rw [inHome_iff, isNamed_iff] at hhome
    rcases hhome with ⟨hroot, o, ho, hlower⟩
    have hacting : (subject.user.any fun u ↦ u.eqIgnoreAsciiCase o) = false := by
      cases hu : subject.user with
      | none => rfl
      | some u =>
        rw [Option.any_some, Bool.eq_false_iff, ne_eq, Text.eqIgnoreAsciiCase_iff]
        intro heq
        exact huser ⟨u, hu, heq.trans hlower⟩
    rw [if_pos hroot, ho]
    simpa [hacting] using hclass

private theorem InHome.unique {owner' : Text} {comps : List Text} (h : InHome owner comps)
    (h' : InHome owner' comps) : owner.lower = owner'.lower := by
  unfold InHome at h h'
  have heq := (List.prefix_of_prefix_length_le h h' (Nat.le_refl 2)).eq_of_length rfl
  simpa using heq

/-- The rule passes what is in the subject's own home. -/
theorem crossesUsers_own (h : p.Names l) (hhome : InHome owner l.components)
    (huser : subject.ActsFor owner) : crossesUsers subject p = false := by
  rw [Bool.eq_false_iff, ne_eq, crossesUsers_iff h]
  rintro ⟨owner', hhome', huser', -⟩
  rcases huser with ⟨u, hu, hlower⟩
  exact huser' ⟨u, hu, hlower.trans (hhome.unique hhome')⟩

private theorem evaluate_other_home (h : p.Names l) (hhome : InHome owner l.components)
    (huser : ¬ subject.ActsFor owner) (hclass : subject.subjectClass ∉ systemClasses) :
    ∃ reason, evaluate subject p op = .Deny reason := by
  unfold systemClasses at hclass
  simp only [List.mem_cons, List.not_mem_nil, or_false, not_or] at hclass
  rcases hclass with ⟨hkernel, hservice, hupdater⟩
  by_cases hdriver : subject.subjectClass = .Driver
  · have hroot : p.root = some .Users := h.root.trans (inHome_iff.mp hhome).1
    have hrule : driverRule p op = .Deny .RoleForbidden := by
      unfold driverRule
      rw [hroot]
    have hunprotected : ¬ (effectiveProtection p = .SystemImmutable ∧ op.isMutating = true) := by
      rw [effectiveProtection_users hroot]
      simp
    exact ⟨_, evaluate_eq_iff.mpr (.driver hdriver hunprotected hrule)⟩
  · have hcross : crossesUsers subject p = true := by
      rw [crossesUsers_iff h]
      exact ⟨owner, hhome, huser, by simp [hservice, hupdater]⟩
    exact ⟨_, evaluate_eq_iff.mpr (.crossUser hkernel hdriver hcross)⟩

/-- A string that parses spells one list of components, and if these are in a home, then
every request for it is refused of a subject that neither serves the system nor acts for the
owner, whatever its application and its grants. -/
theorem other_home_refused {s : Text} (h : LkoPathRef.parse s = .ok p) :
    ∃ comps, (∀ c, Spells s c ↔ c = comps) ∧
      ∀ (owner : Text) (subject : Subject) (op : Operation), InHome owner comps →
        ¬ subject.ActsFor owner → subject.subjectClass ∉ systemClasses →
          ∃ reason, evaluate subject p op = .Deny reason := by
  rcases parse_spells h with ⟨l, hspells, hnames⟩
  refine ⟨l.components, hspells, ?_⟩
  intro owner subject op hhome huser hclass
  exact evaluate_other_home hnames hhome huser hclass

/-- A file in Bea's home, oddly spelled. -/
theorem other_home_refused_documents :
    LkoPathRef.parse "/users/BEA/Documents/".toList =
        .ok ⟨"/users/BEA/Documents/".toList, some .Users⟩ ∧
      ∃ comps, (∀ c, Spells "/users/BEA/Documents/".toList c ↔ c = comps) ∧
        ∀ (owner : Text) (subject : Subject) (op : Operation), InHome owner comps →
          ¬ subject.ActsFor owner → subject.subjectClass ∉ systemClasses →
            ∃ reason, evaluate subject ⟨"/users/BEA/Documents/".toList, some .Users⟩ op =
              .Deny reason :=
  have hparse : LkoPathRef.parse "/users/BEA/Documents/".toList =
      .ok ⟨"/users/BEA/Documents/".toList, some .Users⟩ := rfl
  ⟨hparse, other_home_refused hparse⟩

/-! ### Above the homes -/

private theorem above_home {v : Text}
    (hm : m.components.map Text.lower = [Root.Users.name, v].map Text.lower)
    (hwithin : m.Within l) :
    l.components = [] ∨ l.root = some .Users ∧ l.components.tail = [] ∨
      InHome v l.components := by
  unfold Location.Within at hwithin
  rw [hm] at hwithin
  cases hl : l.components with
  | nil => exact .inl rfl
  | cons c cs =>
    rw [hl, List.map_cons, List.map_cons, List.cons_prefix_cons] at hwithin
    rcases hwithin with ⟨hc, hcs⟩
    cases cs with
    | nil => exact .inr (.inl ⟨Location.root_eq_some.mpr ⟨c, [], hl, hc⟩, rfl⟩)
    | cons d ds =>
      rw [List.map_cons, List.map_cons, List.cons_prefix_cons] at hcs
      right
      right
      change Root.Users.name.lower :: [v].map Text.lower <+: c.lower :: d.lower :: ds.map Text.lower
      rw [List.cons_prefix_cons, List.map_singleton, List.cons_prefix_cons]
      exact ⟨hc.symm, hcs.1.symm, List.nil_prefix⟩

private theorem evaluate_users_root (hroot : p.root = some .Users) (htail : p.tail = [])
    (hclass : subject.subjectClass ∉ systemClasses) (hmutating : op.isMutating = true)
    (hop : op.isDestructive = true) :
    evaluate subject p op = .Allow ↔ subject.subjectClass = .UserShell ∨
      subject.subjectClass = .UserApp ∧ subject.hasGrantCovering p = true := by
  have howned := effectiveProtection_users hroot
  have hkernel : subject.subjectClass ≠ .Kernel := by
    intro hkernel
    simp [systemClasses, hkernel] at hclass
  have hdriver : driverRule p op ≠ .Allow := by
    unfold driverRule
    rw [hroot]
    simp
  rw [evaluate_allow_iff hkernel (by simp [howned]) hdriver (by simp [hroot])
    (by simp [sandboxRule_root htail])]
  constructor
  · rintro ⟨h, -, hai, hforeign⟩
    have hgrant := h.owned howned
    have hdriver := h.notDriver
    have hsandboxed := h.notSandboxed
    cases hk : subject.subjectClass <;> simp_all [systemClasses]
  · intro h
    have hne : subject.subjectClass ≠ .Driver ∧ subject.subjectClass ≠ .SandboxedApp ∧
        subject.subjectClass ≠ .AiAgent ∧ subject.subjectClass ≠ .CompatibilityRuntime := by
      rcases h with h | ⟨h, -⟩
      · simp [h]
      · simp [h]
    have hgranted : Granted subject p op := {
      notKernel := hkernel
      notDriver := hne.1
      unprotected := by simp [howned]
      external := by simp [hroot]
      sameUser := crossesUsers_root htail
      notScratch := by simp [hroot]
      notSandboxed := hne.2.1
      managed := by simp [howned]
      owned := by
        intro _
        exact h.imp_right And.right }
    refine ⟨hgranted, ?_, ?_, ?_⟩
    · intro heq
      rw [heq] at hop
      cases hop
    · exact fun hai ↦ hne.2.2.1 hai.1
    · exact fun hforeign ↦ hne.2.2.2 hforeign.1

/-- Deleting and renaming what is at or above the home of somebody else are both not allowed,
unless it is the directory of all homes and the subject is the shell, or an application with
a grant that covers that directory. -/
theorem homes_removed_iff {v : Text} (hp : Reachable (.borrowed p)) (hq : Reachable (.borrowed q))
    (hhome : q.components.map Text.lower = [Root.Users.name, v].map Text.lower)
    (hwithin : q.isWithin p = true) (huser : ¬ subject.ActsFor v)
    (hclass : subject.subjectClass ∉ systemClasses) :
    evaluate subject p .Delete ≠ .Allow ∧ evaluate subject p .Rename ≠ .Allow ↔
      ¬ (p.root = some .Users ∧ p.tail = [] ∧ (subject.subjectClass = .UserShell ∨
        subject.subjectClass = .UserApp ∧ subject.hasGrantCovering p = true)) := by
  rcases reachable_names hp with ⟨l, hl⟩
  rcases reachable_names hq with ⟨m, hm⟩
  rw [hm.components] at hhome
  rw [isWithin_iff hm hl] at hwithin
  rcases above_home hhome hwithin with hvolume | ⟨hroot, htail⟩ | habove
  · -- The volume root is protected from everybody who is not trusted.
    have huntrusted : ¬ subject.Trusted := by
      rintro (h | ⟨h, -⟩)
      · simp [systemClasses, h] at hclass
      · simp [systemClasses, h] at hclass
    have hprotected := (effectiveProtection_iff hl).mpr (.inl hvolume)
    have hroot : p.root ≠ some .Users := by
      rw [hl.root, Location.root_eq_none.mpr hvolume]
      simp
    rw [evaluate_eq_protectedLocation.mpr ⟨rfl, huntrusted, hprotected⟩,
      evaluate_eq_protectedLocation.mpr ⟨rfl, huntrusted, hprotected⟩]
    simp [hroot]
  · rw [← hl.root] at hroot
    rw [← hl.tail] at htail
    rw [ne_eq, ne_eq, evaluate_users_root hroot htail hclass rfl rfl,
      evaluate_users_root hroot htail hclass rfl rfl, and_self]
    simp only [hroot, htail, true_and]
  · -- A home has a component below the root.
    have htail : p.tail ≠ [] := by
      intro htail
      rw [hl.tail] at htail
      have hnamed := (inHome_iff.mp habove).2
      rw [htail] at hnamed
      cases hnamed
    have hrefused (op : Operation) : evaluate subject p op ≠ .Allow := by
      rcases evaluate_other_home hl habove huser hclass with ⟨_, hdeny⟩
      rw [hdeny]
      simp
    simp [hrefused, htail]

private theorem parse_users :
    LkoPathRef.parse "LKO/Users".toList = .ok ⟨"LKO/Users".toList, some .Users⟩ := rfl

private theorem parse_bea :
    LkoPathRef.parse "LKO/Users/Bea".toList = .ok ⟨"LKO/Users/Bea".toList, some .Users⟩ := rfl

/-- Adam, with no application and no grants. -/
def adam (subjectClass : SubjectClass) : Subject :=
  { Subject.new subjectClass with user := some "Adam".toList }

private theorem adam_not_bea (k : SubjectClass) : ¬ (adam k).ActsFor "Bea".toList := by
  rintro ⟨u, hu, hlower⟩
  cases hu
  revert hlower
  decide

/-- An application without grants at the directory of all homes, above Bea's. -/
theorem homes_removed_iff_bea :
    (⟨"LKO/Users/Bea".toList, some .Users⟩ : LkoPathRef).isWithin
        ⟨"LKO/Users".toList, some .Users⟩ = true ∧
      (evaluate (adam .UserApp) ⟨"LKO/Users".toList, some .Users⟩ .Delete ≠ .Allow ∧
          evaluate (adam .UserApp) ⟨"LKO/Users".toList, some .Users⟩ .Rename ≠ .Allow ↔
        ¬ (some Root.Users = some Root.Users ∧
          (⟨"LKO/Users".toList, some .Users⟩ : LkoPathRef).tail = [] ∧
          (SubjectClass.UserApp = .UserShell ∨ SubjectClass.UserApp = .UserApp ∧
            (adam .UserApp).hasGrantCovering ⟨"LKO/Users".toList, some .Users⟩ = true))) := by
  constructor
  · decide
  · apply homes_removed_iff (v := "Bea".toList) (.parse parse_users) (.parse parse_bea)
    · decide
    · decide
    · exact adam_not_bea _
    · decide

/-- Adam's shell may delete the directory of all homes, with Bea's in it. -/
theorem homes_deletable : ¬ ∀ (subject : Subject) (p q : LkoPathRef) (v : Text),
    Reachable (.borrowed p) → Reachable (.borrowed q) →
      q.components.map Text.lower = [Root.Users.name, v].map Text.lower →
        q.isWithin p = true → ¬ subject.ActsFor v → subject.subjectClass ∉ systemClasses →
          evaluate subject p .Delete ≠ .Allow ∧ evaluate subject p .Rename ≠ .Allow := by
  intro h
  have hdelete := h (adam .UserShell) _ _ "Bea".toList (.parse parse_users) (.parse parse_bea)
    (by decide) (by decide) (adam_not_bea _) (by decide)
  exact hdelete.1 (by decide)

end LokoOS.Filesystem
