import Mathlib.Logic.Basic
import LokoOS.Filesystem.Canonical
import LokoOS.Filesystem.Homes

/-!
# The sandbox

What a sandboxed application reaches: the scratch space, its own container in the home of its
user, and its installation directory without changing it. The rule walks over the components
of a path; it agrees with the containment test on the paths of the two directories.
-/

namespace LokoOS.Filesystem

open LokoOS.Base

/-- Components of the container of an application of a user, or of a location in it. -/
def InContainer (user app : Text) (comps : List Text) : Prop :=
  [Root.Users.name, user, "AppData".toList, app].map Text.lower <+: comps.map Text.lower

/-- Components of the installation directory of an application, or of a location in it. -/
def InInstallDir (app : Text) (comps : List Text) : Prop :=
  [Root.Apps.name, app].map Text.lower <+: comps.map Text.lower

variable {subject : Subject} {p q : LkoPathRef} {l m : Location} {op : Operation}
  {user app : Text}

/-! ### The two directories -/

private theorem inContainer_iff_named : InContainer user app l.components ↔
    l.root = some .Users ∧ isNamed l.components.tail[0]? user = true ∧
      isNamed l.components.tail[1]? "AppData".toList = true ∧
        isNamed l.components.tail[2]? app = true := by
  unfold InContainer
  rw [leads_root, leads_cons, leads_cons, leads_cons]
  simp only [List.head?_eq_getElem?, List.getElem?_tail, List.map_nil, List.nil_prefix, and_true]

private theorem inInstallDir_iff_named : InInstallDir app l.components ↔
    l.root = some .Apps ∧ isNamed l.components.tail.head? app = true := by
  unfold InInstallDir
  rw [leads_root, leads_cons]
  simp only [List.map_nil, List.nil_prefix, and_true]

/-- The component walk finds the container of the subject's own application and user. -/
theorem inOwnAppdata_iff (h : p.Names l) : inOwnAppdata subject p = true ↔
    ∃ u a, subject.user = some u ∧ subject.appId = some a ∧ InContainer u a l.components := by
  simp only [inContainer_iff_named, ← h.root, ← h.tail]
  unfold inOwnAppdata
  split
  · next u a hroot hu ha => simp [hroot, hu, ha, and_assoc]
  · next hother =>
    constructor
    · intro hfalse
      cases hfalse
    · rintro ⟨u, a, hu, ha, hroot, -⟩
      exact absurd ha (hother u a hroot hu)

/-- The component walk finds the installation directory of the subject's own application. -/
theorem inOwnInstallDir_iff (h : p.Names l) : inOwnInstallDir subject p = true ↔
    ∃ a, subject.appId = some a ∧ InInstallDir a l.components := by
  simp only [inInstallDir_iff_named, ← h.root, ← h.tail]
  unfold inOwnInstallDir
  split
  · next a hroot ha => simp [hroot, ha]
  · next hother =>
    constructor
    · intro hfalse
      cases hfalse
    · rintro ⟨a, ha, hroot, -⟩
      exact absurd ha (hother a hroot)

/-- The verdict inside the sandbox. -/
theorem sandboxRule_eq_allow : sandboxRule subject p op = .Allow ↔
    inOwnAppdata subject p = true ∨ inOwnInstallDir subject p = true ∧ op.isMutating = false := by
  unfold sandboxRule
  rw [ite_eq_iff]
  simp

/-! ### The verdicts -/

private theorem evaluate_sandboxed (hclass : subject.subjectClass = .SandboxedApp) :
    evaluate subject p op = .Allow ∨ ∃ reason, evaluate subject p op = .Deny reason := by
  have hexit := evaluate_exit subject p op
  generalize evaluate subject p op = d at hexit ⊢
  cases hexit with
  | kernel | updating | scratch | granted => exact .inl rfl
  | protectedLocation | internals | crossUser | managed | ungranted => exact .inr ⟨_, rfl⟩
  | driver hdriver =>
    rw [hclass] at hdriver
    cases hdriver
  | sandboxed _ _ hd =>
    unfold sandboxRule at hd
    split at hd
    · exact .inl hd.symm
    · exact .inr ⟨_, hd.symm⟩
  | permissions h | aiChange h | foreignWrite h => exact absurd hclass h.notSandboxed

/-- What a sandboxed application may do: anything in the scratch space and in its own
container, and anything but a change in its installation directory. -/
theorem evaluate_sandboxed_iff (h : p.Names l) (hclass : subject.subjectClass = .SandboxedApp) :
    evaluate subject p op = .Allow ↔
      (p.root = some .Temp ∨ p.root = some .Cache) ∨
        (∃ u a, subject.user = some u ∧ subject.appId = some a ∧ InContainer u a l.components) ∨
          ∃ a, subject.appId = some a ∧ InInstallDir a l.components ∧ op.isMutating = false := by
  have hkernel : subject.subjectClass ≠ .Kernel := by simp [hclass]
  have hdriver : subject.subjectClass ≠ .Driver := by simp [hclass]
  have hforeign : ¬ (subject.subjectClass = .CompatibilityRuntime ∧ p.root ∈ internalRoots) := by
    simp [hclass]
  rw [evaluate_eq_iff]
  constructor
  · intro hexit
    cases hexit with
    | kernel hc | updating hc | driver hc => simp [hclass] at hc
    | scratch _ _ hroot => exact .inl (by simpa using hroot)
    | sandboxed _ _ hd =>
      rw [sandboxRule_eq_allow, inOwnAppdata_iff h, inOwnInstallDir_iff h] at hd
      right
      rcases hd with happdata | ⟨⟨a, ha, hinstall⟩, hop⟩
      · exact .inl happdata
      · exact .inr ⟨a, ha, hinstall, hop⟩
    | granted hgranted => exact absurd hclass hgranted.notSandboxed
  · rintro (hscratch | ⟨u, a, hu, ha, hcontainer⟩ | ⟨a, ha, hinstall, hop⟩)
    · exact .scratch hkernel hdriver (by simpa using hscratch)
    · have hroot : p.root = some .Users := h.root.trans (leads_root.mp hcontainer).1
      have hhome : InHome u l.components := by
        apply List.IsPrefix.trans _ hcontainer
        exact ⟨["AppData".toList, a].map Text.lower, rfl⟩
      have hundecided : Undecided subject p op := {
        notKernel := hkernel
        notDriver := hdriver
        unprotected := by simp [effectiveProtection_users hroot]
        external := hforeign
        sameUser := crossesUsers_own h hhome ⟨u, hu, rfl⟩
        notScratch := by simp [hroot] }
      apply Exit.sandboxed hundecided hclass
      rw [sandboxRule_eq_allow, inOwnAppdata_iff h]
      exact .inl ⟨u, a, hu, ha, hcontainer⟩
    · have hroot : p.root = some .Apps := h.root.trans (leads_root.mp hinstall).1
      have hundecided : Undecided subject p op := {
        notKernel := hkernel
        notDriver := hdriver
        unprotected := by simp [hop]
        external := hforeign
        sameUser := crossesUsers_of_root (by simp [hroot])
        notScratch := by simp [hroot] }
      apply Exit.sandboxed hundecided hclass
      rw [sandboxRule_eq_allow, inOwnInstallDir_iff h]
      exact .inr ⟨⟨a, ha, hinstall⟩, hop⟩

/-! ### The two directories as paths -/

private theorem directory_path {r : Root} {names : List Text} (h : p.Names l)
    (hvalid : ∀ c ∈ names, ValidName c) (hdepth : names.length ≤ 14) :
    ∃ q, LkoPathRef.parse (canonical (r.name :: names)) = .ok q ∧
      ((r.name :: names).map Text.lower <+: l.components.map Text.lower ↔
        p.isWithin q = true) := by
  have hlen : (canonical (Location.under r names hvalid).components).len ≤ maxPathLen :=
    len_canonical_le (Nat.succ_le_succ hdepth)
  rcases parse_canonical hlen with ⟨q, hq, hnames⟩
  exact ⟨q, hq, (isWithin_iff h hnames).symm⟩

/-- A string that parses spells one list of components, and these say what a sandboxed
application may do there; what it may not do is refused without a prompt. The leading
components in question are those of two paths, so containment in these says the same. -/
theorem sandbox_exact {s : Text} (h : LkoPathRef.parse s = .ok p) :
    ∃ comps, (∀ c, Spells s c ↔ c = comps) ∧
      (∀ (subject : Subject) (op : Operation), subject.subjectClass = .SandboxedApp →
        (evaluate subject p op = .Allow ↔
          (p.root = some .Temp ∨ p.root = some .Cache) ∨
            (∃ u a, subject.user = some u ∧ subject.appId = some a ∧ InContainer u a comps) ∨
              ∃ a, subject.appId = some a ∧ InInstallDir a comps ∧ op.isMutating = false) ∧
        (evaluate subject p op ≠ .Allow → ∃ reason, evaluate subject p op = .Deny reason)) ∧
      (∀ u a, validateComponent u = .ok () → validateComponent a = .ok () →
        ∃ q, LkoPathRef.parse (canonical [Root.Users.name, u, "AppData".toList, a]) = .ok q ∧
          (InContainer u a comps ↔ p.isWithin q = true)) ∧
      ∀ a, validateComponent a = .ok () →
        ∃ q, LkoPathRef.parse (canonical [Root.Apps.name, a]) = .ok q ∧
          (InInstallDir a comps ↔ p.isWithin q = true) := by
  rcases parse_spells h with ⟨l, hspells, hnames⟩
  refine ⟨l.components, hspells, ?_, ?_, ?_⟩
  · intro subject op hclass
    constructor
    · exact evaluate_sandboxed_iff hnames hclass
    · intro hne
      exact (evaluate_sandboxed hclass).resolve_left hne
  · intro u a hu ha
    rw [validateComponent_eq_ok] at hu ha
    have happdata : ValidName "AppData".toList := (validateComponent_eq_ok (u := ())).mp rfl
    apply directory_path hnames
    · simp only [List.forall_mem_cons]
      exact ⟨hu, happdata, ha, by simp⟩
    · exact Nat.le_of_ble_eq_true rfl
  · intro a ha
    rw [validateComponent_eq_ok] at ha
    apply directory_path hnames
    · simpa using ha
    · exact Nat.le_of_ble_eq_true rfl

/-- A sandboxed editor of Adam. -/
def editor : Subject :=
  { Subject.new .SandboxedApp with
    appId := some "com.example.editor".toList
    user := some "Adam".toList }

/-- The verdicts for the editor on a file in its container, oddly spelled. -/
theorem sandbox_exact_editor :
    LkoPathRef.parse "lko/users/ADAM/appdata/com.example.editor/x/".toList =
        .ok ⟨"lko/users/ADAM/appdata/com.example.editor/x/".toList, some .Users⟩ ∧
      ∃ comps, (∀ c, Spells "lko/users/ADAM/appdata/com.example.editor/x/".toList c ↔ c = comps) ∧
        ∀ op, evaluate editor
            ⟨"lko/users/ADAM/appdata/com.example.editor/x/".toList, some .Users⟩ op = .Allow ↔
          (some Root.Users = some .Temp ∨ some Root.Users = some .Cache) ∨
            (∃ u a, editor.user = some u ∧ editor.appId = some a ∧ InContainer u a comps) ∨
              ∃ a, editor.appId = some a ∧ InInstallDir a comps ∧ op.isMutating = false := by
  have hparse : LkoPathRef.parse "lko/users/ADAM/appdata/com.example.editor/x/".toList =
      .ok ⟨"lko/users/ADAM/appdata/com.example.editor/x/".toList, some .Users⟩ := rfl
  rcases sandbox_exact hparse with ⟨comps, hspells, hverdict, -, -⟩
  constructor
  · exact hparse
  · refine ⟨comps, hspells, ?_⟩
    intro op
    exact (hverdict editor op rfl).1

end LokoOS.Filesystem
