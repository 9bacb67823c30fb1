import LokoOS.Base.Separated
import LokoOS.Filesystem.Path

/-!
# Locations

What a path is for, apart from how it is written: the list of its components, each one
storable, the first a root name. A location has many spellings and one canonical spelling;
containment compares components and ignores case.
-/

namespace LokoOS.Filesystem

open LokoOS.Base

/-- What a component may be. -/
structure ValidName (c : Text) : Prop where
  nonempty : c ≠ []
  short : c.len ≤ maxComponentLen
  absolute : c ≠ ".".toList ∧ c ≠ "..".toList
  noBackslash : '\\' ∉ c
  noSlash : '/' ∉ c
  printable : ∀ ch ∈ c, ¬ isControl ch ∧ ¬ isLineSeparator ch ∧ ¬ isBidiControl ch
  ending : c.getLast? ≠ some ' ' ∧ c.getLast? ≠ some '.'

private theorem validateChar_eq_ok {ch : Char} {u : Unit} :
    validateChar ch = .ok u ↔ ¬ isControl ch ∧ ¬ isLineSeparator ch ∧ ¬ isBidiControl ch := by
  unfold validateChar
  simp only [seq_eq_ok, rejectIf_eq_ok]

/-- The checks of a component accept exactly the storable names. -/
theorem validateComponent_eq_ok {c : Text} {u : Unit} :
    validateComponent c = .ok u ↔ ValidName c := by
  unfold validateComponent
  simp only [seq_eq_ok, rejectIf_eq_ok, forM_eq_ok, validateChar_eq_ok, not_or, Nat.not_lt]
  constructor
  · rintro ⟨h₁, h₂, h₃, h₄, h₅, h₆, h₇⟩
    exact ⟨h₁, h₂, h₃, h₄, h₅, h₆, h₇⟩
  · intro h
    exact ⟨h.nonempty, h.short, h.absolute, h.noBackslash, h.noSlash, h.printable, h.ending⟩

/-- A storable name can stand between separators. -/
theorem ValidName.isPart {c : Text} (h : ValidName c) : IsPart '/' c := ⟨h.nonempty, h.noSlash⟩

/-- A place in the volume: storable names, the first of them a root's. -/
@[ext] structure Location where
  components : List Text
  valid : ∀ c ∈ components, ValidName c
  known : ∀ c ∈ components.head?, (Root.parse c).isSome

namespace Location

/-- The volume root. -/
def volume : Location := ⟨[], by simp, by simp⟩

/-- The root a location is under, none for the volume root. -/
def root (l : Location) : Option Root := l.components.head?.bind Root.parse

/-- The location that contains a location; the volume root for itself. -/
def parent (l : Location) : Location where
  components := l.components.dropLast
  valid c hc := l.valid c (List.dropLast_subset _ hc)
  known c hc := by
    apply l.known c
    cases hl : l.components with
    | nil => simp [hl] at hc
    | cons d ds =>
      cases ds with
      | nil => simp [hl] at hc
      | cons e es => simpa [hl] using hc

/-- The location one level below, by a storable name that names a root at the top. -/
def child (l : Location) (c : Text) (hc : ValidName c)
    (hk : l.components = [] → (Root.parse c).isSome) : Location where
  components := l.components ++ [c]
  valid d hd := by
    rcases List.mem_append.mp hd with hd | hd
    · exact l.valid d hd
    · exact List.mem_singleton.mp hd ▸ hc
  known d hd := by
    rw [List.head?_append, Option.mem_def, Option.or_eq_some_iff] at hd
    rcases hd with hd | ⟨hnil, hd⟩
    · exact l.known d hd
    · cases hd
      exact hk (List.head?_eq_none_iff.mp hnil)

/-- The location at or below a root with given storable names. -/
def under (r : Root) (names : List Text) (h : ∀ c ∈ names, ValidName c) : Location where
  components := r.name :: names
  valid c hc := by
    rcases List.mem_cons.mp hc with hc | hc
    · rw [hc]
      apply (validateComponent_eq_ok (u := ())).mp
      cases r <;> rfl
    · exact h c hc
  known c hc := by
    cases hc
    rw [Root.parse_eq_some.mpr rfl]
    rfl

/-- One location is another or lies below it, case ignored. -/
def Within (l m : Location) : Prop :=
  m.components.map Text.lower <+: l.components.map Text.lower

variable {l m : Location}

/-- Components can stand between separators. -/
theorem isPart (l : Location) : ∀ c ∈ l.components, IsPart '/' c :=
  fun c hc ↦ (l.valid c hc).isPart

/-- Only the volume root is under no root. -/
theorem root_eq_none : l.root = none ↔ l.components = [] := by
  unfold root
  cases hl : l.components with
  | nil => simp
  | cons c cs =>
    have hk := l.known c (by simp [hl])
    rcases Option.isSome_iff_exists.mp hk with ⟨r, hr⟩
    simp [hr]

/-- The root is the one its first component names. -/
theorem root_eq_some {r : Root} :
    l.root = some r ↔ ∃ c cs, l.components = c :: cs ∧ c.lower = r.name.lower := by
  unfold root
  cases hl : l.components with
  | nil => simp
  | cons c cs => simp [Root.parse_eq_some]

/-- Leaving out the last of several components keeps the root. -/
theorem root_parent {cs : List Text} {c : Text} (hc : l.components = cs ++ [c]) (hcs : cs ≠ []) :
    l.parent.root = l.root := by
  change l.components.dropLast.head?.bind Root.parse = l.components.head?.bind Root.parse
  rw [hc, List.dropLast_concat, List.head?_append, List.head?_eq_some_head hcs, Option.some_or]

/-- A name below the top keeps the root. -/
theorem root_child {c : Text} {hc : ValidName c}
    {hk : l.components = [] → (Root.parse c).isSome} {r : Root} (h : l.root = some r) :
    (l.child c hc hk).root = some r := by
  change (l.components ++ [c]).head?.bind Root.parse = some r
  unfold root at h
  rcases Option.bind_eq_some_iff.mp h with ⟨d, hd, hr⟩
  rw [List.head?_append, hd, Option.some_or]
  exact hr

/-- A name at the top is the root. -/
theorem root_child_volume {c : Text} {hc : ValidName c}
    {hk : l.components = [] → (Root.parse c).isSome} (h : l.components = []) :
    (l.child c hc hk).root = Root.parse c := by
  change (l.components ++ [c]).head?.bind Root.parse = Root.parse c
  rw [h]
  rfl

end Location

/-! ### Spellings -/

/-- Ways to write the start of a path: nothing, or the volume prefix in any case. -/
def VolumePrefix (pre : Text) : Prop := pre = [] ∨ pre.lower = lkoPrefix.lower

/-- Ways to end a path. -/
def Trail (trail : Text) : Prop := trail = [] ∨ trail = ['/']

/-- A string spells a list of components: the bare volume prefix spells none, and otherwise
the components stand after a separator, with another one allowed after them. -/
inductive Spells : Text → List Text → Prop
  | volume {s : Text} (h : s.lower = lkoPrefix.lower) : Spells s []
  | path {pre trail : Text} {comps : List Text} (hpre : VolumePrefix pre) (htrail : Trail trail)
      (hcomps : ∀ c ∈ comps, IsPart '/' c) :
      Spells (pre ++ '/' :: (joined '/' comps ++ trail)) comps

/-- The canonical spelling. -/
def canonical (comps : List Text) : Text :=
  lkoPrefix ++ if comps = [] then [] else '/' :: joined '/' comps

/-- The canonical spelling is a spelling. -/
theorem spells_canonical {comps : List Text} (h : ∀ c ∈ comps, IsPart '/' c) :
    Spells (canonical comps) comps := by
  unfold canonical
  split
  · next hc =>
    rw [hc, List.append_nil]
    exact .volume rfl
  · rw [← List.append_nil (joined '/' comps)]
    exact .path (.inr rfl) (.inl rfl) h

/-- A borrowed path stands for a location. -/
structure LkoPathRef.Names (p : LkoPathRef) (l : Location) : Prop where
  spelled : Spells p.raw l.components
  root : p.root = l.root

/-- An owned path stands for a location in its canonical spelling. -/
structure LkoPath.Names (p : LkoPath) (l : Location) : Prop where
  spelled : p.inner = canonical l.components
  root : p.root = l.root

/-- A path value stands for a location. -/
def PathValue.Names : PathValue → Location → Prop
  | .borrowed p => p.Names
  | .owned p => p.Names

end LokoOS.Filesystem
