import LokoOS.Filesystem.Canonical

/-!
# The grammar of paths

What `filesystem/lkofs-core/src/path.rs` says a path looks like, as a grammar, and how far the
parser follows it. The parser strips one trailing separator before it looks for the volume
root, so after the volume prefix it takes two separators in a row for one.
-/

namespace LokoOS.Filesystem

open LokoOS.Base

variable {s pre : Text} {comps : List Text} {l : Location} {r : Option Root}

/-- The spellings of the volume root: a separator, or the volume prefix in any case with at
most one separator after it. -/
inductive VolumeSpelling : Text → Prop
  | separator : VolumeSpelling ['/']
  | bare {pre : Text} (h : pre.lower = lkoPrefix.lower) : VolumeSpelling pre
  | closed {pre : Text} (h : pre.lower = lkoPrefix.lower) : VolumeSpelling (pre ++ ['/'])

/-- The grammar: a string, the root it names and its components. Below the volume root there
is at least one component, all of them pass the check of a component, and the first is ASCII
and names the root in any case. -/
inductive Grammar : Text → Option Root → List Text → Prop
  | volume {s : Text} (h : VolumeSpelling s) : Grammar s none []
  | path {pre trail first : Text} {rest : List Text} {root : Root} (hpre : VolumePrefix pre)
      (htrail : Trail trail) (hascii : first.isAscii = true)
      (hroot : first.lower = root.name.lower)
      (hvalid : ∀ c ∈ first :: rest, validateComponent c = .ok ()) :
      Grammar (pre ++ '/' :: (joined '/' (first :: rest) ++ trail)) (some root) (first :: rest)

/-- The volume prefix with two separators after it. -/
def DoubleSeparator (s : Text) : Prop := ∃ pre, VolumePrefix pre ∧ s = pre ++ ['/', '/']

/-- On one string, the parser accepts exactly what the grammar derives within the limit, the
path has the root and the components of every derivation, and no accepted string has two
separators in a row. -/
structure FollowsGrammar (s : Text) : Prop where
  accepts : (∃ p, LkoPathRef.parse s = .ok p) ↔ s.len ≤ maxPathLen ∧ ∃ r comps, Grammar s r comps
  result : ∀ p, LkoPathRef.parse s = .ok p → ∀ r comps, Grammar s r comps →
    p.root = r ∧ p.components = comps
  spaced : ∀ p, LkoPathRef.parse s = .ok p → ¬ ['/', '/'] <:+: s

/-! ### Derivations and spellings -/

private theorem Grammar.spells (h : Grammar s r comps) :
    ∃ l : Location, Spells s l.components ∧ l.components = comps ∧ l.root = r := by
  cases h with
  | volume h =>
    refine ⟨.volume, ?_, rfl, rfl⟩
    cases h with
    | separator => exact .path (.inl rfl) (.inl rfl) Location.volume.isPart
    | bare h => exact .volume h
    | closed h => exact .path (.inr h) (.inl rfl) Location.volume.isPart
  | @path pre trail first rest root hpre htrail hascii hroot hvalid =>
    have hparse := Root.parse_eq_some.mpr hroot
    let l : Location := {
      components := first :: rest
      valid := fun c hc ↦ validateComponent_eq_ok.mp (hvalid c hc)
      known := by
        intro c hc
        cases hc
        rw [hparse]
        rfl }
    exact ⟨l, .path hpre htrail l.isPart, rfl, hparse⟩

private theorem grammar_of_spells (h : Spells s l.components) (hs : ¬ DoubleSeparator s) :
    Grammar s l.root l.components := by
  generalize hcomps : l.components = comps at h
  cases h with
  | volume h =>
    rw [Location.root_eq_none.mpr hcomps]
    exact .volume (.bare h)
  | @path pre trail _ hpre htrail _ =>
    cases comps with
    | nil =>
      rw [Location.root_eq_none.mpr hcomps, joined_nil, List.nil_append]
      cases htrail with
      | inl htrail =>
        rw [htrail]
        cases hpre with
        | inl hpre =>
          rw [hpre]
          exact .volume .separator
        | inr hpre => exact .volume (.closed hpre)
      | inr htrail =>
        rw [joined_nil, List.nil_append, htrail] at hs
        exact absurd ⟨pre, hpre, rfl⟩ hs
    | cons first rest =>
      have hfirst := l.known first (by rw [hcomps]; rfl)
      cases hparse : Root.parse first with
      | none =>
        rw [hparse] at hfirst
        cases hfirst
      | some root =>
        have hlower := Root.parse_eq_some.mp hparse
        have hroot : l.root = some root := Location.root_eq_some.mpr ⟨first, rest, hcomps, hlower⟩
        rw [hroot]
        apply Grammar.path hpre htrail
        · rw [← Text.isAscii_lower, hlower, Text.isAscii_lower, Root.isAscii_name]
        · exact hlower
        · intro c hc
          rw [← hcomps] at hc
          exact validateComponent_eq_ok.mpr (l.valid c hc)

private theorem Grammar.spaced (h : Grammar s r comps) : Spaced '/' s := by
  cases h with
  | volume h =>
    cases h with
    | separator => exact List.isChain_singleton _
    | bare h => exact spaced_of_notMem (slash_notMem_volumePrefix (.inr h))
    | closed h =>
      have hpre := slash_notMem_volumePrefix (.inr h)
      apply (spaced_of_notMem hpre).append (List.isChain_singleton _)
      exact fun hs ↦ hpre (List.mem_of_getLast? hs)
  | @path pre trail first rest root hpre htrail _ _ hvalid =>
    have hparts : ∀ c ∈ first :: rest, IsPart '/' c := fun c hc ↦
      (validateComponent_eq_ok.mp (hvalid c hc)).isPart
    have hslash := slash_notMem_volumePrefix hpre
    have htrail' : Spaced '/' trail := by
      cases htrail with
      | inl htrail => exact htrail ▸ List.isChain_nil
      | inr htrail => exact htrail ▸ List.isChain_singleton _
    have hjoined := (spaced_joined hparts).append htrail' (getLast?_joined hparts)
    apply (spaced_of_notMem hslash).append
    · apply hjoined.cons
      have hne : joined '/' (first :: rest) ≠ [] := fun hj ↦ by
        cases (joined_eq_nil hparts).mp hj
      rw [List.head?_append, List.head?_eq_some_head hne, Option.some_or,
        ← List.head?_eq_some_head hne]
      exact head?_joined hparts
    · exact fun hs ↦ hslash (List.mem_of_getLast? hs)

/-! ### The parser against the grammar -/

private theorem DoubleSeparator.parse (h : DoubleSeparator s) : LkoPathRef.parse s = .ok .ROOT := by
  rcases h with ⟨pre, hpre, rfl⟩
  have hspells : Spells (pre ++ '/' :: (joined '/' [] ++ ['/'])) Location.volume.components :=
    .path hpre (.inr rfl) Location.volume.isPart
  have hlen : Text.len (pre ++ ['/', '/']) ≤ maxPathLen := by
    cases hpre with
    | inl hpre =>
      rw [hpre]
      decide
    | inr hpre =>
      rw [Text.len_append, len_volumePrefix hpre]
      decide
  exact parse_spelled hspells hlen

/-- The parser follows the grammar on exactly the strings that are not the volume prefix, in
any case or left out, with two separators after it. -/
theorem parse_follows_grammar (s : Text) : FollowsGrammar s ↔ ¬ DoubleSeparator s := by
  constructor
  · intro h hs
    apply h.spaced _ hs.parse
    rcases hs with ⟨pre, -, rfl⟩
    exact List.suffix_append pre ['/', '/'] |>.isInfix
  · intro hs
    constructor
    · constructor
      · rintro ⟨p, hp⟩
        rcases parse_eq_ok hp with ⟨l, hspells, -⟩
        exact ⟨len_of_parse hp, l.root, l.components, grammar_of_spells hspells hs⟩
      · rintro ⟨hlen, r, comps, hgrammar⟩
        rcases hgrammar.spells with ⟨l, hspells, -, -⟩
        rcases exists_parse hspells hlen with ⟨p, hp, -⟩
        exact ⟨p, hp⟩
    · intro p hp r comps hgrammar
      rcases hgrammar.spells with ⟨l, hspells, hcomps, hroot⟩
      rcases exists_parse hspells (len_of_parse hp) with ⟨q, hq, hnames⟩
      rw [hp] at hq
      cases hq
      exact ⟨hnames.root.trans hroot, hnames.components.trans hcomps⟩
    · intro p hp
      rcases parse_eq_ok hp with ⟨l, hspells, -⟩
      exact (grammar_of_spells hspells hs).spaced.not_infix

/-- Two separators alone are accepted as the volume root. -/
theorem double_separator_accepted : ¬ ∀ s, FollowsGrammar s := by
  intro h
  have hparse : LkoPathRef.parse "//".toList = .ok .ROOT := rfl
  exact (h "//".toList).spaced _ hparse (List.infix_refl _)

example : LkoPathRef.parse "LKO//".toList = .ok .ROOT := rfl

end LokoOS.Filesystem
