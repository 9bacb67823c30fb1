import LokoOS.Filesystem.Join

/-!
# Containment is the ancestor relation

Models `filesystem/lkofs-core/src/path.rs:249–309`. Containment compares components; taking the
parent cuts the raw string. Whatever the spelling, the path that is cut `k` times has all but
the last `k` components, so that a path is within exactly what one of its cuts is equal to,
case ignored.
-/

namespace LokoOS.Filesystem

open LokoOS.Base

variable {p q r : LkoPathRef} {l m : Location}

namespace LkoPathRef

/-- The containing directory, taken `k` times. The outer `none` is a panic of one of the steps,
the inner one the end of the chain. -/
def ancestor (p : LkoPathRef) : Nat → Option (Option LkoPathRef)
  | 0 => some (some p)
  | k + 1 =>
    match p.ancestor k with
    | some (some q) => q.parent
    | other => other

/-- Two paths have the same components, ASCII case ignored. -/
def SameComponents (p q : LkoPathRef) : Prop :=
  p.components.map Text.lower = q.components.map Text.lower

private theorem Names.depth (h : p.Names l) : p.depth = l.components.length := by
  rw [LkoPathRef.depth, h.components]

private theorem Names.ancestor (h : p.Names l) {k : Nat} (hk : k ≤ p.depth) :
    ∃ a m, p.ancestor k = some (some a) ∧ a.Names m ∧
      m.components = l.components.take (p.depth - k) := by
  induction k with
  | zero =>
    refine ⟨p, l, rfl, h, ?_⟩
    rw [Nat.sub_zero, h.depth, List.take_length]
  | succ k ih =>
    rcases ih (Nat.le_of_succ_le hk) with ⟨a, m, ha, hnames, hm⟩
    have hne : m.components ≠ [] := by
      intro hnil
      have hlen := congrArg List.length hm
      rw [hnil, List.length_nil, List.length_take, ← h.depth] at hlen
      omega
    rcases parent_names hnames hne with ⟨b, hb, hnames'⟩
    refine ⟨b, m.parent, ?_, hnames', ?_⟩
    · rw [LkoPathRef.ancestor, ha]
      exact hb
    · change m.components.dropLast = _
      rw [hm, List.dropLast_eq_take, List.take_take, List.length_take, ← h.depth]
      congr 1
      omega

end LkoPathRef

private theorem reachable_volume (h : Reachable (.borrowed p)) (hp : p.components = []) :
    p = .ROOT := by
  cases h with
  | root => rfl
  | parse h =>
    rcases parse_iff.mp h with ⟨hlen, l, hspells, heq⟩
    rcases exists_parse hspells hlen with ⟨q, hq, hnames⟩
    rw [h] at hq
    cases hq
    rw [heq, if_pos (hnames.components.symm.trans hp)]
  | parent hp' h =>
    rcases reachable_names hp' with ⟨l, hl⟩
    rcases l.components.eq_nil_or_concat with hnil | ⟨cs, c, hc⟩
    · rw [parent_volume hl hnil] at h
      cases h
    · rw [List.concat_eq_append] at hc
      rcases parent_names hl (by simp [hc]) with ⟨q, hq, hnames⟩
      rw [h] at hq
      cases hq
      have hcs : cs = [] := by
        rw [hnames.components] at hp
        change l.components.dropLast = [] at hp
        rwa [hc, List.dropLast_concat] at hp
      rw [hcs, List.nil_append] at hc
      rw [parent_top hl hc] at h
      cases h
      rfl
  | asRef hp' =>
    rcases reachable_names hp' with ⟨l, hl⟩
    have hnil : l.components = [] := (asRef_names hl).components.symm.trans hp
    rw [LkoPath.Names.eq hl, Location.root_eq_none.mpr hnil, hnil]
    rfl

namespace LkoPathRef.Names

/-- Within what a cut of the path is equal to, case ignored, and within nothing else. -/
theorem isWithin_iff_ancestor (hp : p.Names l) (hq : q.Names m) :
    p.isWithin q = true ↔
      ∃ k ≤ p.depth, ∃ a, p.ancestor k = some (some a) ∧ a.SameComponents q := by
  rw [isWithin_iff hp hq]
  unfold Location.Within SameComponents
  rw [hq.components]
  constructor
  · intro h
    have hlen : m.components.length ≤ p.depth := by
      have := h.length_le
      rwa [List.length_map, List.length_map, ← hp.depth] at this
    rcases hp.ancestor (Nat.sub_le p.depth m.components.length) with ⟨a, m', ha, hnames, hm'⟩
    refine ⟨_, Nat.sub_le _ _, a, ha, ?_⟩
    rw [hnames.components, hm', Nat.sub_sub_self hlen, List.map_take]
    rw [List.prefix_iff_eq_take, List.length_map] at h
    exact h.symm
  · rintro ⟨k, hk, a, ha, hsame⟩
    rcases hp.ancestor hk with ⟨a', m', ha', hnames, hm'⟩
    rw [ha] at ha'
    cases ha'
    rw [← hsame, hnames.components, hm', List.map_take]
    exact List.take_prefix _ _

private theorem ancestor_depth (hp : p.Names l) :
    ∃ a m, p.ancestor p.depth = some (some a) ∧ a.Names m ∧ m.components = [] ∧
      p.ancestor (p.depth + 1) = some none := by
  rcases hp.ancestor (Nat.le_refl p.depth) with ⟨a, m, ha, hnames, hm⟩
  rw [Nat.sub_self, List.take_zero] at hm
  refine ⟨a, m, ha, hnames, hm, ?_⟩
  rw [LkoPathRef.ancestor, ha]
  exact parent_volume hnames hm

end LkoPathRef.Names

/-! ### The order of locations -/

/-- Containment is transitive. -/
theorem Location.Within.trans {n : Location} (h : l.Within m) (h' : m.Within n) : l.Within n :=
  List.IsPrefix.trans h' h

/-- Locations within each other have the same components, case ignored. -/
theorem Location.Within.antisymm (h : l.Within m) (h' : m.Within l) :
    l.components.map Text.lower = m.components.map Text.lower :=
  h'.eq_of_length (Nat.le_antisymm h'.length_le h.length_le)

/-- Locations that contain the same one are comparable. -/
theorem Location.Within.comparable {n : Location} (h : l.Within m) (h' : l.Within n) :
    m.Within n ∨ n.Within m :=
  List.prefix_or_prefix_of_prefix h' h

/-- A location has the root of what it is within. -/
theorem Location.Within.root (h : l.Within m) {root : Root} (hm : m.root = some root) :
    l.root = some root := by
  rcases Location.root_eq_some.mp hm with ⟨c, cs, hc, hlower⟩
  unfold Location.Within at h
  rw [hc, List.map_cons] at h
  cases hl : l.components with
  | nil =>
    rw [hl] at h
    cases List.prefix_nil.mp h
  | cons d ds =>
    rw [hl, List.map_cons, List.cons_prefix_cons] at h
    exact Location.root_eq_some.mpr ⟨d, ds, hl, h.1.symm.trans hlower⟩

private theorem reachable_ancestor (h : Reachable (.borrowed p)) {k : Nat} {a : LkoPathRef}
    (ha : p.ancestor k = some (some a)) : Reachable (.borrowed a) := by
  induction k generalizing a with
  | zero =>
    cases ha
    exact h
  | succ k ih =>
    rw [LkoPathRef.ancestor] at ha
    split at ha
    · next q hq => exact .parent (ih hq) ha
    · next hother => exact absurd ha (hother _)

/-- Containment is the ancestor relation, on the paths that the operations make. It is reflexive,
transitive and, case ignored, antisymmetric; what contains one path is comparable; the volume
root contains everything; the root is inherited; and the chain of parents reaches the volume
root after as many steps as the path is deep, and ends there. -/
theorem containment_is_ancestry (hp : Reachable (.borrowed p)) (hq : Reachable (.borrowed q))
    (hr : Reachable (.borrowed r)) :
    (p.isWithin q = true ↔
      ∃ k ≤ p.depth, ∃ a, p.ancestor k = some (some a) ∧ a.SameComponents q) ∧
    p.isWithin p = true ∧
    (p.isWithin q = true → q.isWithin r = true → p.isWithin r = true) ∧
    (p.isWithin q = true → q.isWithin p = true → p.SameComponents q) ∧
    (p.isWithin q = true → p.isWithin r = true → q.isWithin r = true ∨ r.isWithin q = true) ∧
    p.isWithin .ROOT = true ∧
    (∀ root, p.isWithin q = true → q.root = some root → p.root = some root) ∧
    p.ancestor p.depth = some (some .ROOT) ∧ p.ancestor (p.depth + 1) = some none ∧
    ∀ k < p.depth, ∃ a, p.ancestor k = some (some a) ∧ a ≠ .ROOT := by
  rcases reachable_names hp with ⟨l, hl⟩
  rcases reachable_names hq with ⟨m, hm⟩
  rcases reachable_names hr with ⟨n, hn⟩
  have hancestor := hl.isWithin_iff_ancestor hm
  rw [isWithin_iff hl hm] at hancestor ⊢
  rw [isWithin_iff hl hl, isWithin_iff hl hn, isWithin_iff hm hn, isWithin_iff hm hl,
    isWithin_iff hn hm, isWithin_iff hl names_ROOT]
  refine ⟨hancestor, List.prefix_rfl, .trans, ?_, Location.Within.comparable,
    List.nil_prefix, ?_, ?_, ?_, ?_⟩
  · intro hpq hqp
    unfold LkoPathRef.SameComponents
    rw [hl.components, hm.components]
    exact hpq.antisymm hqp
  · intro root hpq hroot
    rw [hm.root] at hroot
    rw [hl.root]
    exact hpq.root hroot
  · rcases hl.ancestor_depth with ⟨a, o, ha, ho, hnil, -⟩
    rw [ha, reachable_volume (reachable_ancestor hp ha) (ho.components.trans hnil)]
  · rcases hl.ancestor_depth with ⟨a, o, -, -, -, hend⟩
    exact hend
  · intro k hk
    rcases hl.ancestor (Nat.le_of_lt hk) with ⟨a, o, ha, ho, hcomps⟩
    refine ⟨a, ha, ?_⟩
    rintro rfl
    have hlen := congrArg List.length (ho.unique names_ROOT)
    rw [hcomps, List.length_take, ← hl.depth] at hlen
    change min (p.depth - k) p.depth = 0 at hlen
    omega

/-- A mixed-case short spelling is within a long one, and two steps up is the volume root. -/
theorem containment_is_ancestry_users :
    LkoPathRef.isWithin ⟨"/USERS/Adam".toList, some .Users⟩ ⟨"LKO/Users".toList, some .Users⟩ =
        true ∧
      LkoPathRef.ancestor ⟨"/USERS/Adam".toList, some .Users⟩ 2 = some (some .ROOT) ∧
      LkoPathRef.ancestor ⟨"/USERS/Adam".toList, some .Users⟩ 3 = some none := by
  have hp : Reachable (.borrowed ⟨"/USERS/Adam".toList, some .Users⟩) :=
    .parse (rfl : LkoPathRef.parse "/USERS/Adam".toList = _)
  have hq : Reachable (.borrowed ⟨"LKO/Users".toList, some .Users⟩) :=
    .parse (rfl : LkoPathRef.parse "LKO/Users".toList = _)
  have h := containment_is_ancestry hp hq .root
  have hdepth : LkoPathRef.depth ⟨"/USERS/Adam".toList, some .Users⟩ = 2 := rfl
  rw [hdepth] at h
  have hsame : LkoPathRef.SameComponents ⟨"/USERS".toList, some .Users⟩
      ⟨"LKO/Users".toList, some .Users⟩ := rfl
  exact ⟨h.1.mpr ⟨1, by decide, _, rfl, hsame⟩, h.2.2.2.2.2.2.2.1, h.2.2.2.2.2.2.2.2.1⟩

end LokoOS.Filesystem
