import LokoOS.Filesystem.Borrowed

/-!
# Joining agrees with parsing

Models `filesystem/lkofs-core/src/path.rs:388–410` beside `path.rs:185–229`. A path is extended
by checking one component, or by parsing the longer string. Both take the same components, at
the length limit and at the volume root too.
-/

namespace LokoOS.Filesystem

open LokoOS.Base

variable {b r : LkoPath} {l : Location} {c : Text}

/-- Path `r` is path of the location one component below `l`, if it is within the limit. -/
def LkoPath.Extends (r : LkoPath) (l : Location) (c : Text) : Prop :=
  (canonical (l.components ++ [c])).len ≤ maxPathLen ∧
    ∃ m : Location, m.components = l.components ++ [c] ∧ r = ⟨canonical m.components, m.root⟩

private theorem LkoPath.Names.asStr_append (h : b.Names l) (c : Text) :
    b.asStr ++ '/' :: c = canonical (l.components ++ [c]) := by
  rw [canonical_concat, LkoPath.asStr, h.spelled]

private theorem LkoPath.Names.len_append (h : b.Names l) (c : Text) :
    (canonical (l.components ++ [c])).len = b.inner.len + 1 + c.len := by
  rw [← h.asStr_append, Text.len_append, Text.len_cons, Nat.add_assoc]
  rfl

private theorem LkoPath.join_eq_ok (h : b.Names l) : b.join c = .ok r ↔ r.Extends l c := by
  constructor
  · intro hj
    constructor
    · rw [h.len_append]
      rw [join, seq_eq_ok, seq_eq_ok, rejectIf_eq_ok] at hj
      exact Nat.not_lt.mp hj.2.1
    · rcases join_names h hj with ⟨m, hm, hnames⟩
      exact ⟨m, hm, hnames.eq⟩
  · rintro ⟨hlen, m, hm, rfl⟩
    have hvalid : ValidName c := m.valid c (by simp [hm])
    have hk : l.components = [] → (Root.parse c).isSome := by
      intro hl
      exact m.known c (by simp [hm, hl])
    obtain rfl : m = l.child c hvalid hk := Location.ext hm
    have hinner : b.inner ++ '/' :: c = canonical (l.child c hvalid hk).components :=
      h.asStr_append c
    rw [h.len_append] at hlen
    rw [join, seq_eq_ok, seq_eq_ok, rejectIf_eq_ok, validateComponent_eq_ok, h.root, hinner]
    refine ⟨hvalid, Nat.not_lt.mpr hlen, ?_⟩
    cases hroot : l.root with
    | some root =>
      rw [Location.root_child hroot]
      rfl
    | none =>
      have hl := Location.root_eq_none.mp hroot
      rcases Option.isSome_iff_exists.mp (hk hl) with ⟨root, hparse⟩
      rw [Location.root_child_volume hl, hparse]
      rfl

private theorem LkoPath.parse_append_eq_ok (h : b.Names l) (hc : IsPart '/' c) :
    LkoPath.parse (b.asStr ++ '/' :: c) = .ok r ↔ r.Extends l c := by
  have hparts : ∀ d ∈ l.components ++ [c], IsPart '/' d := by
    intro d hd
    rcases List.mem_append.mp hd with hd | hd
    · exact l.isPart d hd
    · rw [List.mem_singleton.mp hd]
      exact hc
  have hspells := spells_canonical hparts
  rw [h.asStr_append]
  constructor
  · intro hp
    rcases LkoPath.parse_eq_ok hp with ⟨hlen, m, hm, hnames⟩
    exact ⟨hlen, m, hm.unique hspells, hnames.eq⟩
  · rintro ⟨hlen, m, hm, rfl⟩
    rw [← hm] at hspells hlen ⊢
    exact LkoPath.parse_spelled hspells hlen

private theorem LkoPath.join_error (hc : ¬ IsPart '/' c) : ∃ e, b.join c = .error e := by
  cases hj : b.join c with
  | error e => exact ⟨e, rfl⟩
  | ok r =>
    rw [join, seq_eq_ok, validateComponent_eq_ok] at hj
    exact absurd hj.1.isPart hc

private theorem LkoPath.Names.parent_child {m : Location} (h : b.Names l) (hr : r.Names m)
    (hm : m.components = l.components ++ [c]) :
    ∃ p, r.asRef.parent = some (some p) ∧ p.toOwnedPath = b := by
  have hne : m.components ≠ [] := by simp [hm]
  rcases parent_names (asRef_names hr) hne with ⟨p, hp, hnames⟩
  have hparent : m.parent = l := by
    apply Location.ext
    change m.components.dropLast = l.components
    rw [hm, List.dropLast_concat]
  refine ⟨p, hp, ?_⟩
  rw [(toOwnedPath_names hnames).eq, hparent, h.eq]

/-- Joining adds exactly one level and agrees with the parser. For every path that the
operations make, an empty component or one with a separator is an error, and any other is
joined exactly when the string with it is parsed, to the same path; that path has one more
component, its own name, is within the one it was joined to and has it as its parent. -/
theorem join_agrees (hb : Reachable (.owned b)) (c : Text) :
    (c = [] ∨ '/' ∈ c → ∃ e, b.join c = .error e) ∧
      (c ≠ [] → '/' ∉ c → ∀ r, b.join c = .ok r ↔ LkoPath.parse (b.asStr ++ '/' :: c) = .ok r) ∧
        ∀ r, b.join c = .ok r → r.asRef.components = b.asRef.components ++ [c] ∧
          r.asRef.isWithin b.asRef = true ∧ r.asRef.fileName = some c ∧
            ∃ p, r.asRef.parent = some (some p) ∧ p.toOwnedPath = b := by
  rcases reachable_names hb with ⟨l, h⟩
  refine ⟨?_, ?_, ?_⟩
  · intro hc
    apply LkoPath.join_error
    intro hpart
    cases hc with
    | inl hc => exact hpart.1 hc
    | inr hc => exact hpart.2 hc
  · intro hne hslash r
    rw [LkoPath.join_eq_ok h, LkoPath.parse_append_eq_ok h ⟨hne, hslash⟩]
  · intro r hj
    rcases join_names h hj with ⟨m, hm, hr⟩
    have hcomponents : r.asRef.components = m.components := (asRef_names hr).components
    refine ⟨?_, ?_, ?_, h.parent_child hr hm⟩
    · rw [hcomponents, hm, (asRef_names h).components]
    · apply (isWithin_iff (asRef_names hr) (asRef_names h)).mpr
      unfold Location.Within
      rw [hm, List.map_append]
      exact List.prefix_append _ _
    · rw [LkoPathRef.fileName, hcomponents, hm, List.getLast?_concat]

/-- A name joined onto the volume root. -/
theorem join_agrees_system :
    LkoPath.join ⟨"LKO".toList, none⟩ "System".toList =
        .ok ⟨"LKO/System".toList, some .System⟩ ∧
      LkoPath.parse "LKO/System".toList = .ok ⟨"LKO/System".toList, some .System⟩ := by
  have hb : Reachable (.owned ⟨"LKO".toList, none⟩) := .toOwnedPath .root
  have hagrees := (join_agrees hb "System".toList).2.1 (by decide) (by decide)
  have hjoin : LkoPath.join ⟨"LKO".toList, none⟩ "System".toList =
      .ok ⟨"LKO/System".toList, some .System⟩ := rfl
  exact ⟨hjoin, (hagrees _).mp hjoin⟩

end LokoOS.Filesystem
