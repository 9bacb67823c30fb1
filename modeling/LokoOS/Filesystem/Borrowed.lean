import LokoOS.Filesystem.Canonical
import Mathlib.Data.List.DropRight

/-!
# The strings of borrowed paths

The accessors of `filesystem/lkofs-core/src/path.rs` that show a borrowed path as text. The
parser stores the string it was given and the parent cuts that string, so a borrowed path
keeps the volume prefix as it was written, and a trailing separator until the first step up.
-/

namespace LokoOS.Filesystem

open LokoOS.Base

/-- The string of a borrowed path; `path.rs:313–315`. -/
def LkoPathRef.asStr (p : LkoPathRef) : Text := p.raw

/-- What a borrowed path is displayed as; `path.rs:335–345`. -/
def LkoPathRef.display (p : LkoPathRef) : Text :=
  let body := canonicalBody p.raw
  lkoPrefix ++ (if body = [] then [] else '/' :: body)

/-- The string of an owned path; `path.rs:384–386`. -/
def LkoPath.asStr (p : LkoPath) : Text := p.inner

/-- The borrowed path that parsing a string and then some steps to the parent make. -/
inductive Borrowed : Text → Nat → LkoPathRef → Prop
  | parse {s : Text} {p : LkoPathRef} (h : LkoPathRef.parse s = .ok p) : Borrowed s 0 p
  | parent {s : Text} {n : Nat} {p q : LkoPathRef} (hp : Borrowed s n p)
      (h : p.parent = some (some q)) : Borrowed s (n + 1) q

/-- The string of a borrowed path is what the path is displayed and copied as: it begins with
the volume prefix and does not end with a separator. -/
structure LkoPathRef.IsCanonical (p : LkoPathRef) : Prop where
  displayed : p.asStr = p.display
  copied : p.asStr = p.toOwnedPath.asStr
  begins : lkoPrefix <+: p.asStr
  ends : p.asStr.getLast? ≠ some '/'

variable {s t pre pre' : Text} {comps : List Text} {n m : Nat} {p q : LkoPathRef} {l : Location}

/-! ### How a string is written -/

/-- The components that a string spells, without the last ones. -/
def componentsAbove (s : Text) (n : Nat) : List Text :=
  (((canonicalBody s).splitOn '/').filter (· ≠ [])).rdrop n

/-- The volume prefix as a string has it. -/
def writtenPrefix (s : Text) : Text := s.takeWhile (· ≠ '/')

/-- A trailing separator that no step to the parent has cut off. -/
def Trails (s : Text) (n : Nat) : Prop := n = 0 ∧ s.getLast? = some '/'

instance : Decidable (Trails s n) := inferInstanceAs (Decidable (_ ∧ _))

/-- After some steps up, a string is the volume root, or it has the volume prefix in upper
case and no trailing separator. -/
def CanonicallyWritten (s : Text) (n : Nat) : Prop :=
  componentsAbove s n = [] ∨ writtenPrefix s = lkoPrefix ∧ ¬ Trails s n

/-- Two strings that after some steps up spell the same components below the volume root have
the same volume prefix, letter for letter, and both or none a trailing separator. -/
def AlikeWritten (s : Text) (n : Nat) (t : Text) (m : Nat) : Prop :=
  componentsAbove s n = componentsAbove t m → componentsAbove s n ≠ [] →
    writtenPrefix s = writtenPrefix t ∧ (Trails s n ↔ Trails t m)

/-- Components after a given volume prefix, with or without a trailing separator. -/
def writtenForm (pre : Text) (comps : List Text) (trails : Prop) [Decidable trails] : Text :=
  if comps = [] then lkoPrefix
  else pre ++ '/' :: (joined '/' comps ++ if trails then ['/'] else [])

private theorem canonical_eq_writtenForm (comps : List Text) :
    canonical comps = writtenForm lkoPrefix comps False := by
  unfold canonical writtenForm
  split
  · exact List.append_nil _
  · rw [if_neg not_false, List.append_nil]

private theorem writtenPrefix_append (h : VolumePrefix pre) (s : Text) :
    writtenPrefix (pre ++ '/' :: s) = pre := by
  unfold writtenPrefix
  rw [List.takeWhile_append_of_pos, List.takeWhile_cons_of_neg (by simp), List.append_nil]
  intro c hc
  have hslash := slash_notMem_volumePrefix h
  apply decide_eq_true
  exact fun hcs ↦ hslash (hcs ▸ hc)

private theorem writtenForm_inj {a b : Prop} [Decidable a] [Decidable b] (hpre : VolumePrefix pre)
    (hpre' : VolumePrefix pre') (hcomps : comps ≠ []) :
    writtenForm pre comps a = writtenForm pre' comps b ↔ pre = pre' ∧ (a ↔ b) := by
  unfold writtenForm
  rw [if_neg hcomps, if_neg hcomps]
  constructor
  · intro h
    have heq : pre = pre' := by
      rw [← writtenPrefix_append hpre, h, writtenPrefix_append hpre']
    rw [heq, List.append_cancel_left_eq, List.cons.injEq, List.append_cancel_left_eq] at h
    refine ⟨heq, ?_⟩
    by_cases ha : a
    · by_cases hb : b
      · exact iff_of_true ha hb
      · rw [if_pos ha, if_neg hb] at h
        cases h.2
    · by_cases hb : b
      · rw [if_neg ha, if_pos hb] at h
        cases h.2
      · exact iff_of_false ha hb
  · rintro ⟨rfl, hab⟩
    simp only [hab]

/-! ### Runs -/

/-- What a borrowed path stands for and how its string is written. -/
structure WrittenAs (s : Text) (n : Nat) (p : LkoPathRef) (l : Location) : Prop where
  names : p.Names l
  components : l.components = componentsAbove s n
  volume : l.components ≠ [] → VolumePrefix (writtenPrefix s)
  raw : p.raw = writtenForm (writtenPrefix s) l.components (Trails s n)

private theorem writtenAs_parse (h : LkoPathRef.parse s = .ok p) : ∃ l, WrittenAs s 0 p l := by
  rcases parse_iff.mp h with ⟨hlen, l, hspells, hp⟩
  rcases exists_parse hspells hlen with ⟨q, hq, hnames⟩
  rw [h] at hq
  cases hq
  have hcomps : l.components = componentsAbove s 0 := by
    rw [componentsAbove, hspells.components, List.rdrop_zero]
  by_cases hl : l.components = []
  · refine ⟨l, hnames, hcomps, fun hne ↦ absurd hl hne, ?_⟩
    rw [hp, if_pos hl, writtenForm, if_pos hl]
    rfl
  · rcases hspells.eq_path hl with ⟨pre, trail, hpre, htrail, rfl⟩
    have hwritten := writtenPrefix_append hpre (joined '/' l.components ++ trail)
    have htrails : Trails (pre ++ '/' :: (joined '/' l.components ++ trail)) 0 ↔ trail = ['/'] := by
      have hlast := getLast?_joined l.isPart
      have hne : joined '/' l.components ≠ [] := fun hj ↦ hl ((joined_eq_nil l.isPart).mp hj)
      cases htrail with
      | inl htrail =>
        rw [List.getLast?_eq_some_getLast hne] at hlast
        rw [htrail, List.append_nil]
        apply iff_of_false
        · rintro ⟨-, hs⟩
          rw [List.append_cons, List.getLast?_append, List.getLast?_eq_some_getLast hne] at hs
          exact hlast hs
        · exact List.cons_ne_nil _ _ |>.symm
      | inr htrail =>
        rw [htrail]
        apply iff_of_true
        · refine ⟨rfl, ?_⟩
          rw [← List.cons_append, ← List.append_assoc, List.getLast?_concat]
        · rfl
    refine ⟨l, hnames, hcomps, fun _ ↦ hwritten.symm ▸ hpre, ?_⟩
    rw [hp, if_neg hl, hwritten, writtenForm, if_neg hl]
    simp only [htrails]
    cases htrail with
    | inl htrail => rw [htrail, if_neg (List.cons_ne_nil _ _).symm]
    | inr htrail => rw [htrail, if_pos rfl]

private theorem componentsAbove_succ (s : Text) (n : Nat) :
    componentsAbove s (n + 1) = (componentsAbove s n).dropLast := by
  unfold componentsAbove List.rdrop
  rw [List.dropLast_eq_take, List.take_take, List.length_take]
  congr 1
  omega

private theorem WrittenAs.parent (h : WrittenAs s n p l) (hq : p.parent = some (some q)) :
    WrittenAs s (n + 1) q l.parent := by
  have hcomps : l.parent.components = componentsAbove s (n + 1) := by
    rw [componentsAbove_succ, ← h.components]
    rfl
  rcases l.components.eq_nil_or_concat with hnil | ⟨cs, c, hc⟩
  · rw [parent_volume h.names hnil] at hq
    cases hq
  rw [List.concat_eq_append] at hc
  have hne : l.components ≠ [] := by simp [hc]
  have hparent : l.parent.components = cs := by
    change l.components.dropLast = cs
    rw [hc, List.dropLast_concat]
  rcases parent_names h.names hne with ⟨q', hq', hnames⟩
  rw [hq] at hq'
  cases hq'
  refine ⟨hnames, hcomps, fun _ ↦ h.volume hne, ?_⟩
  rw [hparent]
  by_cases hcs : cs = []
  · rw [hcs, List.nil_append] at hc
    rw [parent_top h.names hc] at hq
    cases hq
    rw [writtenForm, if_pos hcs]
    rfl
  · have hraw := h.raw
    rw [writtenForm, if_neg hne, hc] at hraw
    rw [parent_below h.names hc hcs (h.volume hne) hraw] at hq
    cases hq
    have htrails : ¬ Trails s (n + 1) := fun ht ↦ by cases ht.1
    rw [writtenForm, if_neg hcs, if_neg htrails, List.append_nil]

private theorem Borrowed.writtenAs (h : Borrowed s n p) : ∃ l, WrittenAs s n p l := by
  induction h with
  | parse h => exact writtenAs_parse h
  | parent hp h ih =>
    rcases ih with ⟨l, hl⟩
    exact ⟨l.parent, hl.parent h⟩

private theorem LkoPathRef.Names.display (h : p.Names l) : p.display = canonical l.components :=
  (toOwnedPath_names h).spelled

private theorem LkoPathRef.Names.isCanonical_iff (h : p.Names l) :
    p.IsCanonical ↔ p.raw = canonical l.components := by
  constructor
  · intro hp
    exact hp.displayed.trans h.display
  · intro hraw
    have hdisplay : p.asStr = p.display := hraw.trans h.display.symm
    refine ⟨hdisplay, hdisplay, ?_, ?_⟩
    · change lkoPrefix <+: p.raw
      rw [hraw]
      exact List.prefix_append lkoPrefix _
    · change p.raw.getLast? ≠ some '/'
      rw [hraw]
      unfold canonical
      by_cases hl : l.components = []
      · rw [if_pos hl, List.append_nil]
        decide
      · have hne : joined '/' l.components ≠ [] := fun hj ↦ hl ((joined_eq_nil l.isPart).mp hj)
        have hlast := getLast?_joined l.isPart
        rw [List.getLast?_eq_some_getLast hne] at hlast
        rw [if_neg hl, List.append_cons, List.getLast?_append, List.getLast?_eq_some_getLast hne]
        exact hlast

private theorem canonical_inj {m : Location} :
    canonical l.components = canonical m.components ↔ l = m := by
  constructor
  · intro h
    have hspells := spells_canonical l.isPart
    rw [h] at hspells
    exact Location.ext (hspells.unique (spells_canonical m.isPart))
  · intro h
    rw [h]

/-- A borrowed path of a run has the canonical string exactly when the parsed string was
written canonically, up to what the steps to the parent have cut off. Two of them are equal
exactly when they are displayed alike, provided the parsed strings were written alike. -/
theorem borrowed_canonical (hp : Borrowed s n p) (hq : Borrowed t m q) :
    (p.IsCanonical ↔ CanonicallyWritten s n) ∧
      ((p = q ↔ p.display = q.display) ↔ AlikeWritten s n t m) := by
  rcases hp.writtenAs with ⟨l, hl⟩
  rcases hq.writtenAs with ⟨k, hk⟩
  constructor
  · rw [hl.names.isCanonical_iff, hl.raw, canonical_eq_writtenForm]
    unfold CanonicallyWritten
    rw [← hl.components]
    by_cases hnil : l.components = []
    · simp only [writtenForm, hnil, if_true, true_or]
    · rw [writtenForm_inj (hl.volume hnil) (.inr rfl) hnil, iff_false]
      simp only [hnil, false_or]
  · rw [hl.names.display, hk.names.display, canonical_inj]
    unfold AlikeWritten
    rw [← hl.components, ← hk.components]
    by_cases hlk : l = k
    · have hpq : p = q ↔ p.raw = q.raw := by
        constructor
        · intro h
          rw [h]
        · intro h
          have hroot : p.root = q.root := by rw [hl.names.root, hk.names.root, hlk]
          cases p
          cases q
          cases h
          cases hroot
          rfl
      rw [hpq, hl.raw, hk.raw, ← hlk, iff_true_right rfl]
      by_cases hnil : l.components = []
      · simp only [writtenForm, hnil, if_true, ne_eq, not_true_eq_false, false_imp_iff,
          imp_true_iff]
      · have hvolume : VolumePrefix (writtenPrefix t) := hk.volume (hlk ▸ hnil)
        rw [writtenForm_inj (hl.volume hnil) hvolume hnil]
        simp only [ne_eq, hnil, not_false_eq_true, true_imp_iff]
    · have hcomps : l.components ≠ k.components := fun hc ↦ hlk (Location.ext hc)
      have hpq : p ≠ q := by
        intro h
        rw [h] at hl
        exact hcomps (hl.names.unique hk.names)
      simp only [hpq, hlk, hcomps, false_imp_iff]

/-- One step above a path with a trailing separator the string is canonical; the path that the
short form is parsed to is displayed alike, but it is not equal. -/
theorem borrowed_canonical_system :
    LkoPathRef.IsCanonical ⟨"LKO/System".toList, some .System⟩ ∧
      ¬ ((⟨"LKO/System".toList, some .System⟩ : LkoPathRef) = ⟨"/System".toList, some .System⟩ ↔
        LkoPathRef.display ⟨"LKO/System".toList, some .System⟩ =
          LkoPathRef.display ⟨"/System".toList, some .System⟩) := by
  have hp : Borrowed "LKO/System/Kernel/".toList 1 ⟨"LKO/System".toList, some .System⟩ :=
    .parent (.parse rfl) rfl
  have hq : Borrowed "/System".toList 0 ⟨"/System".toList, some .System⟩ := .parse rfl
  have h := borrowed_canonical hp hq
  constructor
  · apply h.1.mpr
    exact .inr ⟨rfl, by decide⟩
  · rw [h.2]
    intro halike
    have hsame := (halike rfl (by decide)).1
    revert hsame
    decide

/-- The short form is kept by the parser. -/
theorem short_form_kept :
    ¬ ∀ s n p t m q, Borrowed s n p → Borrowed t m q →
      p.IsCanonical ∧ (p = q ↔ p.display = q.display) := by
  intro h
  have hp : Borrowed "/System".toList 0 ⟨"/System".toList, some .System⟩ := .parse rfl
  have hdisplayed := (h _ _ _ _ _ _ hp hp).1.displayed
  revert hdisplayed
  decide

end LokoOS.Filesystem
