import LokoOS.Filesystem.Location

/-!
# Paths stand for locations

Every spelling of a location has the same body, so the accessors that derive components from
the raw string agree with what the parser checked. From this every path that the public
operations make stands for a location, and no slice they take is out of range or inside a
character.
-/

namespace LokoOS.Filesystem

open LokoOS.Base

variable {s pre rest body raw : Text} {comps : List Text}

/-! ### The volume prefix -/

/-- A prefix is stripped exactly from the strings that begin with one of its case variants. -/
theorem stripPrefixCi_eq_some :
    stripPrefixCi s pre = some rest ↔ ∃ head, s = head ++ rest ∧ head.lower = pre.lower := by
  unfold stripPrefixCi
  constructor
  · intro h
    split at h
    · next head tail hs =>
      split at h
      · next heq =>
        cases h
        exact ⟨head, (Text.splitAt_eq_some.mp hs).1, Text.eqIgnoreAsciiCase_iff.mp heq⟩
      · cases h
    · cases h
  · rintro ⟨head, rfl, hl⟩
    have hlen : Text.len head = Text.len pre := by rw [← Text.len_lower, hl, Text.len_lower]
    rw [← hlen, Text.splitAt_append]
    exact if_pos (Text.eqIgnoreAsciiCase_iff.mpr hl)

/-- A string that begins with a separator does not begin with the volume prefix. -/
theorem stripPrefixCi_slash : stripPrefixCi ('/' :: s) lkoPrefix = none := by
  cases h : stripPrefixCi ('/' :: s) lkoPrefix with
  | none => rfl
  | some rest =>
    rcases stripPrefixCi_eq_some.mp h with ⟨head, hs, hl⟩
    cases head with
    | nil => cases hl
    | cons c cs =>
      cases hs
      cases hl

/-- A nonempty volume prefix is stripped. -/
theorem stripPrefixCi_volume (h : pre.lower = lkoPrefix.lower) :
    stripPrefixCi (pre ++ rest) lkoPrefix = some rest :=
  stripPrefixCi_eq_some.mpr ⟨pre, rfl, h⟩

/-- A volume prefix in any case is as long as the name. -/
theorem len_volumePrefix (h : pre.lower = lkoPrefix.lower) : pre.len = lkoPrefix.len := by
  rw [← Text.len_lower, h, Text.len_lower]

/-- A character that is no letter of the volume prefix does not occur in it, whatever the case. -/
theorem notMem_volumePrefix {c : Char} (h : VolumePrefix pre)
    (hc : c.toLower ∉ lkoPrefix.lower) : c ∉ pre := by
  cases h with
  | inl h =>
    rw [h]
    exact List.not_mem_nil
  | inr h =>
    intro hmem
    have hlower : c.toLower ∈ pre.lower := List.mem_map_of_mem hmem
    rw [h] at hlower
    exact hc hlower

/-- The volume prefix has no separator. -/
theorem slash_notMem_volumePrefix (h : VolumePrefix pre) : '/' ∉ pre :=
  notMem_volumePrefix h (by decide)

/-! ### The body -/

/-- Removing the trailing separator of a written list of components gives the list. -/
theorem stripSuffix_joined {trail : Text} (htrail : Trail trail)
    (hcomps : ∀ c ∈ comps, IsPart '/' c) :
    (Text.stripSuffix '/' (joined '/' comps ++ trail)).getD (joined '/' comps ++ trail) =
      joined '/' comps := by
  rcases htrail with rfl | rfl
  · rw [List.append_nil, Text.stripSuffix_eq_none.mpr (getLast?_joined hcomps)]
    rfl
  · rw [Text.stripSuffix_concat]
    rfl

/-- Whatever the spelling, the body is the components with separators between them. -/
theorem canonicalBody_spells (h : Spells raw comps) : canonicalBody raw = joined '/' comps := by
  cases h with
  | volume hl =>
    have hstrip : stripPrefixCi raw lkoPrefix = some [] :=
      stripPrefixCi_eq_some.mpr ⟨raw, (List.append_nil raw).symm, hl⟩
    unfold canonicalBody
    rw [hstrip]
    rfl
  | @path pre trail _ hpre htrail hcomps =>
    have hrest : (stripPrefixCi (pre ++ '/' :: (joined '/' comps ++ trail)) lkoPrefix).getD
        (pre ++ '/' :: (joined '/' comps ++ trail)) = '/' :: (joined '/' comps ++ trail) := by
      rcases hpre with rfl | hl
      · rw [List.nil_append, stripPrefixCi_slash]
        rfl
      · rw [stripPrefixCi_volume hl]
        rfl
    unfold canonicalBody
    simp only [hrest, Text.stripPrefix_cons, Option.getD_some]
    exact stripSuffix_joined htrail hcomps

private theorem Spells.isPart (h : Spells raw comps) : ∀ c ∈ comps, IsPart '/' c := by
  cases h with
  | volume => simp
  | path _ _ hcomps => exact hcomps

/-- A string that spells some component has a separator before it. -/
theorem Spells.eq_path (h : Spells raw comps) (hne : comps ≠ []) :
    ∃ pre trail, VolumePrefix pre ∧ Trail trail ∧
      raw = pre ++ '/' :: (joined '/' comps ++ trail) := by
  cases h with
  | volume => exact absurd rfl hne
  | @path pre trail _ hpre htrail => exact ⟨pre, trail, hpre, htrail, rfl⟩

/-- The pieces of the body are the components. -/
theorem Spells.components (h : Spells raw comps) :
    ((canonicalBody raw).splitOn '/').filter (· ≠ []) = comps := by
  rw [canonicalBody_spells h]
  exact filter_splitOn_joined h.isPart

/-- A string spells at most one list of components. -/
theorem Spells.unique {comps' : List Text} (h : Spells raw comps) (h' : Spells raw comps') :
    comps = comps' := by
  rw [← h.components, h'.components]

/-! ### Accessors -/

namespace LkoPathRef.Names

variable {p q : LkoPathRef} {l m : Location}

/-- The components of a path are those of its location. -/
theorem components (h : p.Names l) : p.components = l.components := h.spelled.components

/-- The tail of a path is all but the first component of its location. -/
theorem tail (h : p.Names l) : p.tail = l.components.tail := by
  unfold LkoPathRef.tail
  rw [canonicalBody_spells h.spelled]
  exact filter_tail_splitOn_joined l.isPart

/-- A path stands for one location. -/
theorem unique (h : p.Names l) (h' : p.Names m) : l.components = m.components := by
  rw [← h.components, h'.components]

end LkoPathRef.Names

private theorem matchComponents_iff {mine other : List Text} :
    LkoPathRef.matchComponents mine other = true ↔
      other.map Text.lower <+: mine.map Text.lower := by
  induction mine generalizing other with
  | nil =>
    cases other with
    | nil => simp [LkoPathRef.matchComponents]
    | cons t ts => simp [LkoPathRef.matchComponents]
  | cons c cs ih =>
    cases other with
    | nil => simp [LkoPathRef.matchComponents]
    | cons t ts =>
      rw [LkoPathRef.matchComponents, Bool.and_eq_true, Text.eqIgnoreAsciiCase_iff, ih,
        List.map_cons, List.map_cons, List.cons_prefix_cons, eq_comm]

/-- Containment of paths is containment of locations. -/
theorem isWithin_iff {p q : LkoPathRef} {l m : Location} (hp : p.Names l) (hq : q.Names m) :
    p.isWithin q = true ↔ l.Within m := by
  unfold LkoPathRef.isWithin
  rw [matchComponents_iff, hp.components, hq.components]
  rfl

/-! ### What the operations make -/

/-- The constant for the volume root. -/
theorem names_ROOT : LkoPathRef.ROOT.Names Location.volume where
  spelled := .volume rfl
  root := rfl

private theorem stripVolume_eq_ok {input : Text} {b : Option Text}
    (h : LkoPathRef.stripVolume input = .ok b) :
    b = none ∧ input.lower = lkoPrefix.lower ∨
      ∃ pre body, b = some body ∧ VolumePrefix pre ∧ input = pre ++ '/' :: body := by
  unfold LkoPathRef.stripVolume at h
  split at h
  · next hs =>
    cases h
    rcases stripPrefixCi_eq_some.mp hs with ⟨head, hin, hl⟩
    rw [List.append_nil] at hin
    exact .inl ⟨rfl, hin ▸ hl⟩
  · next c rest hs =>
    split at h
    · next hc =>
      cases h
      rcases stripPrefixCi_eq_some.mp hs with ⟨head, hin, hl⟩
      exact .inr ⟨head, rest, rfl, .inr hl, hc ▸ hin⟩
    · cases h
  · split at h
    · next rest hs =>
      cases h
      exact .inr ⟨[], rest, rfl, .inl rfl, Text.stripPrefix_eq_some.mp hs⟩
    · cases h

private theorem stripSuffix_getD (body : Text) :
    ∃ trail, Trail trail ∧ body = (Text.stripSuffix '/' body).getD body ++ trail := by
  cases h : Text.stripSuffix '/' body with
  | none => exact ⟨[], .inl rfl, (List.append_nil body).symm⟩
  | some b => exact ⟨['/'], .inr rfl, Text.stripSuffix_eq_some.mp h⟩

private theorem parseComponents_eq_ok {input body : Text} {p : LkoPathRef}
    (h : LkoPathRef.parseComponents input body = .ok p) :
    p.raw = input ∧ ∃ l : Location, body = joined '/' l.components ∧ p.root = l.root := by
  unfold LkoPathRef.parseComponents at h
  simp only [seq_eq_ok, rejectIf_eq_ok] at h
  rcases h with ⟨hfirst, -, h⟩
  split at h
  · cases h
  · next root hroot =>
    rw [seq_eq_ok, forM_eq_ok] at h
    rcases h with ⟨hrest, hp⟩
    cases hp
    have hsplit := List.cons_head_tail (List.splitOn_ne_nil '/' body)
    let l : Location := {
      components := body.splitOn '/'
      valid := by
        intro c hc
        rw [← hsplit, List.mem_cons] at hc
        rcases hc with rfl | hc
        · exact validateComponent_eq_ok.mp hfirst
        · exact validateComponent_eq_ok.mp (hrest c hc)
      known := by
        intro c hc
        rw [← hsplit, List.head?_cons, Option.mem_def, Option.some.injEq] at hc
        rw [← hc, hroot]
        rfl }
    have hlroot : l.root = some root := by
      change (body.splitOn '/').head?.bind Root.parse = some root
      rw [← hsplit]
      exact hroot
    exact ⟨rfl, l, (joined_splitOn '/' body).symm, hlroot.symm⟩

/-- A string that parses spells the location its path stands for. -/
theorem parse_eq_ok {s : Text} {p : LkoPathRef} (h : LkoPathRef.parse s = .ok p) :
    ∃ l : Location, Spells s l.components ∧ p.Names l := by
  unfold LkoPathRef.parse at h
  rw [seq_eq_ok, seq_eq_ok, bind_eq_ok] at h
  rcases h with ⟨-, -, b, hb, h⟩
  rcases stripVolume_eq_ok hb with ⟨rfl, hl⟩ | ⟨pre, body, rfl, hpre, rfl⟩
  · cases h
    exact ⟨.volume, .volume hl, names_ROOT⟩
  · rcases stripSuffix_getD body with ⟨trail, htrail, hbody⟩
    simp only at h
    split at h
    · next hempty =>
      cases h
      rw [hempty] at hbody
      rw [hbody]
      have hspell : Spells (pre ++ '/' :: (joined '/' [] ++ trail)) [] :=
        .path hpre htrail (by simp)
      exact ⟨.volume, hspell, names_ROOT⟩
    · rcases parseComponents_eq_ok h with ⟨hraw, l, hl, hroot⟩
      have hspell : Spells (pre ++ '/' :: body) l.components := by
        rw [hl] at hbody
        rw [hbody]
        exact .path hpre htrail l.isPart
      exact ⟨l, hspell, hraw ▸ hspell, hroot⟩

/-- A string that parses spells exactly one list of components, those of the location its
path stands for. -/
theorem parse_spells {s : Text} {p : LkoPathRef} (h : LkoPathRef.parse s = .ok p) :
    ∃ l : Location, (∀ comps, Spells s comps ↔ comps = l.components) ∧ p.Names l := by
  rcases parse_eq_ok h with ⟨l, hspells, hnames⟩
  constructor
  constructor
  · intro comps
    constructor
    · intro hcomps
      exact hcomps.unique hspells
    · intro hcomps
      exact hcomps ▸ hspells
  · exact hnames

private theorem rawOffset_spells (hpre : VolumePrefix pre) (idx : Nat) :
    rawOffset (pre ++ '/' :: rest) (lkoPrefix.len + 1 + idx) = some (pre.len + 1 + idx) := by
  unfold rawOffset
  rcases hpre with rfl | hl
  · rw [List.nil_append, stripPrefixCi_slash, if_neg (by simp), subU64_of_le (by omega)]
    congr 1
    rw [Text.len_nil]
    omega
  · rw [stripPrefixCi_volume hl, len_volumePrefix hl]
    rfl

private theorem splitAt_parent {trail c : Text} {cs : List Text} (hcs : cs ≠ []) :
    Text.splitAt (pre ++ '/' :: (joined '/' (cs ++ [c]) ++ trail))
      (pre.len + 1 + Text.len (joined '/' cs)) =
    some (pre ++ '/' :: joined '/' cs, '/' :: (c ++ trail)) := by
  apply Text.splitAt_eq_some.mpr
  constructor
  · rw [joined_concat hcs]
    simp only [List.append_assoc, List.cons_append]
  · rw [Text.len_append, Text.len_cons]
    change pre.len + (1 + Text.len (joined '/' cs)) = _
    omega

/-- The volume root has no parent. -/
theorem parent_volume {p : LkoPathRef} {l : Location} (h : p.Names l) (hl : l.components = []) :
    p.parent = some none := by
  have hbody : canonicalBody p.raw = [] := by
    rw [canonicalBody_spells h.spelled, hl, joined_nil]
  exact if_pos hbody

/-- The containing directory of a path with one component is the constant. -/
theorem parent_top {p : LkoPathRef} {l : Location} {c : Text} (h : p.Names l)
    (hc : l.components = [c]) : p.parent = some (some .ROOT) := by
  have hpart := l.isPart c (by simp [hc])
  have hbody : canonicalBody p.raw = c := by
    rw [canonicalBody_spells h.spelled, hc, joined_singleton]
  unfold LkoPathRef.parent
  rw [if_neg (hbody ▸ hpart.1), hbody, Text.rfind_eq_none.mpr hpart.2]

/-- The containing directory of a path with several components keeps the string up to the
separator of the last; no slice is out of range or inside a character. -/
theorem parent_below {p : LkoPathRef} {l : Location} {trail c : Text} {cs : List Text}
    (h : p.Names l) (hc : l.components = cs ++ [c]) (hcs : cs ≠ []) (hpre : VolumePrefix pre)
    (hraw : p.raw = pre ++ '/' :: (joined '/' (cs ++ [c]) ++ trail)) :
    p.parent = some (some ⟨pre ++ '/' :: joined '/' cs, p.root⟩) := by
  have hbody : canonicalBody p.raw = joined '/' (cs ++ [c]) := by
    rw [canonicalBody_spells h.spelled, hc]
  have hslash : '/' ∉ c := (l.isPart c (by simp [hc])).2
  have hne : joined '/' (cs ++ [c]) ≠ [] := by
    rw [joined_concat hcs]
    simp
  unfold LkoPathRef.parent
  rw [if_neg (hbody ▸ hne), hbody, joined_concat hcs, Text.rfind_append_cons hslash, hraw]
  simp only [rawOffset_spells hpre, splitAt_parent hcs, Option.bind_eq_bind, Option.bind_some]
  rfl

/-- The containing directory of any other path stands for the containing location. -/
theorem parent_names {p : LkoPathRef} {l : Location} (h : p.Names l) (hl : l.components ≠ []) :
    ∃ q, p.parent = some (some q) ∧ q.Names l.parent := by
  rcases l.components.eq_nil_or_concat with hnil | ⟨cs, c, hc⟩
  · exact absurd hnil hl
  rw [List.concat_eq_append] at hc
  have hparent : l.parent.components = cs := by
    change l.components.dropLast = cs
    rw [hc, List.dropLast_concat]
  by_cases hcs : cs = []
  · have hvolume : l.parent = Location.volume := Location.ext (hparent.trans hcs)
    rw [hcs, List.nil_append] at hc
    exact ⟨.ROOT, parent_top h hc, hvolume ▸ names_ROOT⟩
  · have hroot := Location.root_parent hc hcs
    rcases h.spelled.eq_path hl with ⟨pre, trail, hpre, -, hraw⟩
    rw [hc] at hraw
    have hspelled : Spells (pre ++ '/' :: (joined '/' cs ++ [])) cs :=
      .path hpre (.inl rfl) fun d hd ↦ l.isPart d (by simp [hc, hd])
    rw [List.append_nil] at hspelled
    exact ⟨_, parent_below h hc hcs hpre hraw, hparent ▸ hspelled, h.root.trans hroot.symm⟩

/-- The owned copy stands for the same location. -/
theorem toOwnedPath_names {p : LkoPathRef} {l : Location} (h : p.Names l) :
    p.toOwnedPath.Names l where
  spelled := by
    unfold LkoPathRef.toOwnedPath canonical
    simp only [canonicalBody_spells h.spelled, joined_eq_nil l.isPart]
  root := h.root

/-- A borrowed owned path stands for the same location. -/
theorem asRef_names {p : LkoPath} {l : Location} (h : p.Names l) : p.asRef.Names l where
  spelled := by
    change Spells p.inner l.components
    rw [h.spelled]
    exact spells_canonical l.isPart
  root := h.root

/-- One more component lengthens the canonical spelling. -/
theorem canonical_concat (comps : List Text) (c : Text) :
    canonical (comps ++ [c]) = canonical comps ++ '/' :: c := by
  unfold canonical
  rw [if_neg (by simp)]
  by_cases hc : comps = []
  · rw [hc, List.nil_append, joined_singleton, if_pos rfl, List.append_nil]
  · rw [if_neg hc, joined_concat hc, List.append_assoc, List.cons_append]

/-- A joined path stands for the location one level below. -/
theorem join_names {p q : LkoPath} {l : Location} {c : Text} (h : p.Names l)
    (hj : p.join c = .ok q) :
    ∃ m : Location, m.components = l.components ++ [c] ∧ q.Names m := by
  unfold LkoPath.join at hj
  rw [seq_eq_ok, seq_eq_ok, validateComponent_eq_ok] at hj
  rcases hj with ⟨hvalid, -, hj⟩
  have hspelled : p.inner ++ '/' :: c = canonical (l.components ++ [c]) := by
    rw [canonical_concat, h.spelled]
  split at hj
  · next r hr =>
    cases hj
    rw [h.root] at hr
    have hk : l.components = [] → (Root.parse c).isSome := by
      intro hl
      rw [Location.root_eq_none.mpr hl] at hr
      cases hr
    exact ⟨l.child c hvalid hk, rfl, hspelled, (Location.root_child hr).symm⟩
  · next hr =>
    rw [h.root, Location.root_eq_none] at hr
    split at hj
    · next r hparse =>
      cases hj
      have hk : l.components = [] → (Root.parse c).isSome := by
        intro _
        rw [hparse]
        rfl
      have hroot : (l.child c hvalid hk).root = some r :=
        (Location.root_child_volume hr).trans hparse
      exact ⟨l.child c hvalid hk, rfl, hspelled, hroot.symm⟩
    · cases hj

/-- Every path that the operations make stands for a location. -/
theorem reachable_names {v : PathValue} (h : Reachable v) : ∃ l, v.Names l := by
  induction h with
  | root => exact ⟨.volume, names_ROOT⟩
  | parse h =>
    rcases parse_eq_ok h with ⟨l, -, hl⟩
    exact ⟨l, hl⟩
  | parent hp h ih =>
    rcases ih with ⟨l, hl⟩
    by_cases hvolume : l.components = []
    · rw [parent_volume hl hvolume] at h
      cases h
    · rcases parent_names hl hvolume with ⟨q, hq, hnames⟩
      rw [h] at hq
      cases hq
      exact ⟨l.parent, hnames⟩
  | toOwnedPath hp ih =>
    rcases ih with ⟨l, hl⟩
    exact ⟨l, toOwnedPath_names hl⟩
  | asRef hp ih =>
    rcases ih with ⟨l, hl⟩
    exact ⟨l, asRef_names hl⟩
  | join hp h ih =>
    rcases ih with ⟨l, hl⟩
    rcases join_names hl h with ⟨m, -, hm⟩
    exact ⟨m, hm⟩

end LokoOS.Filesystem
