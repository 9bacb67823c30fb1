import LokoOS.Filesystem.PathSpec

/-!
# The canonical spelling

Parsing is exact: it accepts the spellings of the locations that are no longer than the
limit. An owned path is printed in the canonical spelling, so it is parsed to itself unless
that spelling is longer than the limit, which no check prevents for a path that was given in
the short form.
-/

namespace LokoOS.Filesystem

open LokoOS.Base

variable {s pre rest : Text} {comps : List Text} {l : Location} {p : LkoPath}

/-! ### What is accepted -/

private theorem backslash_notMem_spells (h : Spells s l.components) : '\\' ∉ s := by
  generalize hcomps : l.components = comps at h
  cases h with
  | volume hl => exact notMem_volumePrefix (.inr hl) (by decide)
  | @path pre trail _ hpre htrail =>
    have hpre' : '\\' ∉ pre := notMem_volumePrefix hpre (by decide)
    have htrail' : '\\' ∉ trail := by
      rcases htrail with rfl | rfl
      · decide
      · decide
    have hjoined : '\\' ∉ joined '/' comps := by
      intro hmem
      rcases mem_joined hmem with hsep | ⟨c, hc, hmem⟩
      · cases hsep
      · rw [← hcomps] at hc
        exact (l.valid c hc).noBackslash hmem
    simp [hpre', htrail', hjoined]

private theorem stripVolume_path (hpre : VolumePrefix pre) :
    LkoPathRef.stripVolume (pre ++ '/' :: rest) = .ok (some rest) := by
  unfold LkoPathRef.stripVolume
  rcases hpre with rfl | hl
  · rw [List.nil_append, stripPrefixCi_slash]
    simp only [Text.stripPrefix_cons]
  · rw [stripPrefixCi_volume hl]
    rfl

private theorem parseComponents_joined (hl : l.components ≠ []) :
    LkoPathRef.parseComponents s (joined '/' l.components) = .ok ⟨s, l.root⟩ := by
  have hsplit := splitOn_joined l.isPart
  rw [if_neg hl] at hsplit
  unfold LkoPathRef.parseComponents
  cases hc : l.components with
  | nil => exact absurd hc hl
  | cons c cs =>
    rw [hc] at hsplit
    have hvalid := l.valid
    rw [hc] at hvalid
    have hk := l.known c (by simp [hc])
    rcases Option.isSome_iff_exists.mp hk with ⟨r, hr⟩
    have hascii : Text.isAscii c = true := by
      rw [← Text.isAscii_lower, Root.parse_eq_some.mp hr, Text.isAscii_lower, Root.isAscii_name]
    have hroot : l.root = some r := by
      unfold Location.root
      rw [hc]
      exact hr
    simp only [hsplit, List.head_cons, List.tail_cons, seq_eq_ok, rejectIf_eq_ok,
      validateComponent_eq_ok, hr, forM_eq_ok, hroot, hascii]
    refine ⟨hvalid c List.mem_cons_self, by simp, ?_, rfl⟩
    intro d hd
    exact hvalid d (List.mem_cons_of_mem c hd)

/-- A spelling of a location is accepted if it is not too long. -/
theorem parse_spelled (h : Spells s l.components) (hlen : s.len ≤ maxPathLen) :
    LkoPathRef.parse s = .ok (if l.components = [] then .ROOT else ⟨s, l.root⟩) := by
  have hbackslash := backslash_notMem_spells h
  unfold LkoPathRef.parse
  rw [seq_eq_ok, seq_eq_ok, rejectIf_eq_ok, rejectIf_eq_ok]
  refine ⟨Nat.not_lt.mpr hlen, hbackslash, ?_⟩
  generalize hcomps : l.components = comps at h
  cases h with
  | volume hl =>
    have hvolume : LkoPathRef.stripVolume s = .ok none := by
      have hstrip : stripPrefixCi s lkoPrefix = some [] :=
        stripPrefixCi_eq_some.mpr ⟨s, (List.append_nil s).symm, hl⟩
      unfold LkoPathRef.stripVolume
      rw [hstrip]
    rw [hvolume]
    rfl
  | @path pre trail _ hpre htrail hparts =>
    rw [stripVolume_path hpre]
    change (if _ = [] then _ else _) = _
    rw [stripSuffix_joined htrail hparts]
    by_cases hempty : comps = []
    · rw [hempty, joined_nil, if_pos rfl, if_pos rfl]
      rfl
    · rw [if_neg (fun hj ↦ hempty ((joined_eq_nil hparts).mp hj)), if_neg hempty, ← hcomps]
      exact parseComponents_joined (hcomps ▸ hempty)

/-! ### Lengths -/

private theorem len_canonical (h : comps ≠ []) :
    (canonical comps).len = lkoPrefix.len + 1 + Text.len (joined '/' comps) := by
  unfold canonical
  rw [if_neg h, Text.len_append, Text.len_cons]
  change lkoPrefix.len + (1 + _) = _
  rw [Nat.add_assoc]

private theorem len_joined_le (h : ∀ c ∈ comps, ValidName c) :
    Text.len (joined '/' comps) ≤ (maxComponentLen + 1) * comps.length := by
  induction comps with
  | nil => exact Nat.le_refl _
  | cons c cs ih =>
    have hc := (h c List.mem_cons_self).short
    have hcs := ih fun d hd ↦ h d (List.mem_cons_of_mem c hd)
    rw [List.length_cons, Nat.mul_succ]
    by_cases hnil : cs = []
    · rw [hnil, joined_singleton]
      omega
    · have hslash : '/'.utf8Size = 1 := rfl
      rw [joined_cons hnil, Text.len_append, Text.len_cons, hslash]
      omega

/-- The canonical spelling of a location that is not deep is within the limit. -/
theorem len_canonical_le (hdepth : l.components.length ≤ 15) :
    (canonical l.components).len ≤ maxPathLen := by
  by_cases hnil : l.components = []
  · rw [hnil]
    decide
  · have hlen := len_joined_le l.valid
    have hcomponent : maxComponentLen = 255 := rfl
    have hpath : maxPathLen = 4096 := rfl
    have hprefix : lkoPrefix.len = 3 := rfl
    rw [len_canonical hnil, hpath, hprefix]
    rw [hcomponent] at hlen
    omega

/-! ### What is accepted, exactly -/

/-- The path that a spelling of a location is parsed to stands for that location. -/
theorem exists_parse (h : Spells s l.components) (hlen : s.len ≤ maxPathLen) :
    ∃ q, LkoPathRef.parse s = .ok q ∧ q.Names l := by
  have hparse := parse_spelled h hlen
  rcases parse_eq_ok hparse with ⟨m, hm, hnames⟩
  have hml : m = l := Location.ext (hm.unique h)
  exact ⟨_, hparse, hml ▸ hnames⟩

/-- The canonical spelling of a location is accepted if it is not too long. -/
theorem parse_canonical (hlen : (canonical l.components).len ≤ maxPathLen) :
    ∃ q, LkoPathRef.parse (canonical l.components) = .ok q ∧ q.Names l :=
  exists_parse (spells_canonical l.isPart) hlen

/-- Only strings within the limit are accepted. -/
theorem len_of_parse {q : LkoPathRef} (h : LkoPathRef.parse s = .ok q) : s.len ≤ maxPathLen := by
  unfold LkoPathRef.parse at h
  rw [seq_eq_ok, rejectIf_eq_ok] at h
  exact Nat.not_lt.mp h.1

/-- Parsing accepts exactly the spellings of locations within the limit. -/
theorem parse_iff {q : LkoPathRef} : LkoPathRef.parse s = .ok q ↔ s.len ≤ maxPathLen ∧
    ∃ l : Location, Spells s l.components ∧
      q = if l.components = [] then .ROOT else ⟨s, l.root⟩ := by
  constructor
  · intro h
    have hlen := len_of_parse h
    rcases parse_eq_ok h with ⟨l, hspells, -⟩
    rw [parse_spelled hspells hlen] at h
    cases h
    exact ⟨hlen, l, hspells, rfl⟩
  · rintro ⟨hlen, l, hspells, rfl⟩
    exact parse_spelled hspells hlen

/-- An owned path is determined by its location. -/
theorem LkoPath.Names.eq (h : p.Names l) : p = ⟨canonical l.components, l.root⟩ := by
  rw [← h.spelled, ← h.root]

/-- Parsed to an owned path, a spelling of a location gives the canonical one. -/
theorem LkoPath.parse_spelled (h : Spells s l.components) (hlen : s.len ≤ maxPathLen) :
    LkoPath.parse s = .ok ⟨canonical l.components, l.root⟩ := by
  rcases exists_parse h hlen with ⟨q, hq, hnames⟩
  unfold LkoPath.parse
  rw [hq]
  exact congrArg Except.ok (toOwnedPath_names hnames).eq

/-- An owned path stands for a location that its string spells. -/
theorem LkoPath.parse_eq_ok (h : LkoPath.parse s = .ok p) :
    s.len ≤ maxPathLen ∧ ∃ l : Location, Spells s l.components ∧ p.Names l := by
  unfold LkoPath.parse at h
  rcases bind_eq_ok.mp h with ⟨q, hq, hp⟩
  cases hp
  rcases Filesystem.parse_eq_ok hq with ⟨l, hspells, hnames⟩
  exact ⟨len_of_parse hq, l, hspells, toOwnedPath_names hnames⟩

private theorem LkoPath.parse_inner_iff (h : p.Names l) :
    LkoPath.parse p.inner = .ok p ↔ p.inner.len ≤ maxPathLen := by
  constructor
  · intro hp
    exact (LkoPath.parse_eq_ok hp).1
  · intro hlen
    have hspells : Spells p.inner l.components := by
      rw [h.spelled]
      exact spells_canonical l.isPart
    rw [LkoPath.parse_spelled hspells hlen, ← h.eq]

/-! ### Runs -/

/-- The owned paths that sequences of parsing, joining and taking the parent make, when every
parsed string meets a condition. -/
inductive Made (cond : Text → Prop) : LkoPath → Prop
  | parse {s : Text} {p : LkoPath} (h : LkoPath.parse s = .ok p) (hs : cond s) : Made cond p
  | join {p q : LkoPath} {component : Text} (hp : Made cond p) (h : p.join component = .ok q) :
      Made cond q
  | parent {p : LkoPath} {q : LkoPathRef} (hp : Made cond p)
      (h : p.asRef.parent = some (some q)) : Made cond q.toOwnedPath

/-- The canonical spelling of what a string spells is within the limit. -/
def Fits (s : Text) : Prop := lkoPrefix.len + 1 + (canonicalBody s).len ≤ maxPathLen

private theorem Made.reachable {cond : Text → Prop} (h : Made cond p) : Reachable (.owned p) := by
  induction h with
  | @parse s p h hs =>
    unfold LkoPath.parse at h
    rcases bind_eq_ok.mp h with ⟨q, hq, hp⟩
    cases hp
    exact .toOwnedPath (.parse hq)
  | join hp h ih => exact .join ih h
  | parent hp h ih => exact .toOwnedPath (.parent (.asRef ih) h)

private theorem fits_iff (h : Spells s comps) : Fits s ↔ (canonical comps).len ≤ maxPathLen := by
  unfold Fits
  rw [canonicalBody_spells h]
  by_cases hempty : comps = []
  · rw [hempty]
    decide
  · rw [len_canonical hempty]

private theorem len_canonical_parent (l : Location) :
    (canonical l.parent.components).len ≤ (canonical l.components).len := by
  change (canonical l.components.dropLast).len ≤ _
  rcases l.components.eq_nil_or_concat with hnil | ⟨cs, c, hc⟩
  · rw [hnil]
    exact Nat.le_refl _
  · rw [hc, List.concat_eq_append, List.dropLast_concat, canonical_concat, Text.len_append]
    exact Nat.le_add_right _ _

private theorem Made.len_le (h : Made Fits p) : p.inner.len ≤ maxPathLen := by
  induction h with
  | @parse s p h hs =>
    rcases (LkoPath.parse_eq_ok h).2 with ⟨l, hspells, hnames⟩
    rw [hnames.spelled]
    exact (fits_iff hspells).mp hs
  | @join p q component hp h ih =>
    unfold LkoPath.join at h
    rw [seq_eq_ok, seq_eq_ok, rejectIf_eq_ok] at h
    rcases h with ⟨-, hlen, h⟩
    have hinner : q.inner = p.inner ++ '/' :: component := by
      split at h
      · cases h
        rfl
      · split at h
        · cases h
          rfl
        · cases h
    rw [hinner, Text.len_append, Text.len_cons]
    change p.inner.len + (1 + Text.len component) ≤ maxPathLen
    omega
  | @parent p q hp h ih =>
    rcases reachable_names hp.reachable with ⟨l, hnames⟩
    by_cases hvolume : l.components = []
    · rw [parent_volume (asRef_names hnames) hvolume] at h
      cases h
    · rcases parent_names (asRef_names hnames) hvolume with ⟨q', hq', hnames'⟩
      rw [h] at hq'
      cases hq'
      have hlen := len_canonical_parent l
      rw [(toOwnedPath_names hnames').spelled]
      rw [hnames.spelled] at ih
      omega

/-- An owned path of any run is parsed to itself exactly when its string is within the limit.
After one parse that is the case exactly when the parsed string fits, and in runs that parse
only strings that fit it is the case throughout. -/
theorem canonicalisation_fixpoint (p : LkoPath) :
    (Made (fun _ ↦ True) p → (LkoPath.parse p.inner = .ok p ↔ p.inner.len ≤ maxPathLen)) ∧
      (∀ s, LkoPath.parse s = .ok p → (LkoPath.parse p.inner = .ok p ↔ Fits s)) ∧
        (Made Fits p → LkoPath.parse p.inner = .ok p) := by
  refine ⟨?_, ?_, ?_⟩
  · intro hp
    rcases reachable_names hp.reachable with ⟨l, hnames⟩
    exact LkoPath.parse_inner_iff hnames
  · intro s h
    rcases (LkoPath.parse_eq_ok h).2 with ⟨l, hspells, hnames⟩
    rw [LkoPath.parse_inner_iff hnames, fits_iff hspells, hnames.spelled]
  · intro hp
    rcases reachable_names hp.reachable with ⟨l, hnames⟩
    exact (LkoPath.parse_inner_iff hnames).mpr hp.len_le

example : Made Fits ⟨"LKO/Users/Adam".toList, some .Users⟩ :=
  .parse (rfl : LkoPath.parse "/Users/Adam/".toList = _) (Nat.le_of_ble_eq_true rfl)

/-! ### A path that is too long in canonical spelling -/

private theorem len_joined_replicate (c part : Text) (n : Nat) :
    Text.len (joined '/' (c :: List.replicate n part)) = c.len + n * (part.len + 1) := by
  induction n generalizing c with
  | zero => simp
  | succ n ih =>
    rw [List.replicate_succ, joined_cons (List.cons_ne_nil _ _), Text.len_append, Text.len_cons, ih]
    change c.len + (1 + _) = _
    rw [Nat.add_mul]
    omega

private theorem len_replicate_a (n : Nat) : Text.len (List.replicate n 'a') = n := by
  induction n with
  | zero => rfl
  | succ n ih =>
    rw [List.replicate_succ, Text.len_cons, ih]
    exact Nat.add_comm 1 n

private theorem validName_replicate {n : Nat} (hpos : 0 < n) (hmax : n ≤ maxComponentLen) :
    ValidName (List.replicate n 'a') := by
  have hmem {ch : Char} (h : ch ∈ List.replicate n 'a') : ch = 'a' := List.eq_of_mem_replicate h
  constructor
  · intro h
    rw [List.replicate_eq_nil_iff] at h
    exact Nat.ne_of_gt hpos h
  · rw [len_replicate_a]
    exact hmax
  · constructor
    · intro h
      cases hmem (h ▸ (by decide : '.' ∈ ".".toList))
    · intro h
      cases hmem (h ▸ (by decide : '.' ∈ "..".toList))
  · intro h
    cases hmem h
  · intro h
    cases hmem h
  · intro ch hch
    rw [hmem hch]
    decide
  · constructor
    · intro h
      cases hmem (List.mem_of_getLast? h)
    · intro h
      cases hmem (List.mem_of_getLast? h)

/-- The `Compatibility` root with sixteen components of 254 bytes below it. -/
def longLocation : Location :=
  .under .Compatibility (List.replicate 16 (List.replicate 254 'a')) fun c hc ↦ by
    rw [List.eq_of_mem_replicate hc]
    exact validName_replicate (by decide) (by decide)

private theorem len_joined_longLocation :
    Text.len (joined '/' longLocation.components) = 4093 := by
  unfold longLocation Location.under
  rw [len_joined_replicate, len_replicate_a]
  decide

/-- In the short form, which has 4094 bytes, that path is accepted, but its owned copy is not. -/
theorem canonical_too_long :
    ¬ ∀ p, Made (fun _ ↦ True) p → LkoPath.parse p.inner = .ok p := by
  intro h
  have hspells : Spells ([] ++ '/' :: (joined '/' longLocation.components ++ []))
      longLocation.components := .path (.inl rfl) (.inl rfl) longLocation.isPart
  have hlen : Text.len ([] ++ '/' :: (joined '/' longLocation.components ++ [])) ≤ maxPathLen := by
    rw [List.nil_append, List.append_nil, Text.len_cons, len_joined_longLocation]
    decide
  have hparse := LkoPath.parse_spelled hspells hlen
  have hinner := h _ (.parse hparse trivial)
  have hcanonical : (canonical longLocation.components).len ≤ maxPathLen :=
    (LkoPath.parse_eq_ok hinner).1
  have hne : longLocation.components ≠ [] := List.cons_ne_nil _ _
  rw [len_canonical hne, len_joined_longLocation] at hcanonical
  revert hcanonical
  decide

end LokoOS.Filesystem
