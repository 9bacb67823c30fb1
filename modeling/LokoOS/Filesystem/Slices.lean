import LokoOS.Filesystem.PathSpec

/-!
# Slices of paths

The functions of `filesystem/lkofs-core/src/path.rs` once more, with each slice at a byte
offset spelled out. A slice that is out of range or splits a character panics, which is the
outer `none`. None of them does: the functions agree with the ones that do not slice.
-/

namespace LokoOS.Filesystem

open LokoOS.Base

/-- The string before a byte offset. -/
def sliceTo (s : Text) (n : Nat) : Option Text := (Text.splitAt s n).map Prod.fst

/-- The string from a byte offset on. -/
def sliceFrom (s : Text) (n : Nat) : Option Text := (Text.splitAt s n).map Prod.snd

/-- Whether a byte offset is between characters. -/
def isCharBoundary (s : Text) (n : Nat) : Bool := (Text.splitAt s n).isSome

/-- The rest of a string after a prefix in any case; `path.rs:457–467`. -/
def stripPrefixCiSliced (s pre : Text) : Option (Option Text) :=
  if s.len ≥ pre.len ∧ isCharBoundary s pre.len = true then do
    let head ← sliceTo s pre.len
    if head.eqIgnoreAsciiCase pre then
      let rest ← sliceFrom s pre.len
      return some rest
    else return none
  else return none

/-- The part after the volume prefix without its separators; `path.rs:473–481`. -/
def canonicalBodySliced (raw : Text) : Option Text := do
  let stripped ← stripPrefixCiSliced raw lkoPrefix
  let rest := stripped.getD raw
  let rest := (Text.stripPrefix '/' rest).getD rest
  return (Text.stripSuffix '/' rest).getD rest

/-- An offset in the canonical spelling, moved to the raw string; `path.rs:487–494`. -/
def rawOffsetSliced (raw : Text) (canonicalOffset : Nat) : Option Nat := do
  let stripped ← stripPrefixCiSliced raw lkoPrefix
  if stripped.isSome then return canonicalOffset
  else subU64 canonicalOffset lkoPrefix.len

namespace LkoPathRef

/-- What follows the volume prefix in either spelling; `path.rs:194–205`. The first byte is
that of a separator exactly when the first character is one. -/
def stripVolumeSliced (input : Text) : Option (Except PathError (Option Text)) := do
  match ← stripPrefixCiSliced input lkoPrefix with
  | some [] => return .ok none
  | some (c :: rest) =>
    if c = '/' then
      let body ← sliceFrom (c :: rest) 1
      return .ok (some body)
    else return .error .MissingRoot
  | none =>
    match Text.stripPrefix '/' input with
    | some rest => return .ok (some rest)
    | none => return .error .MissingRoot

/-- Parse and validate a path; `path.rs:185–229`. -/
def parseSliced (input : Text) : Option (Except PathError LkoPathRef) :=
  if input.len > maxPathLen then return .error .TooLong
  else if '\\' ∈ input then return .error .BackslashSeparator
  else do
    match ← stripVolumeSliced input with
    | .error e => return .error e
    | .ok none => return .ok ROOT
    | .ok (some body) =>
      let body := (Text.stripSuffix '/' body).getD body
      if body = [] then return .ok ROOT else return parseComponents input body

/-- The components after the root; `path.rs:239–246`. -/
def tailSliced (p : LkoPathRef) : Option (List Text) := do
  let body ← canonicalBodySliced p.raw
  return (body.splitOn '/').tail.filter (· ≠ [])

/-- All components; `path.rs:249–253`. -/
def componentsSliced (p : LkoPathRef) : Option (List Text) := do
  let body ← canonicalBodySliced p.raw
  return (body.splitOn '/').filter (· ≠ [])

/-- The containing directory; `path.rs:291–309`. -/
def parentSliced (p : LkoPathRef) : Option (Option LkoPathRef) := do
  let body ← canonicalBodySliced p.raw
  if body = [] then return none
  else
    match Text.rfind '/' body with
    | some idx =>
      let offset ← rawOffsetSliced p.raw (lkoPrefix.len + 1 + idx)
      let raw ← sliceTo p.raw offset
      return some ⟨raw, p.root⟩
    | none => return some ROOT

end LkoPathRef

variable {s t rest pre : Text} {n : Nat} {p : LkoPathRef} {l : Location}

/-! ### No slice panics -/

private theorem slices_of_splitAt (h : Text.splitAt s n = some (t, rest)) :
    sliceTo s n = some t ∧ sliceFrom s n = some rest := by
  unfold sliceTo sliceFrom
  rw [h]
  exact ⟨rfl, rfl⟩

private theorem stripPrefixCiSliced_eq (s pre : Text) :
    stripPrefixCiSliced s pre = some (stripPrefixCi s pre) := by
  unfold stripPrefixCiSliced stripPrefixCi isCharBoundary
  cases hsplit : Text.splitAt s pre.len with
  | none => simp
  | some parts =>
    have hlen : s.len ≥ pre.len := by
      rcases Text.eq_of_splitAt hsplit with ⟨hs, hhead⟩
      rw [hs, Text.len_append, hhead]
      exact Nat.le_add_right _ _
    have hslices := slices_of_splitAt hsplit
    rw [if_pos ⟨hlen, rfl⟩, hslices.1, hslices.2]
    by_cases heq : parts.1.eqIgnoreAsciiCase pre = true
    · simp [heq]
    · simp [heq]

private theorem canonicalBodySliced_eq (raw : Text) :
    canonicalBodySliced raw = some (canonicalBody raw) := by
  unfold canonicalBodySliced canonicalBody
  rw [stripPrefixCiSliced_eq]
  rfl

private theorem rawOffsetSliced_eq (raw : Text) (n : Nat) :
    rawOffsetSliced raw n = rawOffset raw n := by
  unfold rawOffsetSliced rawOffset
  rw [stripPrefixCiSliced_eq]
  rfl

namespace LkoPathRef

private theorem stripVolumeSliced_eq (input : Text) :
    stripVolumeSliced input = some (stripVolume input) := by
  unfold stripVolumeSliced stripVolume
  rw [stripPrefixCiSliced_eq, Option.bind_eq_bind, Option.bind_some]
  cases stripPrefixCi input lkoPrefix with
  | none =>
    cases Text.stripPrefix '/' input with
    | none => rfl
    | some rest => rfl
  | some after =>
    cases after with
    | nil => rfl
    | cons c rest =>
      by_cases hc : c = '/'
      · have hsplit : Text.splitAt (['/'] ++ rest) (Text.len ['/']) = some (['/'], rest) :=
          Text.splitAt_append
        have hslice : sliceFrom ('/' :: rest) 1 = some rest := (slices_of_splitAt hsplit).2
        simp only [hc, if_true, hslice]
        rfl
      · simp only [hc, if_false]
        rfl

private theorem parseSliced_eq (input : Text) :
    parseSliced input = some (LkoPathRef.parse input) := by
  unfold parseSliced parse rejectIf
  rw [stripVolumeSliced_eq]
  by_cases hlen : input.len > maxPathLen
  · rw [if_pos hlen, if_pos hlen]
    rfl
  · by_cases hbackslash : '\\' ∈ input
    · rw [if_neg hlen, if_neg hlen, if_pos hbackslash, if_pos hbackslash]
      rfl
    · rw [if_neg hlen, if_neg hlen, if_neg hbackslash, if_neg hbackslash]
      cases stripVolume input with
      | error e => rfl
      | ok volume =>
        cases volume with
        | none => rfl
        | some body =>
          change (if _ = [] then _ else _) = some (if _ = [] then _ else _)
          split
          · rfl
          · rfl

private theorem iterators_sliced (p : LkoPathRef) :
    p.tailSliced = some p.tail ∧ p.componentsSliced = some p.components := by
  unfold tailSliced componentsSliced
  rw [canonicalBodySliced_eq]
  exact ⟨rfl, rfl⟩

private theorem parentSliced_eq (p : LkoPathRef) : p.parentSliced = p.parent := by
  unfold parentSliced parent
  rw [canonicalBodySliced_eq, Option.bind_eq_bind, Option.bind_some]
  simp only [rawOffsetSliced_eq]
  split
  · rfl
  · cases Text.rfind '/' (canonicalBody p.raw) with
    | none => rfl
    | some idx =>
      simp only [sliceTo, Option.bind_eq_bind, Option.bind_map]
      rfl

private theorem Names.parent_isSome (h : p.Names l) : ∃ q, p.parent = some q := by
  by_cases hl : l.components = []
  · exact ⟨none, parent_volume h hl⟩
  · rcases parent_names h hl with ⟨q, hq, -⟩
    exact ⟨some q, hq⟩

end LkoPathRef

/-! ### The representation -/

/-- What every check on a path relies on: the components pass the check of a component, the
root is the one the first of them names, the accessors agree with them, and none of the
accessors panics. -/
structure LkoPathRef.Represented (p : LkoPathRef) : Prop where
  valid : ∀ c ∈ p.components, validateComponent c = .ok ()
  plain : ∀ c ∈ p.components, c ≠ [] ∧ c ≠ ".".toList ∧ c ≠ "..".toList ∧ '/' ∉ c
  unrooted : p.root = none ↔ p.components = []
  rooted : ∀ c ∈ p.components.head?, p.root = Root.parse c
  tail : p.tail = p.components.tail
  depth : p.depth = p.components.length
  fileName : p.fileName = p.components.getLast?
  iterators : p.tailSliced = some p.tail ∧ p.componentsSliced = some p.components
  parent : ∃ q, p.parent = some q ∧ p.parentSliced = some q

/-- An owned path is looked at through its borrowed form. -/
def PathValue.Represented : PathValue → Prop
  | .borrowed p => p.Represented
  | .owned p => p.asRef.Represented ∧ p.root = p.asRef.root

private theorem LkoPathRef.Names.represented (h : p.Names l) : p.Represented where
  valid c hc := by
    rw [h.components] at hc
    exact validateComponent_eq_ok.mpr (l.valid c hc)
  plain c hc := by
    rw [h.components] at hc
    have hvalid := l.valid c hc
    exact ⟨hvalid.nonempty, hvalid.absolute.1, hvalid.absolute.2, hvalid.noSlash⟩
  unrooted := by
    rw [h.root, h.components]
    exact Location.root_eq_none
  rooted c hc := by
    rw [h.components] at hc
    rw [h.root, Location.root, hc]
    rfl
  tail := by rw [h.tail, h.components]
  depth := rfl
  fileName := rfl
  iterators := p.iterators_sliced
  parent := by
    rcases h.parent_isSome with ⟨q, hq⟩
    exact ⟨q, hq, p.parentSliced_eq.trans hq⟩

/-- Every path that any sequence of operations makes is represented, and no slice of the
parser panics, whatever it is given. -/
theorem path_representation (s : Text) {v : PathValue} (h : Reachable v) :
    v.Represented ∧ LkoPathRef.parseSliced s = some (LkoPathRef.parse s) := by
  rcases reachable_names h with ⟨l, hl⟩
  constructor
  · cases v with
    | borrowed p => exact LkoPathRef.Names.represented hl
    | owned p => exact ⟨(asRef_names hl).represented, rfl⟩
  · exact LkoPathRef.parseSliced_eq s

/-- A joined path in canonical spelling, and a string whose third byte is inside a character. -/
theorem path_representation_adam :
    PathValue.Represented (.owned ⟨"LKO/Users/Adam".toList, some .Users⟩) ∧
      LkoPathRef.parseSliced "LKé/Users".toList = some (.error .MissingRoot) :=
  path_representation _ (.join (.toOwnedPath (.parse (rfl : LkoPathRef.parse "/Users/".toList = _)))
    (rfl : LkoPath.join _ "Adam".toList = _))

end LokoOS.Filesystem
