import LokoOS.Base.Checks
import LokoOS.Base.Proc
import LokoOS.Filesystem.Root

/-!
# Path parsing and validation

Models `filesystem/lkofs-core/src/path.rs`. A parsed path keeps the caller's string and the
root it recognised; every accessor derives the components from that string again. The owned
form is spelled with the `LKO` prefix and without a trailing separator.
-/

namespace LokoOS.Filesystem

open LokoOS.Base

/-- Why a path was rejected; `path.rs:32–67`. -/
inductive PathError
  | MissingRoot
  | UnknownRoot
  | TooLong
  | ComponentTooLong
  | EmptyComponent
  | RelativeComponent
  | BackslashSeparator
  | SeparatorInName
  | ControlCharacter
  | BidirectionalOverride
  | TrailingSpaceOrDot
  | NonAsciiRoot
  deriving DecidableEq, Repr

/-- Longest component in bytes; `sdk/loko-abi/src/lib.rs:56`. -/
def maxComponentLen : Nat := 255

/-- Longest path in bytes; `sdk/loko-abi/src/lib.rs:59`. -/
def maxPathLen : Nat := 4096

/-- Name of the volume root; `path.rs:27`. -/
def lkoPrefix : Text := "LKO".toList

/-! ### Components -/

/-- C0 controls, DEL and C1 controls: the general category `Cc`. -/
def isControl (ch : Char) : Prop := ch.toNat < 0x20 ∨ 0x7F ≤ ch.toNat ∧ ch.toNat ≤ 0x9F

/-- Line and paragraph separators; `path.rs:142`. -/
def isLineSeparator (ch : Char) : Prop := ch.toNat = 0x2028 ∨ ch.toNat = 0x2029

/-- Characters that reorder rendering; `path.rs:145`. -/
def isBidiControl (ch : Char) : Prop :=
  0x202A ≤ ch.toNat ∧ ch.toNat ≤ 0x202E ∨ 0x2066 ≤ ch.toNat ∧ ch.toNat ≤ 0x2069 ∨
    ch.toNat = 0x200F ∨ ch.toNat = 0x200E

instance (ch : Char) : Decidable (isControl ch) := inferInstanceAs (Decidable (_ ∨ _))

instance (ch : Char) : Decidable (isLineSeparator ch) := inferInstanceAs (Decidable (_ ∨ _))

instance (ch : Char) : Decidable (isBidiControl ch) := inferInstanceAs (Decidable (_ ∨ _))

/-- One round of the character loop; `path.rs:134–150`. -/
def validateChar (ch : Char) : Except PathError Unit := do
  rejectIf (isControl ch) .ControlCharacter
  rejectIf (isLineSeparator ch) .ControlCharacter
  rejectIf (isBidiControl ch) .BidirectionalOverride

/-- Check of one component on its own; `path.rs:118–159`. -/
def validateComponent (component : Text) : Except PathError Unit := do
  rejectIf (component = []) .EmptyComponent
  rejectIf (component.len > maxComponentLen) .ComponentTooLong
  rejectIf (component = ".".toList ∨ component = "..".toList) .RelativeComponent
  rejectIf ('\\' ∈ component) .BackslashSeparator
  rejectIf ('/' ∈ component) .SeparatorInName
  component.forM validateChar
  rejectIf (component.getLast? = some ' ' ∨ component.getLast? = some '.') .TrailingSpaceOrDot

/-! ### Helpers on raw strings -/

/-- The rest of a string after a prefix in any case; `path.rs:457–467`. The prefix does not
match when its length is past the end or inside a character. -/
def stripPrefixCi (s pre : Text) : Option Text :=
  match Text.splitAt s pre.len with
  | some (head, rest) => if head.eqIgnoreAsciiCase pre then some rest else none
  | none => none

/-- The part after the volume prefix without its separators; `path.rs:473–481`. -/
def canonicalBody (raw : Text) : Text :=
  let rest := (stripPrefixCi raw lkoPrefix).getD raw
  let rest := (Text.stripPrefix '/' rest).getD rest
  (Text.stripSuffix '/' rest).getD rest

/-- An offset in the canonical spelling, moved to the raw string; `path.rs:487–494`. The
subtraction panics below the length of the prefix. -/
def rawOffset (raw : Text) (canonicalOffset : Nat) : Option Nat :=
  if (stripPrefixCi raw lkoPrefix).isSome then some canonicalOffset
  else subU64 canonicalOffset lkoPrefix.len

/-! ### Borrowed paths -/

/-- A borrowed path; `path.rs:167–172`. -/
structure LkoPathRef where
  raw : Text
  root : Option Root
  deriving DecidableEq, Repr

namespace LkoPathRef

/-- The volume root; `path.rs:176–179`. -/
def ROOT : LkoPathRef := ⟨lkoPrefix, none⟩

/-- What follows the volume prefix in either spelling, `none` when nothing does;
`path.rs:194–205`. -/
def stripVolume (input : Text) : Except PathError (Option Text) :=
  match stripPrefixCi input lkoPrefix with
  | some [] => .ok none
  | some (c :: rest) => if c = '/' then .ok (some rest) else .error .MissingRoot
  | none =>
    match Text.stripPrefix '/' input with
    | some rest => .ok (some rest)
    | none => .error .MissingRoot

/-- Check of the components and recognition of the root; `path.rs:213–228`. -/
def parseComponents (input body : Text) : Except PathError LkoPathRef := do
  let parts := body.splitOn '/'
  let rootName := parts.head (List.splitOn_ne_nil '/' body)
  validateComponent rootName
  rejectIf (Text.isAscii rootName = false) .NonAsciiRoot
  match Root.parse rootName with
  | none => .error .UnknownRoot
  | some root => do
    parts.tail.forM validateComponent
    return ⟨input, some root⟩

/-- Parse and validate a path; `path.rs:185–229`. -/
def parse (input : Text) : Except PathError LkoPathRef := do
  rejectIf (input.len > maxPathLen) .TooLong
  rejectIf ('\\' ∈ input) .BackslashSeparator
  match ← stripVolume input with
  | none => return ROOT
  | some body =>
    let body := (Text.stripSuffix '/' body).getD body
    if body = [] then return ROOT else parseComponents input body

/-- The components after the root; `path.rs:239–246`. -/
def tail (p : LkoPathRef) : List Text :=
  ((canonicalBody p.raw).splitOn '/').tail.filter (· ≠ [])

/-- All components; `path.rs:249–253`. -/
def components (p : LkoPathRef) : List Text :=
  ((canonicalBody p.raw).splitOn '/').filter (· ≠ [])

/-- Number of components; `path.rs:257–259`. -/
def depth (p : LkoPathRef) : Nat := p.components.length

/-- The last component; `path.rs:262–264`. -/
def fileName (p : LkoPathRef) : Option Text := p.components.getLast?

/-- The loop of the containment test, over the components of both paths; `path.rs:277–284`. -/
def matchComponents : List Text → List Text → Bool
  | _, [] => true
  | [], _ :: _ => false
  | m :: mine, theirs :: rest => m.eqIgnoreAsciiCase theirs && matchComponents mine rest

/-- Whether a path is another one or is contained in it; `path.rs:276–285`. -/
def isWithin (p other : LkoPathRef) : Bool := matchComponents p.components other.components

/-- The containing directory; `path.rs:291–309`. The outer `none` is the panic of a slice
that is out of range or splits a character. -/
def parent (p : LkoPathRef) : Option (Option LkoPathRef) :=
  let body := canonicalBody p.raw
  if body = [] then some none
  else
    match Text.rfind '/' body with
    | some idx => do
      let offset ← rawOffset p.raw (lkoPrefix.len + 1 + idx)
      let parts ← Text.splitAt p.raw offset
      return some ⟨parts.1, p.root⟩
    | none => some (some ROOT)

end LkoPathRef

/-! ### Owned paths -/

/-- An owned path; `path.rs:356–359`. -/
structure LkoPath where
  inner : Text
  root : Option Root
  deriving DecidableEq, Repr

/-- The owned copy in canonical spelling; `path.rs:320–332`. -/
def LkoPathRef.toOwnedPath (p : LkoPathRef) : LkoPath :=
  let body := canonicalBody p.raw
  ⟨lkoPrefix ++ (if body = [] then [] else '/' :: body), p.root⟩

namespace LkoPath

/-- Parse to an owned path; `path.rs:364–366`. -/
def parse (input : Text) : Except PathError LkoPath := do
  let p ← LkoPathRef.parse input
  return p.toOwnedPath

/-- Borrow an owned path; `path.rs:370–375`. -/
def asRef (p : LkoPath) : LkoPathRef := ⟨p.inner, p.root⟩

/-- Append one component; `path.rs:392–409`. -/
def join (p : LkoPath) (component : Text) : Except PathError LkoPath := do
  validateComponent component
  rejectIf (p.inner.len + 1 + component.len > maxPathLen) .TooLong
  let inner := p.inner ++ '/' :: component
  match p.root with
  | some r => return ⟨inner, some r⟩
  | none =>
    match Root.parse component with
    | some r => return ⟨inner, some r⟩
    | none => .error .UnknownRoot

end LkoPath

/-! ### Values the operations make -/

/-- A path, borrowed or owned. -/
inductive PathValue
  | borrowed (p : LkoPathRef)
  | owned (p : LkoPath)

/-- The paths that any sequence of the public operations makes; the fields are private, so
there are no others. -/
inductive Reachable : PathValue → Prop
  | root : Reachable (.borrowed .ROOT)
  | parse {s : Text} {p : LkoPathRef} (h : LkoPathRef.parse s = .ok p) : Reachable (.borrowed p)
  | parent {p q : LkoPathRef} (hp : Reachable (.borrowed p)) (h : p.parent = some (some q)) :
      Reachable (.borrowed q)
  | toOwnedPath {p : LkoPathRef} (hp : Reachable (.borrowed p)) : Reachable (.owned p.toOwnedPath)
  | asRef {p : LkoPath} (hp : Reachable (.owned p)) : Reachable (.borrowed p.asRef)
  | join {p q : LkoPath} {component : Text} (hp : Reachable (.owned p))
      (h : p.join component = .ok q) : Reachable (.owned q)

end LokoOS.Filesystem
