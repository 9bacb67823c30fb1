import Mathlib.Data.Prod.Lex
import Mathlib.Order.Fin.Basic

/-!
# Package trust

Models `security/loko-security/src/trust.rs:18–291`: what is known of a package that is offered
and whether it may be installed. The rules stand from the most to the least severe, and the
first that applies decides.
-/

namespace LokoOS.Security

/-- How the signature of a package checked out; `trust.rs:21–36`. -/
inductive Signature
  | LokoOfficial
  | VerifiedPublisher
  | KnownPublisher
  | UnknownPublisher
  | Unsigned
  | Invalid
  deriving DecidableEq, Repr

/-- Where a package came from; `trust.rs:63–72`. -/
inductive Source
  | LokoStore
  | SystemUpdate
  | LocalFile
  | Download
  deriving DecidableEq, Repr

/-- A 16-bit number. -/
abbrev U16 : Type := Fin 0x10000

/-- A semantic version; `trust.rs:91–98`. -/
structure Version where
  major : U16
  minor : U16
  patch : U16
  deriving DecidableEq, Repr

/-- What a package says it is; `trust.rs:76–87`. -/
structure Package where
  id : String
  version : Version
  signature : Signature
  source : Source
  claimsSystemComponent : Bool
  deriving DecidableEq, Repr

/-- What the system is asked to do; `trust.rs:114–122`. -/
inductive Intent
  | FreshInstall
  | Update (installed : Version)
  deriving DecidableEq, Repr

/-- What the user must acknowledge first; `trust.rs:151–158`. -/
inductive Warning
  | UnknownPublisher
  | Unsigned
  | FromOutsideTheStore
  deriving DecidableEq, Repr

/-- Why installation is refused; `trust.rs:190–201`. -/
inductive Refusal
  | IntegrityFailure
  | ForgedSystemComponent
  | SystemComponentFromWrongSource
  | Downgrade
  | AlreadyInstalled
  deriving DecidableEq, Repr

/-- The decision; `trust.rs:126–133`. -/
inductive Decision
  | Install
  | WarnThenInstall (warning : Warning)
  | Refuse (refusal : Refusal)
  deriving DecidableEq, Repr

/-- Whether anyone has vouched for the publisher; `trust.rs:53–58`. -/
def Signature.provesIdentity : Signature → Bool
  | LokoOfficial | VerifiedPublisher | KnownPublisher => true
  | _ => false

/-- Whether installation proceeds with no further interaction; `trust.rs:138–140`. -/
def Decision.isSilent : Decision → Bool
  | Install => true
  | _ => false

/-- Whether installation can proceed at all; `trust.rs:144–146`. -/
def Decision.canProceed : Decision → Bool
  | Refuse _ => false
  | _ => true

/-- Only one decision is silent. -/
theorem Decision.isSilent_iff {d : Decision} : d.isSilent = true ↔ d = .Install := by
  cases d <;> simp [isSilent]

/-! ### Versions -/

namespace Version

/-- The derived order: by the fields, in the order in which they are declared. -/
instance : Ord Version where
  compare v w :=
    (compare v.major w.major).then ((compare v.minor w.minor).then (compare v.patch w.patch))

/-- The place of a version in the lexicographic order. -/
def key (v : Version) : U16 ×ₗ U16 ×ₗ U16 := toLex (v.major, toLex (v.minor, v.patch))

variable {v w : Version}

private theorem compare_eq_lt : compare v w = .lt ↔ v.key < w.key := by
  have hfield (m n : U16) : compare m n = .lt ↔ m < n := Std.LawfulCmp.eq_lt_iff_lt
  change (compare _ _).then _ = .lt ↔ _
  rw [Ordering.then_eq_lt, Ordering.then_eq_lt, key, key, Prod.Lex.toLex_lt_toLex,
    Prod.Lex.toLex_lt_toLex]
  simp only [hfield, Std.LawfulEqOrd.compare_eq_iff_eq]

private theorem key_inj : v.key = w.key ↔ v = w := by
  cases v
  cases w
  simp [key]

end Version

/-! ### The rules -/

/-- Rule 2, for packages that claim to be a part of the system; `trust.rs:249–256`. -/
def systemRefusal (package : Package) : Option Refusal :=
  if package.claimsSystemComponent then
    if package.signature ≠ .LokoOfficial then some .ForgedSystemComponent
    else if package.source ≠ .SystemUpdate then some .SystemComponentFromWrongSource
    else none
  else none

/-- Rule 3, the version arithmetic; `trust.rs:261–268`. -/
def versionRefusal (version : Version) : Intent → Option Refusal
  | .FreshInstall => none
  | .Update installed =>
    if compare version installed = .lt then some .Downgrade
    else if version = installed then some .AlreadyInstalled
    else none

/-- Rules 4 to 6, for what the signature and the source say; `trust.rs:273–290`. -/
def signatureDecision (signature : Signature) (source : Source) (developerMode : Bool) :
    Decision :=
  if signature = .Unsigned then
    if !developerMode then .Refuse .IntegrityFailure else .WarnThenInstall .Unsigned
  else if !signature.provesIdentity then .WarnThenInstall .UnknownPublisher
  else if source = .Download ∨ source = .LocalFile then .WarnThenInstall .FromOutsideTheStore
  else .Install

/-- Whether a package may be installed; `trust.rs:241–291`. -/
def evaluateInstall (package : Package) (intent : Intent) (developerMode : Bool) : Decision :=
  if package.signature = .Invalid then .Refuse .IntegrityFailure
  else
    match systemRefusal package with
    | some refusal => .Refuse refusal
    | none =>
      match versionRefusal package.version intent with
      | some refusal => .Refuse refusal
      | none => signatureDecision package.signature package.source developerMode

variable {package : Package} {intent : Intent} {developerMode : Bool} {version installed : Version}
  {signature : Signature} {source : Source}

/-- Rule 2 lets through what the system itself signed and delivered. -/
theorem systemRefusal_eq_none : systemRefusal package = none ↔
    (package.claimsSystemComponent = true →
      package.signature = .LokoOfficial ∧ package.source = .SystemUpdate) := by
  unfold systemRefusal
  cases package.claimsSystemComponent with
  | false => simp
  | true =>
    by_cases hsignature : package.signature = .LokoOfficial
    · by_cases hsource : package.source = .SystemUpdate
      · simp [hsignature, hsource]
      · simp [hsignature, hsource]
    · simp [hsignature]

/-- Rule 3 lets through what is newer than what is installed. -/
theorem versionRefusal_update :
    versionRefusal version (.Update installed) = none ↔ installed.key < version.key := by
  unfold versionRefusal
  simp only [Version.compare_eq_lt]
  split
  · next hlt => simp [hlt.le]
  · next hge =>
    split
    · next heq => simp [heq]
    · next hne =>
      have hkey : installed.key ≠ version.key := fun he ↦ hne (Version.key_inj.mp he).symm
      exact iff_of_true rfl (lt_of_le_of_ne (not_lt.mp hge) hkey)

/-- The last rules refuse unsigned packages without developer mode, and nothing else. -/
theorem signatureDecision_canProceed :
    (signatureDecision signature source developerMode).canProceed = true ↔
      (signature = .Unsigned → developerMode = true) := by
  cases signature <;> cases source <;> cases developerMode <;> decide

/-- In developer mode they warn of a package that is unsigned. -/
theorem signatureDecision_unsigned (hs : signature = .Unsigned) (hd : developerMode = true) :
    signatureDecision signature source developerMode = .WarnThenInstall .Unsigned := by
  rw [hs, hd]
  rfl

/-- They are silent when someone vouched for the publisher, and the package came from the store
or with an update. -/
theorem signatureDecision_eq_install :
    signatureDecision signature source developerMode = .Install ↔
      signature.provesIdentity = true ∧ (source = .LokoStore ∨ source = .SystemUpdate) := by
  cases signature <;> cases source <;> cases developerMode <;> decide

/-- What may be installed has passed the first three rules, and the last ones decide. -/
theorem evaluateInstall_of_proceeds
    (h : (evaluateInstall package intent developerMode).canProceed = true) :
    package.signature ≠ .Invalid ∧ systemRefusal package = none ∧
      versionRefusal package.version intent = none ∧
      evaluateInstall package intent developerMode =
        signatureDecision package.signature package.source developerMode := by
  unfold evaluateInstall at *
  split at h
  · cases h
  · next hvalid =>
    rw [if_neg hvalid]
    cases hsystem : systemRefusal package with
    | some refusal =>
      rw [hsystem] at h
      cases h
    | none =>
      rw [hsystem] at h
      cases hversion : versionRefusal package.version intent with
      | some refusal =>
        simp only [hversion] at h
        cases h
      | none => exact ⟨hvalid, rfl, rfl, rfl⟩

end LokoOS.Security
