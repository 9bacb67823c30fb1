/-!
# Application permissions

Models `security/loko-security/src/permission.rs`: which permissions there are, how far a grant
extends, and the record of one application with the calls that change it. A record holds two
arrays with one slot for each permission, at its discriminant less one.
-/

namespace LokoOS.Security

/-- What an application can ask the user for; `permission.rs:24–49`. -/
inductive Permission
  | Files
  | Camera
  | Microphone
  | Network
  | Notifications
  | Clipboard
  | Location
  | Ai
  | SystemSettings
  | Bluetooth
  | ScreenCapture
  | RunAtLogin
  deriving DecidableEq, Repr

/-- How far a grant extends, from the weakest on; `permission.rs:187–198`. -/
inductive Grant
  | Denied
  | Once
  | WhileInUse
  | Always
  deriving DecidableEq, Repr

/-- The state of one permission for one application; `permission.rs:225–231`. -/
inductive State
  | NotAsked
  | Decided (grant : Grant)
  deriving DecidableEq, Repr

/-- Why a use was refused; `permission.rs:245–256`. -/
inductive DenyReason
  | NotDeclared
  | UserRefused
  | NotInForeground
  | DisabledSystemWide
  deriving DecidableEq, Repr

/-- What happens when an application uses a permission; `permission.rs:234–242`. -/
inductive Outcome
  | Allow
  | Prompt
  | Deny (reason : DenyReason)
  deriving DecidableEq, Repr

namespace Grant

/-- Position in the derived order. -/
def rank : Grant → Nat
  | Denied => 0
  | Once => 1
  | WhileInUse => 2
  | Always => 3

/-- The weaker of two grants. -/
def min (g h : Grant) : Grant := if h.rank < g.rank then h else g

/-- Whether a grant permits use now; `permission.rs:204–210`. -/
def permits (g : Grant) (inForeground : Bool) : Bool :=
  match g with
  | Denied => false
  | Once | WhileInUse => inForeground
  | Always => true

end Grant

namespace Permission

/-- Every permission; `permission.rs:53–66`. -/
def all : List Permission :=
  [Files, Camera, Microphone, Network, Notifications, Clipboard, Location, Ai, SystemSettings,
    Bluetooth, ScreenCapture, RunAtLogin]

/-- The stable number of a permission; `permission.rs:24–49`. -/
def discriminant : Permission → Nat
  | Files => 1
  | Camera => 2
  | Microphone => 3
  | Network => 4
  | Notifications => 5
  | Clipboard => 6
  | Location => 7
  | Ai => 8
  | SystemSettings => 9
  | Bluetooth => 10
  | ScreenCapture => 11
  | RunAtLogin => 12

/-- Whether a permission can be used without the user noticing; `permission.rs:150–159`. -/
def isCovertCapable : Permission → Bool
  | Camera | Microphone | Location | ScreenCapture | Clipboard => true
  | _ => false

/-- The strongest grant that a prompt gives; `permission.rs:177–183`. -/
def strongestPromptGrant (p : Permission) : Grant :=
  if p.isCovertCapable then .WhileInUse else .Always

end Permission

/-- The permission record of one application; `permission.rs:290–293`. -/
structure Record where
  declared : Vector Bool Permission.all.length
  state : Vector State Permission.all.length
  deriving DecidableEq, Repr

namespace Record

/-- The slot of a permission, which is in the arrays; `permission.rs:315–317`. -/
def index (permission : Permission) : Fin Permission.all.length :=
  ⟨permission.discriminant - 1, by cases permission <;> decide⟩

/-- The record for the permissions that a manifest declares; `permission.rs:304–313`. -/
def new (declared : List Permission) : Record where
  declared := declared.foldl (fun slots p ↦ slots.set (index p).val true)
    (Vector.replicate Permission.all.length false)
  state := Vector.replicate Permission.all.length .NotAsked

/-- Whether the manifest declared a permission; `permission.rs:321–323`. -/
def declares (r : Record) (permission : Permission) : Bool := r.declared[(index permission).val]

/-- The state of a permission; `permission.rs:327–329`. -/
def stateOf (r : Record) (permission : Permission) : State := r.state[(index permission).val]

/-- Write the state of a permission. -/
def setState (r : Record) (permission : Permission) (s : State) : Record :=
  { r with state := r.state.set (index permission).val s }

/-- The user's answer to a prompt, clamped; `permission.rs:336–342`. -/
def decide (r : Record) (permission : Permission) (grant : Grant) : Record :=
  if !r.declares permission then r
  else r.setState permission (.Decided (grant.min permission.strongestPromptGrant))

/-- A grant from the settings; `permission.rs:349–354`. -/
def setFromSettings (r : Record) (permission : Permission) (grant : Grant) : Record :=
  if !r.declares permission then r else r.setState permission (.Decided grant)

/-- Withdraw a permission; `permission.rs:361–363`. -/
def revoke (r : Record) (permission : Permission) : Record :=
  r.setState permission (.Decided .Denied)

/-- Clear the grants for one time, slot by slot; `permission.rs:366–372`. -/
def endSession (r : Record) : Record :=
  { r with state := r.state.map fun s ↦ if s = .Decided .Once then .NotAsked else s }

/-- What happens when the application uses a permission; `permission.rs:376–402`. -/
def check (r : Record) (permission : Permission) (inForeground enabledSystemWide : Bool) :
    Outcome :=
  if !r.declares permission then .Deny .NotDeclared
  else if !enabledSystemWide then .Deny .DisabledSystemWide
  else
    match r.stateOf permission with
    | .NotAsked => .Prompt
    | .Decided .Denied => .Deny .UserRefused
    | .Decided grant => if grant.permits inForeground then .Allow else .Deny .NotInForeground

end Record

/-! ### Calls -/

/-- The calls that change a record. -/
inductive Call
  | decide (permission : Permission) (grant : Grant)
  | setFromSettings (permission : Permission) (grant : Grant)
  | revoke (permission : Permission)
  | endSession
  deriving DecidableEq, Repr

namespace Record

/-- The record after one call. -/
def apply (r : Record) : Call → Record
  | .decide p g => r.decide p g
  | .setFromSettings p g => r.setFromSettings p g
  | .revoke p => r.revoke p
  | .endSession => r.endSession

/-- The record after a sequence of calls. -/
def run (r : Record) (calls : List Call) : Record := calls.foldl apply r

end Record

end LokoOS.Security
