import LokoOS.Filesystem.Path

/-!
# The access policy

Models `filesystem/lkofs-core/src/policy.rs`: the subjects and operations, the protection in
force at a path, the storage bucket it counts against, and the ordered list of rules whose
first match is the verdict.
-/

namespace LokoOS.Filesystem

open LokoOS.Base

/-- What kind of principal is asking; `policy.rs:26–53`. -/
inductive SubjectClass
  | Kernel
  | SystemUpdater
  | SystemService
  | Driver
  | UserShell
  | UserApp
  | SandboxedApp
  | AiAgent
  | CompatibilityRuntime
  deriving DecidableEq, Repr

/-- What the subject wants to do; `policy.rs:58–75`. -/
inductive Operation
  | Inspect
  | Read
  | Execute
  | Write
  | Create
  | Delete
  | Rename
  | ChangePermissions
  deriving DecidableEq, Repr

/-- Operations that change persistent state; `policy.rs:80–89`. -/
def Operation.isMutating : Operation → Bool
  | Write | Create | Delete | Rename | ChangePermissions => true
  | _ => false

/-- Operations that can destroy data; `policy.rs:96–101`. -/
def Operation.isDestructive : Operation → Bool
  | Delete | Write | Rename => true
  | _ => false

/-- Why access was refused; `policy.rs:107–118`. -/
inductive DenyReason
  | ProtectedLocation
  | OutsideSandbox
  | CrossUser
  | NoGrant
  | RoleForbidden
  deriving DecidableEq, Repr

/-- What a prompt must tell the user; `policy.rs:150–158`. -/
inductive Confirmation
  | AiInitiatedChange
  | ForeignApplicationWrite
  | PermissionChange
  deriving DecidableEq, Repr

/-- The verdict; `policy.rs:162–172`. -/
inductive Decision
  | Allow
  | Confirm (prompt : Confirmation)
  | Deny (reason : DenyReason)
  deriving DecidableEq, Repr

/-- Who is asking, and what they have been granted; `policy.rs:196–216`. -/
structure Subject where
  subjectClass : SubjectClass
  appId : Option Text
  user : Option Text
  grants : List LkoPathRef
  updateTransactionOpen : Bool

namespace Subject

/-- A subject with no grants; `policy.rs:221–229`. -/
def new (subjectClass : SubjectClass) : Subject := ⟨subjectClass, none, none, [], false⟩

/-- Whether any grant covers a path; `policy.rs:233–235`. -/
def hasGrantCovering (subject : Subject) (path : LkoPathRef) : Bool :=
  subject.grants.any fun g ↦ path.isWithin g

end Subject

/-- Whether an optional component is a given name, case ignored. -/
def isNamed (component : Option Text) (name : Text) : Bool :=
  component.any fun c ↦ c.eqIgnoreAsciiCase name

/-- The protection in force at a path; `policy.rs:244–268`. -/
def effectiveProtection (path : LkoPathRef) : Protection :=
  match path.root with
  | none => .SystemImmutable
  | some root =>
    let first := path.tail.head?
    if root = .Config ∧ isNamed first "Security".toList then .SystemImmutable
    else if root = .Services ∧ isNamed first "Security".toList then .SystemImmutable
    else if root = .Ai ∧ isNamed first "Memory".toList then .UserOwned
    else root.protection

/-- The storage bucket a path counts against; `policy.rs:276–291`. -/
def storageCategoryOf (path : LkoPathRef) : StorageCategory :=
  match path.root with
  | none => .BaseSystem
  | some root =>
    let first := path.tail.head?
    if root = .Runtime then
      if isNamed first "Windows".toList ∨ isNamed first "Mac".toList then .Compatibility
      else .BaseSystem
    else root.storageCategory

/-- Rule 3, the verdict for drivers; `policy.rs:330–339`. -/
def driverRule (path : LkoPathRef) (operation : Operation) : Decision :=
  match path.root, operation.isMutating with
  | some .Drivers, false => .Allow
  | some .Logs, _ => .Allow
  | some .Temp, _ => .Allow
  | _, _ => .Deny .RoleForbidden

/-- Rule 4, whether a path is in a home the subject does not act for; `policy.rs:343–354`. -/
def crossesUsers (subject : Subject) (path : LkoPathRef) : Bool :=
  if path.root = some .Users then
    match path.tail.head? with
    | some owner =>
      let actingForOwner := subject.user.any fun u ↦ u.eqIgnoreAsciiCase owner
      let systemRole :=
        subject.subjectClass = .SystemService ∨ subject.subjectClass = .SystemUpdater
      !actingForOwner && !decide systemRole
    | none => false
  else false

/-- Rule 6, whether a path is in the container of a sandboxed application;
`policy.rs:371–379`. -/
def inOwnAppdata (subject : Subject) (path : LkoPathRef) : Bool :=
  match path.root, subject.user, subject.appId with
  | some .Users, some u, some app =>
    isNamed path.tail[0]? u && isNamed path.tail[1]? "AppData".toList && isNamed path.tail[2]? app
  | _, _, _ => false

/-- Rule 6, whether a path is in the installation directory of a sandboxed application;
`policy.rs:380–385`. -/
def inOwnInstallDir (subject : Subject) (path : LkoPathRef) : Bool :=
  match path.root, subject.appId with
  | some .Apps, some app => isNamed path.tail.head? app
  | _, _ => false

/-- Rule 6, the verdict for sandboxed applications; `policy.rs:365–396`. -/
def sandboxRule (subject : Subject) (path : LkoPathRef) (operation : Operation) : Decision :=
  if inOwnAppdata subject path ∨ inOwnInstallDir subject path ∧ ¬ operation.isMutating then .Allow
  else .Deny .OutsideSandbox

/-- Whether a subject may perform an operation on a path: the first rule that applies wins;
`policy.rs:295–441`. -/
def evaluate (subject : Subject) (path : LkoPathRef) (operation : Operation) : Decision :=
  -- Rule 0: the kernel.
  if subject.subjectClass = .Kernel then .Allow
  -- Rule 1: protected locations.
  else if effectiveProtection path = .SystemImmutable ∧ operation.isMutating then
    if subject.subjectClass = .SystemUpdater ∧ subject.updateTransactionOpen then .Allow
    else .Deny .ProtectedLocation
  -- Rule 2: compatibility runtimes in system locations.
  else if subject.subjectClass = .CompatibilityRuntime ∧
      path.root ∈ [some .System, some .Drivers, some .Boot, some .Recovery, some .Services] then
    .Deny .RoleForbidden
  -- Rule 3: drivers.
  else if subject.subjectClass = .Driver then driverRule path operation
  -- Rule 4: homes of other users.
  else if crossesUsers subject path then .Deny .CrossUser
  -- Rule 5: scratch space.
  else if path.root ∈ [some .Temp, some .Cache] then .Allow
  -- Rule 6: sandboxed applications.
  else if subject.subjectClass = .SandboxedApp then sandboxRule subject path operation
  -- Rule 7: system-managed locations.
  else if effectiveProtection path = .SystemManaged ∧ operation.isMutating ∧
      subject.subjectClass ∉ [.SystemService, .SystemUpdater, .UserShell] then .Deny .NoGrant
  -- Rule 8: user-owned locations.
  else if effectiveProtection path = .UserOwned ∧ subject.subjectClass ≠ .UserShell ∧
      ¬ subject.hasGrantCovering path then .Deny .NoGrant
  -- Rule 9: permissions.
  else if operation = .ChangePermissions then .Confirm .PermissionChange
  -- Rule 10: destruction by the AI.
  else if subject.subjectClass = .AiAgent ∧ operation.isDestructive then
    .Confirm .AiInitiatedChange
  -- Rule 11: writes by foreign applications.
  else if subject.subjectClass = .CompatibilityRuntime ∧ operation.isMutating then
    .Confirm .ForeignApplicationWrite
  else .Allow

end LokoOS.Filesystem
