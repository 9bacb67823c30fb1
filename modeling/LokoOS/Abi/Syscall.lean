import LokoOS.Abi.Derivation
import LokoOS.Abi.RawReturn
import Mathlib.Data.List.Pairwise

/-!
# System calls

Models `sdk/loko-abi/src/syscall.rs:14–178` and `kernel/loko-kernel/src/syscall.rs:22–77`. A
call names the rights that the handle in its first argument must carry. What can be called
through derived handles follows from how rights are derived.
-/

namespace LokoOS.Abi
open LokoOS.Base

/-- A system call; `syscall.rs:18–95`. -/
inductive SyscallNo where
  | threadExit
  | threadYield
  | threadSleep
  | threadCreate
  | handleClose
  | handleDerive
  | handleQuery
  | fsOpenAt
  | fsRead
  | fsWrite
  | fsStat
  | fsReadDir
  | fsCreateDir
  | fsUnlink
  | fsRename
  | fsSync
  | vmMap
  | vmUnmap
  | vmProtect
  | channelCreate
  | channelSend
  | channelRecv
  | clockMonotonic
  | waitMany
  | logWrite
  deriving DecidableEq, Repr

namespace SyscallNo

/-- Every call, in ascending order; `syscall.rs:99–125`. -/
def all : List SyscallNo :=
  [threadExit, threadYield, threadSleep, threadCreate, handleClose, handleDerive, handleQuery,
    fsOpenAt, fsRead, fsWrite, fsStat, fsReadDir, fsCreateDir, fsUnlink, fsRename, fsSync, vmMap,
    vmUnmap, vmProtect, channelCreate, channelSend, channelRecv, clockMonotonic, waitMany, logWrite]

/-- The rights that the handle in argument 0 must carry; `syscall.rs:142–164`. -/
def requiredRights : SyscallNo → Option HandleRights
  | handleDerive => some Right.derive
  | handleQuery => some Right.inspect
  | fsOpenAt => some Right.execute
  | fsRead => some Right.read
  | fsWrite => some Right.write
  | fsStat => some Right.inspect
  | fsReadDir => some Right.read
  | fsCreateDir => some Right.create
  | fsUnlink => some Right.delete
  | fsRename => some Right.delete
  | fsSync => some Right.write
  | vmUnmap | vmProtect => some Right.write
  | channelSend => some Right.write
  | channelRecv => some Right.read
  | _ => none

/-- Whether the call can change persistent state; `syscall.rs:171–178`. -/
def isMutating : SyscallNo → Bool
  | fsWrite | fsCreateDir | fsUnlink | fsRename | fsSync => true
  | _ => false

private theorem mem_all (s : SyscallNo) : s ∈ all := by
  cases s <;> decide

end SyscallNo

/-! ### Dispatch -/

/-- The six argument registers; `syscall.rs:26–40`. -/
structure Args where
  a0 : Nat
  a1 : Nat
  a2 : Nat
  a3 : Nat
  a4 : Nat
  a5 : Nat

/-- `LogWrite`, not implemented; `syscall.rs:67`. -/
def logWrite (_args : Args) : Except Error Nat := .error .notImplemented

/-- `ClockMonotonic`, not implemented; `syscall.rs:75`. -/
def clockMonotonic : Except Error Nat := .error .notImplemented

/-- The rights permit a call that needs some. -/
def HandleRights.Permits (ops : Bitflags) (r : HandleRights) (call : SyscallNo) : Prop :=
  ∃ required, call.requiredRights = some required ∧ r.allows ops required = true

variable {ops : Bitflags} {rights r : HandleRights} {kind : HandleType} {call : SyscallNo}

private theorem isMutating_iff (h : ops.Documented) : r.isMutating ops = true ↔
    (r.flags ∩ (Right.write.flags ∪ Right.administer.flags ∪ Right.create.flags ∪
      Right.delete.flags)).Nonempty := by
  unfold HandleRights.isMutating
  rw [h.intersects_iff, h.flags_union, h.flags_union, h.flags_union]

/-- A mutating call needs a right that is mutating by itself. -/
theorem requiredRights_of_isMutating (h : ops.Documented) (hc : call.isMutating = true) :
    ∃ required, call.requiredRights = some required ∧ required.isMutating ops = true := by
  simp only [isMutating_iff h]
  cases call <;> first | exact absurd hc (by decide) | exact ⟨_, rfl, by decide⟩

private theorem isMutating_of_permits (h : ops.Documented) (hc : call.isMutating = true)
    (hp : r.Permits ops call) : r.isMutating ops = true := by
  obtain ⟨required, hrequired, hallows⟩ := hp
  obtain ⟨required', hrequired', hmutating⟩ := requiredRights_of_isMutating h hc
  rw [hrequired] at hrequired'
  cases hrequired'
  exact HandleRights.isMutating_mono h ((h.contains_iff _ _).mp hallows) hmutating

/-- The types whose legal rights modify nothing. -/
theorem legalRightsFor_isMutating (h : ops.Documented) :
    (legalRightsFor ops kind).isMutating ops = true ↔
      kind ≠ .timer ∧ kind ≠ .interrupt ∧ kind ≠ .grant := by
  rw [isMutating_iff h]
  cases kind <;>
    simp only [legalRightsFor, h.flags_union] <;> decide

/-- Calls flow downhill with authority. Through handles derived from one, to any depth and in any
order, no call is permitted that an ancestor does not permit; from rights that modify nothing,
or from those that are legal for a timer, an interrupt or a grant, no handle is ever derived that
permits a mutating call; and every mutating call needs some right. -/
theorem calls_flow_downhill (h : ops.Documented) (rights : HandleRights)
    (calls : List (Nat × HandleRights)) :
    (∀ (i j : Nat) (g g' : Grown HandleRights) (call : SyscallNo),
      Relation.TransGen (Grown.Child (handles ops rights calls)) i j →
      (handles ops rights calls)[i]? = some g → (handles ops rights calls)[j]? = some g' →
      g'.value.Permits ops call → g.value.Permits ops call) ∧
    (rights.isMutating ops = false ∨
        (∃ kind, rights.flags ⊆ (legalRightsFor ops kind).flags ∧
          (kind = .timer ∨ kind = .interrupt ∨ kind = .grant)) →
      ∀ g ∈ handles ops rights calls, ∀ call : SyscallNo, call.isMutating = true →
        call.requiredRights ≠ none ∧ ¬ g.value.Permits ops call) := by
  have ht : Grown.Lineage (HandleRights.derive ops) rights (handles ops rights calls) :=
    Grown.lineage_run
  constructor
  · intro i j g g' call hij hi hj hp
    obtain ⟨required, hrequired, hallows⟩ := hp
    have hattenuated := (attenuated_of_lineage h ht).permits_of_descendant h hij hi hj
    exact ⟨required, hrequired, hattenuated.1 required hallows⟩
  · intro hroot g hg call hc
    have hrights : rights.isMutating ops = false := by
      rcases hroot with hroot | ⟨kind, hlegal, hkind⟩
      · exact hroot
      · by_contra hm
        have := (legalRightsFor_isMutating h).mp
          (HandleRights.isMutating_mono h hlegal (by simpa using hm))
        simp_all
    have hvalue : g.value.isMutating ops = false := by
      apply ht.invariant (fun r ↦ r.isMutating ops = false) hrights _ hg
      intro r r' hr hmakes
      by_contra hm
      have hup := HandleRights.isMutating_mono h ((HandleRights.makes_iff h).mp hmakes).2
        (by simpa using hm)
      rw [hr] at hup
      cases hup
    constructor
    · obtain ⟨required, hrequired, -⟩ := requiredRights_of_isMutating h hc
      rw [hrequired]
      exact Option.some_ne_none _
    · intro hp
      have hup := isMutating_of_permits h hc hp
      rw [hvalue] at hup
      cases hup

/-- A view for reading and two handles derived from it, one from the other: none of the three
permits a mutating call. -/
theorem calls_flow_downhill_read_only :
    (handles .bitwise ⟨Right.ro.bits ||| Right.derive.bits⟩
      [(0, ⟨Right.ro.bits ||| Right.derive.bits⟩), (1, Right.read)]).length = 3 ∧
    ∀ g ∈ handles .bitwise ⟨Right.ro.bits ||| Right.derive.bits⟩
        [(0, ⟨Right.ro.bits ||| Right.derive.bits⟩), (1, Right.read)],
      ∀ call : SyscallNo, call.isMutating = true →
        call.requiredRights ≠ none ∧ ¬ g.value.Permits .bitwise call := by
  refine ⟨by rfl, ?_⟩
  apply (calls_flow_downhill Bitflags.bitwise_documented _ _).2
  exact .inl (by decide)

end LokoOS.Abi
