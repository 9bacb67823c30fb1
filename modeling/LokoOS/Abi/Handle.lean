import LokoOS.Base.Growth
import Mathlib.Data.Finset.Lattice.Basic
import Mathlib.Data.Fintype.Basic

/-!
# Handles and their rights

Models `sdk/loko-abi/src/handle.rs:46–192`. A handle carries a pattern of 32 flags, and new
handles are derived from it. The flag type is generated by the crate `bitflags`, whose
operations are parameters here. Authority only flows downhill: a derived handle conveys no
more than any handle it descends from.
-/

namespace LokoOS.Abi
open LokoOS.Base

/-- What a handle refers to; `handle.rs:51–72`. -/
inductive HandleType where
  | directory
  | file
  | process
  | thread
  | virtualMemory
  | channel
  | timer
  | interrupt
  | device
  | grant
  deriving DecidableEq, Repr

/-- The rights of a handle, any pattern of 32 flags; `handle.rs:82`. -/
structure HandleRights where
  bits : BitVec 32
  deriving DecidableEq, Repr

/-! ### The flags -/

namespace Right

/-- Read the contents. -/
def read : HandleRights := ⟨1#32 <<< 0⟩

/-- Modify the contents. -/
def write : HandleRights := ⟨1#32 <<< 1⟩

/-- Execute, or traverse a directory. -/
def execute : HandleRights := ⟨1#32 <<< 2⟩

/-- Read the metadata. -/
def inspect : HandleRights := ⟨1#32 <<< 3⟩

/-- Change the metadata. -/
def administer : HandleRights := ⟨1#32 <<< 4⟩

/-- Create objects inside this one. -/
def create : HandleRights := ⟨1#32 <<< 5⟩

/-- Remove objects from inside this one. -/
def delete : HandleRights := ⟨1#32 <<< 6⟩

/-- Subscribe to changes. -/
def watch : HandleRights := ⟨1#32 <<< 7⟩

/-- Pass the handle to another process. -/
def transfer : HandleRights := ⟨1#32 <<< 8⟩

/-- Derive handles from this one. -/
def derive : HandleRights := ⟨1#32 <<< 9⟩

/-- A view for reading; `handle.rs:108`. -/
def ro : HandleRights := ⟨read.bits ||| inspect.bits⟩

/-- A view for reading and writing; `handle.rs:110`. -/
def rw : HandleRights := ⟨ro.bits ||| write.bits⟩

/-- Full authority over a directory; `handle.rs:112–117`. -/
def dirFull : HandleRights :=
  ⟨rw.bits ||| execute.bits ||| create.bits ||| delete.bits ||| watch.bits ||| derive.bits⟩

end Right

/-- The operations that `bitflags` generates for the flag type. -/
structure Bitflags where
  contains : HandleRights → HandleRights → Bool
  union : HandleRights → HandleRights → HandleRights
  intersects : HandleRights → HandleRights → Bool

namespace HandleRights

/-- The flags that are set. -/
def flags (r : HandleRights) : Finset (Fin 32) :=
  Finset.univ.filter fun i ↦ r.bits.getLsbD i = true

/-- A flag is set where its bit is. -/
theorem mem_flags {r : HandleRights} {i : Fin 32} : i ∈ r.flags ↔ r.bits.getLsbD i = true := by
  rw [flags, Finset.mem_filter]
  exact and_iff_right (Finset.mem_univ i)

/-- Narrow rights to the requested ones; `handle.rs:128–136`. -/
def derive (ops : Bitflags) (r requested : HandleRights) : Option HandleRights :=
  if !ops.contains r Right.derive then none
  else if !ops.contains r requested then none
  else some requested

/-- Whether rights permit what needs the required ones; `handle.rs:140–142`. -/
def allows (ops : Bitflags) (r required : HandleRights) : Bool := ops.contains r required

/-- Whether rights can modify anything; `handle.rs:148–155`. -/
def isMutating (ops : Bitflags) (r : HandleRights) : Bool :=
  ops.intersects r
    (ops.union (ops.union (ops.union Right.write Right.administer) Right.create) Right.delete)

end HandleRights

/-- The rights that a type of handle may carry; `handle.rs:164–192`. -/
def legalRightsFor (ops : Bitflags) (kind : HandleType) : HandleRights :=
  let base := ops.union (ops.union Right.inspect Right.transfer) Right.derive
  match kind with
  | .directory => ops.union base Right.dirFull
  | .file =>
    ops.union (ops.union (ops.union (ops.union (ops.union base Right.read) Right.write)
      Right.execute) Right.watch) Right.administer
  | .process | .thread =>
    ops.union (ops.union (ops.union base Right.read) Right.write) Right.administer
  | .virtualMemory => ops.union (ops.union (ops.union base Right.read) Right.write) Right.execute
  | .channel => ops.union (ops.union base Right.read) Right.write
  | .timer => ops.union (ops.union base Right.read) Right.watch
  | .interrupt => ops.union (ops.union base Right.read) Right.watch
  | .device =>
    ops.union (ops.union (ops.union base Right.read) Right.write) Right.administer
  | .grant => ops.union Right.inspect Right.transfer

/-- What the documentation of `bitflags` says of the operations: they are those of sets of
flags. -/
structure Bitflags.Documented (ops : Bitflags) : Prop where
  contains_iff : ∀ r r' : HandleRights, ops.contains r r' = true ↔ r'.flags ⊆ r.flags
  flags_union : ∀ r r' : HandleRights, (ops.union r r').flags = r.flags ∪ r'.flags
  intersects_iff : ∀ r r' : HandleRights,
    ops.intersects r r' = true ↔ (r.flags ∩ r'.flags).Nonempty

/-! ### One derivation -/

namespace HandleRights

variable {ops : Bitflags} {r r' required : HandleRights} {kind : HandleType}

/-- A derivation returns what was requested, of flags that are there, from a handle that may be
derived from. -/
theorem derive_eq_some (h : ops.Documented) {requested : HandleRights} :
    r.derive ops requested = some r' ↔
      Right.derive.flags ⊆ r.flags ∧ requested.flags ⊆ r.flags ∧ r' = requested := by
  rw [← h.contains_iff, ← h.contains_iff]
  unfold derive
  cases ops.contains r Right.derive with
  | false => simp
  | true =>
    cases ops.contains r requested with
    | false => simp
    | true => simp [eq_comm]

/-- One handle can be derived from another. -/
theorem makes_iff (h : ops.Documented) :
    Grown.Makes (derive ops) r r' ↔ Right.derive.flags ⊆ r.flags ∧ r'.flags ⊆ r.flags := by
  constructor
  · rintro ⟨requested, hr⟩
    obtain ⟨hderive, hsub, rfl⟩ := (derive_eq_some h).mp hr
    exact ⟨hderive, hsub⟩
  · rintro ⟨hderive, hsub⟩
    exact ⟨r', (derive_eq_some h).mpr ⟨hderive, hsub, rfl⟩⟩

/-- What can be derived in some steps can be derived in one. -/
theorem transGen_makes (h : ops.Documented) :
    Relation.TransGen (Grown.Makes (derive ops)) r r' ↔ Grown.Makes (derive ops) r r' := by
  have htrans : IsTrans HandleRights (Grown.Makes (derive ops)) := by
    constructor
    intro r₁ r₂ r₃ h₁ h₂
    rw [makes_iff h] at *
    exact ⟨h₁.1, h₂.2.trans h₁.2⟩
  rw [Relation.transGen_eq_self]

/-- Narrower rights allow no more. -/
theorem allows_mono (h : ops.Documented) (hsub : r'.flags ⊆ r.flags)
    (ha : r'.allows ops required = true) : r.allows ops required = true := by
  unfold allows at *
  rw [h.contains_iff] at *
  exact ha.trans hsub

/-- Narrower rights modify no more. -/
theorem isMutating_mono (h : ops.Documented) (hsub : r'.flags ⊆ r.flags)
    (hm : r'.isMutating ops = true) : r.isMutating ops = true := by
  unfold isMutating at *
  rw [h.intersects_iff] at *
  exact hm.mono (Finset.inter_subset_inter_right hsub)

/-- A grant with legal rights may not be derived from. -/
theorem grant_not_derivable (h : ops.Documented)
    (hlegal : r.flags ⊆ (legalRightsFor ops .grant).flags) :
    ¬ Right.derive.flags ⊆ r.flags := by
  intro hderive
  have hsub := hderive.trans hlegal
  unfold legalRightsFor at hsub
  rw [h.flags_union] at hsub
  exact absurd hsub (by decide)

end HandleRights
end LokoOS.Abi
