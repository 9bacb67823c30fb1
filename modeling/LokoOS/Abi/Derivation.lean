import LokoOS.Abi.Handle

/-!
# Trees of derived handles

What holds of all handles that calls of `HandleRights::derive` make from one, in any order and
to any depth; `sdk/loko-abi/src/handle.rs:121–192`. A call that is refused makes no handle.
-/

namespace LokoOS.Abi
open LokoOS.Base

/-- The handles after some calls, each on the handle at a place with the rights requested. -/
def handles (ops : Bitflags) (rights : HandleRights) (calls : List (Nat × HandleRights)) :
    List (Grown HandleRights) := Grown.run (HandleRights.derive ops) rights calls

/-- No handle conveys more than one it descends from, and none descends from a handle that may
not be derived from. -/
structure Attenuated (ops : Bitflags) (t : List (Grown HandleRights)) : Prop where
  narrows : ∀ (i j : Nat) (g g' : Grown HandleRights), Relation.TransGen (Grown.Child t) i j →
    t[i]? = some g → t[j]? = some g' → g'.value.flags ⊆ g.value.flags
  childless : ∀ (i : Nat) (g : Grown HandleRights), t[i]? = some g →
    ops.contains g.value Right.derive = false → ∀ j, ¬ Grown.Child t i j

variable {ops : Bitflags} {rights : HandleRights} {calls : List (Nat × HandleRights)}
  {t : List (Grown HandleRights)} {kind : HandleType}

/-- Handles with a lineage are attenuated. -/
theorem attenuated_of_lineage (h : ops.Documented)
    (ht : Grown.Lineage (HandleRights.derive ops) rights t) : Attenuated ops t where
  narrows i j g g' hij hi hj := by
    have hmakes := (HandleRights.transGen_makes h).mp (ht.descends hij hi hj)
    exact ((HandleRights.makes_iff h).mp hmakes).2
  childless i g hi hno j := by
    apply ht.childless hi
    intro r hmakes
    have hderive := ((HandleRights.makes_iff h).mp hmakes).1
    rw [← h.contains_iff, hno] at hderive
    cases hderive

/-- What a handle permits, and whether it can modify anything, each handle that it descends
from permits as well. -/
theorem Attenuated.permits_of_descendant (ha : Attenuated ops t) (h : ops.Documented) {i j : Nat}
    {g g' : Grown HandleRights} (hij : Relation.TransGen (Grown.Child t) i j)
    (hi : t[i]? = some g) (hj : t[j]? = some g') :
    (∀ required, g'.value.allows ops required = true → g.value.allows ops required = true) ∧
      (g'.value.isMutating ops = true → g.value.isMutating ops = true) := by
  have hsub := ha.narrows i j g g' hij hi hj
  constructor
  · exact fun required ↦ HandleRights.allows_mono h hsub
  · exact HandleRights.isMutating_mono h hsub

private theorem legal_of_lineage (h : ops.Documented)
    (ht : Grown.Lineage (HandleRights.derive ops) rights t)
    (hlegal : rights.flags ⊆ (legalRightsFor ops kind).flags) {g : Grown HandleRights}
    (hg : g ∈ t) : g.value.flags ⊆ (legalRightsFor ops kind).flags := by
  apply ht.invariant (fun r ↦ r.flags ⊆ (legalRightsFor ops kind).flags) hlegal _ hg
  intro r r' hr hmakes
  exact ((HandleRights.makes_iff h).mp hmakes).2.trans hr

/-- Authority only flows downhill. Whatever is derived from a handle, and from what was derived,
no handle conveys more than one it descends from, and none descends from a handle without the
right to derive. What a chain of derivations reaches one derivation reaches. Legal rights stay
legal, so a grant has no children. -/
theorem authority_flows_downhill (h : ops.Documented) (kind : HandleType)
    (rights : HandleRights) (calls : List (Nat × HandleRights)) :
    Attenuated ops (handles ops rights calls) ∧
    (∀ r, Relation.TransGen (Grown.Makes (HandleRights.derive ops)) rights r →
      rights.derive ops r = some r) ∧
    (rights.flags ⊆ (legalRightsFor ops kind).flags →
      (∀ g ∈ handles ops rights calls, g.value.flags ⊆ (legalRightsFor ops kind).flags) ∧
        (kind = .grant → ∀ i j, ¬ Grown.Child (handles ops rights calls) i j)) := by
  have ht : Grown.Lineage (HandleRights.derive ops) rights (handles ops rights calls) :=
    Grown.lineage_run
  refine ⟨attenuated_of_lineage h ht, ?_, fun hlegal ↦ ⟨?_, ?_⟩⟩
  · intro r hchain
    rw [HandleRights.transGen_makes h, HandleRights.makes_iff h] at hchain
    exact (HandleRights.derive_eq_some h).mpr ⟨hchain.1, hchain.2, rfl⟩
  · intro g hg
    exact legal_of_lineage h ht hlegal hg
  · rintro rfl i j hchild
    -- the parent is there, has legal rights, and was derived from
    obtain ⟨g', hg', hp⟩ := hchild
    obtain ⟨-, g, hg, hmakes⟩ := ht.made j g' i hg' hp
    have hparent := legal_of_lineage h ht hlegal (List.mem_of_getElem? hg)
    exact HandleRights.grant_not_derivable h hparent ((HandleRights.makes_iff h).mp hmakes).1

/-- The operations on the bits themselves. -/
def Bitflags.bitwise : Bitflags where
  contains r r' := (r.bits &&& r'.bits) == r'.bits
  union r r' := ⟨r.bits ||| r'.bits⟩
  intersects r r' := (r.bits &&& r'.bits) != 0#32

/-- The operations on the bits are those of sets of flags. -/
theorem Bitflags.bitwise_documented : Bitflags.bitwise.Documented where
  contains_iff r r' := by
    rw [show Bitflags.bitwise.contains r r' = ((r.bits &&& r'.bits) == r'.bits) from rfl,
      beq_iff_eq]
    constructor
    · intro he i hi
      rw [HandleRights.mem_flags, ← he, BitVec.getLsbD_and, Bool.and_eq_true] at hi
      exact HandleRights.mem_flags.mpr hi.1
    · intro hsub
      apply BitVec.eq_of_getLsbD_eq
      intro i hi
      rw [BitVec.getLsbD_and]
      cases hb : r'.bits.getLsbD i with
      | false => rw [Bool.and_false]
      | true =>
        have hmem := hsub (HandleRights.mem_flags.mpr (show r'.bits.getLsbD
          (⟨i, hi⟩ : Fin 32) = true from hb))
        rw [Bool.and_true]
        exact HandleRights.mem_flags.mp hmem
  flags_union r r' := by
    ext i
    rw [Finset.mem_union, HandleRights.mem_flags, HandleRights.mem_flags, HandleRights.mem_flags,
      ← Bool.or_eq_true, ← BitVec.getLsbD_or]
    rfl
  intersects_iff r r' := by
    rw [show Bitflags.bitwise.intersects r r' = ((r.bits &&& r'.bits) != 0#32) from rfl,
      bne_iff_ne, ne_eq, ← not_iff_not, not_not, Finset.not_nonempty_iff_eq_empty]
    constructor
    · intro hz
      apply Finset.eq_empty_of_forall_notMem
      intro i hi
      rw [Finset.mem_inter, HandleRights.mem_flags, HandleRights.mem_flags, ← Bool.and_eq_true,
        ← BitVec.getLsbD_and, hz, BitVec.getLsbD_zero] at hi
      cases hi
    · intro hempty
      apply BitVec.eq_of_getLsbD_eq
      intro i hi
      have hnot : (⟨i, hi⟩ : Fin 32) ∉ r.flags ∩ r'.flags := by
        rw [hempty]
        exact Finset.notMem_empty _
      rw [Finset.mem_inter, HandleRights.mem_flags, HandleRights.mem_flags, ← Bool.and_eq_true,
        ← BitVec.getLsbD_and, Bool.not_eq_true] at hnot
      rw [BitVec.getLsbD_zero]
      exact hnot

/-- A directory, a view of it that may be derived from, and what is derived from that. -/
theorem authority_flows_downhill_directory :
    Attenuated .bitwise (handles .bitwise Right.dirFull
      [(0, ⟨Right.rw.bits ||| Right.derive.bits⟩), (1, Right.ro), (2, Right.read)]) :=
  (authority_flows_downhill Bitflags.bitwise_documented .directory Right.dirFull _).1

end LokoOS.Abi
