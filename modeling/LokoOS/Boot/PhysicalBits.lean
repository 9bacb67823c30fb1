import LokoOS.Base.InStep
import LokoOS.Boot.Walk

/-!
# Physical addresses above the hardware's limit

`boot/loko-boot/src/paging.rs:166–253`. A physical address may be any 64-bit number, and the
bits above the hardware's limit end up in the entry. The builder never looks at them: calls
that only differ in these bits run in step and make the same tables.
-/

namespace LokoOS.Boot
open LokoOS.Base

/-- The same call with the physical address reduced to what an entry can name. -/
def MapCall.reduced : MapCall → MapCall
  | page va pa p => page va (pa % 2 ^ 52) p
  | hugePage va pa p => hugePage va (pa % 2 ^ 52) p

namespace PageTables

/-- Two builders on one arena whose words agree below the hardware's limit. -/
structure Alike (t u : PageTables) : Prop where
  pml4_eq : u.pml4 = t.pml4
  base_eq : u.arenaBase = t.arenaBase
  frames_eq : u.arenaFrames = t.arenaFrames
  next_eq : u.nextFrame = t.nextFrame
  root_aligned : t.pml4 % 4096 = 0
  base_aligned : t.arenaBase % 4096 = 0
  words : ∀ a, a % 8 = 0 → t.memory.loadWord a % 2 ^ 52 = u.memory.loadWord a % 2 ^ 52

variable {t u : PageTables} {table index : Nat}

/-- A builder that satisfies the invariant is alike to itself. -/
theorem WF.alike_self (h : t.WF) : Alike t t :=
  ⟨rfl, rfl, rfl, rfl, h.table_aligned (Nat.zero_le 3) table_root, h.base_aligned, fun _ _ ↦ rfl⟩

private theorem Alike.masks (h : Alike t u) (ht : table % 4096 = 0) (index : Nat) :
    readEntry t.memory table index &&& present = readEntry u.memory table index &&& present ∧
      readEntry t.memory table index &&& huge = readEntry u.memory table index &&& huge ∧
      readEntry t.memory table index &&& addressMask =
        readEntry u.memory table index &&& addressMask := by
  have hword := h.words (table + index * 8) (by omega)
  refine ⟨?_, ?_, ?_⟩
  · exact and_congr_mod 52 (by decide) hword
  · exact and_congr_mod 52 (by decide) hword
  · exact and_congr_mod 52 (by decide) hword

private theorem Alike.write (h : Alike t u) (ht : table % 4096 = 0) (index : Nat) {v w : Nat}
    (hvw : v % 2 ^ 52 = w % 2 ^ 52) : Alike (t.poke table index v) (u.poke table index w) where
  pml4_eq := h.pml4_eq
  base_eq := h.base_eq
  frames_eq := h.frames_eq
  next_eq := h.next_eq
  root_aligned := h.root_aligned
  base_aligned := h.base_aligned
  words a ha := by
    simp only [poke]
    by_cases hsame : a = table + index * 8
    · rw [hsame, Memory.loadWord_storeWord_mod, Memory.loadWord_storeWord_mod,
        Nat.mod_mod_of_dvd v (by decide), Nat.mod_mod_of_dvd w (by decide)]
      exact hvw
    · have hapart : a + 8 ≤ table + index * 8 ∨ table + index * 8 + 8 ≤ a := by omega
      rw [Memory.loadWord_storeWord_disjoint hapart, Memory.loadWord_storeWord_disjoint hapart]
      exact h.words a ha

/-! ### The operations -/

private theorem Alike.takeFrame (h : Alike t u) :
    Proc.InStep Alike (· % 4096 = 0) takeFrame takeFrame t u := by
  apply Proc.InStep.get_bind
  rw [h.next_eq, h.frames_eq, h.base_eq]
  split
  · exact .fail h _
  · apply Proc.InStep.lift_bind rfl
    intro offset hoffset
    apply Proc.InStep.lift_bind rfl
    intro address haddress
    apply Proc.InStep.lift_bind rfl
    intro next _
    apply Proc.InStep.bind (Q := fun _ ↦ True)
    · apply Proc.InStep.modify
      exact ⟨h.pml4_eq, h.base_eq, h.frames_eq, rfl, h.root_aligned, h.base_aligned, h.words⟩
    · intro _ t' u' _ h'
      apply Proc.InStep.pure h'
      have hbase := h.base_aligned
      rw [← (addU64_eq_some.mp haddress).2, ← (mulU64_eq_some.mp hoffset).2, pageSize]
      omega

private theorem Alike.descend (h : Alike t u) (ht : table % 4096 = 0) (index : Nat) :
    Proc.InStep Alike (· % 4096 = 0) (descend table index) (PageTables.descend table index)
      t u := by
  obtain ⟨hpresent, hhuge, haddress⟩ := h.masks ht index
  apply Proc.InStep.get_bind
  simp only [hpresent, hhuge, haddress]
  split
  · split
    · exact .fail h _
    · apply Proc.InStep.pure h
      rw [and_addressMask]
      omega
  · apply Proc.InStep.bind h.takeFrame
    intro frame t' u' hframe h'
    apply Proc.InStep.bind (Q := fun _ ↦ True)
    · exact .modify (h'.write ht index rfl)
    · intro _ t'' u'' _ h''
      exact .pure h'' hframe

private theorem Alike.writeLeaf (h : Alike t u) (ht : table % 4096 = 0) (index : Nat) {v w : Nat}
    (hvw : v % 2 ^ 52 = w % 2 ^ 52) :
    Proc.InStep Alike (fun _ ↦ True) (writeLeaf table index v) (PageTables.writeLeaf table index w)
      t u := by
  apply Proc.InStep.get_bind
  simp only [(h.masks ht index).1]
  split
  · exact .fail h _
  · exact .modify (h.write ht index hvw)

/-- A call and its reduced form run in step. -/
theorem Alike.call (h : Alike t u) (call : MapCall) :
    Proc.InStep Alike (fun _ ↦ True) call.run call.reduced.run t u := by
  cases call with
  | page va pa p =>
    have hreduced : pa % pageSize = pa % 2 ^ 52 % pageSize :=
      (Nat.mod_mod_of_dvd pa (by decide)).symm
    simp only [MapCall.run, MapCall.reduced, mapPage, ← hreduced]
    split
    · exact .fail h _
    · apply Proc.InStep.get_bind
      rw [h.pml4_eq]
      apply Proc.InStep.bind (h.descend h.root_aligned _)
      intro pdpt t₁ u₁ hpdpt h₁
      apply Proc.InStep.bind (h₁.descend hpdpt _)
      intro pd t₂ u₂ hpd h₂
      apply Proc.InStep.bind (h₂.descend hpd _)
      intro pt t₃ u₃ hpt h₃
      apply h₃.writeLeaf hpt
      exact or_congr_mod 52 _ (Nat.mod_mod pa _).symm
  | hugePage va pa p =>
    have hreduced : pa % hugePageSize = pa % 2 ^ 52 % hugePageSize :=
      (Nat.mod_mod_of_dvd pa (by decide)).symm
    simp only [MapCall.run, MapCall.reduced, mapHugePage, ← hreduced]
    split
    · exact .fail h _
    · apply Proc.InStep.get_bind
      rw [h.pml4_eq]
      apply Proc.InStep.bind (h.descend h.root_aligned _)
      intro pdpt t₁ u₁ hpdpt h₁
      apply Proc.InStep.bind (h₁.descend hpdpt _)
      intro pd t₂ u₂ hpd h₂
      apply h₂.writeLeaf hpd
      exact or_congr_mod 52 _ (or_congr_mod 52 _ (Nat.mod_mod pa _).symm)

/-! ### The tables -/

private theorem Alike.link_eq (h : Alike t u) (ht : table % 4096 = 0) (index : Nat) :
    linkOf (readEntry t.memory table index) = linkOf (readEntry u.memory table index) := by
  obtain ⟨hpresent, hhuge, haddress⟩ := h.masks ht index
  unfold linkOf isPresent isHuge
  rw [hpresent, hhuge, haddress]

private theorem linkOf_aligned {entry f : Nat} (h : linkOf entry = some f) : f % 4096 = 0 := by
  unfold linkOf at h
  split at h
  · cases h
    rw [and_addressMask]
    omega
  · cases h

private theorem table_step (t : PageTables) (ℓ n : Nat) : t.tree.table (ℓ + 1) n =
    (t.tree.table ℓ (n / 512)).bind fun f ↦ linkOf (readEntry t.memory f (n % 512)) := by
  change ((t.tree.table ℓ (n / 512)).map _).bind _ = _
  rw [Option.bind_map]
  rfl

/-- Alike builders have the same tables, which are page-aligned. -/
theorem Alike.table_eq (h : Alike t u) (ℓ n : Nat) :
    u.tree.table ℓ n = t.tree.table ℓ n ∧ ∀ f, t.tree.table ℓ n = some f → f % 4096 = 0 := by
  induction ℓ generalizing n with
  | zero =>
    simp only [Radix.table]
    split
    · refine ⟨congrArg some h.pml4_eq, ?_⟩
      intro f hf
      cases hf
      exact h.root_aligned
    · refine ⟨rfl, ?_⟩
      intro f hf
      cases hf
  | succ ℓ ih =>
    obtain ⟨heq, haligned⟩ := ih (n / 512)
    rw [table_step, table_step, heq]
    cases hf : t.tree.table ℓ (n / 512) with
    | none =>
      rw [Option.bind_none, Option.bind_none]
      refine ⟨rfl, ?_⟩
      intro f hf
      cases hf
    | some g =>
      rw [Option.bind_some, Option.bind_some]
      refine ⟨(h.link_eq (haligned g hf) _).symm, ?_⟩
      intro f hlink
      exact linkOf_aligned hlink

end PageTables
end LokoOS.Boot
