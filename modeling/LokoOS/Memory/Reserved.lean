import LokoOS.Memory.Calls
import Mathlib.Data.List.Induction

/-!
# Reserved frames

How long a reservation of `kernel/loko-memory/src/lib.rs:193–217` lasts. The bitmap has one
bit for a frame that is reserved and for one that is handed out, so a client can free a frame
it was never given: the reservation lasts exactly until such a call.
-/

namespace LokoOS.Memory
open LokoOS.Base FrameAllocator

/-- A call reserves frame `f`. -/
def Call.Reserves (f : Nat) : Call → Prop
  | .reserve frame => frame.val = f
  | .reserveRange start len => Overlaps start len f
  | _ => False

/-- A call on allocator `a` frees frame `f`: it is named alone, or it lies in a run of managed
and allocated frames. -/
def Call.Frees (a : FrameAllocator) (f : Nat) : Call → Prop
  | .free frame => frame.val = f
  | .freeContiguous frame count =>
    f ∈ runOf frame count ∧ ∀ g ∈ runOf frame count, a.isAllocated g = some (some true)
  | _ => False

/-- Frame `f` is unavailable in an allocator, and no allocation of a transcript returned it. -/
def Withheld (f : Nat) (t : List (Call × Except MemoryError (Option Nat)))
    (a : FrameAllocator) : Prop :=
  a.isAllocated f = some (some true) ∧
    ∀ c s count, (c, .ok (some s)) ∈ t → c.wanted = some count → f ∉ runOf s count

variable {managed free free' : Finset Nat} {c : Call} {f : Nat}
  {answer : Except MemoryError (Option Nat)}

/-! ### One call -/

private theorem Effect.keeps (h : Effect managed free c answer free') (hf : f ∉ free)
    (hrelease : ∀ g, c = .release g → g.val ≠ f) (hfree : ∀ g, c = .free g → g.val ≠ f)
    (hrun : ∀ g count, c = .freeContiguous g count →
      (∀ k ∈ runOf g count, k ∈ managed ∧ k ∉ free) → f ∉ runOf g count) :
    f ∉ free' := by
  cases h with
  | released hm =>
    rw [Finset.mem_insert, not_or]
    exact ⟨(hrelease _ rfl).symm, hf⟩
  | reserved hm => exact fun hmem ↦ hf (Finset.mem_of_mem_erase hmem)
  | rangeReserved => exact fun hmem ↦ hf (Finset.mem_filter.mp hmem).1
  | allocated hc hpos hsub => exact fun hmem ↦ hf (Finset.mem_sdiff.mp hmem).1
  | freed hm hn =>
    rw [Finset.mem_insert, not_or]
    exact ⟨(hfree _ rfl).symm, hf⟩
  | runFreed ht =>
    rw [Finset.mem_union, not_or]
    exact ⟨hf, hrun _ _ rfl ht⟩
  | failed hc => exact hf

private theorem Effect.avoids {s count : Nat} (h : Effect managed free c (.ok (some s)) free')
    (hf : f ∉ free) (hc : c.wanted = some count) : f ∉ runOf s count := by
  cases h with
  | allocated hc' hpos hsub =>
    rw [hc] at hc'
    cases hc'
    exact fun hmem ↦ hf (hsub hmem)

private theorem Effect.reserves (h : Effect managed free c answer free') (hf : f ∈ managed)
    (hc : c.Reserves f) : f ∉ free' := by
  cases h with
  | released hm => cases hc
  | @reserved g hm =>
    change g.val = f at hc
    rw [hc]
    exact Finset.notMem_erase f free
  | rangeReserved => exact fun hmem ↦ (Finset.mem_filter.mp hmem).2 hc
  | allocated hw hpos hsub =>
    cases c with
    | allocate => cases hc
    | allocateContiguous count => cases hc
    | _ => cases hw
  | freed hm hn => cases hc
  | runFreed ht => cases hc
  | failed hn =>
    cases c with
    | reserve g =>
      change g.val = f at hc
      subst hc
      exact absurd hf hn
    | reserveRange start len => exact absurd trivial hn
    | _ => cases hc

variable {a a' : FrameAllocator}

private theorem Effect.frees (ha : a.WF) (h : Effect a.managed a.freeSet c answer free')
    (hf : a.Taken f) (hc : c.Frees a f) : f ∈ free' := by
  cases c with
  | free g =>
    change g.val = f at hc
    cases h with
    | allocated hw => cases hw
    | freed hm hn =>
      rw [hc]
      exact Finset.mem_insert_self f _
    | failed hn =>
      subst hc
      exact absurd hf hn
  | freeContiguous g count =>
    have ht : ∀ k ∈ runOf g count, a.Taken k := fun k hk ↦ ha.isAllocated_taken.mp (hc.2 k hk)
    cases h with
    | allocated hw => cases hw
    | runFreed _ => exact Finset.mem_union_right _ hc.1
    | failed hn => exact absurd ht hn
  | _ => cases hc

private theorem apply_keeps (ha : a.WF) (hf : a.Taken f)
    (hrelease : ∀ g, c = .release g → g.val ≠ f)
    (hc : ¬ c.Frees a f) (happly : c.apply a = some (answer, a')) :
    a'.WF ∧ a'.Taken f ∧
      ∀ s count, answer = .ok (some s) → c.wanted = some count → f ∉ runOf s count := by
  rcases apply_effect ha c with ⟨answer', a₁, happly', hb, heffect, -⟩
  rw [happly] at happly'
  cases happly'
  refine ⟨hb.wf, ⟨?_, ?_⟩, ?_⟩
  · rw [hb.managed_eq]
    exact hf.1
  · apply heffect.keeps hf.2 hrelease
    · rintro g rfl hg
      exact hc hg
    · rintro g count rfl ht hmem
      exact hc ⟨hmem, fun k hk ↦ ha.isAllocated_taken.mpr (ht k hk)⟩
  · rintro s count rfl hw
    exact heffect.avoids hf.2 hw

/-! ### Runs -/

variable {calls : List Call} {t : List (Call × Except MemoryError (Option Nat))}

private theorem run_keeps (ha : a.WF) (hf : a.Taken f)
    (hrelease : ∀ g, .release g ∈ calls → g.val ≠ f)
    (hcalls : ∀ earlier c, earlier ++ [c] <+: calls → ∀ t a', a.run earlier = some (t, a') →
      ¬ c.Frees a' f)
    (hrun : a.run calls = some (t, a')) : a'.WF ∧ a'.Taken f ∧ Withheld f t a' := by
  induction calls using List.reverseRecOn generalizing t a' with
  | nil =>
    cases hrun
    exact ⟨ha, hf, ha.isAllocated_taken.mpr hf, by simp⟩
  | append_singleton calls c ih =>
    rcases ha.run calls with ⟨t₁, a₁, hrun₁, -⟩
    have hbefore := ih (fun g hg ↦ hrelease g (List.mem_append_left _ hg))
      (fun earlier d hd ↦ hcalls earlier d (hd.trans (List.prefix_append _ _))) hrun₁
    rcases apply_effect hbefore.1 c with ⟨answer, a₂, happly, -⟩
    have hrun₂ : a.run (calls ++ [c]) = _ := Proc.transcript_concat hrun₁ happly
    rw [hrun] at hrun₂
    cases hrun₂
    have hafter := apply_keeps hbefore.1 hbefore.2.1 (fun g hg ↦ hrelease g (by simp [hg]))
      (hcalls calls c List.prefix_rfl t₁ a₁ hrun₁) happly
    refine ⟨hafter.1, hafter.2.1, hafter.1.isAllocated_taken.mpr hafter.2.1, ?_⟩
    intro d s count hmem hw
    rcases List.mem_append.mp hmem with hmem | hmem
    · exact hbefore.2.2.2 d s count hmem hw
    · cases List.mem_singleton.mp hmem
      exact hafter.2.2 s count rfl hw

/-- A frame that has been reserved is withheld at every point of a run that does not release
it exactly when no call of the run frees it. -/
theorem reserved_withheld_iff {a₀ : FrameAllocator} (h : Reachable a₀) (hf : f ∈ a₀.managed)
    (hc : c.Reserves f) (happly : c.apply a₀ = some (answer, a))
    (hrelease : ∀ g, .release g ∈ calls → g.val ≠ f) :
    (∀ earlier, earlier <+: calls → ∀ t a', a.run earlier = some (t, a') → Withheld f t a') ↔
      ∀ earlier c, earlier ++ [c] <+: calls → ∀ t a', a.run earlier = some (t, a') →
        ¬ c.Frees a' f := by
  rcases apply_effect h.wf c with ⟨answer', a₁, happly', hb, heffect, -⟩
  rw [happly] at happly'
  cases happly'
  have htaken : a.Taken f := by
    constructor
    · rw [hb.managed_eq]
      exact hf
    · exact heffect.reserves hf hc
  constructor
  · intro hwithheld earlier d hd t a' hrun hfrees
    have hearlier : earlier <+: calls := (List.prefix_append _ _).trans hd
    rcases hb.wf.run earlier with ⟨t₁, a₂, hrun₁, hb₁⟩
    rw [hrun] at hrun₁
    cases hrun₁
    rcases apply_effect hb₁.wf d with ⟨answer₂, a₃, happly₃, hb₃, heffect₃, -⟩
    have hbefore := hb₁.wf.isAllocated_taken.mp (hwithheld earlier hearlier t a' hrun).1
    have hafter := (hwithheld _ hd _ _ (Proc.transcript_concat hrun happly₃)).1
    exact (hb₃.wf.isAllocated_taken.mp hafter).2 (heffect₃.frees hb₁.wf hbefore hfrees)
  · intro hcalls earlier hearlier t a' hrun
    have hkeeps := run_keeps hb.wf htaken (fun g hg ↦ hrelease g (hearlier.subset hg))
      (fun before d hd ↦ hcalls before d (hd.trans hearlier)) hrun
    exact hkeeps.2.2

/-- One of eight unavailable frames is reserved; then another one is freed and frames are
allocated. -/
theorem reserved_withheld_two_free :
    ∃ t a', FrameAllocator.run ⟨[0xFFFFFFFFFFFFFFF3#64], 3, 10, 8, 0⟩
        [.free 4, .allocate, .allocateContiguous 2] = some (t, a') ∧ Withheld 3 t a' := by
  have hmanaged : 3 ∈ managed ⟨[0xFFFFFFFFFFFFFFF3#64], 3, 10, 8, 0⟩ :=
    mem_managed.mpr ⟨Nat.le_refl _, by decide⟩
  have happly : Call.apply (.reserve 3) ⟨[0xFFFFFFFFFFFFFFF3#64], 3, 10, 8, 0⟩ =
      some (.ok none, ⟨[0xFFFFFFFFFFFFFFF3#64], 3, 10, 8, 0⟩) := rfl
  rcases reachable_two_free.wf.run [.free 4, .allocate, .allocateContiguous 2] with
    ⟨t, a', hrun, -⟩
  refine ⟨t, a', hrun, ?_⟩
  apply (reserved_withheld_iff reachable_two_free hmanaged (c := .reserve 3) rfl happly ?_).mpr
    ?_ _ List.prefix_rfl t a' hrun
  · simp
  · intro earlier c hc _ _ _ hfrees
    have hmem : c ∈ [Call.free 4, .allocate, .allocateContiguous 2] :=
      hc.subset (List.mem_append_right _ (List.mem_singleton.mpr rfl))
    simp only [List.mem_cons, List.not_mem_nil, or_false] at hmem
    rcases hmem with rfl | rfl | rfl
    · revert hfrees
      change ¬ (4 : U64).val = 3
      decide
    · exact hfrees
    · exact hfrees

/-- A reserved frame is freed like any other. -/
theorem reserved_frame_freed :
    ¬ ∀ (a₀ a a' : FrameAllocator) (f : Nat) (c : Call) (answer : Except MemoryError (Option Nat))
      (calls : List Call) (t : List (Call × Except MemoryError (Option Nat))), Reachable a₀ →
        f ∈ a₀.managed → c.Reserves f → c.apply a₀ = some (answer, a) →
          (∀ g, .release g ∈ calls → g.val ≠ f) → a.run calls = some (t, a') →
            Withheld f t a' := by
  intro h
  have hmanaged : 3 ∈ managed ⟨[0xFFFFFFFFFFFFFFF3#64], 3, 10, 8, 0⟩ :=
    mem_managed.mpr ⟨Nat.le_refl _, by decide⟩
  have hwithheld := h _ _ _ 3 (.reserve 3) (.ok none) [.free 3] _ reachable_two_free hmanaged rfl
    rfl (by simp) rfl
  have hanswer := hwithheld.1
  revert hanswer
  decide

end LokoOS.Memory
