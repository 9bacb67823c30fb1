import Mathlib.Logic.Relation

/-!
# Values made from values

Library `Base`. From one value others are made, each from a value already there. A call names
the value to start from by its place and passes an argument; a call that makes nothing changes
nothing. The values form a tree: each but the first knows the place of its parent. What
relates a parent to a child relates, by its transitive closure, an ancestor to a descendant.
-/

namespace LokoOS.Base

/-- A value, and the place of the value it was made from. -/
structure Grown (α : Type) where
  value : α
  parent : Option Nat

namespace Grown

variable {α β : Type}

/-- Make one more value from the one at a place. -/
def call (make : α → β → Option α) (t : List (Grown α)) (c : Nat × β) : List (Grown α) :=
  match t[c.1]?.bind fun g ↦ make g.value c.2 with
  | none => t
  | some v => t ++ [⟨v, some c.1⟩]

/-- The values after some calls, from one root. -/
def run (make : α → β → Option α) (root : α) (calls : List (Nat × β)) : List (Grown α) :=
  calls.foldl (call make) [⟨root, none⟩]

/-- The value at place `j` was made from the one at place `i`. -/
def Child (t : List (Grown α)) (i j : Nat) : Prop :=
  ∃ g : Grown α, t[j]? = some g ∧ g.parent = some i

/-- Some call makes `w` from `v`. -/
def Makes (make : α → β → Option α) (v w : α) : Prop := ∃ arg, make v arg = some w

/-- Every value is the root or was made from an earlier one. -/
structure Lineage (make : α → β → Option α) (root : α) (t : List (Grown α)) : Prop where
  root_eq : ∀ (j : Nat) (g : Grown α), t[j]? = some g → g.parent = none → g.value = root
  made : ∀ (j : Nat) (g : Grown α) (i : Nat), t[j]? = some g → g.parent = some i →
    i < j ∧ ∃ g' : Grown α, t[i]? = some g' ∧ Makes make g'.value g.value

variable {make : α → β → Option α} {root : α} {t : List (Grown α)} {g g' : Grown α} {i j : Nat}
  {calls : List (Nat × β)}

private theorem of_getElem?_concat (h : (t ++ [g'])[j]? = some g) :
    t[j]? = some g ∨ j = t.length ∧ g = g' := by
  rw [List.getElem?_append] at h
  split at h
  · exact .inl h
  · next hj =>
    rw [List.getElem?_singleton] at h
    split at h
    · cases h
      exact .inr ⟨by omega, rfl⟩
    · cases h

/-- The root alone. -/
theorem lineage_root : Lineage make root [⟨root, none⟩] where
  root_eq j g hg _ := by
    rcases of_getElem?_concat (t := []) hg with hg | ⟨-, rfl⟩
    · cases hg
    · rfl
  made j g i hg hp := by
    rcases of_getElem?_concat (t := []) hg with hg | ⟨-, rfl⟩
    · cases hg
    · cases hp

/-- What a call makes: nothing, or one value at the end, from one that is there. -/
theorem call_cases (make : α → β → Option α) (t : List (Grown α)) (c : Nat × β) :
    call make t c = t ∨ ∃ (g : Grown α) (v : α), t[c.1]? = some g ∧ make g.value c.2 = some v ∧
      call make t c = t ++ [⟨v, some c.1⟩] := by
  unfold call
  split
  · exact .inl rfl
  · next v h =>
    rcases Option.bind_eq_some_iff.mp h with ⟨g, hg, hv⟩
    exact .inr ⟨g, v, hg, hv, rfl⟩

/-- One more value made from one that is there. -/
theorem Lineage.concat (h : Lineage make root t) {v : α} (hg : t[i]? = some g)
    (hv : Makes make g.value v) : Lineage make root (t ++ [⟨v, some i⟩]) where
  root_eq j g' hg' hp := by
    rcases of_getElem?_concat hg' with hg' | ⟨-, rfl⟩
    · exact h.root_eq j g' hg' hp
    · cases hp
  made j g' k hg' hp := by
    have hkeep : ∀ {m : Nat} {g₁ : Grown α}, t[m]? = some g₁ →
        (t ++ [⟨v, some i⟩])[m]? = some g₁ := fun hm ↦ by
      rw [List.getElem?_append_left (List.getElem?_eq_some_iff.mp hm).1, hm]
    rcases of_getElem?_concat hg' with hg' | ⟨rfl, rfl⟩
    · obtain ⟨hlt, g₁, hg₁, hmakes⟩ := h.made j g' k hg' hp
      exact ⟨hlt, g₁, hkeep hg₁, hmakes⟩
    · cases hp
      exact ⟨(List.getElem?_eq_some_iff.mp hg).1, g, hkeep hg, hv⟩

/-- A call keeps the lineage. -/
theorem Lineage.call (h : Lineage make root t) (c : Nat × β) :
    Lineage make root (call make t c) := by
  rcases call_cases make t c with he | ⟨g, v, hg, hv, he⟩
  · rw [he]
    exact h
  · rw [he]
    exact h.concat hg ⟨c.2, hv⟩

/-- After any calls every value has its lineage. -/
theorem lineage_run : Lineage make root (run make root calls) := by
  apply List.foldlRecOn calls
  · exact lineage_root
  · intro t ht c _
    exact ht.call c

/-- A value and one made from it. -/
theorem Lineage.makes (h : Lineage make root t) (hc : Child t i j) (hi : t[i]? = some g)
    (hj : t[j]? = some g') : Makes make g.value g'.value := by
  rcases hc with ⟨g₁, hg₁, hp⟩
  obtain rfl := Option.some.inj (hj.symm.trans hg₁)
  obtain ⟨-, g₂, hg₂, hmakes⟩ := h.made j g' i hj hp
  obtain rfl := Option.some.inj (hi.symm.trans hg₂)
  exact hmakes

/-- A value is made from each of its ancestors in some calls. -/
theorem Lineage.descends (h : Lineage make root t) (hc : Relation.TransGen (Child t) i j)
    (hi : t[i]? = some g) (hj : t[j]? = some g') :
    Relation.TransGen (Makes make) g.value g'.value := by
  induction hc generalizing g' with
  | single hstep => exact .single (h.makes hstep hi hj)
  | tail _ hstep ih =>
    rcases hstep with ⟨g₁, hg₁, hp⟩
    obtain ⟨-, g₂, hg₂, -⟩ := h.made _ g₁ _ hg₁ hp
    exact .tail (ih hg₂) (h.makes ⟨g₁, hg₁, hp⟩ hg₂ hj)

/-- A value is the root or made from it in some calls. -/
theorem Lineage.reached (h : Lineage make root t) (hj : t[j]? = some g) :
    Relation.ReflTransGen (Makes make) root g.value := by
  induction j using Nat.strongRecOn generalizing g with
  | ind j ih =>
    cases hp : g.parent with
    | none => rw [h.root_eq j g hj hp]
    | some i =>
      obtain ⟨hlt, g', hg', hmakes⟩ := h.made j g i hj hp
      exact .tail (ih i hlt hg') hmakes

/-- What holds of the root, and of all that is made from what it holds of, holds of every
value. -/
theorem Lineage.invariant (h : Lineage make root t) (P : α → Prop) (hroot : P root)
    (hstep : ∀ v w, P v → Makes make v w → P w) (hg : g ∈ t) : P g.value := by
  obtain ⟨j, hj⟩ := List.mem_iff_getElem?.mp hg
  have hreached := h.reached hj
  generalize g.value = v at hreached ⊢
  induction hreached with
  | refl => exact hroot
  | tail _ hmakes ih => exact hstep _ _ ih hmakes

/-- A value from which nothing can be made has no children. -/
theorem Lineage.childless (h : Lineage make root t) (hi : t[i]? = some g)
    (hnone : ∀ w, ¬ Makes make g.value w) : ¬ Child t i j := by
  rintro ⟨g', hg', hp⟩
  exact hnone _ (h.makes ⟨g', hg', hp⟩ hi hg')

end Grown
end LokoOS.Base
