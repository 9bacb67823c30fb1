import Mathlib.Data.List.Forall2
import LokoOS.Filesystem.Grants
import LokoOS.Filesystem.Sandbox

/-!
# Spelling does not matter

Two paths are alike when they stand for the same location up to case. Everything that the
policy computes from a path and a subject is the same for alike paths and alike subjects.
-/

namespace LokoOS.Filesystem

open LokoOS.Base

/-- Two paths stand for locations with the same components, case ignored. -/
def LkoPathRef.Alike (p q : LkoPathRef) : Prop :=
  ∃ l m : Location, p.Names l ∧ q.Names m ∧
    l.components.map Text.lower = m.components.map Text.lower

/-- Two subjects differ only in the case of the user and the application and in the spelling
of the grants. -/
structure Subject.Alike (subject subject' : Subject) : Prop where
  subjectClass : subject.subjectClass = subject'.subjectClass
  appId : subject.appId.map Text.lower = subject'.appId.map Text.lower
  user : subject.user.map Text.lower = subject'.user.map Text.lower
  grants : List.Forall₂ LkoPathRef.Alike subject.grants subject'.grants
  updateTransactionOpen : subject.updateTransactionOpen = subject'.updateTransactionOpen

variable {subject subject' : Subject} {p p' q q' : LkoPathRef} {op : Operation}

/-! ### Alike paths -/

private theorem isNamed_congr {c c' : Option Text} {n n' : Text}
    (hc : c.map Text.lower = c'.map Text.lower) (hn : n.lower = n'.lower) :
    isNamed c n = isNamed c' n' := by
  cases c with
  | none =>
    rw [Option.map_none, eq_comm, Option.map_eq_none_iff] at hc
    rw [hc]
    rfl
  | some c =>
    cases c' with
    | none => cases hc
    | some c' =>
      rw [Option.map_some, Option.map_some, Option.some.injEq] at hc
      rw [Bool.eq_iff_iff, isNamed_iff, isNamed_iff]
      simp only [Option.some.injEq, exists_eq_left', hc, hn]

namespace LkoPathRef.Alike

private theorem symm (h : p.Alike p') : p'.Alike p := by
  rcases h with ⟨l, m, hl, hm, hcomps⟩
  exact ⟨m, l, hm, hl, hcomps.symm⟩

private theorem root (h : p.Alike p') : p.root = p'.root := by
  rcases h with ⟨l, m, hl, hm, hcomps⟩
  have hroot (n : Location) (r : Root) :
      n.root = some r ↔ [r.name].map Text.lower <+: n.components.map Text.lower := by
    rw [leads_root]
    simp
  rw [hl.root, hm.root]
  apply Option.ext
  intro r
  rw [hroot l, hroot m, hcomps]

private theorem isNamed_tail (h : p.Alike p') (n : Text) :
    isNamed p.tail.head? n = isNamed p'.tail.head? n := by
  rcases h with ⟨l, m, hl, hm, hcomps⟩
  rw [hl.tail, hm.tail]
  apply isNamed_congr
  · rw [← List.head?_map, ← List.head?_map, List.map_tail, List.map_tail, hcomps]
  · rfl

private theorem effectiveProtection (h : p.Alike p') :
    effectiveProtection p = Filesystem.effectiveProtection p' := by
  unfold Filesystem.effectiveProtection
  simp only [h.root, h.isNamed_tail]

private theorem storageCategoryOf (h : p.Alike p') :
    storageCategoryOf p = Filesystem.storageCategoryOf p' := by
  unfold Filesystem.storageCategoryOf
  simp only [h.root, h.isNamed_tail]

private theorem isWithin_of (h : p.Alike p') (hq : q.Alike q') (hwithin : p.isWithin q = true) :
    p'.isWithin q' = true := by
  rcases h with ⟨l, m, hl, hm, hcomps⟩
  rcases hq with ⟨k, n, hk, hn, hcomps'⟩
  rw [isWithin_iff hl hk] at hwithin
  rw [isWithin_iff hm hn]
  unfold Location.Within at hwithin ⊢
  rw [← hcomps, ← hcomps']
  exact hwithin

private theorem isWithin (h : p.Alike p') (hq : q.Alike q') : p.isWithin q = p'.isWithin q' := by
  rw [Bool.eq_iff_iff]
  constructor
  · exact h.isWithin_of hq
  · exact h.symm.isWithin_of hq.symm

end LkoPathRef.Alike

/-! ### Alike subjects -/

namespace Subject.Alike

private theorem symm (h : subject.Alike subject') : subject'.Alike subject where
  subjectClass := h.subjectClass.symm
  appId := h.appId.symm
  user := h.user.symm
  grants := (h.grants.imp fun _ _ hg ↦ hg.symm).flip
  updateTransactionOpen := h.updateTransactionOpen.symm

private theorem exists_alike {name name' : Option Text} {n : Text}
    (h : name.map Text.lower = name'.map Text.lower) (hn : name = some n) :
    ∃ n', name' = some n' ∧ n'.lower = n.lower := by
  rw [hn, Option.map_some, eq_comm, Option.map_eq_some_iff] at h
  exact h

private theorem actsFor (h : subject.Alike subject') (owner : Text) :
    subject.ActsFor owner ↔ subject'.ActsFor owner := by
  unfold Subject.ActsFor
  constructor
  · rintro ⟨u, hu, hlower⟩
    rcases exists_alike h.user hu with ⟨u', hu', hlower'⟩
    exact ⟨u', hu', hlower'.trans hlower⟩
  · rintro ⟨u, hu, hlower⟩
    rcases exists_alike h.user.symm hu with ⟨u', hu', hlower'⟩
    exact ⟨u', hu', hlower'.trans hlower⟩

private theorem crossesUsers (h : subject.Alike subject') (hp : p.Alike p') :
    crossesUsers subject p = Filesystem.crossesUsers subject' p' := by
  rcases hp with ⟨l, m, hl, hm, hcomps⟩
  rw [Bool.eq_iff_iff, crossesUsers_iff hl, crossesUsers_iff hm]
  unfold InHome
  simp only [hcomps, h.actsFor, h.subjectClass]

private theorem inOwnAppdata_of (h : subject.Alike subject') (hp : p.Alike p')
    (happdata : inOwnAppdata subject p = true) : inOwnAppdata subject' p' = true := by
  rcases hp with ⟨l, m, hl, hm, hcomps⟩
  rw [inOwnAppdata_iff hl] at happdata
  rw [inOwnAppdata_iff hm]
  rcases happdata with ⟨u, a, hu, ha, hcontainer⟩
  rcases exists_alike h.user hu with ⟨u', hu', hlower⟩
  rcases exists_alike h.appId ha with ⟨a', ha', hlower'⟩
  refine ⟨u', a', hu', ha', ?_⟩
  unfold InContainer at hcontainer ⊢
  rw [← hcomps]
  simpa [hlower, hlower'] using hcontainer

private theorem inOwnAppdata (h : subject.Alike subject') (hp : p.Alike p') :
    inOwnAppdata subject p = Filesystem.inOwnAppdata subject' p' := by
  rw [Bool.eq_iff_iff]
  constructor
  · exact h.inOwnAppdata_of hp
  · exact h.symm.inOwnAppdata_of hp.symm

private theorem inOwnInstallDir_of (h : subject.Alike subject') (hp : p.Alike p')
    (hinstall : inOwnInstallDir subject p = true) : inOwnInstallDir subject' p' = true := by
  rcases hp with ⟨l, m, hl, hm, hcomps⟩
  rw [inOwnInstallDir_iff hl] at hinstall
  rw [inOwnInstallDir_iff hm]
  rcases hinstall with ⟨a, ha, hdir⟩
  rcases exists_alike h.appId ha with ⟨a', ha', hlower⟩
  refine ⟨a', ha', ?_⟩
  unfold InInstallDir at hdir ⊢
  rw [← hcomps]
  simpa [hlower] using hdir

private theorem inOwnInstallDir (h : subject.Alike subject') (hp : p.Alike p') :
    inOwnInstallDir subject p = Filesystem.inOwnInstallDir subject' p' := by
  rw [Bool.eq_iff_iff]
  constructor
  · exact h.inOwnInstallDir_of hp
  · exact h.symm.inOwnInstallDir_of hp.symm

private theorem any_isWithin {gs gs' : List LkoPathRef} (hp : p.Alike p')
    (h : List.Forall₂ LkoPathRef.Alike gs gs') :
    (gs.any fun g ↦ p.isWithin g) = gs'.any fun g ↦ p'.isWithin g := by
  induction h with
  | nil => rfl
  | cons hg _ ih => rw [List.any_cons, List.any_cons, hp.isWithin hg, ih]

private theorem hasGrantCovering (h : subject.Alike subject') (hp : p.Alike p') :
    subject.hasGrantCovering p = subject'.hasGrantCovering p' :=
  any_isWithin hp h.grants

private theorem evaluate (h : subject.Alike subject') (hp : p.Alike p') :
    evaluate subject p op = Filesystem.evaluate subject' p' op := by
  apply evaluate_congr
  · exact h.subjectClass
  · exact h.updateTransactionOpen
  · exact hp.root
  · exact hp.effectiveProtection
  · exact h.crossesUsers hp
  · exact h.inOwnAppdata hp
  · exact h.inOwnInstallDir hp
  · exact h.hasGrantCovering hp

end Subject.Alike

/-- Two strings that parse and spell the same components up to case get the same verdicts,
the same protection and the same storage bucket, for subjects that differ only in the case of
the user and the application and in the spelling of the grants. -/
theorem one_verdict {s s' : Text} {comps comps' : List Text} (h : LkoPathRef.parse s = .ok p)
    (h' : LkoPathRef.parse s' = .ok p') (hs : Spells s comps) (hs' : Spells s' comps')
    (hcomps : comps.map Text.lower = comps'.map Text.lower)
    (hsubject : subject.Alike subject') :
    (∀ op, evaluate subject p op = evaluate subject' p' op) ∧
      effectiveProtection p = effectiveProtection p' ∧
      storageCategoryOf p = storageCategoryOf p' := by
  rcases parse_spells h with ⟨l, hl, hnames⟩
  rcases parse_spells h' with ⟨m, hm, hnames'⟩
  rw [(hl comps).mp hs, (hm comps').mp hs'] at hcomps
  have halike : p.Alike p' := ⟨l, m, hnames, hnames', hcomps⟩
  exact ⟨fun _ ↦ hsubject.evaluate halike, halike.effectiveProtection, halike.storageCategoryOf⟩

/-- Adam's documents, and the same in another spelling. -/
def documents : LkoPathRef := ⟨"LKO/Users/Adam/Documents".toList, some .Users⟩

/-- The other spelling. -/
def documents' : LkoPathRef := ⟨"/users/ADAM/documents/".toList, some .Users⟩

private theorem parse_documents :
    LkoPathRef.parse "LKO/Users/Adam/Documents".toList = .ok documents := rfl

private theorem parse_documents' :
    LkoPathRef.parse "/users/ADAM/documents/".toList = .ok documents' := rfl

private theorem spells_documents : Spells "LKO/Users/Adam/Documents".toList
    ["Users".toList, "Adam".toList, "Documents".toList] := by
  have hspells : Spells (canonical ["Users".toList, "Adam".toList, "Documents".toList])
      ["Users".toList, "Adam".toList, "Documents".toList] := spells_canonical (by simp [IsPart])
  exact hspells

private theorem spells_documents' : Spells "/users/ADAM/documents/".toList
    ["users".toList, "ADAM".toList, "documents".toList] := by
  have hspells : Spells ([] ++ '/' ::
        (joined '/' ["users".toList, "ADAM".toList, "documents".toList] ++ ['/']))
      ["users".toList, "ADAM".toList, "documents".toList] :=
    .path (.inl rfl) (.inr rfl) (by simp [IsPart])
  exact hspells

/-- An application of Adam with a grant on his documents, and one of `ADAM`. -/
theorem one_verdict_documents :
    (∀ op, evaluate ((adam .UserApp).withGrants [documents]) documents op =
        evaluate { (adam .UserApp).withGrants [documents'] with user := some "ADAM".toList }
          documents' op) ∧
      effectiveProtection documents = effectiveProtection documents' ∧
      storageCategoryOf documents = storageCategoryOf documents' := by
  apply one_verdict parse_documents parse_documents' spells_documents spells_documents'
  · decide
  · have halike : documents.Alike documents' := by
      rcases parse_spells parse_documents with ⟨l, hl, hnames⟩
      rcases parse_spells parse_documents' with ⟨m, hm, hnames'⟩
      refine ⟨l, m, hnames, hnames', ?_⟩
      rw [← (hl _).mp spells_documents, ← (hm _).mp spells_documents']
      decide
    constructor
    · rfl
    · rfl
    · decide
    · exact .cons halike .nil
    · rfl

end LokoOS.Filesystem
