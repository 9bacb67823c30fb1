import LokoOS.Boot.PagingRefinement

/-!
# Mapping ranges of pages

`boot/loko-boot/src/paging.rs:255–310`. What the range functions have done to the map when
they return, and when they must return: a strict range adds every page of it, a lenient
one adds the pages whose slots were free.
-/

namespace LokoOS.Boot
open LokoOS.Base

/-- Map `m'` is `m` with `n` 4 KiB pages added, which were unmapped in `m`. -/
structure PagesAdded (m m' : PageMap) (virtualBase physicalBase n : Nat) (p : Permissions) :
    Prop where
  page_none : ∀ i < n, m.page (pageNumber (virtualBase + i * pageSize)) = none
  huge_none : ∀ i < n, m.huge (hugeNumber (virtualBase + i * pageSize)) = none
  inside : ∀ i < n, m'.page (pageNumber (virtualBase + i * pageSize)) =
    some ⟨physicalBase + i * pageSize, p⟩
  outside : ∀ v, (∀ i < n, v ≠ pageNumber (virtualBase + i * pageSize)) → m'.page v = m.page v
  huge_eq : m'.huge = m.huge
  tabled_iff : ∀ h, m'.tabled h = true ↔
    m.tabled h = true ∨ ∃ i < n, h = hugeNumber (virtualBase + i * pageSize)

/-- A 2 MiB slot has neither a page nor a table. -/
def PageMap.Free (m : PageMap) (h : Nat) : Prop := m.huge h = none ∧ m.tabled h = false

/-- Map `m'` is `m` with those of `n` 2 MiB pages added whose slots were free in `m`. -/
structure HugePagesAdded (m m' : PageMap) (virtualBase physicalBase n : Nat)
    (p : Permissions) : Prop where
  inside : ∀ i < n, m.Free (hugeNumber (virtualBase + i * hugePageSize)) →
    m'.huge (hugeNumber (virtualBase + i * hugePageSize)) =
      some ⟨physicalBase + i * hugePageSize, p⟩
  outside : ∀ h, (∀ i < n, h = hugeNumber (virtualBase + i * hugePageSize) → ¬ m.Free h) →
    m'.huge h = m.huge h
  page_eq : m'.page = m.page
  tabled_eq : m'.tabled = m.tabled

variable {m m' : PageMap} {virtualBase physicalBase length n : Nat} {p : Permissions}

/-- Adding no page. -/
theorem PagesAdded.zero : PagesAdded m m virtualBase physicalBase 0 p :=
  ⟨by omega, by omega, by omega, fun _ _ ↦ rfl, rfl, fun h ↦ by simp⟩

/-- Adding one more page. -/
theorem PagesAdded.succ (h : PagesAdded m m' virtualBase physicalBase n p)
    (hp : m'.page (pageNumber (virtualBase + n * pageSize)) = none)
    (hh : m'.huge (hugeNumber (virtualBase + n * pageSize)) = none) :
    PagesAdded m (m'.setPage (pageNumber (virtualBase + n * pageSize))
      ⟨physicalBase + n * pageSize, p⟩) virtualBase physicalBase (n + 1) p := by
  have hnew : ∀ i < n, pageNumber (virtualBase + n * pageSize) ≠
      pageNumber (virtualBase + i * pageSize) := by
    intro i hi he
    rw [he, h.inside i hi] at hp
    cases hp
  refine ⟨?_, ?_, ?_, ?_, h.huge_eq, ?_⟩
  · intro i hi
    by_cases hin : i < n
    · exact h.page_none i hin
    · rw [show i = n by omega, ← h.outside _ hnew, hp]
  · intro i hi
    by_cases hin : i < n
    · exact h.huge_none i hin
    · rw [show i = n by omega, ← h.huge_eq, hh]
  · intro i hi
    rw [PageMap.setPage_page]
    by_cases hin : i < n
    · rw [if_neg fun he ↦ hnew i hin he.symm, h.inside i hin]
    · rw [show i = n by omega, if_pos rfl]
  · intro v hv
    rw [PageMap.setPage_page, if_neg (hv n (Nat.lt_succ_self n))]
    exact h.outside v fun i hi ↦ hv i (by omega)
  · intro s
    rw [PageMap.setPage_tabled, ← PageMap.hugeNumber_eq]
    split
    · next he => exact ⟨fun _ ↦ .inr ⟨n, Nat.lt_succ_self n, he⟩, fun _ ↦ rfl⟩
    · next hne =>
      rw [h.tabled_iff]
      constructor
      · rintro (ht | ⟨i, hi, he⟩)
        · exact .inl ht
        · exact .inr ⟨i, by omega, he⟩
      · rintro (ht | ⟨i, hi, he⟩)
        · exact .inl ht
        · refine .inr ⟨i, ?_, he⟩
          by_cases hin : i < n
          · exact hin
          · rw [show i = n by omega] at he
            exact absurd he hne

/-- Adding no 2 MiB page. -/
theorem HugePagesAdded.zero : HugePagesAdded m m virtualBase physicalBase 0 p :=
  ⟨by omega, fun _ _ ↦ rfl, rfl, rfl⟩

/-- Adding one more 2 MiB page in a free slot, which was free to begin with. -/
theorem HugePagesAdded.succ_of_free (h : HugePagesAdded m m' virtualBase physicalBase n p)
    (hf : m'.Free (hugeNumber (virtualBase + n * hugePageSize))) :
    m.Free (hugeNumber (virtualBase + n * hugePageSize)) ∧
      HugePagesAdded m (m'.setHuge (hugeNumber (virtualBase + n * hugePageSize))
        ⟨physicalBase + n * hugePageSize, p⟩) virtualBase physicalBase (n + 1) p := by
  have htab : m.tabled (hugeNumber (virtualBase + n * hugePageSize)) = false := by
    rw [← h.tabled_eq]
    exact hf.2
  -- a free slot is none of those filled before it
  have hnew : ∀ i < n, hugeNumber (virtualBase + n * hugePageSize) =
      hugeNumber (virtualBase + i * hugePageSize) →
      ¬ m.Free (hugeNumber (virtualBase + n * hugePageSize)) := by
    intro i hi he hfree
    have hin := h.inside i hi (he ▸ hfree)
    rw [← he, hf.1] at hin
    cases hin
  have hsame := h.outside _ hnew
  have hfree : m.Free (hugeNumber (virtualBase + n * hugePageSize)) := ⟨hsame ▸ hf.1, htab⟩
  refine ⟨hfree, ?_, ?_, h.page_eq, h.tabled_eq⟩
  · intro i hi hfi
    rw [PageMap.setHuge_huge]
    by_cases hin : i < n
    · rw [if_neg fun he ↦ hnew i hin he.symm hfree, h.inside i hin hfi]
    · rw [show i = n by omega, if_pos rfl]
  · intro s hs
    rw [PageMap.setHuge_huge]
    split
    · next he =>
      subst he
      exact absurd hfree (hs n (Nat.lt_succ_self n) rfl)
    · exact h.outside s fun i hi ↦ hs i (by omega)

private theorem HugePagesAdded.succ_of_taken (h : HugePagesAdded m m' virtualBase physicalBase n p)
    (hne : ∀ i < n, hugeNumber (virtualBase + n * hugePageSize) ≠
      hugeNumber (virtualBase + i * hugePageSize))
    (ht : ¬ m'.Free (hugeNumber (virtualBase + n * hugePageSize))) :
    HugePagesAdded m m' virtualBase physicalBase (n + 1) p := by
  have htaken : ¬ m.Free (hugeNumber (virtualBase + n * hugePageSize)) := by
    rintro ⟨hh, htab⟩
    refine ht ⟨?_, by rw [h.tabled_eq, htab]⟩
    rw [h.outside _ fun i hi he ↦ absurd he (hne i hi), hh]
  refine ⟨?_, ?_, h.page_eq, h.tabled_eq⟩
  · intro i hi hfi
    by_cases hin : i < n
    · exact h.inside i hin hfi
    · rw [show i = n by omega] at hfi
      exact absurd hfi htaken
  · intro s hs
    exact h.outside s fun i hi ↦ hs i (by omega)

/-- Adding pages keeps the 2 MiB pages that were there. -/
theorem HugePagesAdded.of_some (h : HugePagesAdded m m' virtualBase physicalBase n p) {s : Nat}
    {leaf : Leaf} (hs : m.huge s = some leaf) : m'.huge s = some leaf := by
  rw [h.outside s fun i _ _ hf ↦ ?_, hs]
  rw [hf.1] at hs
  cases hs

/-- A 2 MiB page was there before or is one of those added. -/
theorem HugePagesAdded.eq_some (h : HugePagesAdded m m' virtualBase physicalBase n p) {s : Nat}
    {leaf : Leaf} (hs : m'.huge s = some leaf) :
    m.huge s = some leaf ∨ ∃ i < n, s = hugeNumber (virtualBase + i * hugePageSize) ∧
      leaf = ⟨physicalBase + i * hugePageSize, p⟩ := by
  by_cases hadded : ∃ i < n, s = hugeNumber (virtualBase + i * hugePageSize) ∧ m.Free s
  · obtain ⟨i, hi, rfl, hf⟩ := hadded
    rw [h.inside i hi hf] at hs
    cases hs
    exact .inr ⟨i, hi, rfl, rfl⟩
  · left
    rw [← h.outside s fun i hi he hf ↦ hadded ⟨i, hi, he, hf⟩, hs]

namespace PageTables

variable {t t' : PageTables} {size : Nat} {map : Nat → Nat → Proc PageTables PagingError Unit}

private theorem forPages_ok_invariant (P : Nat → PageTables → Prop)
    (hstep : ∀ i s s', i < divCeil length size → virtualBase + i * size ≤ u64Max →
      P i s → map (virtualBase + i * size) (physicalBase + i * size) s = some (.ok (), s') →
      P (i + 1) s')
    (h0 : P 0 t)
    (h : forPages size virtualBase physicalBase length map t = some (.ok (), t')) :
    P (divCeil length size) t' := by
  refine Proc.forRange_ok_invariant P ?_ h0 h
  intro i s s' hi hp hrun
  have hoffset := (Proc.mulU64_bind_eq_ok.mp hrun).2
  have hva := Proc.addU64_bind_eq_ok.mp hoffset
  have hpa := Proc.addU64_bind_eq_ok.mp hva.2
  exact hstep i s s' hi hva.1 hp hpa.2

/-- Rule for a page loop that must return: its ranges end within 64 bits. -/
theorem forPages_total (P : Nat → PageTables → Prop) (hsize : 0 < size)
    (hu : virtualBase + divCeil length size * size ≤ 2 ^ 64)
    (hb : physicalBase + divCeil length size * size ≤ 2 ^ 64)
    (hstep : ∀ i s, i < divCeil length size → P i s →
      ∃ s', map (virtualBase + i * size) (physicalBase + i * size) s = some (.ok (), s') ∧
        P (i + 1) s')
    (h0 : P 0 t) :
    ∃ t', forPages size virtualBase physicalBase length map t = some (.ok (), t') ∧
      P (divCeil length size) t' := by
  refine Proc.forRange_total P ?_ h0
  intro i s hi hp
  obtain ⟨s', hrun, hp'⟩ := hstep i s hi hp
  refine ⟨s', ?_, hp'⟩
  have hv := item_start_le hsize hi hu
  have hpb := item_start_le hsize hi hb
  rw [mulU64_of_le (by omega), Proc.run_bind_ok (Proc.run_lift_some _ _), addU64_of_le hv,
    Proc.run_bind_ok (Proc.run_lift_some _ _), addU64_of_le hpb,
    Proc.run_bind_ok (Proc.run_lift_some _ _), hrun]

/-! ### What a range did when it returned -/

/-- A 4 KiB call that returned added its page. -/
theorem mapPage_ok (h : t.WF) {va pa : Nat} (hb : pa < 2 ^ 52)
    (hrun : mapPage va pa p t = some (.ok (), t')) :
    Keeps t t' ∧ va % pageSize = 0 ∧ pa % pageSize = 0 ∧
      t.view.huge (hugeNumber va) = none ∧ t.view.page (pageNumber va) = none ∧
      t'.view = t.view.setPage (pageNumber va) ⟨pa, p⟩ := by
  by_cases ha : va % pageSize ≠ 0 ∨ pa % pageSize ≠ 0
  · rw [mapPage_misaligned p ha] at hrun
    cases hrun
  · obtain ⟨t₁, hk, hcase⟩ := mapPage_spec h va pa p (by omega) (by omega) hb
    rw [hrun] at hcase
    rcases hcase with ⟨he, hh, hp, hv, -⟩ | ⟨he, -⟩ | ⟨he, -⟩
    · cases he
      exact ⟨hk, by omega, by omega, hh, hp, hv⟩
    · cases he
    · cases he

/-- A 2 MiB call that returned added its page. -/
theorem mapHugePage_ok (h : t.WF) {va pa : Nat} (hb : pa < 2 ^ 52)
    (hrun : mapHugePage va pa p t = some (.ok (), t')) :
    Keeps t t' ∧ t.view.Free (hugeNumber va) ∧
      t'.view = t.view.setHuge (hugeNumber va) ⟨pa, p⟩ := by
  by_cases ha : va % hugePageSize ≠ 0 ∨ pa % hugePageSize ≠ 0
  · rw [mapHugePage_misaligned p ha] at hrun
    cases hrun
  · obtain ⟨t₁, hk, hcase⟩ := mapHugePage_spec h va pa p (by omega) (by omega) hb
    rw [hrun] at hcase
    rcases hcase with ⟨he, hh, ht, hv, -⟩ | ⟨he, -⟩ | ⟨he, -⟩
    · cases he
      exact ⟨hk, ⟨hh, ht⟩, hv⟩
    · cases he
    · cases he

private theorem mapHugePageLenient_ok (h : t.WF) {va pa : Nat} (hb : pa < 2 ^ 52)
    (hrun : mapHugePageLenient va pa p t = some (.ok (), t')) :
    Keeps t t' ∧ ((t.view.Free (hugeNumber va) ∧
        t'.view = t.view.setHuge (hugeNumber va) ⟨pa, p⟩) ∨
      (¬ t.view.Free (hugeNumber va) ∧ t'.view = t.view)) := by
  by_cases ha : va % hugePageSize ≠ 0 ∨ pa % hugePageSize ≠ 0
  · rw [mapHugePageLenient, Proc.run_bind, Proc.run_attempt, mapHugePage_misaligned p ha] at hrun
    cases hrun
  · obtain ⟨t₁, hk, hcase⟩ := mapHugePage_spec h va pa p (by omega) (by omega) hb
    rw [mapHugePageLenient, Proc.run_bind, Proc.run_attempt] at hrun
    rcases hcase with ⟨he, hh, ht, hv, -⟩ | ⟨he, hv, -, htaken⟩ | ⟨he, -⟩
    · rw [he] at hrun
      cases hrun
      exact ⟨hk, .inl ⟨⟨hh, ht⟩, hv⟩⟩
    · rw [he] at hrun
      cases hrun
      refine ⟨hk, .inr ⟨?_, hv⟩⟩
      rintro ⟨hh, ht⟩
      rcases htaken with hne | htab
      · exact hne hh
      · rw [ht] at htab
        cases htab
    · rw [he] at hrun
      cases hrun

/-- A 4 KiB range that returned added all its pages. -/
theorem mapRange_ok (h : t.WF)
    (hb : ∀ i < divCeil length pageSize, physicalBase + i * pageSize < 2 ^ 52)
    (hrun : mapRange virtualBase physicalBase length p t = some (.ok (), t')) :
    Keeps t t' ∧
      PagesAdded t.view t'.view virtualBase physicalBase (divCeil length pageSize) p ∧
      ∀ i < divCeil length pageSize, virtualBase + i * pageSize ≤ u64Max ∧
        virtualBase % pageSize = 0 ∧ physicalBase % pageSize = 0 := by
  rw [mapRange] at hrun
  refine forPages_ok_invariant (fun i s ↦ Keeps t s ∧
    PagesAdded t.view s.view virtualBase physicalBase i p ∧
    ∀ j < i, virtualBase + j * pageSize ≤ u64Max ∧ virtualBase % pageSize = 0 ∧
      physicalBase % pageSize = 0) ?_ ⟨h.keeps_self, .zero, by omega⟩ hrun
  rintro i s s' hi hva ⟨hk, hadded, halign⟩ hcall
  obtain ⟨hk', hv, hp, hh, hpage, hview⟩ := mapPage_ok hk.wf (hb i hi) hcall
  refine ⟨hk.trans hk', by rw [hview]; exact hadded.succ hpage hh, ?_⟩
  intro j hj
  by_cases hji : j < i
  · exact halign j hji
  · have hbase : virtualBase % pageSize = 0 ∧ physicalBase % pageSize = 0 := by
      simp only [pageSize] at hv hp ⊢
      omega
    rw [show j = i by omega]
    exact ⟨hva, hbase⟩

/-- A 2 MiB range that returned found all its slots free and added all its pages. -/
theorem mapHugeRange_ok (h : t.WF)
    (hb : ∀ i < divCeil length hugePageSize, physicalBase + i * hugePageSize < 2 ^ 52)
    (hrun : mapHugeRange virtualBase physicalBase length p t = some (.ok (), t')) :
    Keeps t t' ∧
      HugePagesAdded t.view t'.view virtualBase physicalBase (divCeil length hugePageSize) p ∧
      ∀ i < divCeil length hugePageSize,
        t.view.Free (hugeNumber (virtualBase + i * hugePageSize)) := by
  rw [mapHugeRange] at hrun
  refine forPages_ok_invariant (fun i s ↦ Keeps t s ∧
    HugePagesAdded t.view s.view virtualBase physicalBase i p ∧
    ∀ j < i, t.view.Free (hugeNumber (virtualBase + j * hugePageSize))) ?_
    ⟨h.keeps_self, .zero, by omega⟩ hrun
  rintro i s s' hi hva ⟨hk, hadded, hfree⟩ hcall
  obtain ⟨hk', hf, hview⟩ := mapHugePage_ok hk.wf (hb i hi) hcall
  obtain ⟨hf₀, hadded'⟩ := hadded.succ_of_free hf
  refine ⟨hk.trans hk', by rw [hview]; exact hadded', ?_⟩
  intro j hj
  by_cases hji : j < i
  · exact hfree j hji
  · rwa [show j = i by omega]

/-- A lenient range that returned added the pages whose slots were free, if its slots are
distinct. -/
theorem mapHugeRangeLenient_ok (h : t.WF)
    (hb : ∀ i < divCeil length hugePageSize, virtualBase + i * hugePageSize ≤ u64Max →
      physicalBase + i * hugePageSize < 2 ^ 52)
    (hd : ∀ i j, i < j → virtualBase + j * hugePageSize ≤ u64Max →
      hugeNumber (virtualBase + j * hugePageSize) ≠ hugeNumber (virtualBase + i * hugePageSize))
    (hrun : mapHugeRangeLenient virtualBase physicalBase length p t = some (.ok (), t')) :
    Keeps t t' ∧
      HugePagesAdded t.view t'.view virtualBase physicalBase (divCeil length hugePageSize) p ∧
      ∀ i < divCeil length hugePageSize, virtualBase + i * hugePageSize ≤ u64Max := by
  rw [mapHugeRangeLenient] at hrun
  refine forPages_ok_invariant (fun i s ↦ Keeps t s ∧
    HugePagesAdded t.view s.view virtualBase physicalBase i p ∧
    ∀ j < i, virtualBase + j * hugePageSize ≤ u64Max) ?_ ⟨h.keeps_self, .zero, by omega⟩ hrun
  rintro i s s' hi hva ⟨hk, hadded, hfits⟩ hcall
  have hfits' : ∀ j < i + 1, virtualBase + j * hugePageSize ≤ u64Max := by
    intro j hj
    by_cases hji : j < i
    · exact hfits j hji
    · rwa [show j = i by omega]
  obtain ⟨hk', hcase⟩ := mapHugePageLenient_ok hk.wf (hb i hi hva) hcall
  rcases hcase with ⟨hf, hview⟩ | ⟨hf, hview⟩
  · rw [hview]
    exact ⟨hk.trans hk', (hadded.succ_of_free hf).2, hfits'⟩
  · rw [hview]
    exact ⟨hk.trans hk', hadded.succ_of_taken (fun j hj ↦ hd j i hj hva) hf, hfits'⟩

end PageTables
end LokoOS.Boot
