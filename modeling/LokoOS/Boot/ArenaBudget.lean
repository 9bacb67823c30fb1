import LokoOS.Boot.Ranges

/-!
# When mapping must succeed

`boot/loko-boot/src/paging.rs:255–324`. A range of free slots is mapped completely if the
arena still has the frames for its tables, counted here for ranges within one entry of the
root table.
-/

namespace LokoOS.Boot
open LokoOS.Base

namespace PageTables

variable {t t' : PageTables} {virtualBase physicalBase length ℓ n : Nat} {p : Permissions}

/-- The table above an existing one exists. -/
theorem parent_isSome (h : (t.tree.table (ℓ + 1) n).isSome) :
    (t.tree.table ℓ (n / 512)).isSome := by
  rw [Radix.table] at h
  cases ht : t.tree.table ℓ (n / 512) with
  | some f => rfl
  | none =>
    rw [show n / t.tree.fan = n / 512 from rfl, ht] at h
    cases h

private theorem missing_of_isSome (h : (t.tree.table ℓ n).isSome) : t.missing ℓ n = 0 := by
  simp [missing, h]

/-- Where the page directory of an address exists no frame is needed on the way to it. -/
theorem directoryFrames_of_isSome {address : Nat}
    (h : (t.tree.table 2 (hugeNumber address / 512)).isSome) : t.directoryFrames address = 0 := by
  have hparent := parent_isSome h
  rw [Nat.div_div_eq_div_mul, show 512 * 512 = 2 ^ 18 from rfl] at hparent
  rw [directoryFrames, missing_of_isSome h, missing_of_isSome hparent]

/-- A 2 MiB call on a free slot succeeds if the arena has frames for its tables. -/
theorem mapHugePage_total (h : t.WF) {va pa : Nat} (hva : va % hugePageSize = 0)
    (hpa : pa % hugePageSize = 0) (hb : pa < 2 ^ 52) (hf : t.view.Free (hugeNumber va))
    (hroom : t.nextFrame + t.directoryFrames va ≤ t.arenaFrames) :
    ∃ t', mapHugePage va pa p t = some (.ok (), t') ∧ Keeps t t' ∧
      t'.view = t.view.setHuge (hugeNumber va) ⟨pa, p⟩ ∧
      t'.nextFrame = t.nextFrame + t.directoryFrames va ∧
      (t'.tree.table 2 (hugeNumber va / 512)).isSome := by
  obtain ⟨t', hk, hcase⟩ := mapHugePage_spec h va pa p hva hpa hb
  rcases hcase with ⟨hrun, -, -, hv, hnext, htable⟩ | ⟨-, -, -, hne | htab⟩ | ⟨-, -, hfull⟩
  · exact ⟨t', hrun, hk, hv, hnext, htable⟩
  · exact absurd hf.1 hne
  · rw [hf.2] at htab
    cases htab
  · omega

/-- A 4 KiB call on an unmapped page succeeds if the arena has frames for its tables. -/
theorem mapPage_total (h : t.WF) {va pa : Nat} (hva : va % pageSize = 0)
    (hpa : pa % pageSize = 0) (hb : pa < 2 ^ 52) (hh : t.view.huge (hugeNumber va) = none)
    (hp : t.view.page (pageNumber va) = none)
    (hroom : t.nextFrame + t.directoryFrames va + t.missing 3 (hugeNumber va) ≤ t.arenaFrames) :
    ∃ t', mapPage va pa p t = some (.ok (), t') ∧ Keeps t t' ∧
      t'.view = t.view.setPage (pageNumber va) ⟨pa, p⟩ ∧
      t'.nextFrame = t.nextFrame + t.directoryFrames va + t.missing 3 (hugeNumber va) ∧
      (t'.tree.table 3 (hugeNumber va)).isSome := by
  obtain ⟨t', hk, hcase⟩ := mapPage_spec h va pa p hva hpa hb
  rcases hcase with ⟨hrun, -, -, hv, hnext, htable⟩ | ⟨-, -, hne | hne⟩ | ⟨-, -, hfull⟩
  · exact ⟨t', hrun, hk, hv, hnext, htable⟩
  · exact absurd hh hne
  · exact absurd hp hne
  · omega

/-- The page directories that a range of 2 MiB pages needs, and the table above them. -/
def rangeFrames (virtualBase n : Nat) : Nat :=
  if n = 0 then 0 else 2 + (hugeNumber virtualBase + n - 1) / 512 - hugeNumber virtualBase / 512

private theorem rangeFrames_mono {i : Nat} (h : i ≤ n) :
    rangeFrames virtualBase i ≤ rangeFrames virtualBase n := by
  simp only [rangeFrames]
  split <;> split <;> omega

/-- The first `i` pages of a range are mapped, and no more frames were used than they
need. -/
structure HugeProgress (t s : PageTables) (virtualBase physicalBase : Nat) (p : Permissions)
    (i : Nat) : Prop where
  keeps : Keeps t s
  added : HugePagesAdded t.view s.view virtualBase physicalBase i p
  table : i ≠ 0 → (s.tree.table 2 ((hugeNumber virtualBase + i - 1) / 512)).isSome
  next_le : s.nextFrame ≤ t.nextFrame + rangeFrames virtualBase i

private theorem HugeProgress.frames_le {s : PageTables} {i : Nat}
    (h : HugeProgress t s virtualBase physicalBase p i)
    (hslot : (hugeNumber virtualBase + i) / 2 ^ 18 = hugeNumber virtualBase / 2 ^ 18)
    {va : Nat} (hva : hugeNumber va = hugeNumber virtualBase + i) :
    s.nextFrame + s.directoryFrames va ≤ t.nextFrame + rangeFrames virtualBase (i + 1) := by
  have hnext := h.next_le
  have h1 := s.missing_le_one (ℓ := 1) (n := hugeNumber va / 2 ^ 18)
  have h2 := s.missing_le_one (ℓ := 2) (n := hugeNumber va / 512)
  have hsucc : rangeFrames virtualBase (i + 1) =
      2 + (hugeNumber virtualBase + i) / 512 - hugeNumber virtualBase / 512 := by
    rw [rangeFrames, if_neg (by omega)]
    rfl
  rw [directoryFrames, hsucc]
  by_cases h0 : i = 0
  · rw [rangeFrames, if_pos h0] at hnext
    omega
  · -- the table of the page before exists, and so does the one above it
    have ht := h.table h0
    have hparent := missing_of_isSome (parent_isSome ht)
    rw [Nat.div_div_eq_div_mul, show (hugeNumber virtualBase + i - 1) / (512 * 512) =
      hugeNumber va / 2 ^ 18 by omega] at hparent
    rw [rangeFrames, if_neg h0] at hnext
    rw [hparent]
    by_cases hsame : hugeNumber va / 512 = (hugeNumber virtualBase + i - 1) / 512
    · rw [hsame, missing_of_isSome ht]
      omega
    · omega

private theorem HugeProgress.step {s : PageTables} {i : Nat}
    (h : HugeProgress t s virtualBase physicalBase p i) (hva : virtualBase % hugePageSize = 0)
    (hpa : physicalBase % hugePageSize = 0)
    (hnumber : ∀ j ≤ i, hugeNumber (virtualBase + j * hugePageSize) = hugeNumber virtualBase + j)
    (hslot : (hugeNumber virtualBase + i) / 2 ^ 18 = hugeNumber virtualBase / 2 ^ 18)
    (hb : physicalBase + i * hugePageSize < 2 ^ 52)
    (hfree : t.view.Free (hugeNumber virtualBase + i))
    (hroom : t.nextFrame + rangeFrames virtualBase (i + 1) ≤ t.arenaFrames) :
    ∃ s', mapHugePage (virtualBase + i * hugePageSize) (physicalBase + i * hugePageSize) p s =
      some (.ok (), s') ∧ HugeProgress t s' virtualBase physicalBase p (i + 1) := by
  have hni := hnumber i (Nat.le_refl i)
  have hf : s.view.Free (hugeNumber (virtualBase + i * hugePageSize)) := by
    rw [hni]
    constructor
    · rw [h.added.outside _ fun j hj he ↦ ?_]
      · exact hfree.1
      · rw [hnumber j (by omega)] at he
        omega
    · rw [h.added.tabled_eq]
      exact hfree.2
  have hneed := h.frames_le hslot hni
  obtain ⟨s', hrun, hk, hview, hnext, htable⟩ := mapHugePage_total (p := p) h.keeps.wf
    (show (virtualBase + i * hugePageSize) % hugePageSize = 0 by
      rw [Nat.add_mul_mod_self_right, hva])
    (show (physicalBase + i * hugePageSize) % hugePageSize = 0 by
      rw [Nat.add_mul_mod_self_right, hpa])
    hb hf (by rw [h.keeps.frames_eq]; omega)
  refine ⟨s', hrun, h.keeps.trans hk, ?_, ?_, by omega⟩
  · rw [hview]
    exact (h.added.succ_of_free hf).2
  · intro _
    rw [hni] at htable
    exact htable

/-- A range of free 2 MiB slots within one root entry is mapped completely if the arena
has the frames for its tables. -/
theorem mapHugeRange_total (h : t.WF) (hva : virtualBase % hugePageSize = 0)
    (hpa : physicalBase % hugePageSize = 0)
    (hslot : hugeNumber virtualBase + divCeil length hugePageSize ≤
      (hugeNumber virtualBase / 2 ^ 18 + 1) * 2 ^ 18)
    (hu : virtualBase + divCeil length hugePageSize * hugePageSize ≤ 2 ^ 64)
    (hb : physicalBase + divCeil length hugePageSize * hugePageSize ≤ 2 ^ 52)
    (hfree : ∀ i < divCeil length hugePageSize, t.view.Free (hugeNumber virtualBase + i))
    (hroom : t.nextFrame + rangeFrames virtualBase (divCeil length hugePageSize) ≤
      t.arenaFrames) :
    ∃ t', mapHugeRange virtualBase physicalBase length p t = some (.ok (), t') ∧
      t'.nextFrame ≤ t.nextFrame + rangeFrames virtualBase (divCeil length hugePageSize) := by
  have hpos : 0 < hugePageSize := by decide
  have hnumber : ∀ i < divCeil length hugePageSize,
      hugeNumber (virtualBase + i * hugePageSize) = hugeNumber virtualBase + i := by
    intro i hi
    have hoff : i * hugePageSize + hugePageSize ≤ divCeil length hugePageSize * hugePageSize :=
      item_end_le hi
    simp only [hugeNumber, hugePageSize] at *
    omega
  have hstep : ∀ i s, i < divCeil length hugePageSize →
      HugeProgress t s virtualBase physicalBase p i →
      ∃ s', mapHugePage (virtualBase + i * hugePageSize) (physicalBase + i * hugePageSize) p s =
        some (.ok (), s') ∧ HugeProgress t s' virtualBase physicalBase p (i + 1) := by
    intro i s hi hprogress
    have hoff : i * hugePageSize + hugePageSize ≤ divCeil length hugePageSize * hugePageSize :=
      item_end_le hi
    have hle : rangeFrames virtualBase (i + 1) ≤
        rangeFrames virtualBase (divCeil length hugePageSize) := rangeFrames_mono hi
    apply hprogress.step hva hpa
    · exact fun j hj ↦ hnumber j (by omega)
    · omega
    · omega
    · exact hfree i hi
    · omega
  have hloop : ∃ t', mapHugeRange virtualBase physicalBase length p t = some (.ok (), t') ∧
      HugeProgress t t' virtualBase physicalBase p (divCeil length hugePageSize) :=
    forPages_total (fun i s ↦ HugeProgress t s virtualBase physicalBase p i) hpos hu
      (Nat.le_trans hb (by decide)) hstep ⟨h.keeps_self, .zero, by omega, by simp [rangeFrames]⟩
  obtain ⟨t', hrun, hprogress⟩ := hloop
  exact ⟨t', hrun, hprogress.next_le⟩

private theorem mapHugePageLenient_total (h : t.WF) {va pa : Nat} (hva : va % hugePageSize = 0)
    (hpa : pa % hugePageSize = 0) (hb : pa < 2 ^ 52) (hroom : t.nextFrame + 2 ≤ t.arenaFrames) :
    ∃ t', mapHugePageLenient va pa p t = some (.ok (), t') ∧ Keeps t t' ∧
      t'.nextFrame ≤ t.nextFrame + 2 := by
  have hneed := t.directoryFrames_le_two va
  obtain ⟨t', hk, hcase⟩ := mapHugePage_spec h va pa p hva hpa hb
  refine ⟨t', ?_⟩
  rw [mapHugePageLenient, Proc.run_bind, Proc.run_attempt]
  rcases hcase with ⟨hrun, -, -, -, hnext, -⟩ | ⟨hrun, -, hnext, -⟩ | ⟨-, -, hfull⟩
  · rw [hrun]
    exact ⟨rfl, hk, by omega⟩
  · rw [hrun]
    exact ⟨rfl, hk, by omega⟩
  · omega

/-- A lenient range is passed over completely, whatever its slots hold, if the arena has two
frames for each. -/
theorem mapHugeRangeLenient_total (h : t.WF) (hva : virtualBase % hugePageSize = 0)
    (hpa : physicalBase % hugePageSize = 0)
    (hu : virtualBase + divCeil length hugePageSize * hugePageSize ≤ 2 ^ 64)
    (hb : physicalBase + divCeil length hugePageSize * hugePageSize ≤ 2 ^ 52)
    (hroom : t.nextFrame + 2 * divCeil length hugePageSize ≤ t.arenaFrames) :
    ∃ t', mapHugeRangeLenient virtualBase physicalBase length p t = some (.ok (), t') ∧
      t'.nextFrame ≤ t.nextFrame + 2 * divCeil length hugePageSize := by
  have hpos : 0 < hugePageSize := by decide
  have hstep : ∀ i s, i < divCeil length hugePageSize →
      Keeps t s ∧ s.nextFrame ≤ t.nextFrame + 2 * i →
      ∃ s', mapHugePageLenient (virtualBase + i * hugePageSize)
        (physicalBase + i * hugePageSize) p s = some (.ok (), s') ∧
        Keeps t s' ∧ s'.nextFrame ≤ t.nextFrame + 2 * (i + 1) := by
    rintro i s hi ⟨hk, hnext⟩
    have hoff : i * hugePageSize + hugePageSize ≤ divCeil length hugePageSize * hugePageSize :=
      item_end_le hi
    obtain ⟨s', hrun, hk', hnext'⟩ := mapHugePageLenient_total (p := p) hk.wf
      (show (virtualBase + i * hugePageSize) % hugePageSize = 0 by
        rw [Nat.add_mul_mod_self_right, hva])
      (show (physicalBase + i * hugePageSize) % hugePageSize = 0 by
        rw [Nat.add_mul_mod_self_right, hpa])
      (by omega) (by rw [hk.frames_eq]; omega)
    exact ⟨s', hrun, hk.trans hk', by omega⟩
  have hloop : ∃ t', mapHugeRangeLenient virtualBase physicalBase length p t =
      some (.ok (), t') ∧ Keeps t t' ∧
      t'.nextFrame ≤ t.nextFrame + 2 * divCeil length hugePageSize :=
    forPages_total (fun i s ↦ Keeps t s ∧ s.nextFrame ≤ t.nextFrame + 2 * i) hpos hu
      (Nat.le_trans hb (by decide)) hstep ⟨h.keeps_self, Nat.le_refl _⟩
  obtain ⟨t', hrun, -, hnext⟩ := hloop
  exact ⟨t', hrun, hnext⟩

/-- The first `i` pages of a range within one 2 MiB slot are mapped, and no more frames were
used than one table of each level. -/
structure PageProgress (t s : PageTables) (virtualBase physicalBase : Nat) (p : Permissions)
    (i : Nat) : Prop where
  keeps : Keeps t s
  added : PagesAdded t.view s.view virtualBase physicalBase i p
  table : i ≠ 0 → (s.tree.table 3 (hugeNumber virtualBase)).isSome
  next_le : s.nextFrame ≤ t.nextFrame + if i = 0 then 0 else 3

private theorem PageProgress.frames_le {s : PageTables} {i : Nat}
    (h : PageProgress t s virtualBase physicalBase p i) {va : Nat}
    (hva : hugeNumber va = hugeNumber virtualBase) :
    s.nextFrame + s.directoryFrames va + s.missing 3 (hugeNumber va) ≤ t.nextFrame + 3 := by
  have hnext := h.next_le
  rw [hva]
  by_cases h0 : i = 0
  · have h1 := s.missing_le_one (ℓ := 1) (n := hugeNumber va / 2 ^ 18)
    have h2 := s.missing_le_one (ℓ := 2) (n := hugeNumber va / 512)
    have h3 := s.missing_le_one (ℓ := 3) (n := hugeNumber virtualBase)
    rw [if_pos h0] at hnext
    rw [directoryFrames]
    omega
  · have ht := h.table h0
    have hd : s.directoryFrames va = 0 :=
      directoryFrames_of_isSome (by rw [hva]; exact parent_isSome ht)
    rw [if_neg h0] at hnext
    rw [hd, missing_of_isSome ht]
    omega

private theorem PageProgress.step {s : PageTables} {i : Nat}
    (h : PageProgress t s virtualBase physicalBase p i) (hva : virtualBase % pageSize = 0)
    (hpa : physicalBase % pageSize = 0)
    (hnumber : ∀ j ≤ i, hugeNumber (virtualBase + j * pageSize) = hugeNumber virtualBase ∧
      pageNumber (virtualBase + j * pageSize) = pageNumber virtualBase + j)
    (hb : physicalBase + i * pageSize < 2 ^ 52) (hh : t.view.huge (hugeNumber virtualBase) = none)
    (hp : t.view.page (pageNumber (virtualBase + i * pageSize)) = none)
    (hroom : t.nextFrame + 3 ≤ t.arenaFrames) :
    ∃ s', mapPage (virtualBase + i * pageSize) (physicalBase + i * pageSize) p s =
      some (.ok (), s') ∧ PageProgress t s' virtualBase physicalBase p (i + 1) := by
  obtain ⟨hnh, hnp⟩ := hnumber i (Nat.le_refl i)
  have hhuge : s.view.huge (hugeNumber (virtualBase + i * pageSize)) = none := by
    rw [hnh, h.added.huge_eq, hh]
  have hpage : s.view.page (pageNumber (virtualBase + i * pageSize)) = none := by
    rw [h.added.outside _ fun j hj he ↦ ?_, hp]
    rw [hnp, (hnumber j (by omega)).2] at he
    omega
  have hneed := h.frames_le hnh
  obtain ⟨s', hrun, hk, hview, hnext, htable⟩ := mapPage_total (p := p) h.keeps.wf
    (show (virtualBase + i * pageSize) % pageSize = 0 by rw [Nat.add_mul_mod_self_right, hva])
    (show (physicalBase + i * pageSize) % pageSize = 0 by rw [Nat.add_mul_mod_self_right, hpa])
    hb hhuge hpage (by rw [h.keeps.frames_eq]; omega)
  refine ⟨s', hrun, h.keeps.trans hk, ?_, ?_, ?_⟩
  · rw [hview]
    exact h.added.succ hpage hhuge
  · intro _
    rw [hnh] at htable
    exact htable
  · rw [if_neg (Nat.succ_ne_zero i)]
    omega

/-- A range of unmapped pages within one 2 MiB slot is mapped completely if the arena has
three more frames. -/
theorem mapRange_total (h : t.WF) (hva : virtualBase % pageSize = 0)
    (hpa : physicalBase % pageSize = 0)
    (hslot : virtualBase % hugePageSize + divCeil length pageSize * pageSize ≤ hugePageSize)
    (hu : virtualBase + divCeil length pageSize * pageSize ≤ 2 ^ 64)
    (hb : physicalBase + divCeil length pageSize * pageSize ≤ 2 ^ 52)
    (hh : t.view.huge (hugeNumber virtualBase) = none)
    (hp : ∀ i < divCeil length pageSize,
      t.view.page (pageNumber (virtualBase + i * pageSize)) = none)
    (hroom : t.nextFrame + 3 ≤ t.arenaFrames) :
    ∃ t', mapRange virtualBase physicalBase length p t = some (.ok (), t') ∧
      t'.nextFrame ≤ t.nextFrame + 3 := by
  have hpos : 0 < pageSize := by decide
  have hnumber : ∀ i < divCeil length pageSize,
      hugeNumber (virtualBase + i * pageSize) = hugeNumber virtualBase ∧
        pageNumber (virtualBase + i * pageSize) = pageNumber virtualBase + i := by
    intro i hi
    have hoff : i * pageSize + pageSize ≤ divCeil length pageSize * pageSize := item_end_le hi
    simp only [hugeNumber, pageNumber, hugePageSize, pageSize] at *
    omega
  have hstep : ∀ i s, i < divCeil length pageSize →
      PageProgress t s virtualBase physicalBase p i →
      ∃ s', mapPage (virtualBase + i * pageSize) (physicalBase + i * pageSize) p s =
        some (.ok (), s') ∧ PageProgress t s' virtualBase physicalBase p (i + 1) := by
    intro i s hi hprogress
    have hoff : i * pageSize + pageSize ≤ divCeil length pageSize * pageSize := item_end_le hi
    apply hprogress.step hva hpa
    · exact fun j hj ↦ hnumber j (by omega)
    · omega
    · exact hh
    · exact hp i hi
    · exact hroom
  have hloop : ∃ t', mapRange virtualBase physicalBase length p t = some (.ok (), t') ∧
      PageProgress t t' virtualBase physicalBase p (divCeil length pageSize) :=
    forPages_total (fun i s ↦ PageProgress t s virtualBase physicalBase p i) hpos hu
      (Nat.le_trans hb (by decide)) hstep ⟨h.keeps_self, .zero, by omega, by simp⟩
  obtain ⟨t', hrun, hprogress⟩ := hloop
  refine ⟨t', hrun, Nat.le_trans hprogress.next_le ?_⟩
  split <;> omega

end PageTables
end LokoOS.Boot
