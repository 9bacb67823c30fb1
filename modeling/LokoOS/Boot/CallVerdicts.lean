import LokoOS.Boot.ArenaUsage

/-!
# Which sequences of mapping calls succeed

`boot/loko-boot/src/paging.rs:193–253`. Tables are made on the way to a page, so whether a call
succeeds could depend on the calls before it and on their order. For the calls of a boot it
depends on three things only: alignment, overlap, and how many tables are needed in all.
-/

namespace LokoOS.Boot
open LokoOS.Base

namespace MapCall

variable {c d call : MapCall} {calls : List MapCall} {arenaFrames : Nat} {m m' : PageMap}

/-- Both addresses are multiples of the size of the page. -/
def Aligned (call : MapCall) : Prop :=
  call.virtualAddress % call.size = 0 ∧ call.physicalAddress % call.size = 0

instance (call : MapCall) : Decidable call.Aligned := inferInstanceAs (Decidable (_ ∧ _))

/-- Two calls map a common address. -/
def Overlaps (c d : MapCall) : Prop := ∃ a, c.Covers a ∧ d.Covers a

/-- What the page of a call is mapped to. -/
def leaf (call : MapCall) : Leaf := ⟨call.physicalAddress, call.permissions⟩

/-- What it takes for a sequence of calls to succeed on a fresh arena. -/
structure Fit (calls : List MapCall) (arenaFrames : Nat) : Prop where
  aligned : ∀ c ∈ calls, c.Aligned
  apart : calls.Pairwise fun c d ↦ ¬ c.Overlaps d
  room : tablesNeeded calls ≤ arenaFrames

/-- A map that holds the pages of the calls and nothing else. -/
structure Mapped (calls : List MapCall) (m : PageMap) : Prop where
  page_iff : ∀ v leaf, m.page v = some leaf ↔
    ∃ c ∈ calls, c.isPage = true ∧ pageNumber c.virtualAddress = v ∧ c.leaf = leaf
  huge_iff : ∀ h leaf, m.huge h = some leaf ↔
    ∃ c ∈ calls, c.isPage = false ∧ hugeNumber c.virtualAddress = h ∧ c.leaf = leaf
  tabled_iff : ∀ h, m.tabled h = true ↔
    ∃ c ∈ calls, c.isPage = true ∧ hugeNumber c.virtualAddress = h

private theorem Overlaps.symm (h : c.Overlaps d) : d.Overlaps c := by
  obtain ⟨a, hc, hd⟩ := h
  exact ⟨a, hd, hc⟩

private theorem overlaps_iff (hc : c.Aligned ∧ c.Permitted) (hd : d.Aligned ∧ d.Permitted) :
    c.Overlaps d ↔ hugeNumber c.virtualAddress = hugeNumber d.virtualAddress ∧
      (c.isPage = true → d.isPage = true →
        pageNumber c.virtualAddress = pageNumber d.virtualAddress) := by
  obtain ⟨⟨hcv, -⟩, hcc, -⟩ := hc
  obtain ⟨⟨hdv, -⟩, hdc, -⟩ := hd
  unfold Overlaps Covers
  constructor
  · rintro ⟨a, ha⟩
    cases c <;> cases d <;>
      simp only [virtualAddress, size, isPage, forall_const, Bool.false_eq_true,
        IsEmpty.forall_iff, and_true, Canonical, hugeNumber, pageNumber, hugePageSize,
        pageSize] at * <;>
      omega
  · intro h
    refine ⟨max c.virtualAddress d.virtualAddress, ?_⟩
    cases c <;> cases d <;>
      simp only [virtualAddress, size, isPage, forall_const, Bool.false_eq_true,
        IsEmpty.forall_iff, and_true, Canonical, hugeNumber, pageNumber, hugePageSize,
        pageSize] at * <;>
      omega

private theorem Permitted.reduced_eq (h : call.Permitted) : call.reduced = call := by
  have hb := h.2
  cases call <;> simp only [reduced, physicalAddress] at * <;> rw [Nat.mod_eq_of_lt hb]

private theorem Mapped.nil : Mapped [] .empty := by
  constructor <;> simp [PageMap.empty]

/-- The calls determine the map, whatever their order. -/
theorem Mapped.unique (h : Mapped calls m) {calls' : List MapCall} (h' : Mapped calls' m')
    (hsame : ∀ c, c ∈ calls' ↔ c ∈ calls) : m' = m := by
  have hpage : m'.page = m.page := by
    funext v
    apply Option.ext
    intro leaf
    rw [h'.page_iff, h.page_iff]
    simp only [hsame]
  have hhuge : m'.huge = m.huge := by
    funext n
    apply Option.ext
    intro leaf
    rw [h'.huge_iff, h.huge_iff]
    simp only [hsame]
  have htabled : m'.tabled = m.tabled := by
    funext n
    rw [Bool.eq_iff_iff, h'.tabled_iff, h.tabled_iff]
    simp only [hsame]
  exact PageMap.ext hpage hhuge htabled

private theorem tablesNeeded_le_concat (calls : List MapCall) (call : MapCall) :
    tablesNeeded calls ≤ tablesNeeded (calls ++ [call]) := by
  have hsubset {β : Type} [DecidableEq β] (cs ds : List MapCall) (index : Nat → β) :
      (distinct cs index).card ≤ (distinct (cs ++ ds) index).card := by
    apply Finset.card_le_card
    intro b hb
    simp only [distinct, List.mem_toFinset, List.map_append, List.mem_append] at hb ⊢
    exact .inl hb
  unfold tablesNeeded
  rw [List.filter_append]
  have h1 := hsubset calls [call] pml4Index
  have h2 := hsubset calls [call] fun a ↦ (pml4Index a, pdptIndex a)
  have h3 := hsubset (calls.filter isPage) ([call].filter isPage)
    fun a ↦ (pml4Index a, pdptIndex a, pdIndex a)
  omega

private theorem fit_concat : Fit (calls ++ [call]) arenaFrames ↔ Fit calls arenaFrames ∧
    call.Aligned ∧ (∀ c ∈ calls, ¬ c.Overlaps call) ∧
      tablesNeeded (calls ++ [call]) ≤ arenaFrames := by
  constructor
  · intro h
    obtain ⟨hold, -, hnew⟩ := List.pairwise_append.mp h.apart
    exact ⟨⟨fun c hc ↦ h.aligned c (List.mem_append_left _ hc), hold,
      Nat.le_trans (tablesNeeded_le_concat calls call) h.room⟩, h.aligned call (by simp),
      fun c hc ↦ hnew c hc call (List.mem_singleton_self call), h.room⟩
  · rintro ⟨h, haligned, hapart, hroom⟩
    refine ⟨?_, ?_, hroom⟩
    · intro c hc
      rcases List.mem_append.mp hc with hc | hc
      · exact h.aligned c hc
      · rwa [List.mem_singleton.mp hc]
    · refine List.pairwise_append.mpr ⟨h.apart, List.pairwise_singleton _ _, fun c hc d hd ↦ ?_⟩
      rw [List.mem_singleton.mp hd]
      exact hapart c hc

private theorem Fit.of_append {more : List MapCall} (h : Fit (calls ++ more) arenaFrames) :
    Fit calls arenaFrames := by
  induction more using List.reverseRecOn with
  | nil => rwa [List.append_nil] at h
  | append_singleton more call ih =>
    rw [← List.append_assoc] at h
    exact ih (fit_concat.mp h).1

private theorem Fit.perm (h : Fit calls arenaFrames) {calls' : List MapCall}
    (hp : calls.Perm calls') :
    Fit calls' arenaFrames where
  aligned c hc := h.aligned c (hp.mem_iff.mpr hc)
  apart := (hp.pairwise_iff fun hcd hdc ↦ hcd hdc.symm).mp h.apart
  room := by
    have hdistinct {β : Type} [DecidableEq β] {cs ds : List MapCall} (hp : cs.Perm ds)
        (index : Nat → β) : distinct ds index = distinct cs index :=
      List.toFinset_eq_of_perm _ _ (hp.symm.map _)
    rw [tablesNeeded, hdistinct hp, hdistinct hp, hdistinct (hp.filter _)]
    exact h.room

end MapCall

namespace PageTables

variable {t t' : PageTables} {memory : Memory} {arenaBase arenaFrames : Nat} {call : MapCall}
  {calls : List MapCall}

/-- The calls have been made, all with success, and nothing else. -/
structure Made (t : PageTables) (calls : List MapCall) : Prop where
  uses : t.Uses calls
  mapped : MapCall.Mapped calls t.view
  permitted : ∀ c ∈ calls, c.Permitted
  fit : MapCall.Fit calls t.arenaFrames

/-- A fresh builder has been asked for nothing. -/
theorem made_new (hnew : new memory arenaBase arenaFrames = some (.ok t)) :
    t.Made [] ∧ t.arenaFrames = arenaFrames := by
  obtain ⟨ha, hpos, hbelow⟩ := new_eq_ok hnew
  obtain ⟨t', hrun, -, hempty, -, hframes, -⟩ :=
    new_spec memory arenaBase arenaFrames ha hpos hbelow
  rw [hnew] at hrun
  cases hrun
  have huses := uses_new hnew
  have hroom := huses.wf.next_le
  rw [huses.next_eq] at hroom
  exact ⟨⟨huses, hempty ▸ .nil, by simp, by simp, .nil, hroom⟩, hframes⟩

private theorem Made.proper (h : t.Made calls) {c : MapCall} (hc : c ∈ calls) :
    c.Aligned ∧ c.Permitted := ⟨h.fit.aligned c hc, h.permitted c hc⟩

private theorem call_ok (h : t.WF) (hp : call.Permitted) (hrun : call.run t = some (.ok (), t')) :
    call.Aligned ∧ t.view.huge (hugeNumber call.virtualAddress) = none ∧
      (call.isPage = true → t.view.page (pageNumber call.virtualAddress) = none ∧
        t'.view = t.view.setPage (pageNumber call.virtualAddress) call.leaf) ∧
      (call.isPage = false → t.view.tabled (hugeNumber call.virtualAddress) = false ∧
        t'.view = t.view.setHuge (hugeNumber call.virtualAddress) call.leaf) := by
  cases call with
  | page va pa p =>
    obtain ⟨-, hva, hpa, hh, hpage, hview⟩ := mapPage_ok h hp.2 hrun
    exact ⟨⟨hva, hpa⟩, hh, fun _ ↦ ⟨hpage, hview⟩, fun hno ↦ by cases hno⟩
  | hugePage va pa p =>
    have ha : ¬ (va % hugePageSize ≠ 0 ∨ pa % hugePageSize ≠ 0) := by
      intro ha
      rw [MapCall.run, mapHugePage_misaligned p ha] at hrun
      cases hrun
    obtain ⟨-, hfree, hview⟩ := mapHugePage_ok h hp.2 hrun
    have haligned : va % hugePageSize = 0 ∧ pa % hugePageSize = 0 := by omega
    exact ⟨haligned, hfree.1, fun hno ↦ (by cases hno), fun _ ↦ ⟨hfree.2, hview⟩⟩

private theorem Made.overlaps_iff (h : t.Made calls) (hcall : call.Aligned ∧ call.Permitted) :
    (∀ c ∈ calls, ¬ c.Overlaps call) ↔
      t.view.huge (hugeNumber call.virtualAddress) = none ∧
        (call.isPage = true → t.view.page (pageNumber call.virtualAddress) = none) ∧
        (call.isPage = false → t.view.tabled (hugeNumber call.virtualAddress) = false) := by
  constructor
  · intro hapart
    refine ⟨?_, fun hpage ↦ ?_, fun hhuge ↦ ?_⟩
    · by_contra hne
      obtain ⟨leaf, hleaf⟩ := Option.ne_none_iff_exists'.mp hne
      obtain ⟨c, hc, hsize, hnumber, -⟩ := (h.mapped.huge_iff _ _).mp hleaf
      refine hapart c hc ((MapCall.overlaps_iff (h.proper hc) hcall).mpr ⟨hnumber, ?_⟩)
      intro hpage
      rw [hsize] at hpage
      cases hpage
    · by_contra hne
      obtain ⟨leaf, hleaf⟩ := Option.ne_none_iff_exists'.mp hne
      obtain ⟨c, hc, -, hnumber, -⟩ := (h.mapped.page_iff _ _).mp hleaf
      refine hapart c hc ((MapCall.overlaps_iff (h.proper hc) hcall).mpr
        ⟨?_, fun _ _ ↦ hnumber⟩)
      rw [PageMap.hugeNumber_eq, hnumber, ← PageMap.hugeNumber_eq]
    · by_contra hne
      obtain ⟨c, hc, -, hnumber⟩ := (h.mapped.tabled_iff _).mp (Bool.not_eq_false _ ▸ hne)
      refine hapart c hc ((MapCall.overlaps_iff (h.proper hc) hcall).mpr ⟨hnumber, ?_⟩)
      intro _ hpage
      rw [hhuge] at hpage
      cases hpage
  · rintro ⟨hhuge, hpage, htabled⟩ c hc hover
    obtain ⟨hnumber, hpages⟩ := (MapCall.overlaps_iff (h.proper hc) hcall).mp hover
    cases hc' : c.isPage with
    | false =>
      have := (h.mapped.huge_iff _ _).mpr ⟨c, hc, hc', hnumber, rfl⟩
      rw [hhuge] at this
      cases this
    | true =>
      cases hcall' : call.isPage with
      | false =>
        have := (h.mapped.tabled_iff _).mpr ⟨c, hc, hc', hnumber⟩
        rw [htabled hcall'] at this
        cases this
      | true =>
        have := (h.mapped.page_iff _ _).mpr ⟨c, hc, hc', hpages hc' hcall', rfl⟩
        rw [hpage hcall'] at this
        cases this

private theorem exists_mem_concat {P : MapCall → Prop} :
    (∃ c ∈ calls ++ [call], P c) ↔ (∃ c ∈ calls, P c) ∨ P call := by
  simp only [List.mem_append, List.mem_singleton, or_and_right, exists_or, exists_eq_left]

private theorem Made.mapped_setPage (h : t.Made calls) (hcall : call.isPage = true)
    (hnone : t.view.page (pageNumber call.virtualAddress) = none) :
    MapCall.Mapped (calls ++ [call])
      (t.view.setPage (pageNumber call.virtualAddress) call.leaf) where
  page_iff v leaf := by
    rw [PageMap.setPage_page, exists_mem_concat, ← h.mapped.page_iff]
    split
    · next hv => simp [hv, hnone, hcall]
    · next hv => simp [Ne.symm hv]
  huge_iff n leaf := by
    rw [PageMap.setPage_huge, exists_mem_concat, ← h.mapped.huge_iff]
    simp [hcall]
  tabled_iff n := by
    rw [PageMap.setPage_tabled, ← PageMap.hugeNumber_eq, exists_mem_concat,
      ← h.mapped.tabled_iff]
    split
    · next hn => simp [hn, hcall]
    · next hn => simp [Ne.symm hn]

private theorem Made.mapped_setHuge (h : t.Made calls) (hcall : call.isPage = false)
    (hnone : t.view.huge (hugeNumber call.virtualAddress) = none) :
    MapCall.Mapped (calls ++ [call])
      (t.view.setHuge (hugeNumber call.virtualAddress) call.leaf) where
  page_iff v leaf := by
    rw [PageMap.setHuge_page, exists_mem_concat, ← h.mapped.page_iff]
    simp [hcall]
  huge_iff n leaf := by
    rw [PageMap.setHuge_huge, exists_mem_concat, ← h.mapped.huge_iff]
    split
    · next hn => simp [hn, hnone, hcall]
    · next hn => simp [Ne.symm hn]
  tabled_iff n := by
    rw [PageMap.setHuge_tabled, exists_mem_concat, ← h.mapped.tabled_iff]
    simp [hcall]

private theorem Made.concat (h : t.Made calls) (hp : call.Permitted)
    (hrun : call.run t = some (.ok (), t')) :
    t'.Made (calls ++ [call]) ∧ t'.arenaFrames = t.arenaFrames := by
  obtain ⟨haligned, hhuge, hpage, htabled⟩ := call_ok h.uses.wf hp hrun
  obtain ⟨hk, -⟩ := h.uses.wf.reduced_cost (by rwa [hp.reduced_eq])
  have huses : t'.Uses (calls ++ [call]) := h.uses.succeeded (by rwa [hp.reduced_eq])
  have hroom := huses.wf.next_le
  rw [huses.next_eq, hk.frames_eq] at hroom
  have hapart : ∀ c ∈ calls, ¬ c.Overlaps call := (h.overlaps_iff ⟨haligned, hp⟩).mpr
    ⟨hhuge, fun hc ↦ (hpage hc).1, fun hc ↦ (htabled hc).1⟩
  refine ⟨⟨huses, ?_, ?_, ?_⟩, hk.frames_eq⟩
  · cases hcall : call.isPage with
    | true =>
      obtain ⟨hnone, hview⟩ := hpage hcall
      rw [hview]
      exact h.mapped_setPage hcall hnone
    | false =>
      rw [(htabled hcall).2]
      exact h.mapped_setHuge hcall hhuge
  · intro c hc
    rcases List.mem_append.mp hc with hc | hc
    · exact h.permitted c hc
    · rwa [List.mem_singleton.mp hc]
  · rw [hk.frames_eq]
    exact MapCall.fit_concat.mpr ⟨h.fit, haligned, hapart, hroom⟩

/-- A call after others succeeds when it fits with them. -/
theorem Made.succeeds_iff (h : t.Made calls) (hp : call.Permitted) :
    (∃ t', call.run t = some (.ok (), t')) ↔ MapCall.Fit (calls ++ [call]) t.arenaFrames := by
  constructor
  · rintro ⟨t', hrun⟩
    obtain ⟨hmade, hframes⟩ := h.concat hp hrun
    exact hframes ▸ hmade.fit
  · intro hfit
    obtain ⟨-, haligned, hapart, hroom⟩ := MapCall.fit_concat.mp hfit
    obtain ⟨hhuge, hpage, htabled⟩ := (h.overlaps_iff ⟨haligned, hp⟩).mp hapart
    rw [h.uses.tablesNeeded_concat call, ← h.uses.next_eq] at hroom
    cases call with
    | page va pa p =>
      obtain ⟨t', -, hcase⟩ := mapPage_spec h.uses.wf va pa p haligned.1 haligned.2 hp.2
      rcases hcase with ⟨hrun, -⟩ | ⟨-, -, htaken⟩ | ⟨-, -, hfull⟩
      · exact ⟨t', hrun⟩
      · rcases htaken with hne | hne
        · exact absurd hhuge hne
        · exact absurd (hpage rfl) hne
      · simp only [needed, MapCall.virtualAddress, MapCall.isPage, if_true] at hroom
        omega
    | hugePage va pa p =>
      obtain ⟨t', -, hcase⟩ := mapHugePage_spec h.uses.wf va pa p haligned.1 haligned.2 hp.2
      rcases hcase with ⟨hrun, -⟩ | ⟨-, -, -, htaken⟩ | ⟨-, -, hfull⟩
      · exact ⟨t', hrun⟩
      · rcases htaken with hne | htab
        · exact absurd hhuge hne
        · exact absurd ((htabled rfl).symm.trans htab) Bool.false_ne_true
      · simp only [needed, MapCall.virtualAddress, MapCall.isPage, Bool.false_eq_true,
          if_false] at hroom
        omega

/-! ### Procedures that make calls -/

/-- After some calls a procedure asks for others: it succeeds exactly when all of them fit, and
then they have been made. -/
def Asks {ε : Type} (calls added : List MapCall) (x : Proc PageTables ε Unit) : Prop :=
  ∀ t : PageTables, t.Made calls →
    ((∃ t', x t = some (.ok (), t')) ↔ MapCall.Fit (calls ++ added) t.arenaFrames) ∧
    ∀ t', x t = some (.ok (), t') → t'.Made (calls ++ added) ∧ t'.arenaFrames = t.arenaFrames

section Asks

variable {ε : Type} {added more : List MapCall} {x : Proc PageTables ε Unit}

/-- Nothing is asked for. -/
theorem Asks.pure : Asks calls [] (pure () : Proc PageTables ε Unit) := by
  intro t h
  rw [List.append_nil]
  refine ⟨iff_of_true ⟨t, rfl⟩ h.fit, fun t' hrun ↦ ?_⟩
  cases hrun
  exact ⟨h, rfl⟩

/-- A call asks for itself. -/
theorem Asks.one (hp : call.Permitted) : Asks calls [call] call.run :=
  fun _ h ↦ ⟨h.succeeds_iff hp, fun _ hrun ↦ h.concat hp hrun⟩

/-- A sequence asks for what its parts ask for. -/
theorem Asks.bind {y : Unit → Proc PageTables ε Unit} (hx : Asks calls added x)
    (hy : Asks (calls ++ added) more (y ())) : Asks calls (added ++ more) (x >>= y) := by
  intro t h
  rw [← List.append_assoc]
  obtain ⟨hfit, hmade⟩ := hx t h
  constructor
  · constructor
    · rintro ⟨t', hrun⟩
      obtain ⟨_, s, hfirst, hlast⟩ := Proc.bind_eq_ok.mp hrun
      obtain ⟨hs, hframes⟩ := hmade s hfirst
      exact hframes ▸ (hy s hs).1.mp ⟨t', hlast⟩
    · intro hall
      obtain ⟨s, hfirst⟩ := hfit.mpr hall.of_append
      obtain ⟨hs, hframes⟩ := hmade s hfirst
      obtain ⟨t', hlast⟩ := (hy s hs).1.mpr (hframes.symm ▸ hall)
      exact ⟨t', Proc.bind_eq_ok.mpr ⟨(), s, hfirst, hlast⟩⟩
  · intro t' hrun
    obtain ⟨_, s, hfirst, hlast⟩ := Proc.bind_eq_ok.mp hrun
    obtain ⟨hs, hframes⟩ := hmade s hfirst
    obtain ⟨ht', hframes'⟩ := (hy s hs).2 t' hlast
    exact ⟨ht', hframes'.trans hframes⟩

/-- Translating errors asks for the same. -/
theorem Asks.mapError {δ : Type} {f : ε → δ} (hx : Asks calls added x) :
    Asks calls added (Proc.mapError f x) := by
  intro t h
  simp only [Proc.mapError_eq_ok]
  exact hx t h

/-- A checked value that is there asks for nothing. -/
theorem Asks.lift_bind {α : Type} {a : α} {o : Option α} {y : α → Proc PageTables ε Unit}
    (ho : o = some a) (hy : Asks calls added (y a)) : Asks calls added (Proc.lift o >>= y) := by
  rw [ho]
  exact hy

/-- A loop over a list asks for what its items ask for, whatever was made before. -/
theorem Asks.forEach {α : Type} {as : List α} {f : α → Proc PageTables ε Unit}
    {g : α → List MapCall} (hf : ∀ a ∈ as, ∀ calls, Asks calls (g a) (f a)) :
    Asks calls (as.flatMap g) (Proc.forEach as f) := by
  induction as generalizing calls with
  | nil => exact .pure
  | cons a as ih =>
    rw [List.flatMap_cons]
    exact (hf a (by simp) calls).bind (ih fun b hb ↦ hf b (by simp [hb]))

/-- A counted loop asks for what its items ask for. -/
theorem Asks.forRange {n : Nat} {f : Nat → Proc PageTables ε Unit} {g : Nat → List MapCall}
    (hf : ∀ i < n, Asks (calls ++ (List.range i).flatMap g) (g i) (f i)) :
    Asks calls ((List.range n).flatMap g) (Proc.forRange n f) := by
  induction n with
  | zero => exact .pure
  | succ n ih =>
    rw [List.range_succ, List.flatMap_append, List.flatMap_singleton]
    exact (ih fun i hi ↦ hf i (by omega)).bind (hf n (by omega))

end Asks

/-- Calls on a fresh builder all succeed when they fit, and then they have been made. -/
theorem forEach_asks (hp : ∀ c ∈ calls, c.Permitted) :
    Asks [] calls (Proc.forEach calls MapCall.run) := by
  have h : Asks [] (calls.flatMap fun c ↦ [c]) (Proc.forEach calls MapCall.run) :=
    .forEach fun c hc before ↦ .one (hp c hc)
  rwa [List.flatMap_singleton'] at h

/-- A sequence of permitted calls on a fresh builder succeeds exactly when every call is aligned,
no two of them map a common address, and the arena has a frame for each table that their
addresses need. Any other order of the same calls then succeeds too, and every address is
translated alike. -/
theorem calls_succeed_iff (hnew : new memory arenaBase arenaFrames = some (.ok t))
    (hp : ∀ c ∈ calls, c.Permitted) :
    ((∃ t', Proc.forEach calls MapCall.run t = some (.ok (), t')) ↔
      (∀ c ∈ calls, c.Aligned) ∧ (calls.Pairwise fun c d ↦ ∀ a, ¬ (c.Covers a ∧ d.Covers a)) ∧
        MapCall.tablesNeeded calls ≤ arenaFrames) ∧
    ∀ calls' t', calls.Perm calls' →
      Proc.forEach calls MapCall.run t = some (.ok (), t') →
      ∃ t'', Proc.forEach calls' MapCall.run t = some (.ok (), t'') ∧
        ∀ a, walk t''.memory t''.cr3Value a = walk t'.memory t'.cr3Value a := by
  obtain ⟨hfresh, hframes⟩ := made_new hnew
  obtain ⟨hiff, hmade⟩ := forEach_asks hp t hfresh
  rw [hframes, List.nil_append] at hiff
  constructor
  · rw [hiff]
    constructor
    · intro h
      exact ⟨h.aligned, h.apart.imp fun hno a ha ↦ hno ⟨a, ha⟩, h.room⟩
    · rintro ⟨haligned, hapart, hroom⟩
      exact ⟨haligned, hapart.imp fun hno ⟨a, ha⟩ ↦ hno a ha, hroom⟩
  · intro calls' t' hperm hrun
    have hp' : ∀ c ∈ calls', c.Permitted := fun c hc ↦ hp c (hperm.mem_iff.mpr hc)
    obtain ⟨hiff', hmade'⟩ := forEach_asks hp' t hfresh
    rw [hframes, List.nil_append] at hiff'
    obtain ⟨t'', hrun'⟩ := hiff'.mpr ((hiff.mp ⟨t', hrun⟩).perm hperm)
    refine ⟨t'', hrun', fun a ↦ ?_⟩
    obtain ⟨hall, -⟩ := hmade t' hrun
    obtain ⟨hall', -⟩ := hmade' t'' hrun'
    rw [walk_eq hall'.uses.wf, walk_eq hall.uses.wf,
      hall.mapped.unique hall'.mapped fun c ↦ hperm.symm.mem_iff]

/-- A small page and a large one in different slots fit in seven frames, in either order. -/
theorem calls_succeed_iff_two_pages :
    ∃ t t' t'', new (fun _ ↦ 0) 0x100000 7 = some (.ok t) ∧
      Proc.forEach [.page 0x400000 0x1000 .readWrite, .hugePage 0x8000000000 0 .readExecute]
        MapCall.run t = some (.ok (), t') ∧
      Proc.forEach [.hugePage 0x8000000000 0 .readExecute, .page 0x400000 0x1000 .readWrite]
        MapCall.run t = some (.ok (), t'') ∧
      walk t''.memory t''.cr3Value 0x400010 = walk t'.memory t'.cr3Value 0x400010 := by
  obtain ⟨t, hnew, -⟩ := new_spec (fun _ ↦ 0) 0x100000 7 (by decide) (by decide) (by decide)
  have hp : ∀ c ∈ [MapCall.page 0x400000 0x1000 .readWrite,
      .hugePage 0x8000000000 0 .readExecute], c.Permitted := by decide
  obtain ⟨hiff, horder⟩ := calls_succeed_iff hnew hp
  obtain ⟨t', hrun⟩ := hiff.mpr ⟨by decide, by
    simp only [List.pairwise_cons, List.mem_singleton, forall_eq, List.not_mem_nil,
      IsEmpty.forall_iff, implies_true, List.Pairwise.nil, and_true, MapCall.Covers,
      MapCall.virtualAddress, MapCall.size, pageSize, hugePageSize]
    omega, by decide⟩
  obtain ⟨t'', hrun', hwalk⟩ := horder _ t' (.swap _ _ _) hrun
  exact ⟨t, t', t'', hnew, hrun, hrun', hwalk _⟩

end PageTables
end LokoOS.Boot
