import Mathlib.Algebra.BigOperators.Group.Finset.Sigma
import LokoOS.Base.Transcript
import LokoOS.Boot.AddressSpace
import LokoOS.Boot.PhysicalBits

/-!
# How much of the arena is used

`boot/loko-boot/src/paging.rs:124–335`. A table is linked on the first way that passes it, so
the frames used are counted by the distinct indices on the ways to the mapped pages. The tables
that must exist are as many as the frames used, so no other table exists and each used frame is
one table.
-/

namespace LokoOS.Boot
open LokoOS.Base LokoOS.BootProtocol

namespace MapCall

/-- The call maps a 4 KiB page. -/
def isPage : MapCall → Bool
  | page _ _ _ => true
  | hugePage _ _ _ => false

/-- Reducing the physical address keeps the virtual one. -/
@[simp] theorem virtualAddress_reduced (call : MapCall) :
    call.reduced.virtualAddress = call.virtualAddress := by
  cases call <;> rfl

/-- Reducing the physical address keeps the size of the page. -/
@[simp] theorem isPage_reduced (call : MapCall) : call.reduced.isPage = call.isPage := by
  cases call <;> rfl

private theorem physicalAddress_reduced (call : MapCall) :
    call.reduced.physicalAddress < 2 ^ 52 := by
  cases call <;> exact Nat.mod_lt _ (by decide)

/-- The distinct values that some indices take over the addresses of calls. -/
def distinct {β : Type} [DecidableEq β] (calls : List MapCall) (index : Nat → β) : Finset β :=
  (calls.map fun call ↦ index call.virtualAddress).toFinset

section Distinct

variable {β γ : Type} [DecidableEq β] [DecidableEq γ] {calls : List MapCall} {index : Nat → β}

private theorem distinct_concat (call : MapCall) :
    distinct (calls ++ [call]) index =
      insert (index call.virtualAddress) (distinct calls index) := by
  ext b
  simp only [distinct, List.mem_toFinset, List.map_append, List.map_cons, List.map_nil,
    List.mem_append, List.mem_singleton, Finset.mem_insert]
  exact or_comm

private theorem card_distinct_comp (index : Nat → β) (code : β → γ)
    (hcode : ∀ a b, code (index a) = code (index b) → index a = index b) :
    (distinct calls fun a ↦ code (index a)).card = (distinct calls index).card := by
  have himage : (distinct calls fun a ↦ code (index a)) = (distinct calls index).image code := by
    ext c
    simp [distinct]
  rw [himage]
  apply Finset.card_image_of_injOn
  intro x hx y hy hxy
  rw [Finset.mem_coe, distinct, List.mem_toFinset, List.mem_map] at hx hy
  obtain ⟨c, -, rfl⟩ := hx
  obtain ⟨d, -, rfl⟩ := hy
  exact hcode _ _ hxy

end Distinct

/-- The tables of a level that the ways to the pages of calls pass, by number. -/
def visited (calls : List MapCall) : Nat → Finset Nat
  | 0 => {0}
  | 1 => distinct calls fun a ↦ hugeNumber a / 2 ^ 18
  | 2 => distinct calls fun a ↦ hugeNumber a / 512
  | 3 => distinct (calls.filter isPage) hugeNumber
  | _ => ∅

/-- How many tables a sequence of calls needs: the root table, a table for each distinct root
index, for each distinct pair of indices, and for each distinct triple of a 4 KiB page. -/
def tablesNeeded (calls : List MapCall) : Nat :=
  1 + (distinct calls pml4Index).card +
    (distinct calls fun a ↦ (pml4Index a, pdptIndex a)).card +
    (distinct (calls.filter isPage) fun a ↦ (pml4Index a, pdptIndex a, pdIndex a)).card

private theorem card_visited (calls : List MapCall) :
    ∑ ℓ ∈ Finset.range 4, (visited calls ℓ).card = tablesNeeded calls := by
  have h1 : (visited calls 1).card = (distinct calls pml4Index).card := by
    have hnumber : (fun a ↦ hugeNumber a / 2 ^ 18) = pml4Index := by
      funext a
      have h := (PageTables.index_digits a).2.2.2.2.1
      omega
    rw [visited, hnumber]
  have h2 : (visited calls 2).card =
      (distinct calls fun a ↦ (pml4Index a, pdptIndex a)).card := by
    have hnumber : (fun a ↦ hugeNumber a / 512) = fun a ↦ pml4Index a * 512 + pdptIndex a := by
      funext a
      obtain ⟨-, -, -, -, hn4, hn3, -⟩ := PageTables.index_digits a
      omega
    rw [visited, hnumber]
    apply card_distinct_comp (fun a ↦ (pml4Index a, pdptIndex a)) fun p ↦ p.1 * 512 + p.2
    intro a b hab
    have ha := (PageTables.index_digits a).2.1
    have hb := (PageTables.index_digits b).2.1
    simp only [Prod.mk.injEq] at hab ⊢
    omega
  have h3 : (visited calls 3).card =
      (distinct (calls.filter isPage) fun a ↦ (pml4Index a, pdptIndex a, pdIndex a)).card := by
    have hnumber : hugeNumber = fun a ↦
        (pml4Index a * 512 + pdptIndex a) * 512 + pdIndex a := by
      funext a
      obtain ⟨-, -, -, -, hn4, hn3, hn2, -⟩ := PageTables.index_digits a
      omega
    rw [visited, hnumber]
    apply card_distinct_comp (fun a ↦ (pml4Index a, pdptIndex a, pdIndex a))
      fun p ↦ (p.1 * 512 + p.2.1) * 512 + p.2.2
    intro a b hab
    obtain ⟨-, ha3, ha2, -⟩ := PageTables.index_digits a
    obtain ⟨-, hb3, hb2, -⟩ := PageTables.index_digits b
    simp only [Prod.mk.injEq] at hab ⊢
    omega
  simp only [Finset.sum_range_succ, Finset.sum_range_zero, h1, h2, h3]
  rfl

end MapCall

namespace PageTables

variable {t t' u : PageTables} {call : MapCall} {calls : List MapCall} {ℓ n k : Nat}

/-! ### Every used frame is one table -/

private theorem WF.fills (h : t.WF) {known : Nat → Finset Nat}
    (hknown : ∀ ℓ ≤ 3, ∀ n ∈ known ℓ, (t.tree.table ℓ n).isSome)
    (hcount : t.nextFrame ≤ ∑ ℓ ∈ Finset.range 4, (known ℓ).card) (hk : k < t.nextFrame) :
    ∃ ℓ ≤ 3, ∃ n ∈ known ℓ, t.tree.table ℓ n = some (t.frameAt k) := by
  let keys : Finset (Σ _ : Nat, Nat) := (Finset.range 4).sigma known
  let slot (key : Σ _ : Nat, Nat) : Nat :=
    ((t.tree.table key.1 key.2).getD 0 - t.arenaBase) / pageSize
  have hslot : ∀ key ∈ keys, slot key < t.nextFrame ∧
      t.tree.table key.1 key.2 = some (t.frameAt (slot key)) := by
    intro key hkey
    rw [Finset.mem_sigma, Finset.mem_range] at hkey
    have hlevel : key.1 ≤ 3 := by omega
    obtain ⟨f, hf⟩ := Option.isSome_iff_exists.mp (hknown key.1 hlevel key.2 hkey.2)
    obtain ⟨j, hj, rfl⟩ := h.inArena key.1 key.2 f hlevel hf
    have heq : slot key = j := by
      simp only [slot, hf, Option.getD_some, frameAt, pageSize]
      omega
    rw [heq]
    exact ⟨hj, hf⟩
  have hinj : Set.InjOn slot keys := by
    intro a ha b hb hab
    have hta := (hslot a ha).2
    have htb := (hslot b hb).2
    rw [← hab] at htb
    rw [Finset.mem_coe, Finset.mem_sigma, Finset.mem_range] at ha hb
    obtain ⟨hlevel, hnumber⟩ := h.separate.inj _ _ _ _ _ (by omega) (by omega) hta htb
    cases a
    cases b
    cases hlevel
    cases hnumber
    rfl
  have hmaps : Set.MapsTo slot keys (Finset.range t.nextFrame : Set Nat) := by
    intro key hkey
    exact Finset.mem_coe.mpr (Finset.mem_range.mpr (hslot key hkey).1)
  have hcard : (Finset.range t.nextFrame).card ≤ keys.card := by
    rw [Finset.card_range, Finset.card_sigma]
    exact hcount
  obtain ⟨key, hkey, rfl⟩ := Finset.surjOn_of_injOn_of_card_le slot hmaps hinj hcard
    (Finset.mem_coe.mpr (Finset.mem_range.mpr hk))
  have hmem := hkey
  rw [Finset.mem_coe, Finset.mem_sigma, Finset.mem_range] at hmem
  exact ⟨key.1, by omega, key.2, hmem.2, (hslot key hkey).2⟩

/-- The tables that exist are exactly those visited, and as many frames are used. -/
structure Uses (t : PageTables) (calls : List MapCall) : Prop where
  wf : t.WF
  tables : ∀ ℓ ≤ 3, ∀ n, n ∈ MapCall.visited calls ℓ ↔ (t.tree.table ℓ n).isSome
  next_eq : t.nextFrame = MapCall.tablesNeeded calls

/-- It is enough that the visited tables exist and are as many as the frames used. -/
theorem WF.uses (h : t.WF)
    (hknown : ∀ ℓ ≤ 3, ∀ n ∈ MapCall.visited calls ℓ, (t.tree.table ℓ n).isSome)
    (hnext : t.nextFrame = MapCall.tablesNeeded calls) : t.Uses calls where
  wf := h
  next_eq := hnext
  tables ℓ hℓ n := by
    constructor
    · exact hknown ℓ hℓ n
    · intro hn
      obtain ⟨f, hf⟩ := Option.isSome_iff_exists.mp hn
      obtain ⟨k, hk, rfl⟩ := h.inArena ℓ n f hℓ hf
      have hcount : t.nextFrame ≤ ∑ ℓ ∈ Finset.range 4, (MapCall.visited calls ℓ).card := by
        rw [MapCall.card_visited, hnext]
      obtain ⟨ℓ', hℓ', n', hn', hf'⟩ := h.fills hknown hcount hk
      obtain ⟨rfl, rfl⟩ := h.separate.inj ℓ ℓ' n n' _ hℓ hℓ' hf hf'
      exact hn'

/-- Each used frame is one table, and no two tables share a frame. -/
theorem Uses.once (h : t.Uses calls) (hk : k < t.nextFrame) :
    ∃! key : Nat × Nat, key.1 ≤ 3 ∧ t.tree.table key.1 key.2 = some (t.frameAt k) := by
  have hcount : t.nextFrame ≤ ∑ ℓ ∈ Finset.range 4, (MapCall.visited calls ℓ).card := by
    rw [MapCall.card_visited, h.next_eq]
  obtain ⟨ℓ, hℓ, n, -, hf⟩ := h.wf.fills (fun ℓ hℓ n ↦ (h.tables ℓ hℓ n).mp) hcount hk
  refine ⟨(ℓ, n), ⟨hℓ, hf⟩, ?_⟩
  rintro ⟨ℓ', n'⟩ ⟨hℓ', hf'⟩
  obtain ⟨rfl, rfl⟩ := h.wf.separate.inj ℓ' ℓ n' n _ hℓ' hℓ hf' hf
  rfl

/-! ### One call -/

/-- How many tables on the way to the page of a call do not exist yet. -/
def needed (t : PageTables) (call : MapCall) : Nat :=
  t.directoryFrames call.virtualAddress +
    if call.isPage then t.missing 3 (hugeNumber call.virtualAddress) else 0

/-- What a call costs. If it succeeds, it used a frame for each table that did not exist, and the
tables on its way exist. It finds the arena exhausted only if there are more such tables than
frames left. -/
def Cost (t : PageTables) (call : MapCall) (t' : PageTables) : Except PagingError Unit → Prop
  | .ok () => t'.nextFrame = t.nextFrame + t.needed call ∧
      (t'.tree.table 2 (hugeNumber call.virtualAddress / 512)).isSome ∧
      (call.isPage = true → (t'.tree.table 3 (hugeNumber call.virtualAddress)).isSome)
  | .error .arenaExhausted => t.arenaFrames < t.nextFrame + t.needed call
  | .error .conflict | .error .misaligned => True

private theorem WF.call_cost (h : t.WF) (hb : call.physicalAddress < 2 ^ 52) :
    ∃ r t', call.run t = some (r, t') ∧ Keeps t t' ∧ t.Cost call t' r := by
  cases call with
  | page va pa p =>
    by_cases ha : va % pageSize ≠ 0 ∨ pa % pageSize ≠ 0
    · exact ⟨_, t, mapPage_misaligned p ha, h.keeps_self, trivial⟩
    · obtain ⟨t', hk, hcase⟩ := mapPage_spec h va pa p (by omega) (by omega) hb
      rcases hcase with ⟨hrun, -, -, -, hnext, htable⟩ | ⟨hrun, -⟩ | ⟨hrun, -, hfull⟩
      · rw [Nat.add_assoc] at hnext
        exact ⟨_, t', hrun, hk, hnext, parent_isSome htable, fun _ ↦ htable⟩
      · exact ⟨_, t', hrun, hk, trivial⟩
      · rw [Nat.add_assoc] at hfull
        exact ⟨_, t', hrun, hk, hfull⟩
  | hugePage va pa p =>
    by_cases ha : va % hugePageSize ≠ 0 ∨ pa % hugePageSize ≠ 0
    · exact ⟨_, t, mapHugePage_misaligned p ha, h.keeps_self, trivial⟩
    · obtain ⟨t', hk, hcase⟩ := mapHugePage_spec h va pa p (by omega) (by omega) hb
      rcases hcase with ⟨hrun, -, -, -, hnext, htable⟩ | ⟨hrun, -⟩ | ⟨hrun, -, hfull⟩
      · refine ⟨_, t', hrun, hk, hnext, htable, ?_⟩
        intro hpage
        cases hpage
      · exact ⟨_, t', hrun, hk, trivial⟩
      · exact ⟨_, t', hrun, hk, hfull⟩

/-- A call with any physical address, made in its reduced form, keeps the invariant at its
cost. -/
theorem WF.reduced_cost (h : t.WF) {r : Except PagingError Unit}
    (hrun : call.reduced.run t = some (r, t')) : Keeps t t' ∧ t.Cost call t' r := by
  obtain ⟨r', t'', hrun', hk, hcost⟩ := h.call_cost call.physicalAddress_reduced
  rw [hrun] at hrun'
  cases hrun'
  unfold Cost needed at hcost ⊢
  rw [MapCall.virtualAddress_reduced, MapCall.isPage_reduced] at hcost
  exact ⟨hk, hcost⟩

/-! ### Sequences of calls -/

private theorem Uses.card_insert (h : t.Uses calls) (hℓ : ℓ ≤ 3) (n : Nat) :
    (insert n (MapCall.visited calls ℓ)).card =
      (MapCall.visited calls ℓ).card + t.missing ℓ n := by
  rw [Finset.card_insert_eq_ite, missing]
  by_cases hn : n ∈ MapCall.visited calls ℓ
  · rw [if_pos hn, if_pos ((h.tables ℓ hℓ n).mp hn), Nat.add_zero]
  · rw [if_neg hn, if_neg (fun hs ↦ hn ((h.tables ℓ hℓ n).mpr hs))]

private theorem visited_concat (calls : List MapCall) (call : MapCall) :
    MapCall.visited (calls ++ [call]) 1 =
        insert (hugeNumber call.virtualAddress / 2 ^ 18) (MapCall.visited calls 1) ∧
      MapCall.visited (calls ++ [call]) 2 =
        insert (hugeNumber call.virtualAddress / 512) (MapCall.visited calls 2) ∧
      MapCall.visited (calls ++ [call]) 3 =
        if call.isPage then insert (hugeNumber call.virtualAddress) (MapCall.visited calls 3)
        else MapCall.visited calls 3 := by
  simp only [MapCall.visited]
  refine ⟨MapCall.distinct_concat call, MapCall.distinct_concat call, ?_⟩
  rw [List.filter_append]
  split
  · next hpage =>
    rw [List.filter_cons_of_pos hpage, List.filter_nil]
    exact MapCall.distinct_concat call
  · next hpage => rw [List.filter_cons_of_neg hpage, List.filter_nil, List.append_nil]

/-- One more call needs as many more tables as do not exist on its way. -/
theorem Uses.tablesNeeded_concat (h : t.Uses calls) (call : MapCall) :
    MapCall.tablesNeeded (calls ++ [call]) = MapCall.tablesNeeded calls + t.needed call := by
  obtain ⟨h1, h2, h3⟩ := visited_concat calls call
  have hc1 := h.card_insert (ℓ := 1) (by decide) (hugeNumber call.virtualAddress / 2 ^ 18)
  have hc2 := h.card_insert (ℓ := 2) (by decide) (hugeNumber call.virtualAddress / 512)
  have hc3 := h.card_insert (ℓ := 3) (by decide) (hugeNumber call.virtualAddress)
  rw [← MapCall.card_visited, ← MapCall.card_visited]
  simp only [Finset.sum_range_succ, Finset.sum_range_zero, h1, h2, h3, needed, directoryFrames]
  have h0 : (MapCall.visited (calls ++ [call]) 0).card = (MapCall.visited calls 0).card := rfl
  split
  · omega
  · omega

/-- After a call that succeeds the tables are those of the longer sequence. -/
theorem Uses.succeeded (h : t.Uses calls) (hrun : call.reduced.run t = some (.ok (), t')) :
    t'.Uses (calls ++ [call]) := by
  obtain ⟨hk, hnext, htable, hpage⟩ := h.wf.reduced_cost hrun
  obtain ⟨h1, h2, h3⟩ := visited_concat calls call
  have hold : ∀ ℓ ≤ 3, ∀ n ∈ MapCall.visited calls ℓ, (t'.tree.table ℓ n).isSome := by
    intro ℓ hℓ n hn
    obtain ⟨f, hf⟩ := Option.isSome_iff_exists.mp ((h.tables ℓ hℓ n).mp hn)
    rw [hk.tables ℓ n f hℓ hf]
    rfl
  apply hk.wf.uses
  · intro ℓ hℓ n hn
    match ℓ with
    | 0 => exact hold 0 hℓ n hn
    | 1 =>
      rw [h1, Finset.mem_insert] at hn
      cases hn with
      | inl hn =>
        have hparent := parent_isSome htable
        rw [Nat.div_div_eq_div_mul] at hparent
        rw [hn]
        exact hparent
      | inr hn => exact hold 1 hℓ n hn
    | 2 =>
      rw [h2, Finset.mem_insert] at hn
      cases hn with
      | inl hn =>
        rw [hn]
        exact htable
      | inr hn => exact hold 2 hℓ n hn
    | 3 =>
      rw [h3] at hn
      split at hn
      · next hp =>
        rw [Finset.mem_insert] at hn
        cases hn with
        | inl hn =>
          rw [hn]
          exact hpage hp
        | inr hn => exact hold 3 hℓ n hn
      · exact hold 3 hℓ n hn
  · rw [hnext, h.next_eq, h.tablesNeeded_concat call]

variable {memory : Memory} {arenaBase arenaFrames : Nat}

/-- A fresh builder uses the root table. -/
theorem uses_new (hnew : new memory arenaBase arenaFrames = some (.ok t)) : t.Uses [] := by
  obtain ⟨ha, hpos, hbelow⟩ := new_eq_ok hnew
  obtain ⟨t', hrun, hwf, -, -, -, -, hnext, -⟩ :=
    new_spec memory arenaBase arenaFrames ha hpos hbelow
  rw [hnew] at hrun
  cases hrun
  apply hwf.uses
  · intro ℓ hℓ n hn
    match ℓ with
    | 0 =>
      rw [Finset.mem_singleton.mp hn, table_root]
      rfl
    | 1 => cases hn
    | 2 => cases hn
    | 3 => cases hn
  · exact hnext

private theorem alike_of_calls (hnew : new memory arenaBase arenaFrames = some (.ok t))
    (hrun : Proc.forEach calls MapCall.run t = some (.ok (), t')) :
    ∃ u, Alike t' u ∧ u.Uses calls := by
  refine Proc.forEach_ok_invariant (fun done s ↦ ∃ u, Alike s u ∧ u.Uses done) ?_ ?_ hrun
  · intro done call s s' _ hs hcall
    obtain ⟨u, halike, huses⟩ := hs
    obtain ⟨u', hrun', halike'⟩ := (halike.call call).eq_some hcall
    exact ⟨u', halike', huses.succeeded hrun'⟩
  · have huses := uses_new hnew
    exact ⟨t, huses.wf.alike_self, huses⟩

private theorem alike_of_transcript {transcript : List (MapCall × Except PagingError Unit)}
    (hnew : new memory arenaBase arenaFrames = some (.ok t))
    (hrun : Proc.transcript MapCall.run calls t = some (transcript, t')) :
    ∃ u, Alike t' u ∧ u.WF := by
  refine Proc.transcript_invariant (fun s ↦ ∃ u, Alike s u ∧ u.WF) ?_ hrun ?_
  · intro call s answer s' hs hcall
    obtain ⟨u, halike, hwf⟩ := hs
    obtain ⟨u', hrun', halike'⟩ := (halike.call call).eq_some hcall
    exact ⟨u', halike', (hwf.reduced_cost hrun').1.wf⟩
  · have huses := uses_new hnew
    exact ⟨t, huses.wf.alike_self, huses.wf⟩

private theorem Alike.needed_eq (h : Alike t u) (call : MapCall) :
    u.needed call = t.needed call := by
  simp only [needed, directoryFrames, missing, (h.table_eq _ _).1]

/-- A call finds the arena exhausted only if more tables are missing than frames are left. -/
theorem Alike.exhausted (h : Alike t u) (hwf : u.WF)
    (hrun : call.run t = some (.error .arenaExhausted, t')) :
    t.arenaFrames - t.framesUsed < t.needed call := by
  obtain ⟨u', hrun', -⟩ := (h.call call).eq_some hrun
  have hfull : u.arenaFrames < u.nextFrame + u.needed call := (hwf.reduced_cost hrun').2
  have hle := hwf.next_le
  rw [h.frames_eq, h.next_eq] at hfull hle
  rw [h.needed_eq] at hfull
  rw [framesUsed]
  omega

/-- Arena usage is exactly the number of tables needed. On a fresh builder, calls that all
succeed use one frame for the root table and one for each distinct prefix of indices, each used
frame is one table, and the next call finds the arena exhausted only if it needs more tables
than frames are left; so does any call, whatever the calls before it answered. The window and
the low addresses together use at most 71 frames. -/
theorem arena_usage (hnew : new memory arenaBase arenaFrames = some (.ok t)) :
    (∀ calls t', Proc.forEach calls MapCall.run t = some (.ok (), t') →
      t'.framesUsed = 1 + (MapCall.distinct calls pml4Index).card +
        (MapCall.distinct calls fun a ↦ (pml4Index a, pdptIndex a)).card +
        (MapCall.distinct (calls.filter MapCall.isPage) fun a ↦
          (pml4Index a, pdptIndex a, pdIndex a)).card ∧
      (∀ k < t'.framesUsed, ∃! key : Nat × Nat,
        key.1 ≤ 3 ∧ t'.tree.table key.1 key.2 = some (t'.frameAt k)) ∧
      ∀ call t'', call.run t' = some (.error .arenaExhausted, t'') →
        t'.arenaFrames - t'.framesUsed <
          MapCall.tablesNeeded (calls ++ [call]) - MapCall.tablesNeeded calls) ∧
    (∀ calls transcript t', Proc.transcript MapCall.run calls t = some (transcript, t') →
      ∀ call t'', call.run t' = some (.error .arenaExhausted, t'') →
        t'.arenaFrames - t'.framesUsed < t'.needed call) ∧
    (arenaFrames = arenaFrameCount → ∀ highestRam ≤ maxMappedPhysical, ∃ t₁ t₂,
      mapHugeRange defaultPhysicalMemoryOffset 0 highestRam .readWrite t =
          some (.ok (), t₁) ∧
        mapHugeRange 0 0 identityMappedBytes .readExecute t₁ = some (.ok (), t₂) ∧
        t₂.framesUsed ≤ 71) := by
  refine ⟨?_, ?_, ?_⟩
  · intro calls t' hrun
    obtain ⟨u, halike, huses⟩ := alike_of_calls hnew hrun
    refine ⟨?_, ?_, ?_⟩
    · rw [framesUsed, ← halike.next_eq, huses.next_eq]
      rfl
    · intro k hk
      rw [framesUsed, ← halike.next_eq] at hk
      have honce := huses.once hk
      simp only [(halike.table_eq _ _).1, frameAt, halike.base_eq] at honce
      exact honce
    · intro call t'' hcall
      rw [huses.tablesNeeded_concat call, halike.needed_eq, Nat.add_sub_cancel_left]
      exact halike.exhausted huses.wf hcall
  · intro calls transcript t' hrun call t'' hcall
    obtain ⟨u, halike, hwf⟩ := alike_of_transcript hnew hrun
    exact halike.exhausted hwf hcall
  · intro hframes highestRam hram
    obtain ⟨ha, hpos, hbelow⟩ := new_eq_ok hnew
    obtain ⟨t', hrun, hwf, hempty, -, hcount, -, hnext, -⟩ :=
      new_spec memory arenaBase arenaFrames ha hpos hbelow
    rw [hnew] at hrun
    cases hrun
    have hfree : ∀ n < 2 ^ 27 - 2 ^ 10, t.view.Free n := by
      intro n _
      rw [hempty]
      exact ⟨rfl, rfl⟩
    have hroom : t.nextFrame + (70 + 2 * framebufferPages .none) ≤ t.arenaFrames := by
      rw [hnext, hcount, hframes]
      decide
    obtain ⟨t₁, t₁', t₂, hrun₁, hscreen, hrun₂, hused⟩ :=
      mapWindow_screen_identity_total hwf hram (by decide) hfree hroom
    cases hscreen
    rw [hnext] at hused
    exact ⟨t₁, t₂, hrun₁, hrun₂, hused⟩

/-- On an arena of the bootloader's size one small page uses four frames, and the largest window
with the low addresses at most 71. -/
theorem arena_usage_first_page :
    ∃ t t', new (fun _ ↦ 0) 0x100000 arenaFrameCount = some (.ok t) ∧
      Proc.forEach [.page 0x400000 0x200000 .readWrite] MapCall.run t = some (.ok (), t') ∧
      t'.framesUsed = 4 ∧
      ∃ t₁ t₂, mapHugeRange defaultPhysicalMemoryOffset 0 maxMappedPhysical .readWrite t =
          some (.ok (), t₁) ∧
        mapHugeRange 0 0 identityMappedBytes .readExecute t₁ = some (.ok (), t₂) ∧
        t₂.framesUsed ≤ 71 := by
  obtain ⟨t, hnew, hwf, hempty, -, hcount, -, hnext, -⟩ :=
    new_spec (fun _ ↦ 0) 0x100000 arenaFrameCount (by decide) (by decide) (by decide)
  have hroom : t.nextFrame + t.directoryFrames 0x400000 + t.missing 3 (hugeNumber 0x400000) ≤
      t.arenaFrames := by
    have hdirectories := t.directoryFrames_le_two 0x400000
    have htable := t.missing_le_one (ℓ := 3) (n := hugeNumber 0x400000)
    rw [hnext, hcount, arenaFrameCount]
    omega
  obtain ⟨t', hrun, -⟩ := mapPage_total (p := .readWrite) hwf (show 0x400000 % pageSize = 0 by rfl)
    (show 0x200000 % pageSize = 0 by rfl) (by decide) (by rw [hempty]; rfl) (by rw [hempty]; rfl)
    hroom
  have hcalls : Proc.forEach [.page 0x400000 0x200000 .readWrite] MapCall.run t =
      some (.ok (), t') := by
    rw [Proc.forEach, MapCall.run, Proc.run_bind_ok hrun]
    rfl
  obtain ⟨hfirst, -, hranges⟩ := arena_usage hnew
  refine ⟨t, t', hnew, hcalls, ?_, hranges rfl maxMappedPhysical (Nat.le_refl _)⟩
  rw [(hfirst _ t' hcalls).1]
  decide

end PageTables
end LokoOS.Boot
