import LokoOS.Security.Trust

/-!
# What gets installed over time

Packages are offered one after the other for one id, and each decision of `evaluate_install` in
`security/loko-security/src/trust.rs` reads what the earlier ones left installed. The log lists
all installations with the decision that allowed them.
-/

namespace LokoOS.Security

/-- A package offered for an id, with or without developer mode. -/
structure Offer (id : String) where
  package : Package
  developerMode : Bool
  named : package.id = id

/-- An offer that was installed, and the decision that allowed it. -/
structure Installation (id : String) where
  offer : Offer id
  decision : Decision

/-- What is installed for an id, and all installations so far. -/
structure Site (id : String) where
  installed : Option Version
  log : List (Installation id)

variable {id : String}

/-- The version that an installation brought. -/
def Installation.version (i : Installation id) : Version := i.offer.package.version

namespace Site

/-- Nothing was ever installed. -/
def fresh (id : String) : Site id := ⟨none, []⟩

/-- What an offer asks for. -/
def intent (s : Site id) : Intent :=
  match s.installed with
  | none => .FreshInstall
  | some installed => .Update installed

/-- Offer a package, and install it if that can proceed. -/
def offer (s : Site id) (o : Offer id) : Site id :=
  let decision := evaluateInstall o.package s.intent o.developerMode
  if decision.canProceed then ⟨some o.package.version, s.log ++ [⟨o, decision⟩]⟩ else s

/-- Offer packages in order. -/
def run (s : Site id) (offers : List (Offer id)) : Site id := offers.foldl offer s

end Site

/-- Where an installed package may come from, and how it was let in. -/
structure Installation.Provenance (i : Installation id) : Prop where
  intact : i.offer.package.signature ≠ .Invalid
  unsigned : i.offer.package.signature = .Unsigned →
    i.offer.developerMode = true ∧ i.decision = .WarnThenInstall .Unsigned
  system : i.offer.package.claimsSystemComponent = true →
    i.offer.package.signature = .LokoOfficial ∧ i.offer.package.source = .SystemUpdate
  silent : i.decision.isSilent = true → i.offer.package.signature.provesIdentity = true ∧
    (i.offer.package.source = .LokoStore ∨ i.offer.package.source = .SystemUpdate)

/-- The last installation is the one that is installed, versions ascend in the order of their
fields, and every installation has its provenance. -/
structure Site.Sound (s : Site id) : Prop where
  current : s.installed = s.log.getLast?.map Installation.version
  ascending : s.log.Pairwise fun i j ↦ i.version.key < j.version.key
  provenance : ∀ i ∈ s.log, i.Provenance

variable {s : Site id} {o : Offer id} {offers : List (Offer id)}

private theorem Site.offer_of_proceeds
    (h : (evaluateInstall o.package s.intent o.developerMode).canProceed = true) :
    s.offer o = ⟨some o.package.version,
      s.log ++ [⟨o, evaluateInstall o.package s.intent o.developerMode⟩]⟩ := if_pos h

private theorem Site.offer_of_refuses
    (h : ¬ (evaluateInstall o.package s.intent o.developerMode).canProceed = true) :
    s.offer o = s := if_neg h

private theorem provenance_of_proceeds {intent : Intent}
    (h : (evaluateInstall o.package intent o.developerMode).canProceed = true) :
    Installation.Provenance ⟨o, evaluateInstall o.package intent o.developerMode⟩ := by
  obtain ⟨hvalid, hsystem, -, hdecision⟩ := evaluateInstall_of_proceeds h
  rw [hdecision] at h ⊢
  constructor
  · exact hvalid
  · intro hunsigned
    have hdeveloper := signatureDecision_canProceed.mp h hunsigned
    exact ⟨hdeveloper, signatureDecision_unsigned hunsigned hdeveloper⟩
  · exact systemRefusal_eq_none.mp hsystem
  · intro hsilent
    have hinstall := Decision.isSilent_iff.mp hsilent
    exact signatureDecision_eq_install.mp hinstall

private theorem Site.Sound.le_installed (h : s.Sound) {installed : Version}
    (hs : s.installed = some installed) {i : Installation id} (hi : i ∈ s.log) :
    i.version.key ≤ installed.key := by
  rw [h.current, Option.map_eq_some_iff] at hs
  obtain ⟨last, hlast, rfl⟩ := hs
  obtain ⟨earlier, hlog⟩ := List.getLast?_eq_some_iff.mp hlast
  have hpair := h.ascending
  rw [hlog] at hi hpair
  rcases List.mem_append.mp hi with hearlier | hsame
  · exact ((List.pairwise_append.mp hpair).2.2 i hearlier last (List.mem_singleton_self _)).le
  · rw [List.mem_singleton.mp hsame]

private theorem Site.Sound.newer (h : s.Sound)
    (hproceed : (evaluateInstall o.package s.intent o.developerMode).canProceed = true)
    {i : Installation id} (hi : i ∈ s.log) : i.version.key < o.package.version.key := by
  obtain ⟨-, -, hversion, -⟩ := evaluateInstall_of_proceeds hproceed
  cases hs : s.installed with
  | none =>
    rw [h.current, Option.map_eq_none_iff, List.getLast?_eq_none_iff] at hs
    rw [hs] at hi
    cases hi
  | some installed =>
    unfold Site.intent at hversion
    rw [hs] at hversion
    exact (h.le_installed hs hi).trans_lt (versionRefusal_update.mp hversion)

/-- One offer keeps the site sound. -/
theorem Site.Sound.offer (h : s.Sound) (o : Offer id) : (s.offer o).Sound := by
  by_cases hproceed : (evaluateInstall o.package s.intent o.developerMode).canProceed = true
  · rw [Site.offer_of_proceeds hproceed]
    constructor
    · simp [Installation.version]
    · rw [List.pairwise_append]
      refine ⟨h.ascending, List.pairwise_singleton _ _, fun i hi j hj ↦ ?_⟩
      rw [List.mem_singleton.mp hj]
      exact h.newer hproceed hi
    · intro i hi
      rcases List.mem_append.mp hi with hearlier | hnew
      · exact h.provenance i hearlier
      · rw [List.mem_singleton.mp hnew]
        exact provenance_of_proceeds hproceed
  · rw [Site.offer_of_refuses hproceed]
    exact h

/-- Installed software only moves forward and keeps its provenance, whatever packages are
offered for an id and in whatever order. -/
theorem installs_move_forward (id : String) (offers : List (Offer id)) :
    ((Site.fresh id).run offers).Sound := by
  apply List.foldlRecOn offers
  · exact ⟨rfl, List.Pairwise.nil, by simp [Site.fresh]⟩
  · intro s hs o _
    exact hs.offer o

end LokoOS.Security
