import LokoOS.Base.Text

/-!
# The root taxonomy

Models `filesystem/lkofs-core/src/root.rs`: the closed set of top-level names, how a name is
recognised, and the protection of what lies under it.
-/

namespace LokoOS.Filesystem

open LokoOS.Base

/-- A top-level root; `root.rs:15–54`. -/
inductive Root
  | System
  | Users
  | Apps
  | Drivers
  | Services
  | Runtime
  | Config
  | Data
  | Temp
  | Cache
  | Logs
  | Recovery
  | Boot
  | Ai
  | Linder
  | Lowser
  | Store
  | Compatibility
  | Dev
  deriving DecidableEq, Repr

/-- How strongly a location is protected; `root.rs:61–74`. -/
inductive Protection
  | SystemImmutable
  | SystemManaged
  | UserOwned
  | Volatile
  deriving DecidableEq, Repr

/-- Whether an application could ever be granted write access; `root.rs:77–81`. -/
def Protection.appWritable : Protection → Bool
  | UserOwned | Volatile => true
  | _ => false

/-- The bucket a location counts against in the storage dashboard; `root.rs:95–116`. -/
inductive StorageCategory
  | BaseSystem
  | Applications
  | Compatibility
  | AiModels
  | Cache
  | Temporary
  | UserFiles
  | Recovery
  | Developer
  deriving DecidableEq, Repr

namespace Root

/-- Every root, in discriminant order; `root.rs:148–168`. -/
def all : List Root :=
  [System, Users, Apps, Drivers, Services, Runtime, Config, Data, Temp, Cache, Logs, Recovery,
    Boot, Ai, Linder, Lowser, Store, Compatibility, Dev]

/-- Canonical spelling; `root.rs:172–194`. -/
def name : Root → Text
  | System => "System".toList
  | Users => "Users".toList
  | Apps => "Apps".toList
  | Drivers => "Drivers".toList
  | Services => "Services".toList
  | Runtime => "Runtime".toList
  | Config => "Config".toList
  | Data => "Data".toList
  | Temp => "Temp".toList
  | Cache => "Cache".toList
  | Logs => "Logs".toList
  | Recovery => "Recovery".toList
  | Boot => "Boot".toList
  | Ai => "AI".toList
  | Linder => "Linder".toList
  | Lowser => "Lowser".toList
  | Store => "Store".toList
  | Compatibility => "Compatibility".toList
  | Dev => "Dev".toList

/-- Recognise a root name whatever the case of its letters; `root.rs:207–215`. -/
def parse (s : Text) : Option Root :=
  if s.isAscii then all.find? fun r ↦ r.name.eqIgnoreAsciiCase s else none

/-- Protection of the root itself; `root.rs:223–244`. -/
def protection : Root → Protection
  | System | Drivers | Boot | Recovery => .SystemImmutable
  | Services | Runtime | Config | Data | Logs | Store | Compatibility | Linder => .SystemManaged
  | Apps | Ai | Dev => .SystemManaged
  | Users | Lowser => .UserOwned
  | Temp | Cache => .Volatile

/-- The bucket the contents of a root are reported under; `root.rs:247–269`. -/
def storageCategory : Root → StorageCategory
  | System | Drivers | Boot | Services | Config => .BaseSystem
  | Runtime => .BaseSystem
  | Apps | Store => .Applications
  | Compatibility => .Compatibility
  | Ai => .AiModels
  | Cache | Linder | Lowser => .Cache
  | Temp => .Temporary
  | Users => .UserFiles
  | Recovery => .Recovery
  | Dev => .Developer
  | Data | Logs => .BaseSystem

variable {r r' : Root} {s t : Text}

private theorem mem_all (r : Root) : r ∈ all := by
  cases r <;> decide

/-- Names are written in ASCII. -/
theorem isAscii_name (r : Root) : r.name.isAscii = true := by
  cases r <;> decide

private theorem name_distinct :
    ∀ r ∈ all, ∀ r' ∈ all, r.name.lower = r'.name.lower → r = r' := by
  decide

/-- No two roots share a name, even when case is ignored. -/
theorem name_lower_inj : r.name.lower = r'.name.lower ↔ r = r' := by
  constructor
  · apply name_distinct r (mem_all r) r' (mem_all r')
  · intro h
    rw [h]

/-- A name is recognised exactly when it is the root's own up to case. -/
theorem parse_eq_some : parse s = some r ↔ s.lower = r.name.lower := by
  unfold parse
  constructor
  · intro h
    split at h
    · have hr := List.find?_some h
      exact (Text.eqIgnoreAsciiCase_iff.mp hr).symm
    · cases h
  · intro h
    have hs : s.isAscii = true := by
      rw [← Text.isAscii_lower, h, Text.isAscii_lower, isAscii_name]
    rw [if_pos hs]
    cases hf : all.find? fun r ↦ r.name.eqIgnoreAsciiCase s with
    | none =>
      have := List.find?_eq_none.mp hf r (mem_all r)
      rw [Text.eqIgnoreAsciiCase_iff] at this
      exact absurd h.symm this
    | some r' =>
      have hr := List.find?_some hf
      rw [Text.eqIgnoreAsciiCase_iff, h, name_lower_inj] at hr
      rw [hr]

end Root
end LokoOS.Filesystem
