import LokoOS.Base.ByteMemory
import LokoOS.Base.Proc

/-!
# The page-table builder

`boot/loko-boot/src/paging.rs`. Four levels of tables are carved from one arena. The
builder carries the physical memory it writes to, since the firmware's identity mapping
makes a table's physical address its pointer. The hardware's walk of the result is
`walk`.
-/

namespace LokoOS.Boot
open LokoOS.Base

/-! ### Entries -/

/-- The mapping is valid; `paging.rs:31`. -/
def present : Nat := 1 <<< 0

/-- Writes are permitted; `paging.rs:33`. -/
def writable : Nat := 1 <<< 1

/-- The entry maps a large page; `paging.rs:35`. -/
def huge : Nat := 1 <<< 7

/-- Instruction fetches are forbidden; `paging.rs:37`. -/
def noExecute : Nat := 1 <<< 63

/-- The physical address bits of an entry; `paging.rs:41`. -/
def addressMask : Nat := 0x000FFFFFFFFFF000

/-- Bytes in a 4 KiB page; `paging.rs:44`. -/
def pageSize : Nat := 4096

/-- Bytes in a 2 MiB page; `paging.rs:46`. -/
def hugePageSize : Nat := 2 * 1024 * 1024

/-- Permissions for a mapping; `paging.rs:50`. -/
structure Permissions where
  writable : Bool
  executable : Bool
  deriving DecidableEq, Repr

namespace Permissions

/-- Read-only data; `paging.rs:59`. -/
def readOnly : Permissions := ⟨false, false⟩

/-- Read-write data; `paging.rs:64`. -/
def readWrite : Permissions := ⟨true, false⟩

/-- Executable code; `paging.rs:69`. -/
def readExecute : Permissions := ⟨false, true⟩

/-- The entry bits of permissions; `paging.rs:74`. -/
def toBits (p : Permissions) : Nat :=
  let flags := present
  let flags := if p.writable then flags ||| Boot.writable else flags
  if !p.executable then flags ||| noExecute else flags

/-- What both permissions allow. -/
def meet (p q : Permissions) : Permissions :=
  ⟨p.writable && q.writable, p.executable && q.executable⟩

end Permissions

/-- Why a mapping could not be made; `paging.rs:88`. -/
inductive PagingError where
  | arenaExhausted
  | conflict
  | misaligned
  deriving DecidableEq, Repr

/-- A message for whoever is looking at the screen; `paging.rs:102`. -/
def PagingError.message : PagingError → String
  | .arenaExhausted =>
    "LokoOS couldn't start: there isn't enough memory in this device to set it up."
  | .conflict | .misaligned =>
    "LokoOS couldn't start: it was unable to set up this device's memory."

/-! ### The builder -/

/-- A page table under construction, `paging.rs:121`, with the memory it lives in. -/
structure PageTables where
  pml4 : Nat
  arenaBase : Nat
  arenaFrames : Nat
  nextFrame : Nat
  memory : Memory

/-- `paging.rs:326`. -/
def pml4Index (address : Nat) : Nat := (address >>> 39) &&& 0x1FF

/-- `paging.rs:330`. -/
def pdptIndex (address : Nat) : Nat := (address >>> 30) &&& 0x1FF

/-- `paging.rs:334`. -/
def pdIndex (address : Nat) : Nat := (address >>> 21) &&& 0x1FF

/-- `paging.rs:338`. -/
def ptIndex (address : Nat) : Nat := (address >>> 12) &&& 0x1FF

/-- The number of arena frames to reserve; `paging.rs:324`. -/
def arenaFrameCount : Nat := 256

/-- The end of the physical address space, which the address bits of an entry can name. -/
def physicalLimit : Nat := 2 ^ 52

/-- Store bytes through an identity-mapped pointer. Outside physical memory a store has no
outcome; a store of nothing has no effect anywhere. -/
def storePhysical (memory : Memory) (address : Nat) (bytes : List UInt8) : Option Memory :=
  if bytes.length = 0 ∨ address + bytes.length ≤ physicalLimit then
    some (memory.store address bytes)
  else none

/-- Read a table entry; `paging.rs:176`. -/
def readEntry (memory : Memory) (table index : Nat) : Nat := memory.loadWord (table + index * 8)

namespace PageTables

/-- Take the next zeroed frame from the arena; `paging.rs:166`. -/
def takeFrame : Proc PageTables PagingError Nat := do
  let t ← Proc.get
  if t.nextFrame ≥ t.arenaFrames then Proc.fail .arenaExhausted
  else do
    let offset ← Proc.lift (mulU64 t.nextFrame pageSize)
    let address ← Proc.lift (addU64 t.arenaBase offset)
    let next ← Proc.lift (addU64 t.nextFrame 1)
    Proc.modify fun t ↦ { t with nextFrame := next }
    pure address

/-- Take ownership of an arena, clearing it; `paging.rs:137`. The first frame becomes the
root table. -/
def new (memory : Memory) (arenaBase arenaFrames : Nat) :
    Option (Except PagingError PageTables) :=
  if arenaBase % pageSize ≠ 0 ∨ arenaFrames = 0 then some (.error .misaligned)
  else do
    let bytes ← mulU64 arenaFrames pageSize
    let cleared ← storePhysical memory arenaBase (List.replicate bytes 0)
    let (result, t) ← takeFrame ⟨0, arenaBase, arenaFrames, 0, cleared⟩
    some (result.map fun pml4 ↦ { t with pml4 := pml4 })

/-- The physical address to load into `cr3`; `paging.rs:155`. -/
def cr3Value (t : PageTables) : Nat := t.pml4

/-- How many arena frames have been used; `paging.rs:161`. -/
def framesUsed (t : PageTables) : Nat := t.nextFrame

/-- Write a table entry; `paging.rs:184`. -/
def writeEntry (table index value : Nat) : Proc PageTables PagingError Unit :=
  Proc.modify fun t ↦ { t with memory := t.memory.storeWord (table + index * 8) value }

/-- The next-level table for `index`, created if absent; `paging.rs:194`. -/
def descend (table index : Nat) : Proc PageTables PagingError Nat := do
  let t ← Proc.get
  let entry := readEntry t.memory table index
  if entry &&& present ≠ 0 then
    if entry &&& huge ≠ 0 then Proc.fail .conflict else pure (entry &&& addressMask)
  else do
    let frame ← takeFrame
    writeEntry table index (frame ||| present ||| writable)
    pure frame

/-- Write a leaf entry unless the slot is taken; `paging.rs:221–226,244–252`. -/
def writeLeaf (table index value : Nat) : Proc PageTables PagingError Unit := do
  let t ← Proc.get
  let existing := readEntry t.memory table index
  if existing &&& present ≠ 0 then Proc.fail .conflict else writeEntry table index value

/-- Map one 4 KiB page; `paging.rs:207`. -/
def mapPage (virtualAddress physicalAddress : Nat) (permissions : Permissions) :
    Proc PageTables PagingError Unit :=
  if virtualAddress % pageSize ≠ 0 ∨ physicalAddress % pageSize ≠ 0 then
    Proc.fail .misaligned
  else do
    let t ← Proc.get
    let pdpt ← descend t.pml4 (pml4Index virtualAddress)
    let pd ← descend pdpt (pdptIndex virtualAddress)
    let pt ← descend pd (pdIndex virtualAddress)
    writeLeaf pt (ptIndex virtualAddress) (physicalAddress ||| permissions.toBits)

/-- Map one 2 MiB page; `paging.rs:230`. -/
def mapHugePage (virtualAddress physicalAddress : Nat) (permissions : Permissions) :
    Proc PageTables PagingError Unit :=
  if virtualAddress % hugePageSize ≠ 0 ∨ physicalAddress % hugePageSize ≠ 0 then
    Proc.fail .misaligned
  else do
    let t ← Proc.get
    let pdpt ← descend t.pml4 (pml4Index virtualAddress)
    let pd ← descend pdpt (pdptIndex virtualAddress)
    writeLeaf pd (pdIndex virtualAddress) (physicalAddress ||| permissions.toBits ||| huge)

/-- The loop that the range functions share: one call for each page of a length rounded
up, at the same offset in both address spaces. -/
def forPages (size virtualBase physicalBase length : Nat)
    (map : Nat → Nat → Proc PageTables PagingError Unit) : Proc PageTables PagingError Unit :=
  Proc.forRange (divCeil length size) fun i ↦ do
    let offset ← Proc.lift (mulU64 i size)
    let virtualAddress ← Proc.lift (addU64 virtualBase offset)
    let physicalAddress ← Proc.lift (addU64 physicalBase offset)
    map virtualAddress physicalAddress

/-- Map a range with 2 MiB pages; `paging.rs:257`. -/
def mapHugeRange (virtualBase physicalBase length : Nat) (permissions : Permissions) :
    Proc PageTables PagingError Unit :=
  forPages hugePageSize virtualBase physicalBase length fun virtualAddress physicalAddress ↦
    mapHugePage virtualAddress physicalAddress permissions

/-- One page of the lenient range: an existing mapping counts as success;
`paging.rs:288–291`. -/
def mapHugePageLenient (virtualAddress physicalAddress : Nat) (permissions : Permissions) :
    Proc PageTables PagingError Unit := do
  match ← Proc.attempt (mapHugePage virtualAddress physicalAddress permissions) with
  | .ok () => pure ()
  | .error .conflict => pure ()
  | .error other => Proc.fail other

/-- Like `mapHugeRange`, but an existing mapping counts as success; `paging.rs:278`. -/
def mapHugeRangeLenient (virtualBase physicalBase length : Nat) (permissions : Permissions) :
    Proc PageTables PagingError Unit :=
  forPages hugePageSize virtualBase physicalBase length fun virtualAddress physicalAddress ↦
    mapHugePageLenient virtualAddress physicalAddress permissions

/-- Map a range with 4 KiB pages; `paging.rs:297`. -/
def mapRange (virtualBase physicalBase length : Nat) (permissions : Permissions) :
    Proc PageTables PagingError Unit :=
  forPages pageSize virtualBase physicalBase length fun virtualAddress physicalAddress ↦
    mapPage virtualAddress physicalAddress permissions

end PageTables

/-! ### The hardware's walk -/

/-- Bits 47 to 63 of a 64-bit address are equal. -/
def Canonical (address : Nat) : Prop :=
  address < 2 ^ 47 ∨ 2 ^ 64 - 2 ^ 47 ≤ address ∧ address < 2 ^ 64

instance (address : Nat) : Decidable (Canonical address) := inferInstanceAs (Decidable (_ ∨ _))

/-- What the hardware makes of a virtual address. -/
structure Translation where
  address : Nat
  permissions : Permissions
  deriving DecidableEq, Repr

/-- The permissions of one entry, with the no-execute bit enabled. -/
def entryPermissions (entry : Nat) : Permissions :=
  ⟨decide (entry &&& writable ≠ 0), decide (entry &&& noExecute = 0)⟩

/-- The entry maps something. -/
def isPresent (entry : Nat) : Bool := decide (entry &&& present ≠ 0)

/-- The entry maps a large page. -/
def isHuge (entry : Nat) : Bool := decide (entry &&& huge ≠ 0)

/-- The frame of a page of `size` bytes, from its entry. -/
def frameOf (entry size : Nat) : Nat := (entry &&& addressMask) / size * size

/-- The four-level walk: large pages of 1 GiB and 2 MiB, the size bit reserved in the first
level, permissions the conjunction of those on the way. -/
def walk (memory : Memory) (cr3 address : Nat) : Option Translation :=
  if ¬ Canonical address then none else
  let e4 := readEntry memory (cr3 &&& addressMask) (pml4Index address)
  if !isPresent e4 || isHuge e4 then none else
  let p4 := entryPermissions e4
  let e3 := readEntry memory (e4 &&& addressMask) (pdptIndex address)
  if !isPresent e3 then none else
  let p3 := p4.meet (entryPermissions e3)
  if isHuge e3 then some ⟨frameOf e3 (2 ^ 30) + address % 2 ^ 30, p3⟩ else
  let e2 := readEntry memory (e3 &&& addressMask) (pdIndex address)
  if !isPresent e2 then none else
  let p2 := p3.meet (entryPermissions e2)
  if isHuge e2 then some ⟨frameOf e2 hugePageSize + address % hugePageSize, p2⟩ else
  let e1 := readEntry memory (e2 &&& addressMask) (ptIndex address)
  if !isPresent e1 then none else
  some ⟨frameOf e1 pageSize + address % pageSize, p2.meet (entryPermissions e1)⟩

/-- The 4 KiB table that the walk of an address reaches, if any. -/
def pageTableAt (memory : Memory) (cr3 address : Nat) : Option Nat :=
  let e4 := readEntry memory (cr3 &&& addressMask) (pml4Index address)
  if !isPresent e4 || isHuge e4 then none else
  let e3 := readEntry memory (e4 &&& addressMask) (pdptIndex address)
  if !isPresent e3 || isHuge e3 then none else
  let e2 := readEntry memory (e3 &&& addressMask) (pdIndex address)
  if !isPresent e2 || isHuge e2 then none else some (e2 &&& addressMask)

end LokoOS.Boot
