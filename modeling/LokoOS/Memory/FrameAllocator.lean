import LokoOS.BootProtocol.MemoryMap

/-!
# The bitmap frame allocator

Crate `loko-memory`, `kernel/loko-memory/src/lib.rs:24–341`. A set bit means allocated.
The bitmap is a list of 64-bit words; an access past its end and an overflowing sum are
panics. The two-pass search of `allocate_contiguous` is a recursion on the distance from
the window to the end of the managed range.
-/

namespace LokoOS.Memory
open LokoOS.Base LokoOS.BootProtocol

/-- Bytes in a physical frame; `lib.rs:26`. -/
def frameSize : Nat := 4096

/-- The number of the frame containing an address; `lib.rs:39`. A frame number is a
natural: a physical address divided by the frame size. -/
def FrameNumber.containing (address : Nat) : Nat := address / frameSize

/-- The physical address of the start of a frame; `lib.rs:45`. -/
def FrameNumber.startAddress (frame : Nat) : Option Nat := mulU64 frame frameSize

/-- Why an allocation or free failed; `lib.rs:52`. -/
inductive MemoryError where
  | outOfMemory
  | outOfRange
  | notAllocated
  | bitmapTooSmall
  deriving DecidableEq, Repr

/-- Manages the frames in `[base, base + frames)`; `lib.rs:70`. -/
structure FrameAllocator where
  bitmap : List (BitVec 64)
  base : Nat
  frames : Nat
  allocated : Nat
  cursor : Nat
  deriving DecidableEq, Repr

/-- The number of words a bitmap needs; `lib.rs:85`. -/
def bitmapWordsFor (frames : Nat) : Nat := divCeil frames 64

namespace FrameAllocator

/-- An allocator with everything marked allocated; `lib.rs:98`. -/
def new (bitmap : List (BitVec 64)) (base : Nat) (frames : Nat) :
    Except MemoryError FrameAllocator :=
  if bitmap.length < bitmapWordsFor frames then .error .bitmapTooSmall
  else .ok
    { bitmap := bitmap.map fun _ ↦ BitVec.allOnes 64
      base := base
      frames := frames
      allocated := frames
      cursor := 0 }

/-- The index of the bit for `frame`, or `none` if out of range; `lib.rs:154`. -/
def indexOf (a : FrameAllocator) (frame : Nat) : Option Nat :=
  if frame < a.base then none
  else if frame - a.base ≥ a.frames then none
  else some (frame - a.base)

/-- Read one bit, panicking past the end of the bitmap; `lib.rs:165`. -/
def get (a : FrameAllocator) (index : Nat) : Option Bool :=
  (a.bitmap[index / 64]?).map fun word ↦ (word &&& (1#64 <<< (index % 64))) != 0#64

/-- Write one bit, panicking past the end of the bitmap; `lib.rs:169`. -/
def set (index : Nat) (allocated : Bool) : Proc FrameAllocator MemoryError Unit := do
  let a ← Proc.get
  let word ← Proc.lift a.bitmap[index / 64]?
  let mask := 1#64 <<< (index % 64)
  let word := if allocated then word ||| mask else word &&& ~~~mask
  Proc.modify fun a ↦ { a with bitmap := a.bitmap.set (index / 64) word }

/-- The update `self.allocated += n`. -/
def addAllocated (n : Nat) : Proc FrameAllocator MemoryError Unit := do
  let a ← Proc.get
  let allocated ← Proc.lift (addU64 a.allocated n)
  Proc.modify fun a ↦ { a with allocated := allocated }

/-- The update `self.allocated -= n`. -/
def subAllocated (n : Nat) : Proc FrameAllocator MemoryError Unit := do
  let a ← Proc.get
  let allocated ← Proc.lift (subU64 a.allocated n)
  Proc.modify fun a ↦ { a with allocated := allocated }

/-- Mark a frame as free and available; `lib.rs:184`. -/
def release (frame : Nat) : Proc FrameAllocator MemoryError Unit := do
  let a ← Proc.get
  let index ← Proc.orFail (a.indexOf frame) .outOfRange
  let taken ← Proc.lift (a.get index)
  if taken then
    set index false
    subAllocated 1
  else pure ()

/-- Mark a frame as permanently unavailable; `lib.rs:196`. -/
def reserve (frame : Nat) : Proc FrameAllocator MemoryError Unit := do
  let a ← Proc.get
  let index ← Proc.orFail (a.indexOf frame) .outOfRange
  let taken ← Proc.lift (a.get index)
  if !taken then
    set index true
    addAllocated 1
  else pure ()

/-- Mark every frame overlapping `[start, start + len)` as unavailable; `lib.rs:206`.
The last frame is that of the last byte, and a result of `reserve` is ignored. -/
def reserveRange (start len : Nat) : Proc FrameAllocator MemoryError Unit :=
  if len = 0 then pure ()
  else
    let first := FrameNumber.containing start
    let last := FrameNumber.containing (saturatingAdd start (len - 1))
    Proc.forRange (last + 1 - first) fun i ↦ do
      let _ ← Proc.attempt (δ := MemoryError) (reserve (first + i))
      pure ()

/-- The first allocated bit among the `n` bits from `index` on; `lib.rs:262`. -/
def firstAllocatedIn (a : FrameAllocator) (index : Nat) : Nat → Option (Option Nat)
  | 0 => some none
  | n + 1 => do
    let taken ← a.get index
    if taken then some (some index) else a.firstAllocatedIn (index + 1) n

/-- A blocker lies inside the window that was searched. -/
theorem firstAllocatedIn_bounds {a : FrameAllocator} {index n blocker : Nat}
    (h : a.firstAllocatedIn index n = some (some blocker)) :
    index ≤ blocker ∧ blocker < index + n := by
  induction n generalizing index with
  | zero => cases h
  | succ n ih =>
    simp only [firstAllocatedIn, Option.bind_eq_bind, Option.bind_eq_some_iff] at h
    obtain ⟨taken, -, h⟩ := h
    split at h
    · simp only [Option.some.injEq] at h
      omega
    · have := ih h
      omega

/-- The inner loop of the search, from `index` on; `lib.rs:241–255`. It returns the start
of the first free window, restarting just past each blocker. -/
def searchFrom (a : FrameAllocator) (count index : Nat) : Option (Option Nat) :=
  if addU64 index count = none then none
  else if _h : index + count ≤ a.frames then
    match hb : a.firstAllocatedIn index count with
    | none => none
    | some none => some (some index)
    | some (some blocker) => a.searchFrom count (blocker + 1)
  else some none
termination_by a.frames - index
decreasing_by
  have := firstAllocatedIn_bounds hb
  omega

/-- Take the window that a search found; `lib.rs:245–250`. -/
def takeWindow (index count : Nat) : Proc FrameAllocator MemoryError Nat := do
  Proc.forRange count fun i ↦ set (index + i) true
  addAllocated count
  Proc.modify fun a ↦ { a with cursor := index + count }
  let a ← Proc.get
  Proc.lift (addU64 a.base index)

/-- Allocate `count` contiguous frames; `lib.rs:227`. The second pass rescans from zero. -/
def allocateContiguous (count : Nat) : Proc FrameAllocator MemoryError Nat := do
  let a ← Proc.get
  if count = 0 ∨ count > a.frames then Proc.fail .outOfMemory
  else
    match ← Proc.lift (a.searchFrom count a.cursor) with
    | some index => takeWindow index count
    | none =>
      match ← Proc.lift (a.searchFrom count 0) with
      | some index => takeWindow index count
      | none => Proc.fail .outOfMemory

/-- Allocate one frame; `lib.rs:220`. -/
def allocate : Proc FrameAllocator MemoryError Nat := allocateContiguous 1

/-- Free one frame, reporting a double free; `lib.rs:270`. -/
def free (frame : Nat) : Proc FrameAllocator MemoryError Unit := do
  let a ← Proc.get
  let index ← Proc.orFail (a.indexOf frame) .outOfRange
  let taken ← Proc.lift (a.get index)
  if !taken then Proc.fail .notAllocated
  else
    set index false
    subAllocated 1
    Proc.modify fun a ↦ if index < a.cursor then { a with cursor := index } else a

/-- The check of one frame in the first loop of `free_contiguous`; `lib.rs:289–296`. -/
def checkAllocated (frame : Nat) : Proc FrameAllocator MemoryError Unit := do
  let a ← Proc.get
  let index ← Proc.orFail (a.indexOf frame) .outOfRange
  let taken ← Proc.lift (a.get index)
  if !taken then Proc.fail .notAllocated else pure ()

/-- Free `count` frames, checking the whole run before changing anything; `lib.rs:286`. -/
def freeContiguous (frame : Nat) (count : Nat) :
    Proc FrameAllocator MemoryError Unit := do
  Proc.forRange count fun i ↦ do
    let f ← Proc.lift (addU64 frame i)
    checkAllocated f
  Proc.forRange count fun i ↦ do
    let f ← Proc.lift (addU64 frame i)
    free f

/-- Whether a frame is currently allocated; `lib.rs:304`. The outer layer is the panic of
the bitmap access, the inner one the answer for an unmanaged frame. -/
def isAllocated (a : FrameAllocator) (frame : Nat) : Option (Option Bool) :=
  match a.indexOf frame with
  | none => some none
  | some index => (a.get index).map some

/-- Total frames managed; `lib.rs:310`. -/
def totalFrames (a : FrameAllocator) : Nat := a.frames

/-- Frames currently allocated or reserved; `lib.rs:316`. -/
def allocatedFrames (a : FrameAllocator) : Nat := a.allocated

/-- Frames available; `lib.rs:322`. -/
def freeFrames (a : FrameAllocator) : Option Nat := subU64 a.frames a.allocated

/-- Bytes available; `lib.rs:328`. -/
def freeBytes (a : FrameAllocator) : Option Nat :=
  a.freeFrames.bind fun free ↦ mulU64 free frameSize

/-- The recount loop of `audit` over the first `n` bits. -/
def countAllocated (a : FrameAllocator) : Nat → Option Nat
  | 0 => some 0
  | n + 1 => do
    let counted ← a.countAllocated n
    let taken ← a.get n
    some (if taken then counted + 1 else counted)

/-- Recount the bitmap and compare with the running total; `lib.rs:338`. -/
def audit (a : FrameAllocator) : Option Bool :=
  (a.countAllocated a.frames).map fun counted ↦ counted == a.allocated

/-- The release loop for one usable region; `lib.rs:140–148`. Frames beyond the managed
range are skipped: the result of `release` is ignored. -/
def releaseRegion (region : MemoryRegion) : Proc FrameAllocator MemoryError Unit :=
  let first := FrameNumber.containing region.start
  let count := region.len / frameSize
  Proc.forRange count fun i ↦ do
    let f ← Proc.lift (addU64 first i)
    let _ ← Proc.attempt (δ := MemoryError) (release f)
    pure ()

/-- Build an allocator from a firmware memory map; `lib.rs:120`. The bitmap decides how
much can be managed, not the memory map. -/
def fromMemoryMap (bitmap : List (BitVec 64)) (regions : List MemoryRegion) :
    Option (Except MemoryError FrameAllocator) :=
  let highest := ((regions.map MemoryRegion.endAddr).max?).getD 0
  let describable := saturatingMul bitmap.length 64
  let frames := min (highest / frameSize) describable
  match new bitmap 0 frames with
  | .error e => some (.error e)
  | .ok allocator =>
    let usable := regions.filter fun r ↦ r.kind.usableAtHandoff
    (Proc.forEach usable releaseRegion allocator).map fun (r, a) ↦ r.map fun _ ↦ a

end FrameAllocator
end LokoOS.Memory
