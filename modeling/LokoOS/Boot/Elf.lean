import LokoOS.Base.ByteMemory
import LokoOS.Base.Proc

/-!
# The ELF64 reader

`boot/loko-boot/src/elf.rs`. The file is a list of bytes; reading outside it panics, and a
file that is not a loadable kernel is an error. Every program header is checked before the
image is returned, so that loading happens completely or does not start.
-/

namespace LokoOS.Boot
open LokoOS.Base

/-- Segment is executable; `elf.rs:18`. -/
def executeFlag : Nat := 1

/-- Segment is writable; `elf.rs:20`. -/
def writeFlag : Nat := 2

/-- The kind of a segment that is copied into memory; `elf.rs:32`. -/
def ptLoad : Nat := 1

/-- `elf.rs:35`. -/
def elfHeaderSize : Nat := 64

/-- `elf.rs:36`. -/
def programHeaderSizeMin : Nat := 56

/-- Why an image was rejected; `elf.rs:45`. -/
inductive ElfError where
  | tooSmall
  | notElf
  | wrongFormat
  | notAnExecutable
  | truncatedHeaders
  | truncatedSegment
  | impossibleSegment
  | nothingToLoad
  deriving DecidableEq, Repr

/-- A message for whoever is looking at the screen; `elf.rs:70`. -/
def ElfError.message : ElfError → String
  | .tooSmall | .notElf | .wrongFormat => "The LokoOS system file on this device isn't valid."
  | .notAnExecutable => "The LokoOS system file on this device was built incorrectly."
  | .truncatedHeaders | .truncatedSegment | .impossibleSegment =>
    "The LokoOS system file on this device is damaged or incomplete."
  | .nothingToLoad => "The LokoOS system file on this device is empty."

/-- One loadable segment; `elf.rs:91`. -/
structure Segment where
  fileOffset : Nat
  fileSize : Nat
  virtualAddress : Nat
  memorySize : Nat
  flags : Nat
  deriving DecidableEq, Repr

/-- `elf.rs:108`. -/
def Segment.isExecutable (s : Segment) : Bool := s.flags &&& executeFlag != 0

/-- `elf.rs:114`. -/
def Segment.isWritable (s : Segment) : Bool := s.flags &&& writeFlag != 0

/-- A parsed kernel image; `elf.rs:120`. -/
structure Image where
  data : List UInt8
  entry : Nat
  programHeaderOffset : Nat
  programHeaderCount : Nat
  programHeaderSize : Nat
  deriving DecidableEq, Repr

/-- The bytes `[offset, offset + n)` of a file; outside it there are none. -/
def sliceAt (data : List UInt8) (offset n : Nat) : Option (List UInt8) :=
  if offset + n ≤ data.length then some ((data.drop offset).take n) else none

/-- The little-endian number in `n` bytes of a file; `elf.rs:253–270`. -/
def readLe (data : List UInt8) (offset n : Nat) : Option Nat :=
  (sliceAt data offset n).map fromLeBytes

/-- `elf.rs:253`. -/
def readU16 (data : List UInt8) (offset : Nat) : Option Nat := readLe data offset 2

/-- `elf.rs:257`. -/
def readU32 (data : List UInt8) (offset : Nat) : Option Nat := readLe data offset 4

/-- `elf.rs:266`. -/
def readU64 (data : List UInt8) (offset : Nat) : Option Nat := readLe data offset 8

namespace Image

/-- The program header at `index`, if it is loadable; `elf.rs:190`. -/
def segmentAt (image : Image) (index : Nat) : Proc Unit ElfError (Option Segment) := do
  let step ← Proc.lift (mulU64 index image.programHeaderSize)
  let base ← Proc.lift (addU64 image.programHeaderOffset step)
  let kind ← Proc.lift (readU32 image.data base)
  if kind ≠ ptLoad then pure none
  else do
    let flags ← Proc.lift (readU32 image.data (base + 0x04))
    let fileOffset ← Proc.lift (readU64 image.data (base + 0x08))
    let virtualAddress ← Proc.lift (readU64 image.data (base + 0x10))
    let fileSize ← Proc.lift (readU64 image.data (base + 0x20))
    let memorySize ← Proc.lift (readU64 image.data (base + 0x28))
    Proc.failIf (memorySize < fileSize) .impossibleSegment
    let fileEnd ← Proc.orFail (addU64 fileOffset fileSize) .truncatedSegment
    Proc.failIf (fileEnd > image.data.length) .truncatedSegment
    pure (some ⟨fileOffset, fileSize, virtualAddress, memorySize, flags⟩)

/-- How many of the first `n` program headers are loadable; `elf.rs:175–181`. -/
def countLoadable (image : Image) : Nat → Proc Unit ElfError Nat
  | 0 => pure 0
  | n + 1 => do
    let loadable ← image.countLoadable n
    let segment ← image.segmentAt n
    pure (if segment.isSome then loadable + 1 else loadable)

/-- Parse and validate an ELF64 executable; `elf.rs:131`. -/
def parse (data : List UInt8) : Proc Unit ElfError Image := do
  Proc.failIf (data.length < elfHeaderSize) .tooSmall
  let magic ← Proc.lift (sliceAt data 0 4)
  Proc.failIf (magic ≠ [0x7F, 0x45, 0x4C, 0x46]) .notElf
  let elfClass ← Proc.lift data[4]?
  let encoding ← Proc.lift data[5]?
  Proc.failIf (elfClass ≠ 2 ∨ encoding ≠ 1) .wrongFormat
  let machine ← Proc.lift (readU16 data 0x12)
  Proc.failIf (machine ≠ 0x3E) .wrongFormat
  let kind ← Proc.lift (readU16 data 0x10)
  Proc.failIf (kind ≠ 2) .notAnExecutable
  let entry ← Proc.lift (readU64 data 0x18)
  let offset ← Proc.lift (readU64 data 0x20)
  let size ← Proc.lift (readU16 data 0x36)
  let count ← Proc.lift (readU16 data 0x38)
  Proc.failIf (size < programHeaderSizeMin) .wrongFormat
  let tableSize ← Proc.orFail (mulU64 size count) .truncatedHeaders
  let tableEnd ← Proc.orFail (addU64 offset tableSize) .truncatedHeaders
  Proc.failIf (tableEnd > data.length) .truncatedHeaders
  let image : Image := ⟨data, entry, offset, count, size⟩
  let loadable ← image.countLoadable image.programHeaderCount
  Proc.failIf (loadable = 0) .nothingToLoad
  pure image

/-- The loadable segments among the first `n` program headers, in table order. A header that
is an error is skipped. -/
def segmentsUpTo (image : Image) : Nat → Option (List Segment)
  | 0 => some []
  | n + 1 => do
    let before ← image.segmentsUpTo n
    let (result, _) ← image.segmentAt n ()
    match result with
    | .ok (some segment) => some (before ++ [segment])
    | _ => some before

/-- Every loadable segment; `elf.rs:224`. -/
def segments (image : Image) : Option (List Segment) :=
  image.segmentsUpTo image.programHeaderCount

/-- The bytes of a segment as they appear in the file; `elf.rs:230`. -/
def segmentData (image : Image) (segment : Segment) : Option (List UInt8) :=
  sliceAt image.data segment.fileOffset segment.fileSize

/-- The fold of `virtual_extent`, `elf.rs:241–244`, from a lowest and highest address. -/
def extentOf : List Segment → Nat → Nat → Option (Nat × Nat)
  | [], lowest, highest => some (lowest, highest)
  | segment :: rest, lowest, highest => do
    let segmentEnd ← addU64 segment.virtualAddress segment.memorySize
    extentOf rest (min lowest segment.virtualAddress) (max highest segmentEnd)

/-- The lowest and highest virtual addresses that any segment occupies; `elf.rs:238`. -/
def virtualExtent (image : Image) : Option (Nat × Nat) := do
  let segments ← image.segments
  let (lowest, highest) ← extentOf segments u64Max 0
  some (if lowest = u64Max then (0, 0) else (lowest, highest))

end Image

/-! ### What an accepted image promises -/

/-- A segment's file bytes lie in the file, fit in its memory, and its numbers fit in
words. -/
structure Segment.Valid (s : Segment) (data : List UInt8) : Prop where
  file_le_memory : s.fileSize ≤ s.memorySize
  in_file : s.fileOffset + s.fileSize ≤ data.length
  address_lt : s.virtualAddress < 2 ^ 64
  memory_lt : s.memorySize < 2 ^ 64

private theorem readLe_lt {data : List UInt8} {offset n v : Nat}
    (h : readLe data offset n = some v) :
    v < 256 ^ n := by
  rw [readLe, sliceAt] at h
  split at h
  · next hle =>
    rw [Option.map_some, Option.some.injEq] at h
    have := fromLeBytes_lt ((data.drop offset).take n)
    rw [List.length_take, List.length_drop, Nat.min_eq_left (by omega), h] at this
    exact this
  · cases h

namespace Image

variable {image : Image} {data : List UInt8} {index n : Nat} {segment : Segment}

private theorem segmentAt_valid {u v : Unit}
    (h : image.segmentAt index u = some (.ok (some segment), v)) :
    segment.Valid image.data := by
  simp only [segmentAt, Proc.bind_eq_ok] at h
  obtain ⟨step, s₁, -, base, s₂, -, kind, s₃, -, h⟩ := h
  split at h
  · cases h
  · simp only [Proc.bind_eq_ok] at h
    obtain ⟨flags, s₄, -, fileOffset, s₅, -, virtualAddress, s₆, hva, fileSize, s₇, -,
      memorySize, s₈, hmem, _, s₉, hsize, fileEnd, s₁₀, hend, _, s₁₁, hfile, hresult⟩ := h
    simp only [Proc.run_pure, Option.some.injEq, Prod.mk.injEq, Except.ok.injEq] at hresult
    obtain ⟨rfl, -⟩ := hresult
    have hva' := readLe_lt (Proc.lift_eq_ok.mp hva).1
    have hmem' := readLe_lt (Proc.lift_eq_ok.mp hmem).1
    have hle := (Proc.failIf_eq_ok.mp hsize).1
    obtain ⟨-, rfl⟩ := addU64_eq_some.mp (Proc.orFail_eq_ok.mp hend).1
    have hin := (Proc.failIf_eq_ok.mp hfile).1
    exact ⟨Nat.not_lt.mp hle, Nat.not_lt.mp hin, hva', hmem'⟩

private theorem segmentsUpTo_of_countLoadable {k : Nat} {u v : Unit}
    (h : image.countLoadable n u = some (.ok k, v)) :
    ∃ segments, image.segmentsUpTo n = some segments ∧ segments.length = k ∧
      ∀ s ∈ segments, s.Valid image.data := by
  induction n generalizing k v with
  | zero =>
    simp only [countLoadable, Proc.run_pure, Option.some.injEq, Prod.mk.injEq,
      Except.ok.injEq] at h
    exact ⟨[], rfl, h.1, by simp⟩
  | succ n ih =>
    simp only [countLoadable, Proc.bind_eq_ok, Proc.run_pure, Option.some.injEq, Prod.mk.injEq,
      Except.ok.injEq] at h
    obtain ⟨loadable, s₁, hcount, result, s₂, hat, hk, -⟩ := h
    obtain ⟨before, hbefore, hlen, hvalid⟩ := ih hcount
    cases result with
    | none =>
      refine ⟨before, ?_, by simpa using hlen.trans hk, hvalid⟩
      simp only [segmentsUpTo, hbefore, Option.bind_eq_bind, Option.bind_some]
      rw [show image.segmentAt n () = some (.ok none, s₂) from hat]
      rfl
    | some segment =>
      refine ⟨before ++ [segment], ?_, ?_, ?_⟩
      · simp only [segmentsUpTo, hbefore, Option.bind_eq_bind, Option.bind_some]
        rw [show image.segmentAt n () = some (.ok (some segment), s₂) from hat]
        rfl
      · simpa [hlen] using hk
      · intro s hs
        rcases List.mem_append.mp hs with hs | hs
        · exact hvalid s hs
        · rw [List.mem_singleton.mp hs]
          exact segmentAt_valid hat

/-- An accepted file has segments, all of them valid, and its image keeps the file. -/
theorem parse_eq_ok {u v : Unit} (h : parse data u = some (.ok image, v)) :
    image.data = data ∧ ∃ segments, image.segments = some segments ∧ segments ≠ [] ∧
      ∀ s ∈ segments, s.Valid data := by
  rw [parse] at h
  -- the checks of the file header keep nothing that matters here
  iterate 18 obtain ⟨_, _, -, h⟩ := Proc.bind_eq_ok.mp h
  obtain ⟨loadable, _, hcount, h⟩ := Proc.bind_eq_ok.mp h
  obtain ⟨_, _, hsome, h⟩ := Proc.bind_eq_ok.mp h
  simp only [Proc.run_pure, Option.some.injEq, Prod.mk.injEq, Except.ok.injEq] at h
  obtain ⟨rfl, -⟩ := h
  obtain ⟨segments, hsegs, hlen, hvalid⟩ := segmentsUpTo_of_countLoadable hcount
  refine ⟨rfl, segments, hsegs, ?_, hvalid⟩
  rintro rfl
  exact (Proc.failIf_eq_ok.mp hsome).1 hlen.symm

/-- The bytes of a valid segment are its slice of the file. -/
theorem segmentData_eq (hv : segment.Valid image.data) :
    image.segmentData segment =
      some ((image.data.drop segment.fileOffset).take segment.fileSize) := by
  rw [segmentData, sliceAt, if_pos hv.in_file]

/-! ### Padding -/

/-- The image of a file with bytes appended to it. -/
def padded (image : Image) (rest : List UInt8) : Image := { image with data := image.data ++ rest }

variable {rest : List UInt8}

private theorem sliceAt_append {offset n : Nat} {bytes : List UInt8}
    (h : sliceAt data offset n = some bytes) : sliceAt (data ++ rest) offset n = some bytes := by
  rw [sliceAt] at h ⊢
  split at h
  · next hle =>
    rw [if_pos (by rw [List.length_append]; omega), ← h, List.drop_append_of_le_length (by omega),
      List.take_append_of_le_length (by rw [List.length_drop]; omega)]
  · cases h

private theorem readLe_append {offset n v : Nat} (h : readLe data offset n = some v) :
    readLe (data ++ rest) offset n = some v := by
  rw [readLe, Option.map_eq_some_iff] at h ⊢
  obtain ⟨bytes, hs, hv⟩ := h
  exact ⟨bytes, sliceAt_append hs, hv⟩

private theorem segmentAt_append (rest : List UInt8) (index : Nat) :
    Proc.Relates Eq (image.segmentAt index) ((image.padded rest).segmentAt index) := by
  refine .bind (.refl _) fun step ↦ .bind (.refl _) fun base ↦
    .bind (.lift fun _ ↦ readLe_append) fun kind ↦ ?_
  split
  · exact .refl _
  · refine .bind (.lift fun _ ↦ readLe_append) fun flags ↦
      .bind (.lift fun _ ↦ readLe_append) fun fileOffset ↦
      .bind (.lift fun _ ↦ readLe_append) fun virtualAddress ↦
      .bind (.lift fun _ ↦ readLe_append) fun fileSize ↦
      .bind (.lift fun _ ↦ readLe_append) fun memorySize ↦ .bind (.refl _) fun _ ↦
      .bind (.refl _) fun fileEnd ↦ .bind (.failIf ?_) fun _ ↦ .refl _
    intro h
    rw [padded, List.length_append] at h
    omega

private theorem countLoadable_append (rest : List UInt8) (n : Nat) :
    Proc.Relates Eq (image.countLoadable n) ((image.padded rest).countLoadable n) := by
  induction n with
  | zero => exact .refl _
  | succ n ih =>
    exact .bind ih fun loadable ↦ .bind (segmentAt_append rest n) fun segment ↦ .refl _

private theorem segmentsUpTo_append {k : Nat} {u v : Unit}
    (h : image.countLoadable n u = some (.ok k, v)) :
    (image.padded rest).segmentsUpTo n = image.segmentsUpTo n := by
  induction n generalizing k v with
  | zero => rfl
  | succ n ih =>
    obtain ⟨loadable, s₁, hcount, h⟩ := Proc.bind_eq_ok.mp h
    obtain ⟨result, s₂, hat, -⟩ := Proc.bind_eq_ok.mp h
    obtain ⟨_, rfl, hat'⟩ := (segmentAt_append rest n).returns hat
    have hsame : (image.padded rest).segmentAt n () = image.segmentAt n () := hat'.trans hat.symm
    rw [segmentsUpTo, segmentsUpTo, ih hcount, hsame]

/-- Padding an accepted file changes neither the verdict nor the segments. -/
theorem parse_append {u v : Unit} (h : parse data u = some (.ok image, v)) (rest : List UInt8) :
    parse (data ++ rest) u = some (.ok (image.padded rest), v) ∧
      (image.padded rest).segments = image.segments := by
  have hbyte : ∀ (i : Nat) (b : UInt8), data[i]? = some b → (data ++ rest)[i]? = some b := by
    intro i b hb
    rw [List.getElem?_append_left (List.getElem?_eq_some_iff.mp hb).1, hb]
  have hrel : Proc.Relates (fun a b ↦ b = a.padded rest ∧ b.segments = a.segments)
      (parse data) (parse (data ++ rest)) := by
    refine .bind (.failIf ?_) fun _ ↦ .bind (.lift fun _ ↦ sliceAt_append) fun magic ↦
      .bind (.refl _) fun _ ↦ .bind (.lift (hbyte 4)) fun elfClass ↦
      .bind (.lift (hbyte 5)) fun encoding ↦ .bind (.refl _) fun _ ↦
      .bind (.lift fun _ ↦ readLe_append) fun machine ↦ .bind (.refl _) fun _ ↦
      .bind (.lift fun _ ↦ readLe_append) fun kind ↦ .bind (.refl _) fun _ ↦
      .bind (.lift fun _ ↦ readLe_append) fun entry ↦
      .bind (.lift fun _ ↦ readLe_append) fun offset ↦
      .bind (.lift fun _ ↦ readLe_append) fun size ↦
      .bind (.lift fun _ ↦ readLe_append) fun count ↦ .bind (.refl _) fun _ ↦
      .bind (.refl _) fun tableSize ↦ .bind (.refl _) fun tableEnd ↦ .bind (.failIf ?_) fun _ ↦ ?_
    · rw [List.length_append]
      omega
    · rw [List.length_append]
      omega
    · intro s a s' hrun
      obtain ⟨loadable, s₁, hcount, hrun⟩ := Proc.bind_eq_ok.mp hrun
      obtain ⟨_, s₂, hsome, hrun⟩ := Proc.bind_eq_ok.mp hrun
      obtain ⟨_, rfl, hcount'⟩ := (countLoadable_append rest _).returns hcount
      cases hrun
      refine ⟨_, ⟨rfl, segmentsUpTo_append hcount⟩, ?_⟩
      exact Proc.bind_eq_ok.mpr ⟨_, s₁, hcount', Proc.bind_eq_ok.mpr ⟨_, _, hsome, rfl⟩⟩
  obtain ⟨b, ⟨rfl, hsegs⟩, hrun⟩ := hrel u image v h
  exact ⟨hrun, hsegs⟩

/-! ### The extent -/

/-- The fold of the extent bounds every segment and does not go beyond what it was given. -/
theorem extentOf_spec {segments : List Segment} {lowest highest low high : Nat}
    (h : extentOf segments lowest highest = some (low, high)) :
    low ≤ lowest ∧ highest ≤ high ∧
      (∀ s ∈ segments, low ≤ s.virtualAddress ∧ s.virtualAddress + s.memorySize ≤ high) ∧
      (low = lowest ∨ ∃ s ∈ segments, low = s.virtualAddress) := by
  induction segments generalizing lowest highest with
  | nil =>
    simp only [extentOf, Option.some.injEq, Prod.mk.injEq] at h
    exact ⟨by omega, by omega, by simp, .inl h.1.symm⟩
  | cons segment rest ih =>
    simp only [extentOf, Option.bind_eq_bind, Option.bind_eq_some_iff] at h
    obtain ⟨segmentEnd, hadd, h⟩ := h
    obtain ⟨-, rfl⟩ := addU64_eq_some.mp hadd
    obtain ⟨hlow, hhigh, hall, hex⟩ := ih h
    refine ⟨by omega, by omega, ?_, ?_⟩
    · intro s hs
      rcases List.mem_cons.mp hs with rfl | hs
      · clear hex
        omega
      · exact hall s hs
    · rcases hex with he | ⟨s, hs, he⟩
      · by_cases hc : lowest ≤ segment.virtualAddress
        · exact .inl (by omega)
        · exact .inr ⟨segment, List.mem_cons_self, by omega⟩
      · exact .inr ⟨s, List.mem_cons_of_mem _ hs, he⟩

/-- The highest address stays in range. -/
theorem extentOf_le {segments : List Segment} {lowest highest low high : Nat}
    (h : extentOf segments lowest highest = some (low, high)) (hh : highest ≤ u64Max) :
    high ≤ u64Max := by
  induction segments generalizing lowest highest with
  | nil =>
    simp only [extentOf, Option.some.injEq, Prod.mk.injEq] at h
    omega
  | cons segment rest ih =>
    simp only [extentOf, Option.bind_eq_bind, Option.bind_eq_some_iff] at h
    obtain ⟨segmentEnd, hadd, h⟩ := h
    obtain ⟨hle, rfl⟩ := addU64_eq_some.mp hadd
    exact ih h (by omega)

/-- The extent covers every segment that occupies memory. -/
theorem virtualExtent_spec {segments : List Segment} {low high : Nat}
    (hs : image.segments = some segments) (h : image.virtualExtent = some (low, high)) :
    ∀ s ∈ segments, s.memorySize ≠ 0 →
      low ≤ s.virtualAddress ∧ s.virtualAddress + s.memorySize ≤ high := by
  simp only [virtualExtent, hs, Option.bind_eq_bind, Option.bind_some,
    Option.bind_eq_some_iff] at h
  obtain ⟨⟨lowest, highest⟩, hextent, h⟩ := h
  obtain ⟨hlow, -, hall, -⟩ := extentOf_spec hextent
  have hhigh := extentOf_le hextent (by decide)
  intro s hmem hne
  have hin := hall s hmem
  split at h
  · omega
  · cases h
    exact hin

end Image

/-! ### A small kernel -/

/-- A kernel of one executable segment, whose two bytes are an endless loop. -/
def loopKernel : List UInt8 :=
  [0x7F, 0x45, 0x4C, 0x46, 2, 1, 1, 0, 0, 0, 0, 0, 0, 0, 0, 0,
    2, 0, 0x3E, 0, 1, 0, 0, 0, 0, 0, 0, 0x80, 0xFF, 0xFF, 0xFF, 0xFF,
    64, 0, 0, 0, 0, 0, 0, 0, 0, 0, 0, 0, 0, 0, 0, 0,
    0, 0, 0, 0, 64, 0, 56, 0, 1, 0, 0, 0, 0, 0, 0, 0,
    1, 0, 0, 0, 5, 0, 0, 0, 120, 0, 0, 0, 0, 0, 0, 0,
    0, 0, 0, 0x80, 0xFF, 0xFF, 0xFF, 0xFF, 0, 0, 0, 0, 0, 0, 0, 0,
    2, 0, 0, 0, 0, 0, 0, 0, 16, 0, 0, 0, 0, 0, 0, 0,
    0, 16, 0, 0, 0, 0, 0, 0, 0xEB, 0xFE]

/-- The image of that kernel. -/
def loopImage : Image := ⟨loopKernel, 0xFFFFFFFF80000000, 64, 1, 56⟩

/-- The segment of that kernel. -/
def loopSegment : Segment := ⟨120, 2, 0xFFFFFFFF80000000, 16, 5⟩

set_option maxRecDepth 4000 in
/-- The small kernel is accepted. -/
theorem parse_loopKernel : Image.parse loopKernel () = some (.ok loopImage, ()) := by rfl

set_option maxRecDepth 4000 in
/-- The small kernel has one segment. -/
theorem segments_loopImage : loopImage.segments = some [loopSegment] := by rfl

/-- However it is padded, the small kernel is one valid segment. -/
theorem loopSegment_valid (rest : List UInt8) : loopSegment.Valid (loopKernel ++ rest) where
  file_le_memory := by decide
  in_file := by
    have hlen : loopKernel.length = 122 := by rfl
    rw [List.length_append, hlen]
    simp only [loopSegment]
    omega
  address_lt := by decide
  memory_lt := by decide

/-- A kernel of two segments: the endless loop, and one byte of data in the next page. -/
def dataKernel : List UInt8 :=
  [0x7F, 0x45, 0x4C, 0x46, 2, 1, 1, 0, 0, 0, 0, 0, 0, 0, 0, 0,
    2, 0, 0x3E, 0, 1, 0, 0, 0, 0, 0, 0, 0x80, 0xFF, 0xFF, 0xFF, 0xFF,
    64, 0, 0, 0, 0, 0, 0, 0, 0, 0, 0, 0, 0, 0, 0, 0,
    0, 0, 0, 0, 64, 0, 56, 0, 2, 0, 0, 0, 0, 0, 0, 0,
    1, 0, 0, 0, 5, 0, 0, 0, 176, 0, 0, 0, 0, 0, 0, 0,
    0, 0, 0, 0x80, 0xFF, 0xFF, 0xFF, 0xFF, 0, 0, 0, 0, 0, 0, 0, 0,
    2, 0, 0, 0, 0, 0, 0, 0, 16, 0, 0, 0, 0, 0, 0, 0,
    0, 16, 0, 0, 0, 0, 0, 0,
    1, 0, 0, 0, 6, 0, 0, 0, 178, 0, 0, 0, 0, 0, 0, 0,
    0, 0x10, 0, 0x80, 0xFF, 0xFF, 0xFF, 0xFF, 0, 0, 0, 0, 0, 0, 0, 0,
    1, 0, 0, 0, 0, 0, 0, 0, 32, 0, 0, 0, 0, 0, 0, 0,
    0, 16, 0, 0, 0, 0, 0, 0, 0xEB, 0xFE, 0x2A]

/-- The image of that kernel. -/
def dataImage : Image := ⟨dataKernel, 0xFFFFFFFF80000000, 64, 2, 56⟩

/-- The executable segment of that kernel. -/
def codeSegment : Segment := ⟨176, 2, 0xFFFFFFFF80000000, 16, 5⟩

/-- The writable segment of that kernel. -/
def dataSegment : Segment := ⟨178, 1, 0xFFFFFFFF80001000, 32, 6⟩

set_option maxRecDepth 8000 in
/-- The kernel with data is accepted. -/
theorem parse_dataKernel : Image.parse dataKernel () = some (.ok dataImage, ()) := by rfl

set_option maxRecDepth 8000 in
/-- The kernel with data has two segments. -/
theorem segments_dataImage : dataImage.segments = some [codeSegment, dataSegment] := by rfl

/-- The extent of an image with that one segment. -/
theorem virtualExtent_of_loopSegment {image : Image}
    (h : image.segments = some [loopSegment]) :
    image.virtualExtent = some (0xFFFFFFFF80000000, 0xFFFFFFFF80000010) := by
  rw [Image.virtualExtent, h]
  rfl

end LokoOS.Boot
