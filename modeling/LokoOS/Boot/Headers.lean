import LokoOS.Base.Returns
import LokoOS.Boot.Elf

/-!
# The program header table

`boot/loko-boot/src/elf.rs:128–270`, against the file itself. A field of the file is a
little-endian number at a fixed place. The reader never indexes outside the file; an accepted
file has its whole table inside it, and the loadable segments of its image are the loadable
entries of the table, in table order.
-/

namespace LokoOS.Boot
open LokoOS.Base

/-- The number in the `n` bytes of a file from an offset up. -/
def fieldAt (data : List UInt8) (offset n : Nat) : Nat :=
  fromLeBytes ((data.drop offset).take n)

/-- The entry address. -/
def entryField (data : List UInt8) : Nat := fieldAt data 0x18 8

/-- Where the program header table starts. -/
def tableOffset (data : List UInt8) : Nat := fieldAt data 0x20 8

/-- How long an entry of the table is. -/
def entrySize (data : List UInt8) : Nat := fieldAt data 0x36 2

/-- How many entries the table has. -/
def entryCount (data : List UInt8) : Nat := fieldAt data 0x38 2

/-- Where an entry of the table starts. -/
def entryStart (data : List UInt8) (index : Nat) : Nat :=
  tableOffset data + index * entrySize data

/-- The header at an offset is of the loadable kind. -/
def isLoadable (data : List UInt8) (start : Nat) : Bool := fieldAt data start 4 == ptLoad

/-- The segment that the header at an offset describes. -/
def headerSegment (data : List UInt8) (start : Nat) : Segment where
  flags := fieldAt data (start + 0x04) 4
  fileOffset := fieldAt data (start + 0x08) 8
  virtualAddress := fieldAt data (start + 0x10) 8
  fileSize := fieldAt data (start + 0x20) 8
  memorySize := fieldAt data (start + 0x28) 8

/-- The loadable entries among the first `n` of the table, in table order. -/
def loadableUpTo (data : List UInt8) (n : Nat) : List Segment :=
  (((List.range n).map (entryStart data)).filter (isLoadable data)).map (headerSegment data)

/-- The loadable entries of the table, in table order. -/
def loadable (data : List UInt8) : List Segment := loadableUpTo data (entryCount data)

/-- The image that the fields of a file describe. -/
def imageOf (data : List UInt8) : Image :=
  ⟨data, entryField data, tableOffset data, entryCount data, entrySize data⟩

/-- The table lies inside the file, in addresses of 64 bits. -/
structure TableInFile (data : List UInt8) : Prop where
  entry_large : programHeaderSizeMin ≤ entrySize data
  in_range : tableOffset data + entrySize data * entryCount data ≤ u64Max
  in_file : tableOffset data + entrySize data * entryCount data ≤ data.length

variable {data : List UInt8} {offset n index : Nat}

private theorem sliceAt_eq (h : offset + n ≤ data.length) :
    sliceAt data offset n = some ((data.drop offset).take n) := if_pos h

private theorem readLe_eq (h : offset + n ≤ data.length) :
    readLe data offset n = some (fieldAt data offset n) := by
  rw [readLe, sliceAt_eq h]
  rfl

private theorem readU16_eq (h : offset + 2 ≤ data.length) :
    readU16 data offset = some (fieldAt data offset 2) := readLe_eq h

private theorem readU32_eq (h : offset + 4 ≤ data.length) :
    readU32 data offset = some (fieldAt data offset 4) := readLe_eq h

private theorem readU64_eq (h : offset + 8 ≤ data.length) :
    readU64 data offset = some (fieldAt data offset 8) := readLe_eq h

private theorem eq_fieldAt {v : Nat} (h : readLe data offset n = some v) :
    v = fieldAt data offset n := by
  rw [readLe, sliceAt] at h
  split at h
  · exact (Option.some.inj h).symm
  · cases h

private theorem TableInFile.entry_le (h : TableInFile data) (hi : index < entryCount data) :
    index * entrySize data ≤ u64Max ∧ entryStart data index + 56 ≤ u64Max ∧
      entryStart data index + 56 ≤ data.length := by
  have hend : index * entrySize data + entrySize data ≤ entryCount data * entrySize data :=
    item_end_le hi
  have hl : 56 ≤ entrySize data := h.entry_large
  have hr := h.in_range
  have hf := h.in_file
  rw [Nat.mul_comm (entrySize data)] at hr hf
  unfold entryStart
  omega

/-- What the reader makes of the header at an offset. -/
def headerVerdict (data : List UInt8) (start : Nat) : Except ElfError (Option Segment) :=
  if fieldAt data start 4 ≠ ptLoad then .ok none
  else if fieldAt data (start + 0x28) 8 < fieldAt data (start + 0x20) 8 then
    .error .impossibleSegment
  else if u64Max < fieldAt data (start + 0x08) 8 + fieldAt data (start + 0x20) 8 then
    .error .truncatedSegment
  else if fieldAt data (start + 0x08) 8 + fieldAt data (start + 0x20) 8 > data.length then
    .error .truncatedSegment
  else .ok (some (headerSegment data start))

private theorem segmentAt_eq {image : Image} {start : Nat}
    (hstep : index * image.programHeaderSize ≤ u64Max)
    (hbase : addU64 image.programHeaderOffset (index * image.programHeaderSize) = some start)
    (hend : start + 56 ≤ image.data.length) :
    image.segmentAt index () = some (headerVerdict image.data start, ()) := by
  unfold Image.segmentAt headerVerdict
  rw [Proc.run_lift_bind (mulU64_of_le hstep), Proc.run_lift_bind hbase,
    Proc.run_lift_bind (readU32_eq (by omega))]
  split
  · rfl
  · rw [Proc.run_lift_bind (readU32_eq (by omega)), Proc.run_lift_bind (readU64_eq (by omega)),
      Proc.run_lift_bind (readU64_eq (by omega)), Proc.run_lift_bind (readU64_eq (by omega)),
      Proc.run_lift_bind (readU64_eq (by omega)), Proc.run_failIf_bind]
    split
    · rfl
    · by_cases hover : fieldAt image.data (start + 0x08) 8 + fieldAt image.data (start + 0x20) 8 ≤
          u64Max
      · rw [if_neg (Nat.not_lt.mpr hover), addU64_of_le hover]
        change (Proc.failIf _ _ >>= _) () = _
        rw [Proc.run_failIf_bind]
        split <;> rfl
      · rw [if_pos (Nat.lt_of_not_le hover), addU64, if_neg hover]
        rfl

private theorem headerVerdict_eq_ok {start : Nat} {result : Option Segment}
    (h : headerVerdict data start = .ok result) :
    result = if isLoadable data start then some (headerSegment data start) else none := by
  unfold headerVerdict at h
  unfold isLoadable
  split at h
  · next hk =>
    cases h
    simp [hk]
  · next hk =>
    rw [not_not] at hk
    split at h
    · cases h
    · split at h
      · cases h
      · split at h
        · cases h
        · cases h
          simp [hk]

private theorem loadableUpTo_succ (n : Nat) :
    loadableUpTo data (n + 1) = loadableUpTo data n ++
      if isLoadable data (entryStart data n) then [headerSegment data (entryStart data n)]
      else [] := by
  unfold loadableUpTo
  rw [List.range_succ, List.map_append, List.filter_append, List.map_append]
  congr 1
  by_cases hl : isLoadable data (entryStart data n) <;> simp [hl]

namespace Image

private theorem segmentAt_imageOf (h : TableInFile data) (hi : index < entryCount data) :
    (imageOf data).segmentAt index () =
      some (headerVerdict data (entryStart data index), ()) := by
  obtain ⟨hstep, hmax, hend⟩ := h.entry_le hi
  have hbase : addU64 (imageOf data).programHeaderOffset
      (index * (imageOf data).programHeaderSize) = some (entryStart data index) :=
    addU64_of_le (Nat.le_of_add_right_le hmax)
  exact segmentAt_eq hstep hbase hend

private theorem countLoadable_returns (h : TableInFile data) (hn : n ≤ entryCount data) :
    Proc.Returns ((imageOf data).countLoadable n) () := by
  induction n with
  | zero => exact .pure _
  | succ n ih =>
    apply Proc.Returns.bind (ih (Nat.le_of_succ_le hn))
    intro loadable _ _
    apply Proc.Returns.bind ⟨_, _, segmentAt_imageOf h hn⟩
    intro segment _ _
    exact .pure _

private theorem segmentsUpTo_imageOf (h : TableInFile data) (hn : n ≤ entryCount data) {k : Nat}
    {v : Unit} (hcount : (imageOf data).countLoadable n () = some (.ok k, v)) :
    (imageOf data).segmentsUpTo n = some (loadableUpTo data n) ∧
      ∀ i < n, ∃ result, headerVerdict data (entryStart data i) = .ok result := by
  induction n generalizing k v with
  | zero => exact ⟨rfl, fun i hi ↦ absurd hi (Nat.not_lt_zero i)⟩
  | succ n ih =>
    obtain ⟨before, _, hbefore, hrest⟩ := Proc.bind_eq_ok.mp hcount
    obtain ⟨result, _, hat, -⟩ := Proc.bind_eq_ok.mp hrest
    obtain ⟨hsegments, hall⟩ := ih (Nat.le_of_succ_le hn) hbefore
    have hverdict : headerVerdict data (entryStart data n) = .ok result := by
      have heq := (segmentAt_imageOf h hn).symm.trans hat
      exact congrArg Prod.fst (Option.some.inj heq)
    constructor
    · rw [segmentsUpTo, hsegments, loadableUpTo_succ]
      simp only [Option.bind_eq_bind, Option.bind_some, segmentAt_imageOf h hn, hverdict,
        headerVerdict_eq_ok hverdict]
      by_cases hl : isLoadable data (entryStart data n) <;> simp [hl]
    · intro i hi
      by_cases hin : i < n
      · exact hall i hin
      · rw [show i = n by omega]
        exact ⟨result, hverdict⟩

/-- Parsing does not panic. -/
theorem parse_returns (data : List UInt8) : Proc.Returns (parse data) () := by
  apply Proc.Returns.failIf_bind
  intro hsize
  have hlen : 64 ≤ data.length := Nat.not_lt.mp hsize
  have hread : ∀ {offset n : Nat}, offset + n ≤ 64 →
      readLe data offset n = some (fieldAt data offset n) := fun ho ↦ readLe_eq (by omega)
  apply Proc.Returns.lift_bind (sliceAt_eq (by omega))
  apply Proc.Returns.failIf_bind
  intro _
  apply Proc.Returns.lift_bind (List.getElem?_eq_getElem (by omega))
  apply Proc.Returns.lift_bind (List.getElem?_eq_getElem (by omega))
  apply Proc.Returns.failIf_bind
  intro _
  apply Proc.Returns.lift_bind (readU16_eq (by omega))
  apply Proc.Returns.failIf_bind
  intro _
  apply Proc.Returns.lift_bind (readU16_eq (by omega))
  apply Proc.Returns.failIf_bind
  intro _
  apply Proc.Returns.lift_bind (readU64_eq (by omega))
  apply Proc.Returns.lift_bind (readU64_eq (by omega))
  apply Proc.Returns.lift_bind (readU16_eq (by omega))
  apply Proc.Returns.lift_bind (readU16_eq (by omega))
  apply Proc.Returns.failIf_bind
  intro hlarge
  apply Proc.Returns.orFail_bind
  intro tableSize hmul
  apply Proc.Returns.orFail_bind
  intro tableEnd hadd
  apply Proc.Returns.failIf_bind
  intro hfile
  obtain ⟨-, rfl⟩ := mulU64_eq_some.mp hmul
  obtain ⟨hmax, rfl⟩ := addU64_eq_some.mp hadd
  have htable : TableInFile data := ⟨Nat.not_lt.mp hlarge, hmax, Nat.not_lt.mp hfile⟩
  apply Proc.Returns.bind (countLoadable_returns htable le_rfl)
  intro loadable _ _
  apply Proc.Returns.failIf_bind
  intro _
  exact .pure _

/-- An accepted file has its table inside it, its image is the one its fields describe, and at
least one entry of the table was counted. -/
theorem parse_eq_imageOf {image : Image} {u v : Unit} (h : parse data u = some (.ok image, v)) :
    image = imageOf data ∧ TableInFile data ∧
      ∃ k, k ≠ 0 ∧ (imageOf data).countLoadable (entryCount data) () = some (.ok k, ()) := by
  rw [parse] at h
  -- the magic number, the class, the machine and the kind of file are not of interest here
  iterate 10 obtain ⟨_, _, -, h⟩ := Proc.bind_eq_ok.mp h
  obtain ⟨entry, hentry, h⟩ := Proc.lift_bind_eq_ok.mp h
  obtain ⟨offset, hoffset, h⟩ := Proc.lift_bind_eq_ok.mp h
  obtain ⟨size, hsize, h⟩ := Proc.lift_bind_eq_ok.mp h
  obtain ⟨count, hcount, h⟩ := Proc.lift_bind_eq_ok.mp h
  obtain ⟨_, _, hlarge, h⟩ := Proc.bind_eq_ok.mp h
  obtain ⟨tableSize, _, hmul, h⟩ := Proc.bind_eq_ok.mp h
  obtain ⟨tableEnd, _, hadd, h⟩ := Proc.bind_eq_ok.mp h
  obtain ⟨_, _, hfile, h⟩ := Proc.bind_eq_ok.mp h
  obtain ⟨k, _, hloadable, h⟩ := Proc.bind_eq_ok.mp h
  obtain ⟨_, _, hsome, hpure⟩ := Proc.bind_eq_ok.mp h
  obtain ⟨-, rfl⟩ := mulU64_eq_some.mp (Proc.orFail_eq_ok.mp hmul).1
  obtain ⟨hmax, rfl⟩ := addU64_eq_some.mp (Proc.orFail_eq_ok.mp hadd).1
  obtain rfl := eq_fieldAt hentry
  obtain rfl := eq_fieldAt hoffset
  obtain rfl := eq_fieldAt hsize
  obtain rfl := eq_fieldAt hcount
  cases hpure
  refine ⟨rfl, ?_, k, (Proc.failIf_eq_ok.mp hsome).1, hloadable⟩
  exact ⟨Nat.not_lt.mp (Proc.failIf_eq_ok.mp hlarge).1, hmax,
    Nat.not_lt.mp (Proc.failIf_eq_ok.mp hfile).1⟩

/-- The segments of an accepted file are the loadable entries of its table. -/
theorem segments_eq_loadable {image : Image} {u v : Unit}
    (h : parse data u = some (.ok image, v)) : image.segments = some (loadable data) := by
  obtain ⟨rfl, htable, k, -, hcount⟩ := parse_eq_imageOf h
  exact (segmentsUpTo_imageOf htable le_rfl hcount).1

/-- The reader never reads out of bounds and never drops a segment: parsing comes back for
every file; of an accepted file every entry of the table is read without an error, the segments
are the loadable entries in table order, there is one, and the bytes of each are in the file
and fit in its memory. -/
theorem parse_reads_table (data : List UInt8) :
    (∃ result, parse data () = some (result, ())) ∧
      ∀ image, parse data () = some (.ok image, ()) →
        image.programHeaderCount = entryCount data ∧
        (∀ index < entryCount data, ∃ segment,
          image.segmentAt index () = some (.ok segment, ())) ∧
        image.segments = some (loadable data) ∧ loadable data ≠ [] ∧
        ∀ s ∈ loadable data, ∃ bytes, image.segmentData s = some bytes ∧
          bytes.length = s.fileSize ∧ s.fileSize ≤ s.memorySize := by
  constructor
  · obtain ⟨result, u, h⟩ := parse_returns data
    exact ⟨result, h⟩
  · intro image h
    have hsegments := segments_eq_loadable h
    obtain ⟨hdata, segments, hs, hne, hvalid⟩ := parse_eq_ok h
    obtain ⟨rfl, htable, k, -, hcount⟩ := parse_eq_imageOf h
    obtain ⟨-, hall⟩ := segmentsUpTo_imageOf htable le_rfl hcount
    obtain rfl := Option.some.inj (hs.symm.trans hsegments)
    refine ⟨rfl, ?_, hsegments, hne, ?_⟩
    · intro index hi
      obtain ⟨segment, hverdict⟩ := hall index hi
      exact ⟨segment, by rw [segmentAt_imageOf htable hi, hverdict]⟩
    · intro s hmem
      have hv := hvalid s hmem
      refine ⟨_, segmentData_eq hv, ?_, hv.file_le_memory⟩
      have hin := hv.in_file
      rw [List.length_take, List.length_drop, hdata]
      omega

end Image
end LokoOS.Boot
