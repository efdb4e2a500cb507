/-
  Reading the records that a list of pointers leads to (`readSegmentPointerRecords`).

  The frame of a pointer is decoded once for all pointers to it that follow each other, and a cursor
  runs along with them: the record under it is taken if it has the offset of the pointer, and else
  the frame is searched from its start. The cursor may stand anywhere; what the loop relies on is
  that the frame it keeps is the one that its key stands for (`Holds`).
-/
import Ech0.Store.SegmentFrame

set_option autoImplicit false

namespace Ech0.Store

open Ech0.Lib List

/-! ## Frames of a file (`segment_frame.go`) -/

/-- `readSegmentFrameAt`, with the buffer that it fills. A negative length, which no frame has, is a
panic in the source. -/
def readSegmentFrameAt (path : String) (file : Bytes) (position length : Int) : Except Error Bytes :=
  if position < 0 then
    .error (E .other ("read segment frame: readat " ++ path ++ ": negative offset"))
  else
    let frame := (file.drop position.toNat).take length.toNat
    if frame.length < length.toNat then .error (E .other "read segment frame: EOF")
    else .ok frame

def mappedSegmentSpan (data : Bytes) (position length : Int) : Except Error Bytes :=
  if position < 0 then
    .error (E .codec ("segment mmap position " ++ Int.repr position ++ " is negative"))
  else if length < segmentFrameLegacyHeader then
    .error (E .codec ("segment mmap length " ++ Int.repr length ++ " is too small"))
  else if position + length ≥ 2 ^ 63 ∨ position + length > data.length then
    .error (E .codec ("segment mmap span exceeds file: position=" ++ Int.repr position ++ " length="
      ++ Int.repr length ++ " file_size=" ++ Nat.repr data.length))
  else .ok ((data.drop position.toNat).take length.toNat)

/-- A segment file, as `readSegmentRecords` and as `readMappedSegmentRecords` have it. -/
inductive SegmentData where
  | file (path : String) (bytes : Bytes)
  | mapped (bytes : Bytes)

/-- The function that the two hand to `readSegmentPointerRecords`. -/
def SegmentData.load (zstd : Zstd) (data : SegmentData) (pointer : SegmentRecordPointer) :
    Except Error (List Record) := do
  let frameData ← match data with
    | file path bytes => readSegmentFrameAt path bytes pointer.position pointer.length
    | mapped bytes => mappedSegmentSpan bytes pointer.position pointer.length
  decodeSegmentFrameRecords zstd frameData

/-! ## The loop (`segment_frame.go`, `storx_log_segment_readers.go`) -/

structure SegmentFrameReadKey where
  position : Int
  length : Int
  deriving DecidableEq

def newSegmentFrameReadKey (pointer : SegmentRecordPointer) : SegmentFrameReadKey :=
  ⟨pointer.position, pointer.length⟩

structure SegmentFrameRecordCache where
  key : SegmentFrameReadKey := ⟨0, 0⟩
  loaded : Bool := false
  records : List Record := []
  next : Nat := 0

def findSegmentPointerRecord (pointer : SegmentRecordPointer) (records : List Record) :
    Except Error Record :=
  match records.find? fun record => record.offset = pointer.offset with
  | some record => .ok record
  | none => .error (E .codec ("segment record offset " ++ Nat.repr pointer.offset
      ++ " not found in frame"))

namespace SegmentFrameRecordCache

variable (load : SegmentRecordPointer → Except Error (List Record))

/-- The first part of `record`: the frame of the pointer is loaded, unless it is there. -/
def refreshed (c : SegmentFrameRecordCache) (pointer : SegmentRecordPointer) :
    Except Error SegmentFrameRecordCache :=
  if !c.loaded || newSegmentFrameReadKey pointer ≠ c.key then do
    let records ← load pointer
    .ok ⟨newSegmentFrameReadKey pointer, true, records, 0⟩
  else .ok c

def record (c : SegmentFrameRecordCache) (pointer : SegmentRecordPointer) :
    Except Error (Record × SegmentFrameRecordCache) := do
  let c ← c.refreshed load pointer
  match (c.records[c.next]?).filter fun record => record.offset = pointer.offset with
  | some record => .ok (record, { c with next := c.next + 1 })
  | none =>
    let record ← findSegmentPointerRecord pointer c.records
    .ok (record, c)

/-- The loop of `readSegmentPointerRecords`. -/
def readRecords : SegmentFrameRecordCache → List SegmentRecordPointer → Except Error (List Record)
  | _, [] => .ok []
  | c, pointer :: rest => do
    let (record, c) ← c.record load pointer
    let records ← readRecords c rest
    .ok (record :: records)

end SegmentFrameRecordCache

def readSegmentPointerRecords (pointers : List SegmentRecordPointer)
    (load : SegmentRecordPointer → Except Error (List Record)) : Except Error (List Record) :=
  SegmentFrameRecordCache.readRecords load {} pointers

/-! ## What is read -/

/-- The record is one of the frame of the pointer, and has its offset. -/
def SegmentData.Leads (zstd : Zstd) (data : SegmentData) (pointer : SegmentRecordPointer)
    (record : Record) : Prop :=
  ∃ frame, data.load zstd pointer = .ok frame ∧ record ∈ frame ∧ record.offset = pointer.offset

/-- The frame that a cache keeps is the one that its key stands for. -/
def SegmentFrameRecordCache.Holds (zstd : Zstd) (data : SegmentData) (c : SegmentFrameRecordCache) :
    Prop :=
  c.loaded = true → ∀ pointer, newSegmentFrameReadKey pointer = c.key →
    data.load zstd pointer = .ok c.records

variable {zstd : Zstd} {data : SegmentData} {pointer : SegmentRecordPointer} {record : Record}
  {c : SegmentFrameRecordCache}

namespace SegmentFrameRecordCache

/-- A frame depends on the key of the pointer alone. -/
lemma load_congr {other : SegmentRecordPointer}
    (h : newSegmentFrameReadKey pointer = newSegmentFrameReadKey other) :
    data.load zstd pointer = data.load zstd other := by
  obtain ⟨hposition, hlength⟩ := SegmentFrameReadKey.mk.inj h
  unfold SegmentData.load
  rw [hposition, hlength]

lemma refreshed_spec (h : c.Holds zstd data) {frame : List Record}
    (hframe : data.load zstd pointer = .ok frame) :
    ∃ c', c.refreshed (data.load zstd) pointer = .ok c' ∧ c'.Holds zstd data ∧ c'.records = frame := by
  unfold refreshed
  split
  · rw [hframe]
    exact ⟨_, rfl, fun _ other hother => (load_congr hother).trans hframe, rfl⟩
  · next hkept =>
    simp only [Bool.or_eq_true, Bool.not_eq_true', decide_eq_true_eq, not_or, Bool.not_eq_false,
      not_not] at hkept
    exact ⟨c, rfl, h, Except.ok.inj ((h hkept.1 pointer hkept.2).symm.trans hframe)⟩

/-- One pointer, wherever the cursor stands. -/
lemma record_spec (h : c.Holds zstd data) (hleads : data.Leads zstd pointer record) :
    ∃ found c', c.record (data.load zstd) pointer = .ok (found, c') ∧ c'.Holds zstd data ∧
      data.Leads zstd pointer found := by
  obtain ⟨frame, hframe, hmem, hoffset⟩ := hleads
  obtain ⟨c1, hrefreshed, hholds, rfl⟩ := refreshed_spec h hframe
  unfold SegmentFrameRecordCache.record
  rw [hrefreshed]
  dsimp only [bind, Except.bind]
  split
  · next found hfound =>
    obtain ⟨hat, hsame⟩ := Option.filter_eq_some_iff.mp hfound
    exact ⟨found, _, rfl, hholds, _, hframe, mem_of_getElem? hat, of_decide_eq_true hsame⟩
  · -- the record under the cursor is another one, and the search finds one of the offset
    unfold findSegmentPointerRecord
    cases hfind : c1.records.find? fun record => record.offset = pointer.offset with
    | none => exact absurd (decide_eq_true hoffset) (find?_eq_none.mp hfind record hmem)
    | some found =>
      have hsame := find?_some hfind
      exact ⟨found, c1, rfl, hholds, _, hframe, mem_of_find?_eq_some hfind, of_decide_eq_true hsame⟩

lemma readRecords_spec {pointers : List SegmentRecordPointer} (h : c.Holds zstd data)
    (hpointers : ∀ pointer ∈ pointers, ∃ record, data.Leads zstd pointer record) :
    ∃ records, c.readRecords (data.load zstd) pointers = .ok records ∧
      Forall₂ (data.Leads zstd) pointers records := by
  induction pointers generalizing c with
  | nil => exact ⟨[], rfl, .nil⟩
  | cons pointer rest ih =>
    obtain ⟨⟨record, hleads⟩, hrest⟩ := forall_mem_cons.mp hpointers
    obtain ⟨found, c', hrecord, hholds, hfound⟩ := record_spec h hleads
    obtain ⟨records, hread, hall⟩ := ih hholds hrest
    refine ⟨found :: records, ?_, .cons hfound hall⟩
    rw [readRecords, hrecord]
    dsimp only [bind, Except.bind]
    rw [hread]

end SegmentFrameRecordCache

/-- Each pointer leads to one record, so there is one list that they all lead to. -/
lemma SegmentData.leads_unique {pointers : List SegmentRecordPointer} {left right : List Record}
    (hunique : ∀ pointer ∈ pointers, ∀ first second, data.Leads zstd pointer first →
      data.Leads zstd pointer second → first = second)
    (hleft : Forall₂ (data.Leads zstd) pointers left)
    (hright : Forall₂ (data.Leads zstd) pointers right) : left = right := by
  induction hleft generalizing right with
  | nil =>
    cases hright
    rfl
  | cons hfirst _ ih =>
    obtain ⟨hhead, hrest⟩ := forall_mem_cons.mp hunique
    cases hright with
    | cons hsecond hlater => rw [hhead _ _ hfirst hsecond, ih hrest hlater]

/-- **Reading by pointers.** Every pointer leads to a record: what is read is, position by position,
a record of the pointer's frame with its offset, whatever frame earlier pointers have left and
wherever the cursor stands. If no frame holds two records of a pointer's offset, it does not depend
on either. -/
theorem pointers_read_back (zstd : Zstd) (data : SegmentData) (pointers : List SegmentRecordPointer)
    (hpointers : ∀ pointer ∈ pointers, ∃ record, data.Leads zstd pointer record) :
    ∃ records, readSegmentPointerRecords pointers (data.load zstd) = .ok records ∧
      Forall₂ (data.Leads zstd) pointers records ∧
      ∀ c : SegmentFrameRecordCache, c.Holds zstd data → ∃ others,
        c.readRecords (data.load zstd) pointers = .ok others ∧
        Forall₂ (data.Leads zstd) pointers others ∧
        ((∀ pointer ∈ pointers, ∀ first second, data.Leads zstd pointer first →
          data.Leads zstd pointer second → first = second) → others = records) := by
  obtain ⟨records, hread, hall⟩ := SegmentFrameRecordCache.readRecords_spec (c := {}) nofun hpointers
  refine ⟨records, hread, hall, fun c hc => ?_⟩
  obtain ⟨others, hread', hall'⟩ := SegmentFrameRecordCache.readRecords_spec hc hpointers
  exact ⟨others, hread', hall', fun hunique => SegmentData.leads_unique hunique hall' hall⟩

/-- A file of one record. -/
def bareFile : SegmentData :=
  .file "0.seg" ((encodeSegmentFrameWithCompression ⟨id, .ok⟩ ⟨4, 0, [], [], 0, none, none, []⟩
    (newSegmentFrameCompression .none)).toOption.getD [])

def barePointer : SegmentRecordPointer := ⟨"orders", 0, 4, 0, 0, 38, 0, 0⟩

/-- The record is read twice: the cursor is past it when the second pointer comes. -/
theorem pointers_read_back_twice :
    ∃ records, readSegmentPointerRecords [barePointer, barePointer] (bareFile.load ⟨id, .ok⟩)
        = .ok records ∧
      Forall₂ (bareFile.Leads ⟨id, .ok⟩) [barePointer, barePointer] records := by
  have hframe : bareFile.load ⟨id, .ok⟩ barePointer = .ok [⟨4, 0, [], [], 0, none, none, []⟩] := by
    decide +kernel
  have hleads : ∀ pointer ∈ [barePointer, barePointer],
      ∃ record, bareFile.Leads ⟨id, .ok⟩ pointer record := by
    rintro pointer hmem
    obtain rfl : pointer = barePointer := by simpa using hmem
    exact ⟨_, _, hframe, mem_cons_self, rfl⟩
  obtain ⟨records, hread, hall, -⟩ := pointers_read_back ⟨id, .ok⟩ bareFile _ hleads
  exact ⟨records, hread, hall⟩

end Ech0.Store
