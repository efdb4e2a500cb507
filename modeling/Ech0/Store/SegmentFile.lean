/-
  A segment file: the writer that appends frames to it, and the index that is rebuilt from its
  bytes when the index file is missing.

  The writer counts the position of each frame by itself, starting from the size the file had
  when it was opened. The rebuild finds the frames again by the lengths in their headers. That
  both agree is an induction over the frames of the file: the frames before a position are what
  the writer has counted so far, and the header at the position gives the next one.

  The file is written at its end: it is opened with the offset there, one writer is open at a
  time, and nothing truncates it. A write that fails has written some beginning of its bytes.
-/
import Ech0.Store.SegmentFrame

set_option autoImplicit false

namespace Ech0.Store

open Ech0.Lib List

/-! ## Writing (`storx_log_segments.go`, `storx_log_batch.go`) -/

/-- A write that the operating system does not finish: the bytes that reach the file, and the
text of the error. A short write without an error is one with `io.ErrShortWrite`. -/
structure WriteFault where
  written : Nat
  cause : String
  deriving DecidableEq

/-- The size of a file is an `int64`. -/
def maxFileSize : Nat := 2 ^ 63 - 1

/-- `os.File.Write` at the end of a file: the error, and the file afterwards. -/
def writeFile (fault : Option WriteFault) (file payload : Bytes) : Option String × Bytes :=
  match fault with
  | some fault => (some fault.cause, file ++ payload.take fault.written)
  | none =>
    if file.length + payload.length > maxFileSize then (some "file too large", file)
    else (none, file ++ payload)

/-- `segmentWriter`: the file, and the position that the next frame is thought to get. -/
structure SegmentWriter where
  file : Bytes
  position : Nat
  deriving DecidableEq

def openSegmentWriter (file : Bytes) : SegmentWriter := ⟨file, file.length⟩

/-- The positions of `coalesceFrames`. -/
def framePositions : Nat → List Bytes → List Nat
  | _, [] => []
  | nextPosition, frame :: frames => nextPosition :: framePositions (nextPosition + frame.length) frames

/-- `segmentWriter.appendFrames`: the position moves only when the write succeeds. -/
def SegmentWriter.appendFrames (w : SegmentWriter) (fault : Option WriteFault)
    (frames : List Bytes) : Except Error (List Nat) × SegmentWriter :=
  if frames = [] then (.ok [], w)
  else
    let payload := frames.flatten
    match writeFile fault w.file payload with
    | (some cause, file) =>
      (.error (E .other ("write segment record: " ++ cause)), { w with file := file })
    | (none, file) =>
      (.ok (framePositions w.position frames), ⟨file, w.position + payload.length⟩)

/-- The pointer to a record of a frame, as appends and the rebuild make it. -/
def segmentPointer (tp : TopicPartition) (segmentID position length : Nat) (record : Record) :
    SegmentRecordPointer :=
  { topic := tp.topic, partition := tp.partition, offset := record.offset, segmentID := segmentID
    position := position, length := length, timestampMS := record.timestampMS
    attributes := record.attributes }

/-- One step of the loop of `appendBatchFrames`, with `appendBatchFrame` and
`assignBatchFramePointers`. For one record it is `appendFrame`, too, which restored records take. -/
def SegmentWriter.appendBatchFrame (zstd : Zstd) (compression : SegmentFrameCompression)
    (tp : TopicPartition) (segmentID : Nat) (records : List Record) (fault : Option WriteFault)
    (w : SegmentWriter) : Except Error (List SegmentRecordPointer) × SegmentWriter :=
  match encodeSegmentBatchFrameWithCompression zstd records compression with
  | .error err => (.error err, w)
  | .ok frame =>
    match w.appendFrames fault [frame] with
    | (.error err, w) => (.error err, w)
    | (.ok [], w) => (.error (E .codec "append batch frame returned no position"), w)
    | (.ok (position :: _), w) =>
      (.ok (records.map (segmentPointer tp segmentID position frame.length)), w)

/-! ## Rebuilding the index of a file (`segment_index_rebuild.go`) -/

/-- `nextSelfDescribingSegmentFrame`: the frame at a position, and the position after it. -/
def nextSelfDescribingSegmentFrame (data : Bytes) (position : Nat) : Except Error (Bytes × Nat) :=
  if data.length - position < segmentFrameHeader then
    .error (E .codec ("truncated segment frame header at position " ++ Nat.repr position))
  else
    let magic := ofBigEndian ((data.drop position).take 4)
    if !validSegmentFrameMagic magic then
      .error (E .codec ("invalid segment frame magic " ++ hexRepr magic ++ " at position "
        ++ Nat.repr position))
    else if !sizedSegmentFrameMagic magic then
      .error (E .codec ("missing segment index for legacy unsized segment frame at position "
        ++ Nat.repr position))
    else
      let length := segmentFrameHeader + ofBigEndian ((data.drop (position + 8)).take 4)
      if length > data.length - position then
        .error (E .codec ("truncated segment frame at position " ++ Nat.repr position ++ ": length="
          ++ Nat.repr length ++ " remaining=" ++ Nat.repr (data.length - position)))
      else .ok ((data.drop position).take length, position + length)

lemma nextSelfDescribingSegmentFrame_lt {data frame : Bytes} {position next : Nat}
    (h : nextSelfDescribingSegmentFrame data position = .ok (frame, next)) : position < next := by
  unfold nextSelfDescribingSegmentFrame at h
  split at h
  · cases h
  · dsimp only at h
    split at h
    · cases h
    · split at h
      · cases h
      · split at h
        · cases h
        · cases h
          unfold segmentFrameHeader
          omega

/-- The loop of `rebuildSegmentPointers`, from a position on. -/
def rebuildSegmentPointersFrom (zstd : Zstd) (tp : TopicPartition) (segmentID : Nat) (data : Bytes)
    (position : Nat) : Except Error (List SegmentRecordPointer) :=
  if position < data.length then
    match _h : nextSelfDescribingSegmentFrame data position with
    | .error err => .error err
    | .ok (frame, nextPosition) =>
      match decodeSegmentFrameRecords zstd frame with
      | .error err => .error err
      | .ok records =>
        match rebuildSegmentPointersFrom zstd tp segmentID data nextPosition with
        | .error err => .error err
        | .ok pointers =>
          .ok (records.map (segmentPointer tp segmentID position frame.length) ++ pointers)
  else .ok []
termination_by data.length - position
decreasing_by
  have := nextSelfDescribingSegmentFrame_lt _h
  omega

def rebuildSegmentPointers (zstd : Zstd) (tp : TopicPartition) (segmentID : Nat) (data : Bytes) :
    Except Error (List SegmentRecordPointer) :=
  rebuildSegmentPointersFrom zstd tp segmentID data 0

/-! ## The frames of a file -/

/-- A frame that was written: its records, and the header and body it got. -/
structure WrittenFrame where
  records : List Record
  magic : Nat
  payload : Bytes

namespace WrittenFrame

def bytes (frame : WrittenFrame) : Bytes := segmentFrame frame.magic frame.payload

/-- The frame is one of its records, and these are values of their Go types. -/
structure WellFormed (zstd : Zstd) (frame : WrittenFrame) : Prop where
  isFrame : IsSegmentFrame zstd frame.records frame.magic frame.payload
  inRange : ∀ record ∈ frame.records, record.InRange

variable {zstd : Zstd} {frame : WrittenFrame}

lemma length_bytes_le (frame : WrittenFrame) : 12 ≤ frame.bytes.length := by
  rw [bytes, length_segmentFrame]
  omega

lemma WellFormed.decode (h : frame.WellFormed zstd) :
    decodeSegmentFrameRecords zstd frame.bytes = .ok (frame.records.map Record.stored) :=
  h.isFrame.decode h.inRange

/-- The next frame of a file is found by its header, whatever comes after it. -/
lemma WellFormed.next (h : frame.WellFormed zstd) (before after : Bytes) :
    nextSelfDescribingSegmentFrame (before ++ (frame.bytes ++ after)) before.length
      = .ok (frame.bytes, before.length + frame.bytes.length) := by
  have hlong := frame.length_bytes_le
  have hleft : (before ++ (frame.bytes ++ after)).length - before.length
      = frame.bytes.length + after.length := by
    simp only [length_append]
    omega
  have hmagic : (frame.bytes ++ after).take 4 = bigEndian 4 frame.magic := by
    rw [take_append_of_le_length (by omega)]
    exact magic_segmentFrame _ _
  have hbodyLen : ((before ++ (frame.bytes ++ after)).drop (before.length + 8)).take 4
      = bigEndian 4 frame.payload.length := by
    rw [← drop_drop, drop_left, drop_append_of_le_length (by omega),
      take_append_of_le_length (by rw [length_drop]; omega)]
    exact bodyLen_segmentFrame _ _
  have hlength : segmentFrameHeader + frame.payload.length = frame.bytes.length := by
    rw [bytes, length_segmentFrame, segmentFrameHeader]
  rw [nextSelfDescribingSegmentFrame, hleft, if_neg (by rw [segmentFrameHeader]; omega),
    drop_left, hmagic, h.isFrame.readMagic]
  dsimp only
  rw [valid_of_sized h.isFrame.sized, h.isFrame.sized, hbodyLen, h.isFrame.readBodyLen, hlength,
    Bool.not_true, if_neg Bool.false_ne_true, if_neg Bool.false_ne_true, if_neg (by omega),
    take_left]

/-- A file that ends inside a frame is refused there. -/
lemma WellFormed.next_take (h : frame.WellFormed zstd) (before : Bytes) {k : Nat}
    (hk : k < frame.bytes.length) :
    ∃ err, nextSelfDescribingSegmentFrame (before ++ frame.bytes.take k) before.length
      = .error err := by
  have hleft : (before ++ frame.bytes.take k).length - before.length = k := by
    rw [length_append, length_take]
    omega
  unfold nextSelfDescribingSegmentFrame
  rw [hleft]
  split
  · exact ⟨_, rfl⟩
  · next hheader =>
    have hlong : 12 ≤ k := Nat.not_lt.mp hheader
    have hmagic : (frame.bytes.take k).take 4 = bigEndian 4 frame.magic := by
      rw [take_take, Nat.min_eq_left (by omega)]
      exact magic_segmentFrame _ _
    have hbodyLen : ((before ++ frame.bytes.take k).drop (before.length + 8)).take 4
        = bigEndian 4 frame.payload.length := by
      rw [← drop_drop, drop_left, drop_take, take_take,
        Nat.min_eq_left (by omega)]
      exact bodyLen_segmentFrame _ _
    have hlength : segmentFrameHeader + frame.payload.length > k := by
      rw [bytes, length_segmentFrame] at hk
      exact hk
    rw [drop_left, hmagic, h.isFrame.readMagic]
    dsimp only
    rw [valid_of_sized h.isFrame.sized, h.isFrame.sized, hbodyLen, h.isFrame.readBodyLen,
      Bool.not_true, if_neg Bool.false_ne_true, if_neg Bool.false_ne_true, if_pos hlength]
    exact ⟨_, rfl⟩

end WrittenFrame

/-- The pointers to the records of frames that begin at a position. -/
def framePointers (tp : TopicPartition) (segmentID : Nat) :
    Nat → List WrittenFrame → List SegmentRecordPointer
  | _, [] => []
  | position, frame :: frames =>
    frame.records.map (segmentPointer tp segmentID position frame.bytes.length)
      ++ framePointers tp segmentID (position + frame.bytes.length) frames

section Rebuild

variable {zstd : Zstd} {tp : TopicPartition} {segmentID : Nat}

/-- The rebuild takes one frame after the other. What stands before the position stays as it
is, and grows by a frame in the step. -/
lemma rebuildSegmentPointersFrom_frames (frames : List WrittenFrame)
    (h : ∀ frame ∈ frames, frame.WellFormed zstd) (before : Bytes) :
    rebuildSegmentPointersFrom zstd tp segmentID
        (before ++ frames.flatMap WrittenFrame.bytes) before.length
      = .ok (framePointers tp segmentID before.length frames) := by
  induction frames generalizing before with
  | nil =>
    rw [rebuildSegmentPointersFrom, if_neg (by simp)]
    rfl
  | cons frame frames ih =>
    have hframe := h frame mem_cons_self
    have hlong := frame.length_bytes_le
    have hrest := ih (fun f hf => h f (mem_cons_of_mem frame hf)) (before ++ frame.bytes)
    rw [append_assoc, length_append] at hrest
    rw [flatMap_cons, rebuildSegmentPointersFrom,
      if_pos (by simp only [length_append]; omega)]
    split
    · next err herr =>
      rw [hframe.next] at herr
      cases herr
    · next found nextPosition hnext =>
      rw [hframe.next] at hnext
      cases hnext
      rw [hframe.decode, hrest]
      simp only [map_map]
      rfl

lemma le_position_framePointers {position : Nat} {frames : List WrittenFrame}
    {pointer : SegmentRecordPointer} (h : pointer ∈ framePointers tp segmentID position frames) :
    (position : Int) ≤ pointer.position := by
  induction frames generalizing position with
  | nil => cases h
  | cons frame frames ih =>
    rcases mem_append.mp h with hhead | htail
    · obtain ⟨record, -, rfl⟩ := mem_map.mp hhead
      exact Int.le_refl _
    · have := ih htail
      omega

/-- A file that ends inside a frame has no index. -/
lemma rebuildSegmentPointersFrom_take (frames : List WrittenFrame)
    (h : ∀ frame ∈ frames, frame.WellFormed zstd) (before : Bytes) {k : Nat}
    (hinside : ∃ pointer ∈ framePointers tp segmentID before.length frames,
      pointer.position < (before.length + k : Nat) ∧
        (before.length + k : Nat) < pointer.position + pointer.length) :
    ∃ err, rebuildSegmentPointersFrom zstd tp segmentID
      (before ++ (frames.flatMap WrittenFrame.bytes).take k) before.length = .error err := by
  induction frames generalizing before k with
  | nil =>
    obtain ⟨pointer, hmem, -⟩ := hinside
    cases hmem
  | cons frame frames ih =>
    have hframe := h frame mem_cons_self
    have hlong := frame.length_bytes_le
    obtain ⟨pointer, hmem, hbegin, hend⟩ := hinside
    rw [flatMap_cons]
    rcases mem_append.mp hmem with hhead | htail
    · -- The file ends inside the frame at this position.
      obtain ⟨record, -, rfl⟩ := mem_map.mp hhead
      simp only [segmentPointer] at hbegin hend
      have hk : k < frame.bytes.length := by omega
      rw [take_append_of_le_length (by omega), rebuildSegmentPointersFrom,
        if_pos (by rw [length_append, length_take]; omega)]
      obtain ⟨err, herr⟩ := hframe.next_take before hk
      split
      · exact ⟨_, rfl⟩
      · next hnext =>
        rw [herr] at hnext
        cases hnext
    · -- This frame is whole, and the file ends inside a later one.
      have hafter := le_position_framePointers htail
      obtain ⟨more, rfl⟩ : ∃ more, k = frame.bytes.length + more := ⟨k - frame.bytes.length, by omega⟩
      have hsum : (before ++ frame.bytes).length + more
          = before.length + (frame.bytes.length + more) := by
        rw [length_append]
        omega
      obtain ⟨err, herr⟩ := ih (fun f hf => h f (mem_cons_of_mem frame hf))
        (before ++ frame.bytes) (k := more)
        ⟨pointer, by rw [length_append]; exact htail, by rw [hsum]; exact ⟨hbegin, hend⟩⟩
      rw [append_assoc, length_append] at herr
      rw [take_length_add_append, rebuildSegmentPointersFrom,
        if_pos (by simp only [length_append]; omega)]
      split
      · exact ⟨_, rfl⟩
      · next found nextPosition hnext =>
        rw [hframe.next] at hnext
        cases hnext
        rw [hframe.decode, herr]
        exact ⟨err, rfl⟩

end Rebuild

/-! ## The life of a segment file -/

/-- What happens to a segment file: a frame with one record or more is appended, or the writer
is closed and opened again. -/
inductive SegmentEvent where
  | append (compression : SegmentFrameCompression) (record : Record) (more : List Record)
  | reopen

/-- The records are values of their Go types. -/
def SegmentEvent.InRange : SegmentEvent → Prop
  | append _ record more => ∀ r ∈ record :: more, r.InRange
  | reopen => True

/-- The file after these events, all of which succeed, and the pointers that were recorded. -/
def SegmentWriter.run (zstd : Zstd) (tp : TopicPartition) (segmentID : Nat) :
    List SegmentEvent → SegmentWriter → Except Error (List SegmentRecordPointer × SegmentWriter)
  | [], w => .ok ([], w)
  | .reopen :: events, w => run zstd tp segmentID events (openSegmentWriter w.file)
  | .append compression record more :: events, w =>
    match w.appendBatchFrame zstd compression tp segmentID (record :: more) none with
    | (.error err, _) => .error err
    | (.ok pointers, w) => do
      let (later, w) ← run zstd tp segmentID events w
      .ok (pointers ++ later, w)

section Run

variable {zstd : Zstd} {tp : TopicPartition} {segmentID : Nat}

/-- The writer's file consists of these frames, and it knows where the file ends. -/
structure SegmentWriter.Holds (zstd : Zstd) (w : SegmentWriter) (frames : List WrittenFrame) :
    Prop where
  file : w.file = frames.flatMap WrittenFrame.bytes
  position : w.position = w.file.length
  wellFormed : ∀ frame ∈ frames, frame.WellFormed zstd

lemma SegmentWriter.appendFrames_one (w : SegmentWriter) (frame : Bytes) :
    w.appendFrames none [frame] =
      if w.file.length + frame.length > maxFileSize then
        (.error (E .other ("write segment record: " ++ "file too large")), w)
      else (.ok [w.position], ⟨w.file ++ frame, w.position + frame.length⟩) := by
  unfold SegmentWriter.appendFrames writeFile
  rw [if_neg (cons_ne_nil frame [])]
  simp only [flatten_singleton, framePositions]
  by_cases hroom : w.file.length + frame.length > maxFileSize
  · simp only [if_pos hroom]
  · simp only [if_neg hroom]

/-- **An append writes one frame of its records**, and points to where the file ended. -/
theorem SegmentWriter.appendBatchFrame_ok (hzstd : zstd.Lawful)
    {compression : SegmentFrameCompression} {records : List Record} {w w' : SegmentWriter}
    {pointers : List SegmentRecordPointer} (hrange : ∀ record ∈ records, record.InRange)
    (h : w.appendBatchFrame zstd compression tp segmentID records none = (.ok pointers, w')) :
    ∃ frame : WrittenFrame, frame.records = records ∧ frame.WellFormed zstd ∧
      w.file.length + frame.bytes.length ≤ maxFileSize ∧
      w' = ⟨w.file ++ frame.bytes, w.position + frame.bytes.length⟩ ∧
      pointers = records.map (segmentPointer tp segmentID w.position frame.bytes.length) := by
  unfold SegmentWriter.appendBatchFrame at h
  cases hencode : encodeSegmentBatchFrameWithCompression zstd records compression with
  | error err =>
    rw [hencode] at h
    cases h
  | ok bytes =>
    obtain ⟨magic, payload, rfl, hwf⟩ := encodeSegmentBatchFrame_isSegmentFrame hzstd hencode
    rw [hencode] at h
    dsimp only at h
    rw [appendFrames_one] at h
    by_cases hroom : w.file.length + (segmentFrame magic payload).length > maxFileSize
    · rw [if_pos hroom] at h
      cases h
    · rw [if_neg hroom] at h
      cases h
      exact ⟨⟨records, magic, payload⟩, rfl, ⟨hwf, hrange⟩, Nat.not_lt.mp hroom, rfl, rfl⟩

/-- A run adds frames to the file, and the pointers to their records to what was recorded. -/
lemma SegmentWriter.Holds.run (hzstd : zstd.Lawful) {events : List SegmentEvent}
    (hevents : ∀ event ∈ events, event.InRange) {w w' : SegmentWriter} {frames : List WrittenFrame}
    {pointers : List SegmentRecordPointer} (hw : w.Holds zstd frames)
    (h : w.run zstd tp segmentID events = .ok (pointers, w')) :
    ∃ more, w'.Holds zstd (frames ++ more) ∧
      pointers = framePointers tp segmentID w.file.length more := by
  induction events generalizing w frames pointers with
  | nil =>
    cases h
    exact ⟨[], by rw [append_nil]; exact hw, rfl⟩
  | cons event events ih =>
    have hlater : ∀ e ∈ events, e.InRange := fun e he => hevents e (mem_cons_of_mem event he)
    cases event with
    | reopen =>
      have hopen : (openSegmentWriter w.file).Holds zstd frames := ⟨hw.file, rfl, hw.wellFormed⟩
      have hrest := ih hlater hopen h
      exact hrest
    | append compression record more =>
      have hrange : ∀ r ∈ record :: more, r.InRange := hevents _ mem_cons_self
      rw [SegmentWriter.run] at h
      split at h
      · cases h
      · next recorded w1 happend =>
        obtain ⟨frame, hrecords, hwf, -, rfl, rfl⟩ := appendBatchFrame_ok hzstd hrange happend
        obtain ⟨⟨later, w2⟩, hrest, h⟩ := Except.bind_eq_ok.mp h
        cases h
        have hstep : (⟨w.file ++ frame.bytes, w.position + frame.bytes.length⟩ :
            SegmentWriter).Holds zstd (frames ++ [frame]) := by
          refine ⟨?_, ?_, ?_⟩
          · simp [hw.file]
          · simp [hw.position]
          · exact forall_mem_append.mpr ⟨hw.wellFormed, forall_mem_singleton.mpr hwf⟩
        obtain ⟨tail, hholds, hpointers⟩ := ih hlater hstep hrest
        refine ⟨frame :: tail, by simpa using hholds, ?_⟩
        rw [hpointers, framePointers, hrecords, hw.position, length_append]

/-- **The rebuilt index.** After any appends to a segment file, the index rebuilt from its bytes
holds the pointers that the appends recorded, in the same order; and a file cut inside a frame,
which is between the position of some pointer and the end of its frame, is refused. -/
theorem segment_rebuild_exact (hzstd : zstd.Lawful) {events : List SegmentEvent}
    (hevents : ∀ event ∈ events, event.InRange) {w : SegmentWriter}
    {pointers : List SegmentRecordPointer}
    (hrun : (openSegmentWriter []).run zstd tp segmentID events = .ok (pointers, w)) :
    rebuildSegmentPointers zstd tp segmentID w.file = .ok pointers ∧
      ∀ k : Nat, (∃ pointer ∈ pointers,
          pointer.position < k ∧ k < pointer.position + pointer.length) →
        ∃ err, rebuildSegmentPointers zstd tp segmentID (w.file.take k) = .error err := by
  have hempty : (openSegmentWriter []).Holds zstd [] :=
    ⟨rfl, rfl, fun _ hmem => absurd hmem not_mem_nil⟩
  obtain ⟨frames, hholds, rfl⟩ := hempty.run hzstd hevents hrun
  rw [nil_append] at hholds
  rw [hholds.file]
  refine ⟨rebuildSegmentPointersFrom_frames frames hholds.wellFormed [], fun k hinside => ?_⟩
  refine rebuildSegmentPointersFrom_take frames hholds.wellFormed [] ?_
  rw [length_nil, Nat.zero_add]
  exact hinside

/-- A batch, a new writer, and another frame; nothing is compressed. -/
theorem segment_rebuild_exact_mixed :
    ∃ pointers w, (openSegmentWriter []).run ⟨id, .ok⟩ ⟨"orders", 0⟩ 0
        [.append (newSegmentFrameCompression .none) (fullRecord 0) [fullRecord 1], .reopen,
          .append (newSegmentFrameCompression .none) (fullRecord 2) []] = .ok (pointers, w) ∧
      rebuildSegmentPointers ⟨id, .ok⟩ ⟨"orders", 0⟩ 0 w.file = .ok pointers := by
  have hlawful : Zstd.Lawful ⟨id, .ok⟩ := fun _ => rfl
  cases hrun : (openSegmentWriter []).run ⟨id, .ok⟩ ⟨"orders", 0⟩ 0
      [.append (newSegmentFrameCompression .none) (fullRecord 0) [fullRecord 1], .reopen,
        .append (newSegmentFrameCompression .none) (fullRecord 2) []] with
  | error err =>
    have hok : (SegmentWriter.run ⟨id, .ok⟩ ⟨"orders", 0⟩ 0
        [.append (newSegmentFrameCompression .none) (fullRecord 0) [fullRecord 1], .reopen,
          .append (newSegmentFrameCompression .none) (fullRecord 2) []]
        (openSegmentWriter [])).toBool = true := by decide +kernel
    rw [hrun] at hok
    cases hok
  | ok found =>
    refine ⟨found.1, found.2, rfl, (segment_rebuild_exact hlawful ?_ hrun).1⟩
    intro event hmem
    simp only [mem_cons, not_mem_nil, or_false] at hmem
    rcases hmem with rfl | rfl | rfl
    · intro r hr
      simp only [mem_cons, not_mem_nil, or_false] at hr
      rcases hr with rfl | rfl <;> exact fullRecord_inRange (by decide)
    · trivial
    · intro r hr
      rw [mem_singleton.mp hr]
      exact fullRecord_inRange (by decide)

end Run

end Ech0.Store
