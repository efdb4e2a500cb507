/-
  The index files of the segment log: the entries they hold and how these are written and read.

  An index file is a sequence of entries, each preceded by its length in four bytes. The reader
  takes the end of the file before a length for the end of the index. It finds out by asking
  whether the error is `io.EOF`, and asks this of every error: one that wraps `io.EOF` counts as
  the end, too. `io.ReadFull` returns `io.EOF` when it could not read a single byte, so a file
  that ends right after a length is read as if it ended before it.

  Integers have the widths of the source on a 64-bit platform: `InRange` says that the fields
  of a pointer are values of their Go types.
-/
import Ech0.Lib.Reader
import Ech0.Store.Model

set_option autoImplicit false

namespace Ech0.Store

open Ech0.Lib List

variable {n : Nat} {k : Nat}

/-! ## Pointers and entries (`segment_index_codec.go`, `storx_log.go`) -/

/-- `segmentRecordPointer`: where a record is, and what is asked of records most often. -/
structure SegmentRecordPointer where
  topic : String
  partition : UInt32
  offset : Nat
  segmentID : Nat
  position : Int
  length : Int
  timestampMS : Nat
  attributes : Nat
  deriving DecidableEq

/-- A Go string, each character standing for one byte. -/
def GoString (s : String) : Prop := ∀ c ∈ s.toList, c.toNat < 256

instance (s : String) : Decidable (GoString s) :=
  inferInstanceAs (Decidable (∀ c ∈ s.toList, c.toNat < 256))

/-- Every field is a value of its Go type. -/
structure SegmentRecordPointer.InRange (p : SegmentRecordPointer) : Prop where
  topic : GoString p.topic
  offset : p.offset < 2 ^ 64
  segmentID : p.segmentID < 2 ^ 64
  position : -2 ^ 63 ≤ p.position ∧ p.position < 2 ^ 63
  length : -2 ^ 63 ≤ p.length ∧ p.length < 2 ^ 63
  timestampMS : p.timestampMS < 2 ^ 64
  attributes : p.attributes < 2 ^ 16

structure SegmentIndexEntry where
  pointer : SegmentRecordPointer
  deleted : Bool := false
  deriving DecidableEq

def segmentIndexEntryMagic : Nat := 0x45534931

def segmentIndexEntryEncodedLen (pointer : SegmentRecordPointer) : Nat :=
  56 + pointer.topic.length

/-! ## Writing (`segment_index_codec.go`) -/

/-- The fields as they are written. -/
def segmentIndexEntryBytes (entry : SegmentIndexEntry) : Bytes :=
  bigEndian 4 segmentIndexEntryMagic
    ++ bigEndian 2 (if entry.deleted then 1 else 0)
    ++ bigEndian 4 entry.pointer.topic.length
    ++ bytesOfString entry.pointer.topic
    ++ bigEndian 4 entry.pointer.partition.toNat
    ++ bigEndian 8 entry.pointer.offset
    ++ bigEndian 8 entry.pointer.segmentID
    ++ bigEndian 8 entry.pointer.position.toNat
    ++ bigEndian 8 entry.pointer.length.toNat
    ++ bigEndian 8 entry.pointer.timestampMS
    ++ bigEndian 2 entry.pointer.attributes

def encodeSegmentIndexEntry (entry : SegmentIndexEntry) : Except Error Bytes :=
  let pointer := entry.pointer
  if pointer.position < 0 then
    .error (E .codec ("segment pointer position " ++ Int.repr pointer.position ++ " is negative"))
  else if pointer.length < 0 then
    .error (E .codec ("segment pointer length " ++ Int.repr pointer.length ++ " is negative"))
  else if pointer.topic.length ≥ 2 ^ 32 then
    .error (E .codec ("segment pointer topic length " ++ Nat.repr pointer.topic.length
      ++ " exceeds uint32"))
  else .ok (segmentIndexEntryBytes entry)

def encodeSegmentIndexEntries : List SegmentIndexEntry → Except Error Bytes
  | [] => .ok []
  | entry :: rest => do
    let payload ← encodeSegmentIndexEntry entry
    if payload.length ≥ 2 ^ 32 then
      .error (E .codec ("segment index entry length " ++ Nat.repr payload.length
        ++ " exceeds uint32"))
    else
      let out ← encodeSegmentIndexEntries rest
      .ok (bigEndian 4 payload.length ++ payload ++ out)

/-! ## Reading one entry (`segment_index_codec.go`) -/

namespace SegmentIndexEntryDecoder

def readFixed (length : Nat) (field : String) : Reader Error Bytes :=
  Reader.fixed length fun remaining =>
    E .codec ("segment index " ++ field ++ " length " ++ Nat.repr length
      ++ " exceeds remaining value size " ++ Nat.repr remaining)

/-- `readU16`, `readU32` and `readU64`, by their width in bytes. -/
def readUint (width : Nat) (field : String) : Reader Error Nat := do
  let raw ← readFixed width field
  pure (ofBigEndian raw)

def readU16 (field : String) : Reader Error Nat := readUint 2 field

def readU32 (field : String) : Reader Error Nat := readUint 4 field

def readU64 (field : String) : Reader Error Nat := readUint 8 field

/-- `readI64` and `readInt`, which differ in the name of the type only. -/
def readSigned (type field : String) : Reader Error Int := do
  let raw ← readU64 field
  if raw ≥ 2 ^ 63 then
    Reader.fail (E .codec ("segment pointer " ++ field ++ " " ++ Nat.repr raw ++ " exceeds " ++ type))
  else pure (raw : Int)

def expectMagic : Reader Error Unit := do
  let magic ← readU32 "magic"
  if magic ≠ segmentIndexEntryMagic then
    Reader.fail (E .codec ("invalid segment index entry magic "
      ++ String.ofList (Nat.toDigits 16 magic)))
  else pure ()

def readTopic : Reader Error String := do
  let topicLen ← readU32 "topic length"
  let raw ← readFixed topicLen "topic"
  pure (stringOfBytes raw)

/-- `readPointerFields` and `readPointerTail`. -/
def readPointerFields (topic : String) : Reader Error SegmentRecordPointer := do
  let partition ← readU32 "partition"
  let offset ← readU64 "offset"
  let segmentID ← readU64 "segment id"
  let position ← readSigned "int64" "position"
  let length ← readSigned "int" "length"
  let timestampMS ← readU64 "timestamp"
  let attributes ← readU16 "attributes"
  pure ⟨topic, UInt32.ofNat partition, offset, segmentID, position, length, timestampMS, attributes⟩

/-- The fields of an entry, without the check for trailing bytes. -/
def readEntry : Reader Error SegmentIndexEntry := do
  expectMagic
  let flags ← readU16 "flags"
  let topic ← readTopic
  let pointer ← readPointerFields topic
  pure ⟨pointer, flags.testBit 0⟩

end SegmentIndexEntryDecoder

def decodeSegmentIndexEntry (data : Bytes) : Except Error SegmentIndexEntry :=
  match SegmentIndexEntryDecoder.readEntry data with
  | .error err => .error err
  | .ok (entry, rest) =>
    if rest.length ≠ 0 then
      .error (E .codec ("segment index entry has " ++ Nat.repr rest.length ++ " trailing bytes"))
    else .ok entry

/-! ## Reading a file (`segment_index_codec.go`) -/

/-- What `io.ReadFull` returns when the file ends. -/
inductive ReadFullError where
  | eof
  | unexpectedEOF
  deriving DecidableEq

/-- The text of the error. -/
def ReadFullError.message : ReadFullError → String
  | eof => "EOF"
  | unexpectedEOF => "unexpected EOF"

/-- `io.ReadFull` on a buffer of `n` bytes. -/
def readFull (n : Nat) (file : Bytes) : Except ReadFullError (Bytes × Bytes) :=
  if n ≤ file.length then .ok (file.take n, file.drop n)
  else if file = [] then .error .eof
  else .error .unexpectedEOF

/-- An error of the index reader, with the reading error that `errors.Is` finds beneath it. -/
structure IndexReadError where
  err : Error
  cause : Option ReadFullError := none
  deriving DecidableEq

/-- `wrapExternal` (`errors.go`), on an error of `io.ReadFull`. It calls `oops.Wrapf`, a package outside
the repository: its text is the context and the text of the cause, and its `Unwrap` gives the cause back.
Both are what that package documents, and are taken from there. -/
def wrapReadError (cause : ReadFullError) (context : String) : IndexReadError :=
  ⟨E .other (context ++ ": " ++ cause.message), some cause⟩

/-- `errors.Is(err, io.EOF)`, which unwraps the error. -/
def IndexReadError.isEOF (err : IndexReadError) : Bool := err.cause = some .eof

def readSegmentIndexEntry (file : Bytes) : Except IndexReadError (SegmentIndexEntry × Bytes) :=
  match readFull 4 file with
  | .error .eof => .error ⟨E .other "EOF", some .eof⟩
  | .error cause => .error (wrapReadError cause "read segment index entry length")
  | .ok (rawLength, file) =>
    let length := ofBigEndian rawLength
    if length = 0 then .error ⟨E .codec "empty segment index entry", none⟩
    else
      match readFull length file with
      | .error cause => .error (wrapReadError cause "read segment index entry")
      | .ok (payload, file) =>
        match decodeSegmentIndexEntry payload with
        | .error err => .error ⟨err, none⟩
        | .ok entry => .ok (entry, file)

lemma readFull_ok {file data rest : Bytes} (h : readFull n file = .ok (data, rest)) :
    rest.length + n = file.length := by
  unfold readFull at h
  split at h
  · next hle =>
    cases h
    rw [length_drop]
    omega
  · split at h <;> cases h

/-- An entry takes bytes from the file. -/
lemma readSegmentIndexEntry_lt {file rest : Bytes} {entry : SegmentIndexEntry}
    (h : readSegmentIndexEntry file = .ok (entry, rest)) : rest.length < file.length := by
  unfold readSegmentIndexEntry at h
  cases hheader : readFull 4 file with
  | error cause =>
    rw [hheader] at h
    cases cause <;> cases h
  | ok header =>
    obtain ⟨rawLength, file1⟩ := header
    have hlen := readFull_ok hheader
    rw [hheader] at h
    dsimp only at h
    split at h
    · cases h
    · cases hpayload : readFull (ofBigEndian rawLength) file1 with
      | error cause =>
        rw [hpayload] at h
        cases h
      | ok found =>
        obtain ⟨payload, file2⟩ := found
        have hlen2 := readFull_ok hpayload
        rw [hpayload] at h
        dsimp only at h
        split at h
        · cases h
        · cases h
          omega

def readSegmentIndexEntries (file : Bytes) : Except IndexReadError (List SegmentIndexEntry) :=
  match _h : readSegmentIndexEntry file with
  | .error err => if err.isEOF then .ok [] else .error err
  | .ok (entry, rest) =>
    match readSegmentIndexEntries rest with
    | .error err => .error err
    | .ok entries => .ok (entry :: entries)
termination_by file.length
decreasing_by exact readSegmentIndexEntry_lt _h

/-! ## Reading back what was written -/

lemma readFull_append {data : Bytes} (h : data.length = n) (rest : Bytes) :
    readFull n (data ++ rest) = .ok (data, rest) := by
  unfold readFull
  rw [if_pos (by rw [length_append]; omega), take_left' h, drop_left' h]

lemma readFull_short {file : Bytes} (h : file.length < n) :
    readFull n file = .error (if file.length = 0 then .eof else .unexpectedEOF) := by
  unfold readFull
  rw [if_neg (Nat.not_le.mpr h)]
  simp only [length_eq_zero_iff]
  split <;> rfl

lemma length_bytesOfString (s : String) : (bytesOfString s).length = s.length := by
  rw [bytesOfString, length_map, String.length_toList]

/-- A Go string is its bytes. -/
lemma stringOfBytes_bytesOfString {s : String} (h : GoString s) :
    stringOfBytes (bytesOfString s) = s := by
  have hchars : (bytesOfString s).map (fun byte => Char.ofNat byte.toNat) = s.toList := by
    rw [bytesOfString, map_map]
    refine (map_congr_left fun c hc => ?_).trans (map_id _)
    change Char.ofNat (UInt8.ofNat c.toNat).toNat = c
    rw [UInt8.toNat_ofNat', Nat.mod_eq_of_lt (h c hc), Char.ofNat_toNat]
  rw [stringOfBytes, hchars, String.ofList_toList]

lemma goString_repr (n : Nat) : GoString (Nat.repr n) := by
  intro c hc
  rw [Nat.toList_repr] at hc
  have hdigit := Nat.isDigit_of_mem_toDigits (by decide) (by decide) hc
  simp only [Char.isDigit, Bool.and_eq_true, decide_eq_true_eq] at hdigit
  have hle : c.val.toNat ≤ 57 := UInt32.le_iff_toNat_le.mp hdigit.2
  exact lt_of_le_of_lt hle (by decide)

variable (entry : SegmentIndexEntry) (rest : List SegmentIndexEntry)

lemma length_segmentIndexEntryBytes :
    (segmentIndexEntryBytes entry).length = segmentIndexEntryEncodedLen entry.pointer := by
  simp only [segmentIndexEntryBytes, length_append, length_bigEndian, length_bytesOfString,
    segmentIndexEntryEncodedLen]
  omega

namespace SegmentIndexEntryDecoder

lemma reads_uint {width : Nat} (field : String) (h : n < 256 ^ width) :
    Reads (readUint width field) (bigEndian width n) n :=
  (Reads.fixed _ (length_bigEndian width n)).map (ofBigEndian_bigEndian h)

lemma reads_signed (type field : String) {n : Int} (hnonneg : 0 ≤ n) (hlt : n < 2 ^ 63) :
    Reads (readSigned type field) (bigEndian 8 n.toNat) n := by
  have hfits : n.toNat < 2 ^ 63 := by omega
  refine (reads_uint field (by omega)).bind_pure ?_
  rw [if_neg (by omega), Int.toNat_of_nonneg hnonneg]
  exact Reads.pure n

lemma reads_magic : Reads expectMagic (bigEndian 4 segmentIndexEntryMagic) () := by
  refine (reads_uint "magic" (by decide)).bind_pure ?_
  rw [if_neg (by simp)]
  exact Reads.pure ()

lemma reads_topic {topic : String} (h : GoString topic) (hlen : topic.length < 2 ^ 32) :
    Reads readTopic (bigEndian 4 topic.length ++ bytesOfString topic) topic := by
  refine (reads_uint "topic length" hlen).bind ?_
  exact (Reads.fixed _ (length_bytesOfString topic)).map (stringOfBytes_bytesOfString h)

lemma reads_pointerFields {pointer : SegmentRecordPointer} (h : pointer.InRange)
    (hposition : 0 ≤ pointer.position) (hlength : 0 ≤ pointer.length) :
    Reads (readPointerFields pointer.topic)
      (bigEndian 4 pointer.partition.toNat ++ (bigEndian 8 pointer.offset
        ++ (bigEndian 8 pointer.segmentID ++ (bigEndian 8 pointer.position.toNat
          ++ (bigEndian 8 pointer.length.toNat ++ (bigEndian 8 pointer.timestampMS
            ++ bigEndian 2 pointer.attributes)))))) pointer := by
  refine (reads_uint "partition" pointer.partition.toNat_lt).bind ?_
  refine (reads_uint "offset" h.offset).bind ?_
  refine (reads_uint "segment id" h.segmentID).bind ?_
  refine (reads_signed "int64" "position" hposition h.position.2).bind ?_
  refine (reads_signed "int" "length" hlength h.length.2).bind ?_
  refine (reads_uint "timestamp" h.timestampMS).bind ?_
  refine (reads_uint "attributes" h.attributes).map ?_
  rw [UInt32.ofNat_toNat]

/-- **The fields of an entry** are read back. -/
theorem reads_entry {entry : SegmentIndexEntry} (h : entry.pointer.InRange)
    (hposition : 0 ≤ entry.pointer.position) (hlength : 0 ≤ entry.pointer.length)
    (htopic : entry.pointer.topic.length < 2 ^ 32) :
    Reads readEntry (segmentIndexEntryBytes entry) entry := by
  have hflags : (if entry.deleted then 1 else 0) < 256 ^ 2 := by split <;> decide
  have hbytes : segmentIndexEntryBytes entry = bigEndian 4 segmentIndexEntryMagic
      ++ (bigEndian 2 (if entry.deleted then 1 else 0)
        ++ ((bigEndian 4 entry.pointer.topic.length ++ bytesOfString entry.pointer.topic)
          ++ (bigEndian 4 entry.pointer.partition.toNat ++ (bigEndian 8 entry.pointer.offset
            ++ (bigEndian 8 entry.pointer.segmentID ++ (bigEndian 8 entry.pointer.position.toNat
              ++ (bigEndian 8 entry.pointer.length.toNat ++ (bigEndian 8 entry.pointer.timestampMS
                ++ bigEndian 2 entry.pointer.attributes)))))))) := by
    simp only [segmentIndexEntryBytes, append_assoc]
  rw [hbytes]
  refine reads_magic.bind ((reads_uint "flags" hflags).bind ?_)
  refine (reads_topic h.topic htopic).bind ((reads_pointerFields h hposition hlength).map ?_)
  cases entry with
  | mk pointer deleted => cases deleted <;> simp

end SegmentIndexEntryDecoder

/-! ## Files -/

/-- An entry that can be written: neither position nor length is negative, and its length fits
its four bytes. -/
structure SegmentIndexEntry.Encodable (entry : SegmentIndexEntry) : Prop where
  range : entry.pointer.InRange
  position : 0 ≤ entry.pointer.position
  length : 0 ≤ entry.pointer.length
  size : segmentIndexEntryEncodedLen entry.pointer < 2 ^ 32

/-- An entry as it stands in a file. -/
def segmentIndexEntryFrame (entry : SegmentIndexEntry) : Bytes :=
  bigEndian 4 (segmentIndexEntryEncodedLen entry.pointer) ++ segmentIndexEntryBytes entry

lemma length_segmentIndexEntryFrame :
    (segmentIndexEntryFrame entry).length = segmentIndexEntryEncodedLen entry.pointer + 4 := by
  rw [segmentIndexEntryFrame, length_append, length_bigEndian, length_segmentIndexEntryBytes]
  omega

namespace SegmentIndexEntry.Encodable

variable {entry : SegmentIndexEntry} (h : entry.Encodable)

include h

lemma decode : decodeSegmentIndexEntry (segmentIndexEntryBytes entry) = .ok entry := by
  have htopic : entry.pointer.topic.length < 2 ^ 32 :=
    Nat.lt_of_le_of_lt (Nat.le_add_left _ 56) h.size
  have hread := SegmentIndexEntryDecoder.reads_entry h.range h.position h.length htopic []
  rw [append_nil] at hread
  rw [decodeSegmentIndexEntry, hread]
  rfl

lemma encode : encodeSegmentIndexEntry entry = .ok (segmentIndexEntryBytes entry) := by
  have htopic : entry.pointer.topic.length < 2 ^ 32 :=
    Nat.lt_of_le_of_lt (Nat.le_add_left _ 56) h.size
  unfold encodeSegmentIndexEntry
  dsimp only
  rw [if_neg (Int.not_lt.mpr h.position), if_neg (Int.not_lt.mpr h.length),
    if_neg (Nat.not_le.mpr htopic)]

/-- **A whole frame** is read, whatever follows. -/
theorem readFrame (rest : Bytes) :
    readSegmentIndexEntry (segmentIndexEntryFrame entry ++ rest) = .ok (entry, rest) := by
  unfold readSegmentIndexEntry
  rw [segmentIndexEntryFrame, append_assoc, readFull_append (length_bigEndian 4 _)]
  dsimp only
  rw [ofBigEndian_bigEndian h.size, if_neg (by unfold segmentIndexEntryEncodedLen; omega),
    readFull_append (length_segmentIndexEntryBytes entry)]
  dsimp only
  rw [h.decode]

/-- **A frame that is cut off** gives an error, and this error is the end of the file just when
nothing or the bare length is left. -/
theorem readCut (hk : k < (segmentIndexEntryFrame entry).length) :
    ∃ err, readSegmentIndexEntry ((segmentIndexEntryFrame entry).take k) = .error err ∧
      (err.isEOF = true ↔ k = 0 ∨ k = 4) := by
  rw [length_segmentIndexEntryFrame] at hk
  unfold readSegmentIndexEntry
  by_cases hshort : k < 4
  · have hlen : ((segmentIndexEntryFrame entry).take k).length = k := by
      rw [length_take, length_segmentIndexEntryFrame]
      omega
    rw [readFull_short (by omega), hlen]
    by_cases hzero : k = 0
    · rw [if_pos hzero]
      exact ⟨_, rfl, fun _ => .inl hzero, fun _ => rfl⟩
    · rw [if_neg hzero]
      exact ⟨_, rfl, nofun, fun hor => by omega⟩
  · -- the header is there; the payload is cut
    have hpayload : ((segmentIndexEntryBytes entry).take (k - 4)).length = k - 4 := by
      rw [length_take, length_segmentIndexEntryBytes]
      omega
    rw [segmentIndexEntryFrame, take_append, length_bigEndian,
      take_of_length_le (by rw [length_bigEndian]; omega), readFull_append (length_bigEndian 4 _)]
    dsimp only
    rw [ofBigEndian_bigEndian h.size, if_neg (by unfold segmentIndexEntryEncodedLen; omega),
      readFull_short (by omega), hpayload]
    by_cases hfour : k - 4 = 0
    · rw [if_pos hfour]
      exact ⟨_, rfl, fun _ => by omega, fun _ => rfl⟩
    · rw [if_neg hfour]
      exact ⟨_, rfl, nofun, fun hor => by omega⟩

end SegmentIndexEntry.Encodable

/-- The length of a file with these entries. -/
def encodedLength (entries : List SegmentIndexEntry) : Nat :=
  (entries.map fun entry => segmentIndexEntryEncodedLen entry.pointer + 4).sum

/-- A cut between two entries, before the first or after the last. -/
def EndsAtEntry (entries : List SegmentIndexEntry) (k : Nat) : Prop :=
  ∃ n ≤ entries.length, k = encodedLength (entries.take n)

/-- A cut right after the length of an entry. -/
def EndsAfterLength (entries : List SegmentIndexEntry) (k : Nat) : Prop :=
  ∃ n < entries.length, k = encodedLength (entries.take n) + 4

section
variable {entries : List SegmentIndexEntry}

lemma encodedLength_cons : encodedLength (entry :: rest)
      = (segmentIndexEntryFrame entry).length + encodedLength rest := by
  rw [encodedLength, map_cons, sum_cons, length_segmentIndexEntryFrame]
  rfl

lemma length_flatMap_frames (entries : List SegmentIndexEntry) :
    (entries.flatMap segmentIndexEntryFrame).length = encodedLength entries := by
  induction entries with
  | nil => rfl
  | cons entry rest ih => rw [flatMap_cons, length_append, ih, encodedLength_cons]

/-- So many bytes after one of the entries that come before the bound. -/
lemma exists_cut_cons (bound extra k : Nat) :
    (∃ n < rest.length + 1 + bound, k = encodedLength ((entry :: rest).take n) + extra) ↔ k = extra ∨
      (segmentIndexEntryFrame entry).length ≤ k ∧ ∃ n < rest.length + bound,
        k - (segmentIndexEntryFrame entry).length = encodedLength (rest.take n) + extra := by
  constructor
  · rintro ⟨n, hn, rfl⟩
    cases n with
    | zero => exact Or.inl (Nat.zero_add extra)
    | succ n =>
      rw [take_succ_cons, encodedLength_cons, Nat.add_assoc, Nat.add_sub_cancel_left]
      exact Or.inr ⟨Nat.le_add_right _ _, n, by omega, rfl⟩
  · rintro (rfl | ⟨hle, n, hn, heq⟩)
    · exact ⟨0, by omega, (Nat.zero_add k).symm⟩
    · refine ⟨n + 1, by omega, ?_⟩
      rw [take_succ_cons, encodedLength_cons, Nat.add_assoc, ← heq]
      omega

lemma endsAtEntry_cons (k : Nat) : EndsAtEntry (entry :: rest) k ↔ k = 0 ∨
      (segmentIndexEntryFrame entry).length ≤ k ∧
        EndsAtEntry rest (k - (segmentIndexEntryFrame entry).length) := by
  have hcut := exists_cut_cons entry rest 1 0 k
  simp only [Nat.lt_succ_iff] at hcut
  exact hcut

lemma endsAfterLength_cons (k : Nat) : EndsAfterLength (entry :: rest) k ↔ k = 4 ∨
      (segmentIndexEntryFrame entry).length ≤ k ∧
        EndsAfterLength rest (k - (segmentIndexEntryFrame entry).length) :=
  exists_cut_cons entry rest 0 4 k

lemma four_lt_length_frame : 4 < (segmentIndexEntryFrame entry).length := by
  rw [length_segmentIndexEntryFrame]
  unfold segmentIndexEntryEncodedLen
  omega

lemma encodeSegmentIndexEntries_ok (h : ∀ entry ∈ entries, entry.Encodable) :
    encodeSegmentIndexEntries entries = .ok (entries.flatMap segmentIndexEntryFrame) := by
  induction entries with
  | nil => rfl
  | cons entry rest ih =>
    obtain ⟨hentry, hrest⟩ := forall_mem_cons.mp h
    have hsize : ¬ (segmentIndexEntryBytes entry).length ≥ 2 ^ 32 := by
      rw [length_segmentIndexEntryBytes]
      exact Nat.not_le.mpr hentry.size
    rw [encodeSegmentIndexEntries, hentry.encode, ih hrest]
    simp only [bind, Except.bind, if_neg hsize]
    rw [length_segmentIndexEntryBytes]
    rfl

/-- An entry that is too long for its four bytes is refused. -/
lemma encodeSegmentIndexEntries_error {entry : SegmentIndexEntry} (hmem : entry ∈ entries)
    (hsize : 2 ^ 32 ≤ segmentIndexEntryEncodedLen entry.pointer) :
    ∃ err, encodeSegmentIndexEntries entries = .error err := by
  induction entries with
  | nil => cases hmem
  | cons first rest ih =>
    rw [encodeSegmentIndexEntries]
    cases hfirst : encodeSegmentIndexEntry first with
    | error err => exact ⟨err, rfl⟩
    | ok payload =>
      simp only [bind, Except.bind]
      split
      · exact ⟨_, rfl⟩
      · next hfits =>
        rcases mem_cons.mp hmem with rfl | hrest
        · have hpayload : payload = segmentIndexEntryBytes entry := by
            unfold encodeSegmentIndexEntry at hfirst
            dsimp only at hfirst
            split_ifs at hfirst
            exact (Except.ok.inj hfirst).symm
          rw [hpayload, length_segmentIndexEntryBytes] at hfits
          exact absurd hsize hfits
        · obtain ⟨err, herr⟩ := ih hrest
          rw [herr]
          exact ⟨err, rfl⟩

/-- **A file of whole entries** is read back. -/
theorem readSegmentIndexEntries_frames (h : ∀ entry ∈ entries, entry.Encodable) :
    readSegmentIndexEntries (entries.flatMap segmentIndexEntryFrame) = .ok entries := by
  induction entries with
  | nil =>
    rw [readSegmentIndexEntries]
    rfl
  | cons entry rest ih =>
    obtain ⟨hentry, hrest⟩ := forall_mem_cons.mp h
    rw [readSegmentIndexEntries, flatMap_cons, hentry.readFrame]
    dsimp only
    rw [ih hrest]

/-- **A file that is cut off** is refused, unless it ends at an entry or right after a length. -/
theorem readSegmentIndexEntries_take (h : ∀ entry ∈ entries, entry.Encodable)
    (hk : k ≤ encodedLength entries) :
    (∃ err, readSegmentIndexEntries ((entries.flatMap segmentIndexEntryFrame).take k) = .error err)
      ↔ ¬ (EndsAtEntry entries k ∨ EndsAfterLength entries k) := by
  induction entries generalizing k with
  | nil =>
    have hzero : k = 0 := Nat.le_zero.mp hk
    subst hzero
    rw [flatMap_nil, take_nil, readSegmentIndexEntries]
    refine ⟨fun hc => ?_, fun hnot => absurd (Or.inl ⟨0, Nat.le_refl _, rfl⟩) hnot⟩
    obtain ⟨err, herr⟩ := hc
    cases herr
  | cons entry rest ih =>
    obtain ⟨hentry, hrest⟩ := forall_mem_cons.mp h
    rw [endsAtEntry_cons, endsAfterLength_cons, flatMap_cons]
    rw [encodedLength_cons] at hk
    have hlong := four_lt_length_frame entry
    by_cases hcut : k < (segmentIndexEntryFrame entry).length
    · rw [take_append_of_le_length (Nat.le_of_lt hcut)]
      obtain ⟨err, hread, heof⟩ := hentry.readCut hcut
      rw [readSegmentIndexEntries, hread]
      dsimp only
      cases hisEOF : err.isEOF with
      | true =>
        have hwhere := heof.mp hisEOF
        refine ⟨fun hc => ?_, fun hnot => absurd ?_ hnot⟩
        · obtain ⟨err', herr'⟩ := hc
          cases herr'
        · exact hwhere.elim (fun hz => Or.inl (Or.inl hz)) fun hf => Or.inr (Or.inl hf)
      | false =>
        have hwhere : ¬ (k = 0 ∨ k = 4) := fun hor => by
          rw [heof.mpr hor] at hisEOF
          cases hisEOF
        refine ⟨fun _ hor => ?_, fun _ => ⟨err, rfl⟩⟩
        omega
    · have hle : (segmentIndexEntryFrame entry).length ≤ k := Nat.not_lt.mp hcut
      rw [take_append, take_of_length_le hle, readSegmentIndexEntries, hentry.readFrame]
      dsimp only
      have hih := ih hrest (k := k - (segmentIndexEntryFrame entry).length) (by omega)
      rw [or_iff_right (by omega : k ≠ 0), or_iff_right (by omega : k ≠ 4), and_iff_right hle, and_iff_right hle, ← hih]
      cases readSegmentIndexEntries ((rest.flatMap segmentIndexEntryFrame).take _) with
      | error err => exact Iff.rfl
      | ok entries => simp

/-- A cut after a length is inside the entry. -/
lemma EndsAfterLength.inside (h : EndsAfterLength entries k) :
    k < encodedLength entries ∧ ¬ EndsAtEntry entries k := by
  induction entries generalizing k with
  | nil =>
    obtain ⟨n, hn, _⟩ := h
    cases hn
  | cons entry rest ih =>
    rw [endsAfterLength_cons] at h
    rw [endsAtEntry_cons, encodedLength_cons]
    have hlong := four_lt_length_frame entry
    rcases h with rfl | ⟨hle, hrest⟩
    · exact ⟨by omega, fun hor => by omega⟩
    · obtain ⟨hlt, hnot⟩ := ih hrest
      exact ⟨by omega, fun hor => hor.elim (fun hz => by omega) fun hand => hnot hand.2⟩

end

/-! ## Files that are cut off -/

/-- The entries are written and read back, and the file cut off after `k` bytes is refused, where
this is not between two entries. -/
def CutRejected (entries : List SegmentIndexEntry) (k : Nat) : Prop :=
  ∃ file, encodeSegmentIndexEntries entries = .ok file ∧
    readSegmentIndexEntries file = .ok entries ∧
    (k < file.length → ¬ EndsAtEntry entries k →
      ∃ err, readSegmentIndexEntries (file.take k) = .error err)

/-- What is left of an entry whose length alone was written passes for the end of the file. -/
lemma EndsAfterLength.not_cutRejected {entries : List SegmentIndexEntry}
    (hafter : EndsAfterLength entries k) (h : ∀ entry ∈ entries, entry.Encodable) :
    ¬ CutRejected entries k := by
  obtain ⟨hlt, hnot⟩ := hafter.inside
  rintro ⟨file, hencode, _, hcut⟩
  have hfile := Except.ok.inj ((encodeSegmentIndexEntries_ok h).symm.trans hencode)
  rw [← hfile, length_flatMap_frames] at hcut
  exact (readSegmentIndexEntries_take h (Nat.le_of_lt hlt)).mp (hcut hlt hnot) (Or.inr hafter)

/-- **Index files** are read back, and a file that is cut off is refused wherever it is cut,
except right after the length of an entry. -/
theorem index_cut_rejected_iff {entries : List SegmentIndexEntry}
    (h : ∀ entry ∈ entries, entry.pointer.InRange ∧ 0 ≤ entry.pointer.position ∧
      0 ≤ entry.pointer.length) (k : Nat) :
    CutRejected entries k ↔
      (∀ entry ∈ entries, segmentIndexEntryEncodedLen entry.pointer < 2 ^ 32) ∧
        ¬ EndsAfterLength entries k := by
  by_cases hsize : ∀ entry ∈ entries, segmentIndexEntryEncodedLen entry.pointer < 2 ^ 32
  · have hgood : ∀ entry ∈ entries, entry.Encodable := fun entry hmem =>
      ⟨(h entry hmem).1, (h entry hmem).2.1, (h entry hmem).2.2, hsize entry hmem⟩
    refine ⟨fun hcut => ⟨hsize, fun hafter => hafter.not_cutRejected hgood hcut⟩, ?_⟩
    rintro ⟨_, hafter⟩
    refine ⟨_, encodeSegmentIndexEntries_ok hgood, readSegmentIndexEntries_frames hgood,
      fun hlt hnot => ?_⟩
    rw [length_flatMap_frames] at hlt
    exact (readSegmentIndexEntries_take hgood (Nat.le_of_lt hlt)).mpr fun hor => hor.elim hnot hafter
  · refine ⟨fun hc => ?_, fun hand => absurd hand.1 hsize⟩
    push Not at hsize
    obtain ⟨entry, hmem, hlong⟩ := hsize
    obtain ⟨err, herr⟩ := encodeSegmentIndexEntries_error hmem hlong
    obtain ⟨file, hfile, _⟩ := hc
    rw [herr] at hfile
    cases hfile

/-- The first record of a topic, at the beginning of its segment. -/
def firstIndexEntry : SegmentIndexEntry :=
  { pointer := { topic := "orders", partition := 0, offset := 0, segmentID := 0, position := 0,
                 length := 64, timestampMS := 5, attributes := 0 } }

lemma encodable_firstIndexEntry : firstIndexEntry.Encodable :=
  ⟨⟨by simp [GoString, firstIndexEntry], by decide, by decide, by decide, by decide, by decide,
      by decide⟩,
    by decide, by decide, by decide⟩

/-- One byte more than the length, and the file is refused. -/
theorem index_cut_inside_entry_rejected : CutRejected [firstIndexEntry] 5 := by
  refine (index_cut_rejected_iff (fun entry hmem => ?_) 5).mpr ⟨by decide, ?_⟩
  · rw [mem_singleton.mp hmem]
    exact ⟨encodable_firstIndexEntry.range, by decide, by decide⟩
  · rintro ⟨n, hn, heq⟩
    have hzero : n = 0 := Nat.lt_one_iff.mp hn
    rw [hzero] at heq
    cases heq

/-- The length alone is left of the only entry, and the file passes for an empty one. -/
theorem index_cut_after_length_accepted : ¬ CutRejected [firstIndexEntry] 4 := by
  have hafter : EndsAfterLength [firstIndexEntry] 4 := ⟨0, Nat.one_pos, rfl⟩
  exact hafter.not_cutRejected fun entry hmem =>
    mem_singleton.mp hmem ▸ encodable_firstIndexEntry

end Ech0.Store
