/-
  The frames of a segment file: what an append writes and what a read decodes.

  A frame is a header of twelve bytes (magic, checksum, length of the body) and a body. The body
  of a frame with one record is the record; that of any other is the number of records and the
  records, each after its size. Either can be compressed, and the magic says which of the four it
  is. Inside a record, byte strings and headers stand after their length in decimal digits and a
  colon.

  The header gives the length of the whole frame, so the decoder refuses every byte string that
  is longer or shorter than its header says before it looks at the body. The frames of older
  versions, which it still reads, have other magics and no length.
-/
import Ech0.Lib.Prog
import Ech0.Store.Keys
import Ech0.Store.SegmentIndexCodec

set_option autoImplicit false

namespace Ech0.Store

open Ech0.Lib List

variable {frame : Bytes} {record : Record}

/-! ## Checksums and compression (`segment_zstd.go`, `storx_log_options.go`) -/

/-- One bit of the division by the reflected polynomial. -/
def crc32Shift (c : UInt32) : UInt32 :=
  if c &&& 1 = 1 then (c >>> 1) ^^^ 0xEDB88320 else c >>> 1

/-- `crc32.ChecksumIEEE`. -/
def crc32ChecksumIEEE (data : Bytes) : UInt32 :=
  data.foldl (fun c byte => Nat.repeat crc32Shift 8 (c ^^^ byte.toUInt32)) 0xFFFFFFFF ^^^ 0xFFFFFFFF

/-- The zstd library: `EncodeAll`, and `DecodeAll` with the text of its error. -/
structure Zstd where
  encodeAll : Bytes → Bytes
  decodeAll : Bytes → Except String Bytes

/-- What the library promises: the decoder inverts the encoder. -/
def Zstd.Lawful (zstd : Zstd) : Prop := ∀ body, zstd.decodeAll (zstd.encodeAll body) = .ok body

/-- The kinds that `normalizeSegmentCompression` leaves. -/
inductive SegmentCompression where
  | none
  | zstd
  deriving DecidableEq

/-- `segmentFrameCompression`; the encoder is there until the store is closed. -/
structure SegmentFrameCompression where
  kind : SegmentCompression
  hasEncoder : Bool
  deriving DecidableEq

/-- `newSegmentFrameCompression`, on a normalized kind. -/
def newSegmentFrameCompression (kind : SegmentCompression) : SegmentFrameCompression :=
  ⟨kind, kind = .zstd⟩

def SegmentFrameCompression.encodeWithMagic (zstd : Zstd) (c : SegmentFrameCompression)
    (body : Bytes) (plainMagic zstdMagic : Nat) : Except Error (Nat × Bytes) :=
  match c.kind with
  | .none => .ok (plainMagic, body)
  | .zstd =>
    if c.hasEncoder then .ok (zstdMagic, zstd.encodeAll body)
    else .error (E .invalidArgument "zstd segment encoder is not initialized")

/-! ## Magics (`segment_frame_decode.go`) -/

def segmentFrameMagic : Nat := 0x45434831
def segmentFrameZstdMagic : Nat := 0x45435a31
def segmentBatchMagic : Nat := 0x45434231
def segmentBatchZstdMagic : Nat := 0x45425a31
def legacySegmentFrameMagic : Nat := 0x45434830
def legacySegmentFrameZstdMagic : Nat := 0x45435a30
def legacySegmentBatchMagic : Nat := 0x45434230
def legacySegmentBatchZstdMagic : Nat := 0x4543425a

def segmentFrameHeader : Nat := 12

def segmentFrameLegacyHeader : Nat := 8

def sizedSegmentFrameMagic (magic : Nat) : Bool :=
  magic = segmentFrameMagic || magic = segmentFrameZstdMagic || magic = segmentBatchMagic
    || magic = segmentBatchZstdMagic

def validSegmentFrameMagic (magic : Nat) : Bool :=
  magic = segmentFrameMagic || magic = segmentFrameZstdMagic || magic = segmentBatchMagic
    || magic = segmentBatchZstdMagic || magic = legacySegmentFrameMagic
    || magic = legacySegmentFrameZstdMagic || magic = legacySegmentBatchMagic
    || magic = legacySegmentBatchZstdMagic

def segmentFrameMagicIsBatch (magic : Nat) : Bool :=
  magic = segmentBatchMagic || magic = segmentBatchZstdMagic || magic = legacySegmentBatchMagic
    || magic = legacySegmentBatchZstdMagic

/-- The magics of compressed frames, as `decodeSegmentFramePayload` lists them. -/
def segmentFrameMagicIsZstd (magic : Nat) : Bool :=
  magic = segmentFrameZstdMagic || magic = segmentBatchZstdMagic
    || magic = legacySegmentFrameZstdMagic || magic = legacySegmentBatchZstdMagic

/-- `%x`. -/
def hexRepr (n : Nat) : String := String.ofList (Nat.toDigits 16 n)

/-! ## Writing (`segment_frame.go`, `segment_number.go`) -/

/-- `segmentIntToU32`, on a length. -/
def segmentIntToU32 (value : Nat) (field : String) : Except Error Nat :=
  if value ≥ 2 ^ 32 then .error (E .codec (field ++ " " ++ Nat.repr value ++ " exceeds uint32"))
  else .ok value

/-- `appendSegmentIntBytes`: decimal digits and a colon. -/
def segmentIntBytes (value : Nat) : Bytes :=
  (Nat.toDigits 10 value).map (fun c => UInt8.ofNat c.toNat) ++ [58]

/-- `appendSegmentBytes`. -/
def segmentBytes (value : Bytes) : Bytes := segmentIntBytes value.length ++ value

/-- `appendSegmentString`. -/
def segmentString (value : String) : Bytes :=
  segmentIntBytes value.length ++ bytesOfString value

/-- `appendSegmentOptionalU64`. -/
def segmentOptionalU64 : Option Nat → Bytes
  | none => [0]
  | some value => 1 :: bigEndian 8 value

def encodeSegmentTransactionControl : TransactionControlType → UInt8
  | .none => 0
  | .commit => 1
  | .abort => 2
  | .other _ => 0

/-- `appendSegmentTransaction`. -/
def segmentTransaction : Option TransactionRecordMetadata → Bytes
  | none => [0]
  | some metadata =>
    1 :: (bigEndian 8 metadata.txID ++ (bigEndian 8 metadata.producerID
      ++ (bigEndian 8 metadata.producerEpoch ++ (bigEndian 8 metadata.sequence
        ++ [encodeSegmentTransactionControl metadata.controlType]))))

/-- One header, in the loop of `appendSegmentHeaders`. -/
def segmentHeader (header : RecordHeader) : Bytes :=
  segmentString header.key ++ segmentBytes header.value

/-- `appendSegmentHeaders`. -/
def segmentHeaders (headers : List RecordHeader) : Bytes :=
  segmentIntBytes headers.length ++ headers.flatMap segmentHeader

/-- `appendSegmentRecordFields`. -/
def segmentRecordFields (record : Record) : Bytes :=
  bigEndian 8 record.offset ++ (bigEndian 8 record.timestampMS
    ++ (segmentOptionalU64 record.expiresAtMS ++ (bigEndian 2 record.attributes
      ++ segmentBytes record.key)))

/-- `appendSegmentRecordBody`. -/
def segmentRecordBody (record : Record) : Bytes :=
  segmentRecordFields record ++ (segmentTransaction record.transaction
    ++ (segmentHeaders record.headers ++ segmentBytes record.payload))

def encodeSegmentFrameEnvelope (magic : Nat) (body : Bytes) : Except Error Bytes := do
  let bodyLen ← segmentIntToU32 body.length "segment frame body length"
  .ok (bigEndian 4 magic ++ (bigEndian 4 (crc32ChecksumIEEE body).toNat
    ++ (bigEndian 4 bodyLen ++ body)))

def encodeSegmentFrameWithCompression (zstd : Zstd) (record : Record)
    (compression : SegmentFrameCompression) : Except Error Bytes := do
  let (magic, payload) ← compression.encodeWithMagic zstd (segmentRecordBody record)
    segmentFrameMagic segmentFrameZstdMagic
  encodeSegmentFrameEnvelope magic payload

/-- The loop of `encodeSegmentBatchFrameWithCompression`. -/
def encodeSegmentBatchRecords : List Record → Except Error Bytes
  | [] => .ok []
  | record :: rest => do
    let body := segmentRecordBody record
    let size ← segmentIntToU32 body.length "segment batch record size"
    let out ← encodeSegmentBatchRecords rest
    .ok (bigEndian 4 size ++ body ++ out)

def encodeSegmentBatchFrameWithCompression (zstd : Zstd) (records : List Record)
    (compression : SegmentFrameCompression) : Except Error Bytes :=
  match records with
  | [record] => encodeSegmentFrameWithCompression zstd record compression
  | records => do
    let count ← segmentIntToU32 records.length "segment batch count"
    let items ← encodeSegmentBatchRecords records
    let (magic, payload) ← compression.encodeWithMagic zstd (bigEndian 4 count ++ items)
      segmentBatchMagic segmentBatchZstdMagic
    encodeSegmentFrameEnvelope magic payload

/-! ## Reading a record (`segment_record_decoder.go`, `segment_length_decode.go`) -/

/-- `%q` on a byte: a quoted character. -/
def quoteByte (byte : UInt8) : String :=
  let n := byte.toNat
  let hex (width : Nat) : String :=
    String.ofList ((List.replicate (width - (Nat.toDigits 16 n).length) '0') ++ Nat.toDigits 16 n)
  let text :=
    if n = 7 then "\\a" else if n = 8 then "\\b" else if n = 12 then "\\f"
    else if n = 10 then "\\n" else if n = 13 then "\\r" else if n = 9 then "\\t"
    else if n = 11 then "\\v" else if n = 92 then "\\\\" else if n = 39 then "\\'"
    else if n < 32 || n = 127 then "\\x" ++ hex 2
    else if n < 127 then String.singleton (Char.ofNat n)
    else if n ≤ 160 || n = 173 then "\\u" ++ hex 4
    -- The other characters are printed in UTF-8, two bytes each.
    else String.ofList [Char.ofNat (192 + n / 64), Char.ofNat (128 + n % 64)]
  "'" ++ text ++ "'"

/-- `maxSegmentInt`, on a 64-bit platform. -/
def maxSegmentInt : Nat := 2 ^ 63 - 1

def finishSegmentInt (length digits : Nat) : Except Error Nat :=
  if digits = 0 then .error (E .codec "empty segment length") else .ok length

def segmentLengthDigit (digit : UInt8) : Option Nat :=
  if digit.toNat < 48 || digit.toNat > 57 then none else some (digit.toNat - 48)

def appendSegmentLengthDigit (length digit : Nat) : Except Error Nat :=
  if length > (maxSegmentInt - digit) / 10 then .error (E .codec "segment length overflows int")
  else .ok (length * 10 + digit)

namespace SegmentRecordDecoder

def readByte : Reader Error UInt8
  | [] => .error (E .codec "decode segment length")
  | value :: rest => .ok (value, rest)

/-- The loop of `readInt`. -/
def readIntFrom (length digits : Nat) : Reader Error Nat
  | [] => .error (E .codec "decode segment length")
  | digit :: rest =>
    if digit = 58 then
      match finishSegmentInt length digits with
      | .error err => .error err
      | .ok length => .ok (length, rest)
    else
      match segmentLengthDigit digit with
      | none => .error (E .codec ("invalid segment length digit " ++ quoteByte digit))
      | some nextDigit =>
        match appendSegmentLengthDigit length nextDigit with
        | .error err => .error err
        | .ok length => readIntFrom length (digits + 1) rest

def readInt : Reader Error Nat := readIntFrom 0 0

def readFixed (length : Nat) (field : String) : Reader Error Bytes :=
  Reader.fixed length fun remaining =>
    E .codec ("segment " ++ field ++ " length " ++ Nat.repr length
      ++ " exceeds remaining frame size " ++ Nat.repr remaining)

/-- `readU16`, `readU32` and `readU64`, by their width in bytes. -/
def readUint (width : Nat) (field : String) : Reader Error Nat := do
  let raw ← readFixed width field
  pure (ofBigEndian raw)

def readBytes : Reader Error Bytes := do
  let length ← readInt
  readFixed length "bytes"

/-- `readBytesU32`. -/
def readBytesU32 (field : String) : Reader Error Bytes := do
  let length ← readUint 4 (field ++ " length")
  readFixed length field

/-- `readOptionalU64`. -/
def readOptionalU64 (field : String) : Reader Error (Option Nat) := do
  let present ← readByte
  if present = 0 then pure none
  else if present ≠ 1 then
    Reader.fail (E .codec ("invalid segment optional " ++ field ++ " marker "
      ++ Nat.repr present.toNat))
  else
    let value ← readUint 8 field
    pure (some value)

def readTransactionControl : Reader Error TransactionControlType := do
  let raw ← readByte
  if raw = 0 then pure .none
  else if raw = 1 then pure .commit
  else if raw = 2 then pure .abort
  else Reader.fail (E .codec ("unknown segment transaction control type " ++ Nat.repr raw.toNat))

def readTransaction : Reader Error (Option TransactionRecordMetadata) := do
  let present ← readByte
  if present = 0 then pure none
  else
    let txID ← readUint 8 "transaction tx_id"
    let producerID ← readUint 8 "transaction producer_id"
    let producerEpoch ← readUint 8 "transaction producer_epoch"
    let sequence ← readUint 8 "transaction sequence"
    let control ← readTransactionControl
    pure (some ⟨txID, producerID, producerEpoch, sequence, control⟩)

def readHeader : Reader Error RecordHeader := do
  let key ← readBytes
  let value ← readBytes
  pure ⟨stringOfBytes key, value⟩

/-- `readHeaders`: a header takes four bytes at least. -/
def readHeaders : Reader Error (List RecordHeader) := do
  let count ← readInt
  let remaining ← Reader.remaining
  if count > remaining / 4 then
    Reader.fail (E .codec ("segment header count " ++ Nat.repr count
      ++ " exceeds remaining frame size"))
  else Reader.times readHeader count

/-- `readRecordFields`, and the rest of `decodeSegmentRecordBody`. -/
def readRecord : Reader Error Record := do
  let offset ← readUint 8 "offset"
  let timestamp ← readUint 8 "timestamp"
  let expiresAt ← readOptionalU64 "expires_at_ms"
  let attributes ← readUint 2 "attributes"
  let key ← readBytes
  let transaction ← readTransaction
  let headers ← readHeaders
  let payload ← readBytes
  pure { offset := offset, timestampMS := timestamp, key := key, headers := headers
         attributes := attributes, transaction := transaction, expiresAtMS := expiresAt
         payload := payload }

end SegmentRecordDecoder

/-- `decodeSegmentRecordBody`: bytes after the payload are not looked at. -/
def decodeSegmentRecordBody (body : Bytes) : Except Error Record :=
  match SegmentRecordDecoder.readRecord body with
  | .error err => .error err
  | .ok (record, _) => .ok record

/-! ## Reading a frame (`segment_frame_decode.go`) -/

/-- One step of the loop of `decodeSegmentBatchBody`. -/
def SegmentRecordDecoder.readBatchRecord : Reader Error Record := do
  let item ← readBytesU32 "batch record"
  match decodeSegmentRecordBody item with
  | .error err => Reader.fail err
  | .ok record => pure record

/-- The count and the records of a batch. -/
def SegmentRecordDecoder.readBatch : Reader Error (List Record) := do
  let count ← readUint 4 "batch count"
  Reader.times readBatchRecord count

def decodeSegmentBatchBody (body : Bytes) : Except Error (List Record) :=
  match SegmentRecordDecoder.readBatch body with
  | .error err => .error err
  | .ok (records, rest) =>
    if rest.length ≠ 0 then
      .error (E .codec ("segment batch frame has " ++ Nat.repr rest.length ++ " trailing bytes"))
    else .ok records

def segmentFrameBody (magic : Nat) (frame : Bytes) : Except Error Bytes :=
  if !sizedSegmentFrameMagic magic then .ok (frame.drop segmentFrameLegacyHeader)
  else if frame.length < segmentFrameHeader then
    .error (E .codec ("segment frame length " ++ Nat.repr frame.length ++ " is too small"))
  else
    let length := ofBigEndian ((frame.drop 8).take 4)
    if frame.length ≠ segmentFrameHeader + length then
      .error (E .codec ("segment frame length mismatch: header=" ++ Nat.repr length ++ " actual="
        ++ Nat.repr (frame.length - segmentFrameHeader)))
    else .ok (frame.drop segmentFrameHeader)

/-- `decodeSegmentFramePayload`; the magic has been found valid before. -/
def decodeSegmentFramePayload (zstd : Zstd) (magic : Nat) (body : Bytes) : Except Error Bytes :=
  if !validSegmentFrameMagic magic then
    .error (E .codec ("invalid segment frame magic " ++ hexRepr magic))
  else if segmentFrameMagicIsZstd magic then
    match zstd.decodeAll body with
    | .error err => .error (E .other ("decode zstd segment frame: " ++ err))
    | .ok decoded => .ok decoded
  else .ok body

def decodeSegmentFrameRecords (zstd : Zstd) (frame : Bytes) : Except Error (List Record) :=
  if frame.length < segmentFrameLegacyHeader then
    .error (E .codec ("segment frame length " ++ Nat.repr frame.length ++ " is too small"))
  else
    let magic := ofBigEndian (frame.take 4)
    let checksum := ofBigEndian ((frame.drop 4).take 4)
    if !validSegmentFrameMagic magic then
      .error (E .codec ("invalid segment frame magic " ++ hexRepr magic))
    else do
      let body ← segmentFrameBody magic frame
      if (crc32ChecksumIEEE body).toNat ≠ checksum then
        .error (E .codec "segment frame checksum mismatch")
      else
        let body ← decodeSegmentFramePayload zstd magic body
        if segmentFrameMagicIsBatch magic then decodeSegmentBatchBody body
        else
          let record ← decodeSegmentRecordBody body
          .ok [record]

/-! ## Reading back a record -/

/-- Every field is a value of its Go type. -/
structure TransactionRecordMetadata.InRange (metadata : TransactionRecordMetadata) : Prop where
  txID : metadata.txID < 2 ^ 64
  producerID : metadata.producerID < 2 ^ 64
  producerEpoch : metadata.producerEpoch < 2 ^ 64
  sequence : metadata.sequence < 2 ^ 64

/-- Every field is a value of its Go type; lengths are of type `int`. -/
structure RecordHeader.InRange (header : RecordHeader) : Prop where
  key : GoString header.key
  keyLength : header.key.length < 2 ^ 63
  valueLength : header.value.length < 2 ^ 63

/-- Every field is a value of its Go type; lengths are of type `int`. -/
structure Record.InRange (record : Record) : Prop where
  offset : record.offset < 2 ^ 64
  timestampMS : record.timestampMS < 2 ^ 64
  keyLength : record.key.length < 2 ^ 63
  headersLength : record.headers.length < 2 ^ 63
  headers : ∀ header ∈ record.headers, header.InRange
  attributes : record.attributes < 2 ^ 16
  transaction : ∀ metadata ∈ record.transaction, metadata.InRange
  expiresAtMS : ∀ value ∈ record.expiresAtMS, value < 2 ^ 64
  payloadLength : record.payload.length < 2 ^ 63

/-- Every field is a value of its Go type. -/
structure RecordAppend.InRange (append : RecordAppend) : Prop where
  timestampMS : ∀ value ∈ append.timestampMS, value < 2 ^ 64
  keyLength : append.key.length < 2 ^ 63
  headersLength : append.headers.length < 2 ^ 63
  headers : ∀ header ∈ append.headers, header.InRange
  attributes : append.attributes < 2 ^ 16
  transaction : ∀ metadata ∈ append.transaction, metadata.InRange
  expiresAtMS : ∀ value ∈ append.expiresAtMS, value < 2 ^ 64
  payloadLength : append.payload.length < 2 ^ 63

namespace SegmentRecordDecoder

lemma reads_byte (byte : UInt8) : Reads readByte [byte] byte := fun _ => rfl

lemma segmentLengthDigit_of_isDigit {c : Char} (h : c.isDigit = true) : UInt8.ofNat c.toNat ≠ 58 ∧
      segmentLengthDigit (UInt8.ofNat c.toNat) = some (c.toNat - '0'.toNat) := by
  have hrange : 48 ≤ c.toNat ∧ c.toNat ≤ 57 := Char.isDigit_iff_toNat.mp h
  have hbyte : (UInt8.ofNat c.toNat).toNat = c.toNat := by
    rw [UInt8.toNat_ofNat', Nat.mod_eq_of_lt (by omega)]
  constructor
  · intro heq
    have h58 : c.toNat = 58 := by rw [← hbyte, heq]; rfl
    omega
  · have hdigit : ¬ (decide (c.toNat < 48) || decide (c.toNat > 57)) = true := by simp; omega
    rw [segmentLengthDigit, hbyte, if_neg hdigit]
    rfl

/-- The loop reads a run of digits whose value fits an `int`. The value only grows, so what has
been read before fits, too. -/
lemma reads_intFrom (cs : List Char) (length digits : Nat)
    (hdigits : ∀ c ∈ cs, c.isDigit = true) (hfits : Nat.ofDigitChars 10 cs length < 2 ^ 63)
    (hsome : 0 < digits + cs.length) :
    Reads (readIntFrom length digits) (cs.map (fun c => UInt8.ofNat c.toNat) ++ [58])
      (Nat.ofDigitChars 10 cs length) := by
  induction cs generalizing length digits with
  | nil =>
    intro rest
    have hne : digits ≠ 0 := by simpa using hsome.ne'
    change readIntFrom length digits (58 :: rest) = _
    rw [readIntFrom, if_pos rfl, finishSegmentInt, if_neg hne, Nat.ofDigitChars_nil]
  | cons c cs ih =>
    intro rest
    rw [Nat.ofDigitChars_cons] at hfits ⊢
    obtain ⟨hcolon, hdigit⟩ := segmentLengthDigit_of_isDigit (hdigits c mem_cons_self)
    have hnext := lt_of_le_of_lt (le_ofDigitChars cs _) hfits
    have hroom : ¬ length > (maxSegmentInt - (c.toNat - '0'.toNat)) / 10 := by
      unfold maxSegmentInt
      omega
    change readIntFrom length digits
      (UInt8.ofNat c.toNat :: (cs.map (fun c => UInt8.ofNat c.toNat) ++ [58] ++ rest)) = _
    rw [readIntFrom, if_neg hcolon, hdigit]
    simp only [appendSegmentLengthDigit, if_neg hroom]
    rw [Nat.mul_comm length 10]
    exact ih _ _ (fun d hd => hdigits d (mem_cons_of_mem c hd)) hfits (by omega) rest

lemma reads_int {n : Nat} (h : n < 2 ^ 63) : Reads readInt (segmentIntBytes n) n := by
  have hval : Nat.ofDigitChars 10 (Nat.toDigits 10 n) 0 = n := Nat.ofDigitChars_ten_toDigits
  have hread := reads_intFrom (Nat.toDigits 10 n) 0 0
    (fun c hc => Nat.isDigit_of_mem_toDigits (by decide) (by decide) hc) (by rw [hval]; exact h)
    (by rw [Nat.zero_add]; exact Nat.length_toDigits_pos)
  rw [hval] at hread
  exact hread

lemma reads_uint {width n : Nat} (field : String) (h : n < 256 ^ width) :
    Reads (readUint width field) (bigEndian width n) n :=
  (Reads.fixed _ (length_bigEndian width n)).map (ofBigEndian_bigEndian h)

lemma reads_bytes {value : Bytes} (h : value.length < 2 ^ 63) :
    Reads readBytes (segmentBytes value) value :=
  (reads_int h).bind (Reads.fixed _ rfl)

lemma reads_optionalU64 (field : String) {value : Option Nat} (h : ∀ n ∈ value, n < 2 ^ 64) :
    Reads (readOptionalU64 field) (segmentOptionalU64 value) value := by
  cases value with
  | none => exact (reads_byte 0).bind_pure (Reads.pure none)
  | some n =>
    refine (reads_byte 1).bind ?_
    rw [if_neg (by decide), if_neg (by decide)]
    exact (reads_uint field (h n rfl)).map rfl

lemma reads_transactionControl (control : TransactionControlType) :
    Reads readTransactionControl [encodeSegmentTransactionControl control] control.stored := by
  cases control <;> exact (reads_byte _).bind_pure (Reads.pure _)

lemma reads_transaction {transaction : Option TransactionRecordMetadata}
    (h : ∀ metadata ∈ transaction, metadata.InRange) :
    Reads readTransaction (segmentTransaction transaction)
      (transaction.map TransactionRecordMetadata.stored) := by
  cases transaction with
  | none => exact (reads_byte 0).bind_pure (Reads.pure none)
  | some metadata =>
    have hrange := h metadata rfl
    refine (reads_byte 1).bind ?_
    rw [if_neg (by decide)]
    refine (reads_uint _ hrange.txID).bind ?_
    refine (reads_uint _ hrange.producerID).bind ?_
    refine (reads_uint _ hrange.producerEpoch).bind ?_
    refine (reads_uint _ hrange.sequence).bind ?_
    exact (reads_transactionControl metadata.controlType).map rfl

lemma length_segmentIntBytes (n : Nat) : 2 ≤ (segmentIntBytes n).length := by
  have hpos : 0 < (Nat.toDigits 10 n).length := Nat.length_toDigits_pos
  rw [segmentIntBytes, length_append, length_map, length_singleton]
  omega

lemma reads_header {header : RecordHeader} (h : header.InRange) :
    Reads readHeader (segmentHeader header) header := by
  have hkey : Reads readBytes (segmentBytes (bytesOfString header.key)) (bytesOfString header.key) :=
    reads_bytes (by rw [length_bytesOfString]; exact h.keyLength)
  rw [segmentBytes, length_bytesOfString] at hkey
  refine hkey.bind ((reads_bytes h.valueLength).map ?_)
  rw [stringOfBytes_bytesOfString h.key]

/-- A header takes four bytes at least. -/
lemma length_flatMap_segmentHeader (headers : List RecordHeader) :
    4 * headers.length ≤ (headers.flatMap segmentHeader).length := by
  induction headers with
  | nil => exact Nat.le_refl 0
  | cons header rest ih =>
    have hkey := length_segmentIntBytes header.key.length
    have hvalue := length_segmentIntBytes header.value.length
    simp only [flatMap_cons, length_append, length_cons, segmentHeader,
      segmentString, segmentBytes] at ih ⊢
    omega

/-- The check of the number of headers passes: what is left holds them all. -/
lemma reads_headers {headers : List RecordHeader} (hlen : headers.length < 2 ^ 63)
    (h : ∀ header ∈ headers, header.InRange) :
    Reads readHeaders (segmentHeaders headers) headers := by
  have hmany := length_flatMap_segmentHeader headers
  refine (reads_int hlen).bind (Reads.remaining fun n hn => ?_)
  rw [if_neg (by omega)]
  have hall := Reads.times segmentHeader id headers fun header hmem => reads_header (h header hmem)
  rwa [map_id] at hall

/-- **A record reads back**, but for a control type that is not declared. -/
theorem reads_record (h : record.InRange) :
    Reads readRecord (segmentRecordBody record) record.stored := by
  simp only [segmentRecordBody, segmentRecordFields, append_assoc]
  refine (reads_uint _ h.offset).bind ?_
  refine (reads_uint _ h.timestampMS).bind ?_
  refine (reads_optionalU64 _ h.expiresAtMS).bind ?_
  refine (reads_uint _ h.attributes).bind ?_
  refine (reads_bytes h.keyLength).bind ?_
  refine (reads_transaction h.transaction).bind ?_
  refine (reads_headers h.headersLength h.headers).bind ?_
  exact (reads_bytes h.payloadLength).map rfl

end SegmentRecordDecoder

lemma decodeSegmentRecordBody_body (h : record.InRange) :
    decodeSegmentRecordBody (segmentRecordBody record) = .ok record.stored := by
  have hread := SegmentRecordDecoder.reads_record h []
  rw [append_nil] at hread
  rw [decodeSegmentRecordBody, hread]

/-! ## Reading back a frame -/

/-- A record of a batch, after its size. -/
def segmentBatchItem (record : Record) : Bytes :=
  bigEndian 4 (segmentRecordBody record).length ++ segmentRecordBody record

/-- What a frame holds before compression. -/
def segmentFrameContent : List Record → Bytes
  | [record] => segmentRecordBody record
  | records => bigEndian 4 records.length ++ records.flatMap segmentBatchItem

variable {records : List Record}

lemma segmentFrameContent_of_ne (h : ∀ record, records ≠ [record]) : segmentFrameContent records
      = bigEndian 4 records.length ++ records.flatMap segmentBatchItem := by
  unfold segmentFrameContent
  split
  · exact absurd rfl (h _)
  · rfl

/-- The frame around a body that fits. -/
def segmentFrame (magic : Nat) (body : Bytes) : Bytes :=
  bigEndian 4 magic ++ (bigEndian 4 (crc32ChecksumIEEE body).toNat
    ++ (bigEndian 4 body.length ++ body))

variable {zstd : Zstd} (magic : Nat) (body : Bytes)

@[simp] lemma length_segmentFrame : (segmentFrame magic body).length = 12 + body.length := by
  simp only [segmentFrame, length_append, length_bigEndian]
  omega

/-- The number of records and the size of each fit their four bytes. -/
structure BatchSizes (records : List Record) : Prop where
  count : records.length < 2 ^ 32
  size : ∀ record ∈ records, (segmentRecordBody record).length < 2 ^ 32

lemma segmentIntToU32_eq_ok {value size : Nat} {field : String} :
    segmentIntToU32 value field = .ok size ↔ value < 2 ^ 32 ∧ size = value := by
  unfold segmentIntToU32
  split
  · next hge => exact ⟨nofun, fun h => absurd h.1 (Nat.not_lt.mpr hge)⟩
  · next hlt => exact ⟨fun h => ⟨Nat.not_le.mp hlt, (Except.ok.inj h).symm⟩, fun h => by rw [h.2]⟩

lemma encodeSegmentBatchRecords_eq_ok {items : Bytes} :
    encodeSegmentBatchRecords records = .ok items ↔
      (∀ record ∈ records, (segmentRecordBody record).length < 2 ^ 32) ∧
        items = records.flatMap segmentBatchItem := by
  induction records generalizing items with
  | nil => simp [encodeSegmentBatchRecords, eq_comm]
  | cons record rest ih =>
    simp only [encodeSegmentBatchRecords, Except.bind_eq_ok, segmentIntToU32_eq_ok, ih,
      Except.ok.injEq, forall_mem_cons, flatMap_cons]
    constructor
    · rintro ⟨_, ⟨hsize, rfl⟩, _, ⟨hall, rfl⟩, rfl⟩
      exact ⟨⟨hsize, hall⟩, rfl⟩
    · rintro ⟨⟨hsize, hall⟩, rfl⟩
      exact ⟨_, ⟨hsize, rfl⟩, _, ⟨hall, rfl⟩, rfl⟩

/-- The frame is a well-formed one of these records: its magic is one of the four in use and says
what the body is. -/
structure IsSegmentFrame (zstd : Zstd) (records : List Record) (magic : Nat) (payload : Bytes) :
    Prop where
  sized : sizedSegmentFrameMagic magic = true
  length : payload.length < 2 ^ 32
  content : decodeSegmentFramePayload zstd magic payload = .ok (segmentFrameContent records)
  single : segmentFrameMagicIsBatch magic = false → ∃ record, records = [record]
  batch : segmentFrameMagicIsBatch magic = true → BatchSizes records ∧ ∀ record, records ≠ [record]

lemma encodeSegmentFrameEnvelope_eq_ok {magic : Nat} {body : Bytes} :
    encodeSegmentFrameEnvelope magic body = .ok frame ↔
      body.length < 2 ^ 32 ∧ frame = segmentFrame magic body := by
  simp only [encodeSegmentFrameEnvelope, Except.bind_eq_ok, segmentIntToU32_eq_ok, Except.ok.injEq]
  constructor
  · rintro ⟨_, ⟨hlen, rfl⟩, rfl⟩
    exact ⟨hlen, rfl⟩
  · rintro ⟨hlen, rfl⟩
    exact ⟨_, ⟨hlen, rfl⟩, rfl⟩

/-- `encode` and `encodeBatch` of the compression, with the two magics of either. -/
lemma encodeWithMagic_cases {c : SegmentFrameCompression} {body payload : Bytes}
    {plainMagic zstdMagic magic : Nat}
    (h : c.encodeWithMagic zstd body plainMagic zstdMagic = .ok (magic, payload)) :
    (magic = plainMagic ∧ payload = body) ∨ (magic = zstdMagic ∧ payload = zstd.encodeAll body) := by
  unfold SegmentFrameCompression.encodeWithMagic at h
  split at h
  · cases h
    exact .inl ⟨rfl, rfl⟩
  · split at h
    · cases h
      exact .inr ⟨rfl, rfl⟩
    · cases h

lemma decodeSegmentFramePayload_encode (hzstd : zstd.Lawful)
    {c : SegmentFrameCompression} {body payload : Bytes} {plainMagic zstdMagic magic : Nat}
    (hplain : validSegmentFrameMagic plainMagic = true ∧ segmentFrameMagicIsZstd plainMagic = false)
    (hcomp : validSegmentFrameMagic zstdMagic = true ∧ segmentFrameMagicIsZstd zstdMagic = true)
    (h : c.encodeWithMagic zstd body plainMagic zstdMagic = .ok (magic, payload)) :
    decodeSegmentFramePayload zstd magic payload = .ok body := by
  obtain ⟨rfl, rfl⟩ | ⟨rfl, rfl⟩ := encodeWithMagic_cases h
  · rw [decodeSegmentFramePayload, hplain.1, hplain.2]
    rfl
  · rw [decodeSegmentFramePayload, hcomp.1, hcomp.2, hzstd body]
    rfl

lemma encodeSegmentFrameWithCompression_isSegmentFrame (hzstd : zstd.Lawful)
    {compression : SegmentFrameCompression}
    (h : encodeSegmentFrameWithCompression zstd record compression = .ok frame) :
    ∃ magic payload, frame = segmentFrame magic payload ∧
      IsSegmentFrame zstd [record] magic payload := by
  obtain ⟨⟨magic, payload⟩, hencode, h⟩ := Except.bind_eq_ok.mp h
  obtain ⟨hlen, rfl⟩ := encodeSegmentFrameEnvelope_eq_ok.mp h
  have hmagic : sizedSegmentFrameMagic magic = true ∧ segmentFrameMagicIsBatch magic = false := by
    obtain ⟨rfl, -⟩ | ⟨rfl, -⟩ := encodeWithMagic_cases hencode <;> decide
  refine ⟨magic, payload, rfl, hmagic.1, hlen, ?_, fun _ => ⟨record, rfl⟩, fun hbatch => ?_⟩
  · exact decodeSegmentFramePayload_encode hzstd (by decide) (by decide) hencode
  · rw [hmagic.2] at hbatch
    cases hbatch

/-- **What the encoder returns is a well-formed frame of the records.** -/
theorem encodeSegmentBatchFrame_isSegmentFrame (hzstd : zstd.Lawful)
    {compression : SegmentFrameCompression}
    (h : encodeSegmentBatchFrameWithCompression zstd records compression = .ok frame) :
    ∃ magic payload, frame = segmentFrame magic payload ∧
      IsSegmentFrame zstd records magic payload := by
  unfold encodeSegmentBatchFrameWithCompression at h
  split at h
  · exact encodeSegmentFrameWithCompression_isSegmentFrame hzstd h
  · next hmany =>
    obtain ⟨_, hlength, h⟩ := Except.bind_eq_ok.mp h
    obtain ⟨hcount, rfl⟩ := segmentIntToU32_eq_ok.mp hlength
    obtain ⟨_, hitems, h⟩ := Except.bind_eq_ok.mp h
    obtain ⟨hsizes, rfl⟩ := encodeSegmentBatchRecords_eq_ok.mp hitems
    obtain ⟨⟨magic, payload⟩, hencode, h⟩ := Except.bind_eq_ok.mp h
    obtain ⟨hlen, rfl⟩ := encodeSegmentFrameEnvelope_eq_ok.mp h
    have hmagic : sizedSegmentFrameMagic magic = true ∧ segmentFrameMagicIsBatch magic = true := by
      obtain ⟨rfl, -⟩ | ⟨rfl, -⟩ := encodeWithMagic_cases hencode <;> decide
    refine ⟨magic, payload, rfl, hmagic.1, hlen, ?_, fun hsingle => ?_,
      fun _ => ⟨⟨hcount, hsizes⟩, fun record heq => hmany record heq⟩⟩
    · rw [segmentFrameContent_of_ne hmany]
      exact decodeSegmentFramePayload_encode hzstd (by decide) (by decide) hencode
    · rw [hmagic.2] at hsingle
      cases hsingle

/-! ## Decoding what was encoded, and nothing of another length -/

theorem magic_segmentFrame : (segmentFrame magic body).take 4 = bigEndian 4 magic :=
  take_left' (length_bigEndian 4 magic)

lemma checksum_segmentFrame :
    ((segmentFrame magic body).drop 4).take 4 = bigEndian 4 (crc32ChecksumIEEE body).toNat := by
  rw [segmentFrame, drop_left' (length_bigEndian 4 magic)]
  exact take_left' (length_bigEndian 4 _)

lemma bodyLen_segmentFrame :
    ((segmentFrame magic body).drop 8).take 4 = bigEndian 4 body.length := by
  rw [segmentFrame, ← append_assoc, drop_left' (by simp)]
  exact take_left' (length_bigEndian 4 _)

lemma body_segmentFrame : (segmentFrame magic body).drop segmentFrameHeader = body := by
  rw [segmentFrame, ← append_assoc, ← append_assoc]
  exact drop_left' (by simp [segmentFrameHeader])

lemma lt_of_sized {magic : Nat} (h : sizedSegmentFrameMagic magic = true) : magic < 2 ^ 32 := by
  simp only [sizedSegmentFrameMagic, Bool.or_eq_true, decide_eq_true_eq] at h
  rcases h with ((rfl | rfl) | rfl) | rfl <;> decide

lemma valid_of_sized {magic : Nat} (h : sizedSegmentFrameMagic magic = true) :
    validSegmentFrameMagic magic = true := by
  simp only [sizedSegmentFrameMagic, Bool.or_eq_true, decide_eq_true_eq] at h
  rcases h with ((rfl | rfl) | rfl) | rfl <;> decide

namespace IsSegmentFrame

variable {zstd : Zstd} {records : List Record} {magic : Nat} {payload : Bytes}

lemma reads_batch (hsizes : BatchSizes records) (hrange : ∀ record ∈ records, record.InRange) :
    Reads SegmentRecordDecoder.readBatch
      (bigEndian 4 records.length ++ records.flatMap segmentBatchItem)
      (records.map Record.stored) := by
  refine (SegmentRecordDecoder.reads_uint _ hsizes.count).bind ?_
  refine Reads.times segmentBatchItem Record.stored records fun record hmem => ?_
  have hitem : Reads (SegmentRecordDecoder.readBytesU32 "batch record") (segmentBatchItem record)
      (segmentRecordBody record) :=
    (SegmentRecordDecoder.reads_uint _ (hsizes.size record hmem)).bind (Reads.fixed _ rfl)
  refine hitem.bind_pure ?_
  rw [decodeSegmentRecordBody_body (hrange record hmem)]
  exact Reads.pure record.stored

variable (h : IsSegmentFrame zstd records magic payload)

include h

lemma readMagic : ofBigEndian (bigEndian 4 magic) = magic :=
  ofBigEndian_bigEndian (lt_of_sized h.sized)

lemma readBodyLen : ofBigEndian (bigEndian 4 payload.length) = payload.length :=
  ofBigEndian_bigEndian h.length

/-- The header of a frame passes every check. -/
lemma decode_envelope :
    decodeSegmentFrameRecords zstd (segmentFrame magic payload)
      = if segmentFrameMagicIsBatch magic then decodeSegmentBatchBody (segmentFrameContent records)
        else (decodeSegmentRecordBody (segmentFrameContent records)).bind fun record =>
          .ok [record] := by
  have hlong : ¬ (segmentFrame magic payload).length < segmentFrameLegacyHeader := by
    rw [length_segmentFrame, segmentFrameLegacyHeader]
    omega
  have hheader : ¬ (segmentFrame magic payload).length < segmentFrameHeader := by
    rw [length_segmentFrame, segmentFrameHeader]
    omega
  have hbody : segmentFrameBody magic (segmentFrame magic payload) = .ok payload := by
    rw [segmentFrameBody, h.sized, Bool.not_true, if_neg Bool.false_ne_true, if_neg hheader,
      bodyLen_segmentFrame, h.readBodyLen, if_neg (by simp [segmentFrameHeader]), body_segmentFrame]
  have hcrc : ofBigEndian (bigEndian 4 (crc32ChecksumIEEE payload).toNat)
      = (crc32ChecksumIEEE payload).toNat :=
    ofBigEndian_bigEndian (crc32ChecksumIEEE payload).toNat_lt
  rw [decodeSegmentFrameRecords, if_neg hlong, magic_segmentFrame, checksum_segmentFrame,
    h.readMagic, hcrc]
  dsimp only
  rw [valid_of_sized h.sized, hbody, Bool.not_true, if_neg Bool.false_ne_true]
  change (if (crc32ChecksumIEEE payload).toNat ≠ (crc32ChecksumIEEE payload).toNat then _ else _) = _
  rw [if_neg (by simp), h.content]
  rfl

/-- **The frame decodes to its records**, as far as the encoding keeps them. -/
theorem decode (hrange : ∀ record ∈ records, record.InRange) :
    decodeSegmentFrameRecords zstd (segmentFrame magic payload) = .ok (records.map Record.stored) := by
  rw [h.decode_envelope]
  cases hbatch : segmentFrameMagicIsBatch magic with
  | false =>
    obtain ⟨record, rfl⟩ := h.single hbatch
    have hrecord := decodeSegmentRecordBody_body (hrange record mem_cons_self)
    simp only [Bool.false_eq_true, if_false, segmentFrameContent, hrecord]
    rfl
  | true =>
    obtain ⟨hsizes, hmany⟩ := h.batch hbatch
    have hread := reads_batch hsizes hrange []
    rw [append_nil] at hread
    rw [if_pos rfl, segmentFrameContent_of_ne hmany, decodeSegmentBatchBody, hread]
    rfl

/-- Bytes that begin like the frame, as far as they go, and have another length are refused. -/
lemma decode_resized {bytes : Bytes} (hmagic : 8 ≤ bytes.length → bytes.take 4 = bigEndian 4 magic)
    (hbodyLen : 12 ≤ bytes.length → (bytes.drop 8).take 4 = bigEndian 4 payload.length)
    (hlen : bytes.length ≠ 12 + payload.length) :
    ∃ err, decodeSegmentFrameRecords zstd bytes = .error err := by
  unfold decodeSegmentFrameRecords
  split
  · exact ⟨_, rfl⟩
  · next hlong =>
    have hbody : ∃ err, segmentFrameBody magic bytes = .error err := by
      unfold segmentFrameBody
      rw [h.sized, Bool.not_true, if_neg Bool.false_ne_true]
      split
      · exact ⟨_, rfl⟩
      · next hheader =>
        rw [hbodyLen (Nat.not_lt.mp hheader), h.readBodyLen]
        exact ⟨_, if_pos hlen⟩
    obtain ⟨err, herr⟩ := hbody
    rw [hmagic (Nat.not_lt.mp hlong), h.readMagic]
    dsimp only
    rw [valid_of_sized h.sized, herr, Bool.not_true, if_neg Bool.false_ne_true]
    exact ⟨err, rfl⟩

lemma decode_take {k : Nat} (hk : k < (segmentFrame magic payload).length) :
    ∃ err, decodeSegmentFrameRecords zstd ((segmentFrame magic payload).take k) = .error err := by
  have hsize : ((segmentFrame magic payload).take k).length = k := by
    rw [length_take]
    omega
  refine h.decode_resized (fun hlong => ?_) (fun hlong => ?_) ?_
  · rw [take_take, Nat.min_eq_left (by omega), magic_segmentFrame]
  · rw [drop_take, take_take, Nat.min_eq_left (by omega), bodyLen_segmentFrame]
  · rw [hsize]
    rw [length_segmentFrame] at hk
    omega

lemma decode_append {extra : Bytes} (hextra : extra ≠ []) :
    ∃ err, decodeSegmentFrameRecords zstd (segmentFrame magic payload ++ extra) = .error err := by
  have hpos : 0 < extra.length := length_pos_iff.mpr hextra
  have hlong : 12 ≤ (segmentFrame magic payload).length := by
    rw [length_segmentFrame]
    omega
  refine h.decode_resized (fun _ => ?_) (fun _ => ?_) ?_
  · rw [take_append_of_le_length (by omega), magic_segmentFrame]
  · rw [drop_append_of_le_length (by omega),
      take_append_of_le_length (by rw [length_drop]; omega), bodyLen_segmentFrame]
  · rw [length_append, length_segmentFrame]
    omega

end IsSegmentFrame

/-! ## The round trip -/

/-- What the compression makes of a body. -/
def SegmentFrameCompression.compress (zstd : Zstd) (c : SegmentFrameCompression) (body : Bytes) :
    Bytes :=
  match c.kind with
  | .none => body
  | .zstd => zstd.encodeAll body

/-- The sizes that a frame has four bytes for: the number of records, the size of each, and the
size of the body. -/
structure EncodedSizes (zstd : Zstd) (records : List Record) (c : SegmentFrameCompression) :
    Prop where
  batch : BatchSizes records
  body : (c.compress zstd (segmentFrameContent records)).length < 2 ^ 32

lemma encodeWithMagic_new (zstd : Zstd) (kind : SegmentCompression) (body : Bytes)
    (plainMagic zstdMagic : Nat) :
    ∃ magic, (newSegmentFrameCompression kind).encodeWithMagic zstd body plainMagic zstdMagic
      = .ok (magic, (newSegmentFrameCompression kind).compress zstd body) := by
  cases kind
  · exact ⟨plainMagic, rfl⟩
  · exact ⟨zstdMagic, rfl⟩

/-- The encoder succeeds when the sizes fit. -/
lemma encodeSegmentBatchFrame_ok {kind : SegmentCompression}
    (h : EncodedSizes zstd records (newSegmentFrameCompression kind)) :
    ∃ frame, encodeSegmentBatchFrameWithCompression zstd records (newSegmentFrameCompression kind)
      = .ok frame := by
  unfold encodeSegmentBatchFrameWithCompression
  split
  · next record =>
    obtain ⟨magic, hencode⟩ := encodeWithMagic_new zstd kind (segmentRecordBody record)
      segmentFrameMagic segmentFrameZstdMagic
    exact ⟨_, Except.bind_eq_ok.mpr ⟨_, hencode, encodeSegmentFrameEnvelope_eq_ok.mpr ⟨h.body, rfl⟩⟩⟩
  · next hmany =>
    have hbody := h.body
    rw [segmentFrameContent_of_ne hmany] at hbody
    obtain ⟨magic, hencode⟩ := encodeWithMagic_new zstd kind
      (bigEndian 4 records.length ++ records.flatMap segmentBatchItem)
      segmentBatchMagic segmentBatchZstdMagic
    exact ⟨_, Except.bind_eq_ok.mpr ⟨_, segmentIntToU32_eq_ok.mpr ⟨h.batch.count, rfl⟩,
      Except.bind_eq_ok.mpr ⟨_, encodeSegmentBatchRecords_eq_ok.mpr ⟨h.batch.size, rfl⟩,
        Except.bind_eq_ok.mpr ⟨_, hencode, encodeSegmentFrameEnvelope_eq_ok.mpr ⟨hbody, rfl⟩⟩⟩⟩⟩

/-- **Frames.** Records with declared control types come back, compressed or not, and no strict
beginning of the frame and nothing longer than it is accepted. -/
theorem segment_frame_round_trip {zstd : Zstd} (hzstd : zstd.Lawful) (kind : SegmentCompression)
    {records : List Record} (hrange : ∀ record ∈ records, record.InRange)
    (hdeclared : ∀ record ∈ records, ∀ metadata ∈ record.transaction, metadata.controlType.Declared)
    (hsizes : EncodedSizes zstd records (newSegmentFrameCompression kind)) :
    ∃ frame, encodeSegmentBatchFrameWithCompression zstd records (newSegmentFrameCompression kind)
        = .ok frame ∧
      decodeSegmentFrameRecords zstd frame = .ok records ∧
      (∀ k < frame.length, ∃ err, decodeSegmentFrameRecords zstd (frame.take k) = .error err) ∧
      ∀ extra ≠ [], ∃ err, decodeSegmentFrameRecords zstd (frame ++ extra) = .error err := by
  obtain ⟨frame, hframe⟩ := encodeSegmentBatchFrame_ok hsizes
  obtain ⟨magic, payload, rfl, hwf⟩ := encodeSegmentBatchFrame_isSegmentFrame hzstd hframe
  have hkept : records.map Record.stored = records :=
    map_eq_self_iff.mpr fun record hmem => record.stored_eq_iff.mpr (hdeclared record hmem)
  refine ⟨_, hframe, ?_, fun k hk => hwf.decode_take hk, fun extra hextra => hwf.decode_append hextra⟩
  rw [hwf.decode hrange, hkept]

/-- A record with every optional field. -/
def fullRecord (offset : Nat) : Record :=
  { offset := offset, timestampMS := 7, key := [1], headers := [⟨"k", [2, 3]⟩], attributes := 2
    transaction := some ⟨1, 2, 3, 4, .commit⟩, expiresAtMS := some 9, payload := [4, 5, 6] }

lemma fullRecord_inRange {offset : Nat} (h : offset < 2 ^ 64) : (fullRecord offset).InRange where
  offset := h
  timestampMS := by simp [fullRecord]
  keyLength := by simp [fullRecord]
  headersLength := by simp [fullRecord]
  headers := by
    intro header hmem
    obtain rfl : header = ⟨"k", [2, 3]⟩ := mem_singleton.mp hmem
    exact ⟨by simp [GoString], by decide, by decide⟩
  attributes := by simp [fullRecord]
  transaction := by
    intro metadata hmem
    obtain rfl : metadata = ⟨1, 2, 3, 4, .commit⟩ := (Option.some.inj hmem).symm
    exact ⟨by decide, by decide, by decide, by decide⟩
  expiresAtMS := by
    intro value hmem
    obtain rfl : value = 9 := (Option.some.inj hmem).symm
    decide
  payloadLength := by simp [fullRecord]

/-- Two records in one frame, which is not compressed. -/
theorem segment_frame_round_trip_pair :
    ∃ frame, encodeSegmentBatchFrameWithCompression ⟨id, .ok⟩ [fullRecord 0, fullRecord 1]
        (newSegmentFrameCompression .none) = .ok frame ∧
      decodeSegmentFrameRecords ⟨id, .ok⟩ frame = .ok [fullRecord 0, fullRecord 1] ∧
      (∀ k < frame.length, ∃ err,
        decodeSegmentFrameRecords ⟨id, .ok⟩ (frame.take k) = .error err) ∧
      ∀ extra ≠ [], ∃ err, decodeSegmentFrameRecords ⟨id, .ok⟩ (frame ++ extra) = .error err := by
  have hlawful : Zstd.Lawful ⟨id, .ok⟩ := fun _ => rfl
  refine segment_frame_round_trip hlawful .none ?_ ?_
    ⟨⟨by decide, by decide +kernel⟩, by decide +kernel⟩
  · intro record hmem
    simp only [mem_cons, not_mem_nil, or_false] at hmem
    rcases hmem with rfl | rfl <;> exact fullRecord_inRange (by decide)
  · simp [fullRecord, TransactionControlType.Declared]

end Ech0.Store
