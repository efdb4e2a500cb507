/-
  The binary encoding of the coalesced Raft commands (`raft_binary_codec.go`, `raft_binary_io.go`
  and the codecs of the two commands).

  A leader writes `produce_batches` and `commit_offsets` in this encoding, and every replica
  decodes what it is to apply. Each writer below lists its fields in the order in which they
  are written, each reader takes them back in the same order, and lengths are checked against the
  width of their count. The routing key of a produce request is not among the fields, and a
  partitioning mode without a code of its own is written as the default.

  `decodeRaftCommand` is the decoding half of `applyRaftCommand`: what does not begin with the magic
  number is left to the JSON library, which is a parameter.
-/
import Ech0.Lib.Wire
import Ech0.Store.SegmentFile
import Ech0.Broker.Command

set_option autoImplicit false

namespace Ech0.Broker

open Ech0.Lib Ech0.Store Writer List

variable {α : Type} {bytes : Bytes} {commandID width : Nat}

namespace RaftBinary

/-! ## Integers, strings and bytes (`raft_binary_io.go`) -/

/-- `checkedRaftUint16` and `checkedRaftUint32`: a length that its count can hold. -/
def checkedRaftUint (width : Nat) (kind : String) (value : Nat) (label : String) :
    Except Error Nat :=
  if value > 256 ^ width - 1 then
    .error (brokerStoreError .codec
      ("raft binary " ++ label ++ " length " ++ showNat value ++ " exceeds " ++ kind))
  else .ok value

def checkedRaftUint16 : Nat → String → Except Error Nat := checkedRaftUint 2 "u16"
def checkedRaftUint32 : Nat → String → Except Error Nat := checkedRaftUint 4 "u32"

def writeU8 (value : Nat) : Writer Error := .ok (bigEndian 1 value)
def writeU16 (value : Nat) : Writer Error := .ok (bigEndian 2 value)
def writeU32 (value : Nat) : Writer Error := .ok (bigEndian 4 value)
def writeU64 (value : Nat) : Writer Error := .ok (bigEndian 8 value)
def writeBool (value : Bool) : Writer Error := writeU8 (if value then 1 else 0)

def writeOptionalU64 : Option Nat → Writer Error
  | none => writeBool false
  | some value => Writer.seq [writeBool true, writeU64 value]

def writeString (value : String) : Writer Error :=
  Writer.checked (checkedRaftUint16 value.length "string") fun size =>
    Writer.seq [writeU16 size, .ok (bytesOfString value)]

def writeBytes (value : Bytes) : Writer Error :=
  Writer.checked (checkedRaftUint32 value.length "bytes") fun size =>
    Writer.seq [writeU32 size, .ok value]

/-- `io.ReadFull`, with the error of the reader that asked; an error from outside the store has
the code `unavailable`. -/
def readFull (length : Nat) (label : String) : Reader Error Bytes :=
  Reader.fixed length fun remaining =>
    ⟨.other, label ++ ": " ++ if remaining = 0 then "EOF" else "unexpected EOF"⟩

def readUint (width : Nat) (label : String) : Reader Error Nat := do
  let raw ← readFull width label
  pure (ofBigEndian raw)

def readU8 : Reader Error Nat := readUint 1 "read u8"
def readU16 : Reader Error Nat := readUint 2 "read u16"
def readU32 : Reader Error Nat := readUint 4 "read u32"
def readU64 : Reader Error Nat := readUint 8 "read u64"

def readBool : Reader Error Bool := do
  let value ← readU8
  pure (value != 0)

def readOptionalU64 : Reader Error (Option Nat) := do
  let ok ← readBool
  if ok then
    let value ← readU64
    pure (some value)
  else pure none

/-- A 32-bit size always fits into an `int`, so `intFromRaftUint32` does not fail. -/
def readFixedBytes (size : Nat) : Reader Error Bytes := readFull size "read bytes"

def readString : Reader Error String := do
  let size ← readU16
  let raw ← readFixedBytes size
  pure (stringOfBytes raw)

def readBytes : Reader Error Bytes := do
  let size ← readU32
  readFixedBytes size

/-- `ensureEOF`. -/
def trailing (remaining : Nat) : Error :=
  brokerStoreError .codec ("raft binary body has " ++ showNat remaining ++ " trailing bytes")

/-! ## Offset commits (`raft_binary_commit_codec.go`) -/

def writeBinaryCommitOffsetCommand (item : CommitOffsetCommand) : Writer Error :=
  Writer.seq
    [writeString item.consumer, writeString item.topic, writeU32 item.partition.toNat,
     writeU64 item.nextOffset, writeOptionalU64 item.ackOffset, writeU64 item.updatedAtMS,
     writeString item.metadata]

def encodeBinaryCommitOffsetsCommand (requests : List CommitOffsetCommand) : Writer Error :=
  Writer.checked (checkedRaftUint32 requests.length "commit offset requests") fun count =>
    Writer.seq [writeU32 count, Writer.seq (requests.map writeBinaryCommitOffsetCommand)]

def readBinaryCommitOffsetCommand : Reader Error CommitOffsetCommand := do
  let consumer ← readString
  let topic ← readString
  let partition ← readU32
  let nextOffset ← readU64
  let ackOffset ← readOptionalU64
  let updatedAtMS ← readU64
  let metadata ← readString
  pure { consumer := consumer, topic := topic, partition := UInt32.ofNat partition
         nextOffset := nextOffset, ackOffset := ackOffset, metadata := metadata
         updatedAtMS := updatedAtMS }

def readBinaryCommitOffsetCommands : Reader Error (List CommitOffsetCommand) := do
  let count ← readU32
  Reader.times readBinaryCommitOffsetCommand count

def decodeBinaryCommitOffsetsCommand : Bytes → Except Error (List CommitOffsetCommand) :=
  readBinaryCommitOffsetCommands.whole trailing

/-! ## Records (`raft_binary_produce_codec.go`, `raft_binary_transaction_codec.go`) -/

def encodeRaftTransactionControl : TransactionControlType → Nat
  | .none => 0
  | .commit => 1
  | .abort => 2
  | .other _ => 0

def raftTransactionControl : Nat → Except Error TransactionControlType
  | 0 => .ok .none
  | 1 => .ok .commit
  | 2 => .ok .abort
  | value =>
    .error (brokerStoreError .codec ("unknown raft transaction control type " ++ showNat value))

def writeBinaryTransactionRecordMetadata : Option TransactionRecordMetadata → Writer Error
  | none => writeBool false
  | some metadata =>
    Writer.seq
      [writeBool true, writeU64 metadata.txID, writeU64 metadata.producerID,
       writeU64 metadata.producerEpoch, writeU64 metadata.sequence,
       writeU8 (encodeRaftTransactionControl metadata.controlType)]

def readBinaryTransactionRecordMetadata : Reader Error (Option TransactionRecordMetadata) := do
  let ok ← readBool
  if ok then
    let txID ← readU64
    let producerID ← readU64
    let producerEpoch ← readU64
    let sequence ← readU64
    let control ← readU8
    let controlType ← Reader.ofExcept (raftTransactionControl control)
    pure (some { txID, producerID, producerEpoch, sequence, controlType })
  else pure none

def writeBinaryRecordHeader (header : RecordHeader) : Writer Error :=
  Writer.seq [writeString header.key, writeBytes header.value]

def writeBinaryRecordHeaders (headers : List RecordHeader) : Writer Error :=
  Writer.checked (checkedRaftUint16 headers.length "record headers") fun count =>
    Writer.seq [writeU16 count, Writer.seq (headers.map writeBinaryRecordHeader)]

def readBinaryRecordHeader : Reader Error RecordHeader := do
  let key ← readString
  let value ← readBytes
  pure ⟨key, value⟩

def readBinaryRecordHeaders : Reader Error (List RecordHeader) := do
  let count ← readU16
  Reader.times readBinaryRecordHeader count

def writeBinaryRecordAppend (record : RecordAppend) : Writer Error :=
  Writer.seq
    [writeOptionalU64 record.timestampMS, writeOptionalU64 record.expiresAtMS,
     writeBytes record.key, writeBinaryRecordHeaders record.headers, writeU16 record.attributes,
     writeBinaryTransactionRecordMetadata record.transaction, writeBytes record.payload]

def readBinaryRecordAppend : Reader Error RecordAppend := do
  let timestampMS ← readOptionalU64
  let expiresAtMS ← readOptionalU64
  let key ← readBytes
  let headers ← readBinaryRecordHeaders
  let attributes ← readU16
  let transaction ← readBinaryTransactionRecordMetadata
  let payload ← readBytes
  pure { timestampMS, key, headers, attributes, transaction, expiresAtMS, payload }

def readBinaryRecordAppends : Reader Error (List RecordAppend) := do
  let count ← readU32
  Reader.times readBinaryRecordAppend count

/-! ## Produce requests (`raft_binary_produce_codec.go`) -/

def encodeRaftPartitioning : PartitionMode → Nat
  | .explicit => 1
  | .roundRobin => 2
  | .keyHash => 3
  | .routingKeyHash => 4
  | .other _ => 0

/-- The modes of `readRaftPartitioning`; the default is the empty string. -/
def raftPartitioning : Nat → Except Error PartitionMode
  | 0 => .ok (.other "")
  | 1 => .ok .explicit
  | 2 => .ok .roundRobin
  | 3 => .ok .keyHash
  | 4 => .ok .routingKeyHash
  | mode => .error (brokerStoreError .codec ("unknown raft partitioning " ++ showNat mode))

def readRaftPartitioning : Reader Error PublishPartitioning := do
  let code ← readU8
  let partition ← readU32
  let mode ← Reader.ofExcept (raftPartitioning code)
  pure { mode := mode, partition := UInt32.ofNat partition }

def writeBinaryProduceIdempotency : Option ProduceIdempotency → Writer Error
  | none => writeBool false
  | some id =>
    Writer.seq
      [writeBool true, writeU64 id.producerID, writeU64 id.producerEpoch, writeU64 id.baseSequence]

def readBinaryProduceIdempotency : Reader Error (Option ProduceIdempotency) := do
  let ok ← readBool
  if ok then
    let producerID ← readU64
    let producerEpoch ← readU64
    let baseSequence ← readU64
    pure (some { producerID, producerEpoch, baseSequence })
  else pure none

/-- The records are counted once what is before them has been written. -/
def writeBinaryProduceBatch (item : ProduceBatchCommand) : Writer Error :=
  Writer.seq
    [writeString item.topic,
     Writer.seq
       [writeU8 (encodeRaftPartitioning item.partitioning.mode),
        writeU32 item.partitioning.partition.toNat],
     writeBinaryProduceIdempotency item.idempotency,
     Writer.checked (checkedRaftUint32 item.records.length "produce batch records") fun count =>
       Writer.seq [writeU32 count, Writer.seq (item.records.map writeBinaryRecordAppend)]]

def readBinaryProduceBatch : Reader Error ProduceBatchCommand := do
  let topic ← readString
  let partitioning ← readRaftPartitioning
  let idempotency ← readBinaryProduceIdempotency
  let records ← readBinaryRecordAppends
  pure { topic, partitioning, records, idempotency }

def encodeBinaryProduceBatchesCommand (requests : List ProduceBatchCommand) : Writer Error :=
  Writer.checked (checkedRaftUint32 requests.length "produce batch requests") fun count =>
    Writer.seq [writeU32 count, Writer.seq (requests.map writeBinaryProduceBatch)]

def readBinaryProduceBatchRequests : Reader Error (List ProduceBatchCommand) := do
  let count ← readU32
  Reader.times readBinaryProduceBatch count

def decodeBinaryProduceBatchesCommand : Bytes → Except Error (List ProduceBatchCommand) :=
  readBinaryProduceBatchRequests.whole trailing

end RaftBinary

/-! ## Commands (`raft_binary_codec.go`, `service_raft_commands.go`) -/

open RaftBinary

/-- `raftBinaryMagic`, the letters `ER01`. -/
def raftBinaryMagic : Nat := 0x45523031

/-- `encodeBinaryRaftCommand`, for the commands that have a binary encoding. -/
def encodeBinaryRaftCommand : Command → Option (Except Error Bytes)
  | .produceBatches requests =>
    some (Writer.seq
      [writeU32 raftBinaryMagic, writeU8 1, encodeBinaryProduceBatchesCommand requests])
  | .commitOffsets requests =>
    some (Writer.seq
      [writeU32 raftBinaryMagic, writeU8 2, encodeBinaryCommitOffsetsCommand requests])
  | _ => none

def isBinaryRaftCommand (data : Bytes) : Bool :=
  if data.length < 4 then false else ofBigEndian (data.take 4) = raftBinaryMagic

/-- `binaryRaftCommandType`, with the decoder of `applyBinaryRaftCommand`. -/
def decodeBinaryRaftCommand (commandID : Nat) (body : Bytes) : Except Error Command :=
  if commandID = 1 then
    ((decodeBinaryProduceBatchesCommand body).map Command.produceBatches).mapError
      (Error.wrap "decode produce batches command")
  else if commandID = 2 then
    ((decodeBinaryCommitOffsetsCommand body).map Command.commitOffsets).mapError
      (Error.wrap "decode commit offsets command")
  else
    .error ((brokerStoreError .codec ("unknown binary raft command " ++ showNat commandID)).wrap
      "decode binary raft command")

/-- `decodeBinaryRaftEnvelope` and the decoding that `applyRaftCommand` goes on with. -/
def decodeRaftCommand (json : Bytes → Except Error Command) (data : Bytes) :
    Except Error Command :=
  if isBinaryRaftCommand data then
    match readU8 (data.drop 4) with
    | .error err => .error (err.wrap "decode binary raft command")
    | .ok (commandID, body) => decodeBinaryRaftCommand commandID body
  else json data

/-! ## What is written reads back -/

namespace RaftBinary

/-- A check of a length passes just if its count can hold it. -/
lemma isOk_checkedRaftUint {kind label : String} {value : Nat} {next : Nat → Writer Error} :
    (checked (checkedRaftUint width kind value label) next).isOk = true
      ↔ value < 256 ^ width ∧ (next value).isOk = true := by
  have hpos : 0 < 256 ^ width := Nat.pos_of_ne_zero (by simp)
  unfold checkedRaftUint
  by_cases hvalue : value > 256 ^ width - 1
  · rw [if_pos hvalue]
    constructor
    · intro h
      exact absurd h (by simp [checked, Except.bind, Except.isOk, Except.toBool])
    · rintro ⟨hlt, -⟩
      omega
  · rw [if_neg hvalue, checked_ok]
    constructor
    · exact fun h => ⟨by omega, h⟩
    · exact fun h => h.2

lemma checkedRaftUint_of_lt {kind label : String} {value : Nat} (h : value < 256 ^ width) :
    checkedRaftUint width kind value label = .ok value :=
  if_neg (by omega)

lemma carries_uint {n : Nat} (label : String) (h : n < 256 ^ width) :
    Carries (.ok (bigEndian width n)) (readUint width label) n := by
  refine ⟨bigEndian width n, rfl, ?_⟩
  exact (Reads.fixed _ (length_bigEndian width n)).map (ofBigEndian_bigEndian h)

lemma carries_bool (value : Bool) : Carries (writeBool value) readBool value := by
  refine (carries_uint "read u8" ?_).map ?_
  · cases value <;> decide
  · cases value <;> rfl

lemma carries_optionalU64 {value : Option Nat} (h : ∀ n ∈ value, n < 2 ^ 64) :
    Carries (writeOptionalU64 value) readOptionalU64 value := by
  cases value with
  | none => exact (carries_bool false).last (Reads.pure none)
  | some n =>
    refine (carries_bool true).cons ?_
    exact (carries_uint "read u64" (h n rfl)).cons (Carries.nil (some n))

lemma carries_fixedBytes (bytes : Bytes) :
    Carries (.ok bytes) (readFixedBytes bytes.length) bytes := by
  refine ⟨bytes, rfl, ?_⟩
  unfold readFixedBytes readFull
  exact Reads.fixed _ rfl

lemma carries_bytes (hok : (writeBytes bytes).isOk = true) :
    Carries (writeBytes bytes) readBytes bytes := by
  have hlen := (isOk_checkedRaftUint.mp hok).1
  unfold writeBytes checkedRaftUint32
  rw [checkedRaftUint_of_lt hlen, checked_ok]
  refine (carries_uint "read u32" hlen).cons ?_
  rw [seq_singleton]
  exact carries_fixedBytes bytes

lemma carries_string {value : String} (hgo : GoString value)
    (hok : (writeString value).isOk = true) : Carries (writeString value) readString value := by
  have hlen := (isOk_checkedRaftUint.mp hok).1
  unfold writeString checkedRaftUint16
  rw [checkedRaftUint_of_lt hlen, checked_ok]
  refine (carries_uint "read u16" hlen).cons ?_
  rw [seq_singleton, ← length_bytesOfString]
  exact (carries_fixedBytes (bytesOfString value)).map (stringOfBytes_bytesOfString hgo)

/-- A list after its length. -/
lemma carries_counted {kind what : String} (label : String) {write : α → Writer Error}
    (read : Reader Error α) (f : α → α) {as : List α}
    (hok : (checked (checkedRaftUint width kind as.length what) fun count =>
      seq [.ok (bigEndian width count), seq (as.map write)]).isOk = true)
    (h : ∀ a ∈ as, (write a).isOk = true → Carries (write a) read (f a)) :
    Carries (checked (checkedRaftUint width kind as.length what) fun count =>
        seq [.ok (bigEndian width count), seq (as.map write)])
      (readUint width label >>= Reader.times read) (as.map f) := by
  obtain ⟨hlen, hitems⟩ := isOk_checkedRaftUint.mp hok
  rw [isOk_seq_cons, Bool.and_eq_true, seq_singleton] at hitems
  rw [checkedRaftUint_of_lt hlen, checked_ok]
  refine (carries_uint label hlen).cons ?_
  rw [seq_singleton]
  refine Carries.times f as fun a hmem => h a hmem ?_
  exact isOk_of_mem_seq hitems.2 (mem_map_of_mem hmem)

end RaftBinary

/-- Every field is a value of its Go type. -/
structure CommitOffsetCommand.InRange (req : CommitOffsetCommand) : Prop where
  consumer : GoString req.consumer
  topic : GoString req.topic
  nextOffset : req.nextOffset < 2 ^ 64
  ackOffset : ∀ value ∈ req.ackOffset, value < 2 ^ 64
  metadata : GoString req.metadata
  updatedAtMS : req.updatedAtMS < 2 ^ 64

/-- Every field is a value of its Go type. -/
structure ProduceIdempotency.InRange (id : ProduceIdempotency) : Prop where
  producerID : id.producerID < 2 ^ 64
  producerEpoch : id.producerEpoch < 2 ^ 64
  baseSequence : id.baseSequence < 2 ^ 64

/-- Every field is a value of its Go type. -/
structure ProduceBatchCommand.InRange (req : ProduceBatchCommand) : Prop where
  topic : GoString req.topic
  records : ∀ record ∈ req.records, record.InRange
  idempotency : ∀ id ∈ req.idempotency, id.InRange

namespace RaftBinary

lemma carries_commitOffsetCommand {item : CommitOffsetCommand} (h : item.InRange)
    (hok : (writeBinaryCommitOffsetCommand item).isOk = true) :
    Carries (writeBinaryCommitOffsetCommand item) readBinaryCommitOffsetCommand item := by
  simp only [writeBinaryCommitOffsetCommand, isOk_seq_cons, Bool.and_eq_true] at hok
  obtain ⟨hconsumer, htopic, -, -, -, -, hmetadata, -⟩ := hok
  refine (carries_string h.consumer hconsumer).cons ?_
  refine (carries_string h.topic htopic).cons ?_
  refine (carries_uint "read u32" item.partition.toNat_lt).cons ?_
  refine (carries_uint "read u64" h.nextOffset).cons ?_
  refine (carries_optionalU64 h.ackOffset).cons ?_
  refine (carries_uint "read u64" h.updatedAtMS).cons ?_
  refine (carries_string h.metadata hmetadata).cons ?_
  rw [UInt32.ofNat_toNat]
  exact Carries.nil item

lemma carries_transaction {metadata : Option TransactionRecordMetadata}
    (h : ∀ m ∈ metadata, m.InRange) :
    Carries (writeBinaryTransactionRecordMetadata metadata) readBinaryTransactionRecordMetadata
      (metadata.map TransactionRecordMetadata.stored) := by
  cases metadata with
  | none => exact (carries_bool false).last (Reads.pure none)
  | some m =>
    have hm := h m rfl
    refine (carries_bool true).cons ?_
    refine (carries_uint "read u64" hm.txID).cons ?_
    refine (carries_uint "read u64" hm.producerID).cons ?_
    refine (carries_uint "read u64" hm.producerEpoch).cons ?_
    refine (carries_uint "read u64" hm.sequence).cons ?_
    refine (carries_uint "read u8" (by cases m.controlType <;> simp [encodeRaftTransactionControl])).cons ?_
    refine Carries.ofExcept (a := m.controlType.stored) (by cases m.controlType <;> rfl) ?_
    exact Carries.nil (some m.stored)

lemma carries_headers {headers : List RecordHeader} (h : ∀ header ∈ headers, header.InRange)
    (hok : (writeBinaryRecordHeaders headers).isOk = true) :
    Carries (writeBinaryRecordHeaders headers) readBinaryRecordHeaders headers := by
  have hall := carries_counted "read u16" readBinaryRecordHeader id hok ?_
  · rwa [map_id] at hall
  · intro header hmem hheader
    simp only [writeBinaryRecordHeader, isOk_seq_cons, Bool.and_eq_true] at hheader
    refine (carries_string (h header hmem).key hheader.1).cons ?_
    exact (carries_bytes hheader.2.1).cons (Carries.nil header)

lemma carries_record {record : RecordAppend} (h : record.InRange)
    (hok : (writeBinaryRecordAppend record).isOk = true) :
    Carries (writeBinaryRecordAppend record) readBinaryRecordAppend record.stored := by
  simp only [writeBinaryRecordAppend, isOk_seq_cons, Bool.and_eq_true] at hok
  obtain ⟨-, -, hkey, hheaders, -, -, hpayload, -⟩ := hok
  refine (carries_optionalU64 h.timestampMS).cons ?_
  refine (carries_optionalU64 h.expiresAtMS).cons ?_
  refine (carries_bytes hkey).cons ?_
  refine (carries_headers h.headers hheaders).cons ?_
  refine (carries_uint "read u16" h.attributes).cons ?_
  refine (carries_transaction h.transaction).cons ?_
  exact (carries_bytes hpayload).cons (Carries.nil record.stored)

lemma carries_idempotency {idempotency : Option ProduceIdempotency}
    (h : ∀ id ∈ idempotency, id.InRange) :
    Carries (writeBinaryProduceIdempotency idempotency) readBinaryProduceIdempotency idempotency := by
  cases idempotency with
  | none => exact (carries_bool false).last (Reads.pure none)
  | some numbers =>
    have hnumbers := h numbers rfl
    refine (carries_bool true).cons ?_
    refine (carries_uint "read u64" hnumbers.producerID).cons ?_
    refine (carries_uint "read u64" hnumbers.producerEpoch).cons ?_
    exact (carries_uint "read u64" hnumbers.baseSequence).cons (Carries.nil (some numbers))

end RaftBinary

/-- What the encoding keeps of a mode. -/
def PartitionMode.encoded : PartitionMode → PartitionMode
  | .other _ => .other ""
  | mode => mode

/-- What the encoding keeps of a produce request. -/
def ProduceBatchCommand.encoded (req : ProduceBatchCommand) : ProduceBatchCommand :=
  { req with
    partitioning := { mode := req.partitioning.mode.encoded, partition := req.partitioning.partition }
    records := req.records.map RecordAppend.stored }

namespace RaftBinary

lemma carries_partitioning (partitioning : PublishPartitioning) :
    Carries (seq [writeU8 (encodeRaftPartitioning partitioning.mode),
        writeU32 partitioning.partition.toNat])
      readRaftPartitioning
      { mode := partitioning.mode.encoded, partition := partitioning.partition } := by
  refine (carries_uint "read u8" (by cases partitioning.mode <;> simp [encodeRaftPartitioning])).cons ?_
  refine (carries_uint "read u32" partitioning.partition.toNat_lt).cons ?_
  refine Carries.ofExcept (a := partitioning.mode.encoded) (by cases partitioning.mode <;> rfl) ?_
  rw [UInt32.ofNat_toNat]
  exact Carries.nil _

lemma carries_produceBatch {item : ProduceBatchCommand} (h : item.InRange)
    (hok : (writeBinaryProduceBatch item).isOk = true) :
    Carries (writeBinaryProduceBatch item) readBinaryProduceBatch item.encoded := by
  simp only [writeBinaryProduceBatch, isOk_seq_cons, Bool.and_eq_true] at hok
  obtain ⟨htopic, -, -, hrecords, -⟩ := hok
  have hall := carries_counted "read u32" readBinaryRecordAppend RecordAppend.stored hrecords
    fun record hmem => carries_record (h.records record hmem)
  refine (carries_string h.topic htopic).cons ?_
  refine (carries_partitioning item.partitioning).cons ?_
  refine (carries_idempotency h.idempotency).cons ?_
  exact hall.cons (Carries.nil item.encoded)

/-! ## Decoders that do not look ahead -/

instance (width : Nat) (label : String) : (readUint width label).Stable := by
  unfold readUint readFull
  infer_instance

instance : readBool.Stable := by
  unfold readBool readU8
  infer_instance

instance : readOptionalU64.Stable := by
  unfold readOptionalU64 readU64
  infer_instance

instance (size : Nat) : (readFixedBytes size).Stable := by
  unfold readFixedBytes readFull
  infer_instance

instance : readString.Stable := by
  unfold readString readU16
  infer_instance

instance : readBytes.Stable := by
  unfold readBytes readU32
  infer_instance

instance : readBinaryCommitOffsetCommands.Stable := by
  unfold readBinaryCommitOffsetCommands readBinaryCommitOffsetCommand readU32 readU64
  infer_instance

instance : readBinaryTransactionRecordMetadata.Stable := by
  unfold readBinaryTransactionRecordMetadata readU64 readU8
  infer_instance

instance : readBinaryRecordHeaders.Stable := by
  unfold readBinaryRecordHeaders readBinaryRecordHeader readU16
  infer_instance

instance : readBinaryRecordAppends.Stable := by
  unfold readBinaryRecordAppends readBinaryRecordAppend readU32 readU16
  infer_instance

instance : readRaftPartitioning.Stable := by
  unfold readRaftPartitioning readU8 readU32
  infer_instance

instance : readBinaryProduceIdempotency.Stable := by
  unfold readBinaryProduceIdempotency readU64
  infer_instance

instance : readBinaryProduceBatchRequests.Stable := by
  unfold readBinaryProduceBatchRequests readBinaryProduceBatch readU32
  infer_instance

end RaftBinary

/-! ## Whole commands -/

/-- Every field is a value of its Go type. -/
def Command.InRange : Command → Prop
  | .produceBatches requests => ∀ req ∈ requests, req.InRange
  | .commitOffsets requests => ∀ req ∈ requests, req.InRange
  | _ => True

/-- What the encoding keeps of a command. -/
def Command.encoded : Command → Command
  | .produceBatches requests => .produceBatches (requests.map ProduceBatchCommand.encoded)
  | cmd => cmd

/-- The JSON library refuses a text that is only the beginning of the magic number. -/
def RefusesMagic (json : Bytes → Except Error Command) : Prop :=
  ∀ part more, part ++ more = bigEndian 4 raftBinaryMagic → more ≠ [] →
    ∃ err, json part = .error err

/-- After the magic number and the command id, the decoder of the command sees the body. -/
lemma decodeRaftCommand_binary (json : Bytes → Except Error Command) (hid : commandID < 256)
    (body : Bytes) :
    decodeRaftCommand json (bigEndian 4 raftBinaryMagic ++ (bigEndian 1 commandID ++ body))
      = decodeBinaryRaftCommand commandID body := by
  have hmagic : isBinaryRaftCommand
      (bigEndian 4 raftBinaryMagic ++ (bigEndian 1 commandID ++ body)) = true := by
    unfold isBinaryRaftCommand
    rw [if_neg (by simp), take_left' (length_bigEndian 4 _)]
    decide
  have hid8 : Carries (writeU8 commandID) readU8 commandID := carries_uint "read u8" hid
  obtain ⟨bytes, hbytes, hreads⟩ := hid8
  obtain rfl := Except.ok.inj hbytes
  unfold decodeRaftCommand
  rw [if_pos hmagic, drop_left' (length_bigEndian 4 _), hreads body]

variable {json : Bytes → Except Error Command}

/-- A beginning of the magic number and the command id is refused. -/
lemma decodeRaftCommand_head (hjson : RefusesMagic json) {part more : Bytes} (hmore : more ≠ [])
    (hsplit : part ++ more = bigEndian 4 raftBinaryMagic ++ bigEndian 1 commandID) :
    ∃ err, decodeRaftCommand json part = .error err := by
  -- the command id is missing at least; before it, the magic number may be short
  obtain ⟨missing, last, rfl⟩ := (eq_nil_or_concat more).resolve_left hmore
  rw [concat_eq_append, ← append_assoc] at hsplit
  have hmagic : part ++ missing = bigEndian 4 raftBinaryMagic := (append_inj' hsplit rfl).1
  unfold decodeRaftCommand
  by_cases hshort : missing = []
  · rw [hshort, append_nil] at hmagic
    have hbinary : isBinaryRaftCommand part = true := by
      rw [hmagic]
      decide
    have hrest : part.drop 4 = [] := by
      rw [hmagic]
      decide
    rw [if_pos hbinary, hrest]
    exact ⟨_, rfl⟩
  · have hlen : part.length < 4 := by
      have hsum := congrArg List.length hmagic
      have hpos := length_pos_of_ne_nil hshort
      rw [length_append, length_bigEndian] at hsum
      omega
    have hbinary : isBinaryRaftCommand part = false := if_pos hlen
    rw [hbinary]
    exact hjson part missing hmagic hshort

lemma exact_command (hjson : RefusesMagic json) (hid : commandID < 256) {body : Bytes}
    {cmd : Command} (h : Exact (decodeBinaryRaftCommand commandID) body cmd) :
    Exact (decodeRaftCommand json)
      (bigEndian 4 raftBinaryMagic ++ (bigEndian 1 commandID ++ body)) cmd where
  back := by rw [decodeRaftCommand_binary json hid, h.back]
  short part more hsplit hmore := by
    rw [← append_assoc] at hsplit
    rcases append_eq_append_iff.mp hsplit with ⟨missing, hhead, hbody⟩ | ⟨rest, hpart, hbody⟩
    · by_cases hmissing : missing = []
      · -- the whole head and nothing of the body
        subst hmissing
        have hpart : part = bigEndian 4 raftBinaryMagic ++ bigEndian 1 commandID ++ [] := by
          rw [hhead]
          simp
        rw [hpart, append_assoc, decodeRaftCommand_binary json hid]
        exact h.short [] more hbody hmore
      · exact decodeRaftCommand_head hjson hmissing hhead.symm
    · rw [hpart, append_assoc, decodeRaftCommand_binary json hid]
      exact h.short rest more hbody.symm hmore
  long more hmore := by
    rw [append_assoc, append_assoc, decodeRaftCommand_binary json hid]
    exact h.long more hmore

/-- What a decoder of the body makes of it, under the error of the command. -/
lemma exact_wrap {decode : Bytes → Except Error α} {a : α} (h : Exact decode bytes a)
    (f : α → Command) (context : String) :
    Exact (fun body => ((decode body).map f).mapError (Error.wrap context)) bytes (f a) where
  back := by
    rw [h.back]
    rfl
  short part more hsplit hmore := by
    obtain ⟨err, herr⟩ := h.short part more hsplit hmore
    rw [herr]
    exact ⟨_, rfl⟩
  long more hmore := by
    obtain ⟨err, herr⟩ := h.long more hmore
    rw [herr]
    exact ⟨_, rfl⟩

lemma seq_envelope {body : Writer Error}
    (h : seq [writeU32 raftBinaryMagic, writeU8 commandID, body] = .ok bytes) :
    ∃ rest, body = .ok rest ∧
      bytes = bigEndian 4 raftBinaryMagic ++ (bigEndian 1 commandID ++ rest) := by
  cases body with
  | error err => exact absurd h (by simp [seq, writeU32, writeU8, Except.bind, Except.map])
  | ok rest =>
    refine ⟨rest, rfl, ?_⟩
    have hall : seq [writeU32 raftBinaryMagic, writeU8 commandID, .ok rest]
        = .ok (bigEndian 4 raftBinaryMagic ++ (bigEndian 1 commandID ++ rest)) :=
      seq_cons_ok rfl (seq_cons_ok rfl (seq_singleton _))
    rw [hall] at h
    exact (Except.ok.inj h).symm

/-- The body of a command whose encoder carries `a` to its decoder. -/
lemma exact_body {w : Writer Error} {p : Reader Error α} [p.Stable] {a : α} (h : Carries w p a)
    (hbytes : w = .ok bytes) : Exact (p.whole trailing) bytes a := by
  obtain ⟨written, hwritten, hreads⟩ := h
  rw [hbytes] at hwritten
  obtain rfl := Except.ok.inj hwritten
  exact hreads.exact trailing

/-- **An encoded command decodes to what the encoding keeps of it**, and nothing shorter or longer
decodes. -/
theorem exact_encodeBinaryRaftCommand (hjson : RefusesMagic json) {cmd : Command}
    (hrange : cmd.InRange) (hencode : encodeBinaryRaftCommand cmd = some (.ok bytes)) :
    Exact (decodeRaftCommand json) bytes cmd.encoded := by
  cases cmd with
  | produceBatches requests =>
    obtain ⟨body, hbody, rfl⟩ := seq_envelope (Option.some.inj hencode)
    have hok : (encodeBinaryProduceBatchesCommand requests).isOk = true := by rw [hbody]; rfl
    have hcarries := carries_counted "read u32" readBinaryProduceBatch ProduceBatchCommand.encoded
      hok fun req hmem => carries_produceBatch (hrange req hmem)
    exact exact_command hjson (by decide)
      (exact_wrap (exact_body (p := readBinaryProduceBatchRequests) hcarries hbody) _ _)
  | commitOffsets requests =>
    obtain ⟨body, hbody, rfl⟩ := seq_envelope (Option.some.inj hencode)
    have hok : (encodeBinaryCommitOffsetsCommand requests).isOk = true := by rw [hbody]; rfl
    have hcarries := carries_counted "read u32" readBinaryCommitOffsetCommand id
      hok fun req hmem => carries_commitOffsetCommand (hrange req hmem)
    rw [map_id] at hcarries
    exact exact_command hjson (by decide)
      (exact_wrap (exact_body (p := readBinaryCommitOffsetCommands) hcarries hbody) _ _)
  | _ => exact absurd hencode (by simp [encodeBinaryRaftCommand])

/-- Nothing is lost: there is no routing key, and the mode and the control types have codes. -/
structure ProduceBatchCommand.Encodable (req : ProduceBatchCommand) : Prop where
  routingKey : req.partitioning.routingKey = ""
  mode : ∀ text, req.partitioning.mode = .other text → text = ""
  control : ∀ record ∈ req.records, ∀ metadata ∈ record.transaction, metadata.controlType.Declared

lemma ProduceBatchCommand.encoded_eq_iff (req : ProduceBatchCommand) :
    req.encoded = req ↔ req.Encodable := by
  have hrecords : req.records.map RecordAppend.stored = req.records ↔ ∀ record ∈ req.records,
      ∀ metadata ∈ record.transaction, metadata.controlType.Declared := by
    simp only [map_eq_self_iff, RecordAppend.stored_eq_iff]
  have hmode : req.partitioning.mode.encoded = req.partitioning.mode ↔
      ∀ text, req.partitioning.mode = .other text → text = "" := by
    cases req.partitioning.mode <;> simp [PartitionMode.encoded, eq_comm]
  obtain ⟨topic, ⟨mode, partition, routingKey⟩, records, idempotency⟩ := req
  constructor
  · intro h
    injection h with _ hpartitioning hrec _
    injection hpartitioning with hm _ hr
    exact ⟨hr.symm, hmode.mp hm, hrecords.mp hrec⟩
  · rintro ⟨rfl, hm, hrec⟩
    simp only [encoded, hmode.mpr hm, hrecords.mpr hrec]

/-- What is lost of no request of a `produce_batches` command. -/
def Command.Encodable : Command → Prop
  | .produceBatches requests => ∀ req ∈ requests, req.Encodable
  | _ => True

/-- **An encoded command decodes to itself just if none of its requests has a routing key, or a mode
or a control type without a code**; for `commit_offsets` always. -/
theorem raftCommand_roundTrip_iff {json : Bytes → Except Error Command} (hjson : RefusesMagic json)
    {cmd : Command} (hrange : cmd.InRange) {bytes : Bytes}
    (hencode : encodeBinaryRaftCommand cmd = some (.ok bytes)) :
    Exact (decodeRaftCommand json) bytes cmd ↔ cmd.Encodable := by
  have hexact := exact_encodeBinaryRaftCommand hjson hrange hencode
  have hsame : Exact (decodeRaftCommand json) bytes cmd ↔ cmd.encoded = cmd := by
    constructor
    · intro h
      exact Except.ok.inj (hexact.back.symm.trans h.back)
    · intro h
      rwa [h] at hexact
  rw [hsame]
  cases cmd with
  | produceBatches requests =>
    have hmap : requests.map ProduceBatchCommand.encoded = requests
        ↔ ∀ req ∈ requests, req.encoded = req := by
      conv_lhs => rhs; rw [← map_id requests]
      exact map_inj_left
    simp only [Command.encoded, Command.produceBatches.injEq, hmap, Command.Encodable,
      ProduceBatchCommand.encoded_eq_iff]
  | _ => simp [Command.encoded, Command.Encodable]

/-- A produce request for the first partition, with one record. -/
def routedRequest (routingKey : String) : ProduceBatchCommand :=
  { topic := "orders"
    partitioning := { mode := .routingKeyHash, routingKey := routingKey }
    records := [{ timestampMS := some 1000, key := [1, 2], headers := [⟨"h", [3]⟩], payload := [4] }]
    idempotency := some ⟨7, 1, 5⟩ }

lemma routedRequest_inRange (routingKey : String) : (routedRequest routingKey).InRange where
  topic := by simp [GoString, routedRequest]
  records record hmem := by
    rw [mem_singleton.mp hmem]
    refine ⟨by simp, by simp, by simp, ?_, by simp, by simp, by simp, by simp⟩
    intro header hheader
    rw [mem_singleton.mp hheader]
    exact ⟨by simp [GoString], by decide, by simp⟩
  idempotency id hmem := by
    have hid : id = ⟨7, 1, 5⟩ := (Option.some.inj hmem).symm
    rw [hid]
    exact ⟨by simp, by simp, by simp⟩

/-- A JSON library that refuses every text. -/
def refusesAll (_ : Bytes) : Except Error Command := .error (E .codec "invalid JSON")

lemma refusesMagic_refusesAll : RefusesMagic refusesAll := fun _ _ _ _ => ⟨_, rfl⟩

theorem raftCommand_roundTrip_request : ∃ bytes,
    encodeBinaryRaftCommand (.produceBatches [routedRequest ""]) = some (.ok bytes) ∧
      Exact (decodeRaftCommand refusesAll) bytes (.produceBatches [routedRequest ""]) := by
  refine ⟨_, rfl, (raftCommand_roundTrip_iff refusesMagic_refusesAll ?_ rfl).mpr ?_⟩
  · intro req hmem
    obtain rfl := mem_singleton.mp hmem
    exact routedRequest_inRange ""
  · intro req hmem
    obtain rfl := mem_singleton.mp hmem
    exact ⟨rfl, fun text h => (by cases h), by simp [routedRequest]⟩

/-- The routing key that a request is sent with is gone once the command is decoded. -/
theorem raftCommand_loses_routingKey : ∃ bytes,
    encodeBinaryRaftCommand (.produceBatches [routedRequest "customer-1"]) = some (.ok bytes) ∧
      decodeRaftCommand refusesAll bytes = .ok (.produceBatches [routedRequest ""]) ∧
      ¬ Exact (decodeRaftCommand refusesAll) bytes (.produceBatches [routedRequest "customer-1"]) := by
  have hrange : (Command.produceBatches [routedRequest "customer-1"]).InRange := by
    intro req hmem
    obtain rfl := mem_singleton.mp hmem
    exact routedRequest_inRange _
  have hexact := exact_encodeBinaryRaftCommand refusesMagic_refusesAll hrange rfl
  refine ⟨_, rfl, hexact.back, ?_⟩
  intro h
  have hsame := Command.produceBatches.inj (Except.ok.inj (hexact.back.symm.trans h.back))
  have hkey := (ProduceBatchCommand.encoded_eq_iff _).mp (List.cons.inj hsame).1
  exact absurd hkey.routingKey (by decide)

end Ech0.Broker
