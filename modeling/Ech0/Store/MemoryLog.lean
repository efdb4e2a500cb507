/-
  The message log of the in-memory store (`MemoryStore`), and where it parts from the segment log.

  The two take the same calls. The segment log plans a batch as a whole and writes it if every
  record is accepted; the in-memory store appends the records of a batch one after the other and
  stops at the first that is refused, with those before it already in. Both look at the records in
  the same order and refuse for the same reasons, so they give the same results, and what they hold
  differs after a batch that was refused behind its first record. A read differs where the position
  behind it overflows, which makes the segment log panic, and where it comes to a record whose control
  type is not declared, which the frames of a segment file do not keep.
-/
import Ech0.Store.LogInvariant

set_option autoImplicit false

namespace Ech0.Store

open Ech0.Lib List

variable {append : RecordAppend}

/-! ## The store (`memory.go`, `memory_partition_offsets.go`) -/

/-- The part of `MemoryStore` that is a message log. -/
structure MemoryLog where
  topics : OrderedMap String TopicConfig := .empty
  topicNames : List String := []
  records : Map TopicPartition (List Record) := ∅
  nextOffsets : Map TopicPartition Nat := ∅

namespace MemoryLog

/-- `s.records.GetOrDefault(tp, nil)`. -/
def recordsAt (m : MemoryLog) (tp : TopicPartition) : List Record := (m.records[tp]?).getD []

/-- `s.nextOffsets.GetOrDefault(tp, nextOffsetFromRecords(existing))`. -/
def nextOffset (m : MemoryLog) (tp : TopicPartition) : Nat :=
  (m.nextOffsets[tp]?).getD (nextOffsetFromRecords (m.recordsAt tp))

/-- One round of the loop of `CreateTopic` over the partitions. -/
def ensurePartition (m : MemoryLog) (tp : TopicPartition) : MemoryLog :=
  { m with
    records := if m.records.contains tp then m.records else m.records.insert tp []
    nextOffsets := if m.nextOffsets.contains tp then m.nextOffsets else m.nextOffsets.insert tp 0 }

def createTopic (m : MemoryLog) (topic : TopicConfig) : Except Error MemoryLog :=
  if topic.name = "" then .error (E .invalidArgument "topic name is required")
  else if topic.partitions = 0 then
    .error (E .invalidArgument ("topic " ++ topic.name ++ " must have at least one partition"))
  else
    let topic := normalizeTopic topic
    if topic.name ∈ m.topicNames then
      .error (E .topicExists ("topic " ++ topic.name ++ " already exists"))
    else
      .ok (topic.partitionList.foldl ensurePartition
        { m with topicNames := topic.name :: m.topicNames, topics := m.topics.set topic.name topic })

/-- `validatePartitionLocked`, and the same two checks where a call makes them itself. -/
def topicForPartition (m : MemoryLog) (tp : TopicPartition) : Except Error TopicConfig :=
  checkPartition tp (m.topics.get? tp.topic)

/-- `AppendRecord`; the next offset is a `uint64`. -/
def appendRecord (m : MemoryLog) (nowMS : Nat) (tp : TopicPartition) (appendRecord : RecordAppend) :
    Except Error (Record × MemoryLog) := do
  let topic ← m.topicForPartition tp
  if appendRecord.payload.length > topic.maxMessageBytes then
    .error (payloadTooLarge appendRecord topic)
  else
    let offset := m.nextOffset tp
    let record ← recordFromAppend nowMS offset topic appendRecord
    .ok (record,
      { m with
        records := m.records.insert tp (m.recordsAt tp ++ [record])
        nextOffsets := m.nextOffsets.insert tp ((offset + 1) % 2 ^ 64) })

/-- The loop of `AppendRecordsBatch`, from position `index` on. -/
def appendRecordsBatchFrom (clock : Nat → Nat) (tp : TopicPartition) :
    MemoryLog → Nat → List RecordAppend → Except Error (List Record) × MemoryLog
  | m, _, [] => (.ok [], m)
  | m, index, record :: rest =>
    match m.appendRecord (clock index) tp record with
    | .error err => (.error err, m)
    | .ok (appended, m) =>
      match appendRecordsBatchFrom clock tp m (index + 1) rest with
      | (.error err, m) => (.error err, m)
      | (.ok later, m) => (.ok (appended :: later), m)

def appendRecordsBatch (m : MemoryLog) (clock : Nat → Nat) (tp : TopicPartition)
    (records : List RecordAppend) : Except Error (List Record) × MemoryLog :=
  appendRecordsBatchFrom clock tp m 0 records

def readFrom (m : MemoryLog) (tp : TopicPartition) (offset maxRecords : Nat) :
    Except Error (List Record) :=
  if maxRecords = 0 then .ok []
  else do
    let _ ← m.topicForPartition tp
    .ok (((sortedRecords (m.recordsAt tp)).filter fun record => ¬ record.offset < offset).take
      maxRecords)

def partitionOffsets (m : MemoryLog) (tp : TopicPartition) :
    Except Error StorxLogStore.PartitionOffsetState := do
  let _ ← m.topicForPartition tp
  let records := sortedRecords (m.recordsAt tp)
  .ok (StorxLogStore.partitionOffsetsFromRecordOffsets tp
    ((m.nextOffsets[tp]?).getD (nextOffsetFromRecords records)) (records.map Record.offset))

end MemoryLog

/-! ## Calls -/

inductive MessageCall where
  | createTopic (topic : TopicConfig)
  | appendRecord (tp : TopicPartition) (append : RecordAppend)
  | appendRecordsBatch (tp : TopicPartition) (appends : List RecordAppend)
  | readFrom (tp : TopicPartition) (offset maxRecords : Nat)
  | partitionOffsets (tp : TopicPartition)

/-- What a call returns. -/
inductive MessageResult where
  | topic (result : Except Error Unit)
  | record (result : Except Error Record)
  | records (result : Except Error (List Record))
  | offsets (result : Except Error StorxLogStore.PartitionOffsetState)
  | panicked
  deriving DecidableEq

/-- The call returned an error. -/
def MessageResult.Failed : MessageResult → Prop
  | topic result => result.toBool = false
  | record result => result.toBool = false
  | records result => result.toBool = false
  | offsets result => result.toBool = false
  | panicked => False

/-- A change that is made if there was no error. -/
def settle {α σ : Type} (before : σ) : Except Error (α × σ) → Except Error α × σ
  | .error err => (.error err, before)
  | .ok (value, after) => (.ok value, after)

/-- A call on the in-memory store; `clock` are the readings for its records. -/
def MemoryLog.call (clock : Nat → Nat) (m : MemoryLog) : MessageCall → MessageResult × MemoryLog
  | .createTopic topic =>
    let done := settle m ((m.createTopic topic).map fun after => ((), after))
    (.topic done.1, done.2)
  | .appendRecord tp append =>
    let done := settle m (m.appendRecord (clock 0) tp append)
    (.record done.1, done.2)
  | .appendRecordsBatch tp appends =>
    let done := m.appendRecordsBatch clock tp appends
    (.records done.1, done.2)
  | .readFrom tp offset maxRecords => (.records (m.readFrom tp offset maxRecords), m)
  | .partitionOffsets tp => (.offsets (m.partitionOffsets tp), m)

/-- The same call on the segment log. -/
def StorxLogStore.call (clock : Nat → Nat) (s : StorxLogStore) :
    MessageCall → MessageResult × StorxLogStore
  | .createTopic topic =>
    let done := settle s ((s.createTopic topic).map fun after => ((), after))
    (.topic done.1, done.2)
  | .appendRecord tp append =>
    let done := settle s (s.appendRecord clock tp append)
    (.record done.1, done.2)
  | .appendRecordsBatch tp appends =>
    let done := settle s (s.appendRecordsBatch clock tp appends)
    (.records done.1, done.2)
  | .readFrom tp offset maxRecords =>
    match s.readFrom tp offset maxRecords with
    | .error err => (.records (.error err), s)
    | .ok records =>
      -- what is read are the frames of the records
      if s.readPanics tp offset maxRecords then (.panicked, s)
      else (.records (.ok (records.map Record.stored)), s)
  | .partitionOffsets tp => (.offsets (s.partitionOffsets tp), s)

/-- The stores give the same results in a run of calls, and a call that fails leaves no record and
no next offset behind that was not there. The clocks of the two are those of call `n`. -/
def Agree (memoryClock logClock : Nat → Nat → Nat) :
    Nat → MemoryLog → StorxLogStore → List MessageCall → Prop
  | _, _, _, [] => True
  | n, m, s, call :: rest =>
    (m.call (memoryClock n) call).1 = (s.call (logClock n) call).1 ∧
      ((m.call (memoryClock n) call).1.Failed →
        (∀ tp, (m.call (memoryClock n) call).2.recordsAt tp = m.recordsAt tp ∧
          (m.call (memoryClock n) call).2.nextOffset tp = m.nextOffset tp) ∧
        ∀ tp, (s.call (logClock n) call).2.recordsAt tp = s.recordsAt tp ∧
          (s.call (logClock n) call).2.nextOffset tp = s.nextOffset tp) ∧
      Agree memoryClock logClock (n + 1) (m.call (memoryClock n) call).2
        (s.call (logClock n) call).2 rest

/-- What both stores refuse a record for. -/
def RefusedBy (topic : TopicConfig) (append : RecordAppend) : Prop :=
  topic.maxMessageBytes < append.payload.length ∨
    ∃ err, appendRecordExpiresAt (append.timestampMS.getD 0) topic append = .error err

/-- A batch with a record that is refused has one at its front, and a read of a partition does not
overflow and comes to records with declared control types only. -/
def MessageCall.Alike (s : StorxLogStore) : MessageCall → Prop
  | .appendRecordsBatch tp (first :: rest) => ∀ topic, s.loadTopicForPartition tp = .ok topic →
    (∃ append ∈ rest, RefusedBy topic append) → RefusedBy topic first
  | .readFrom tp offset maxRecords => ∀ topic, s.loadTopicForPartition tp = .ok topic →
    ¬ s.readPanics tp offset maxRecords ∧
      ∀ record ∈ s.recordPointersFrom tp offset maxRecords, ∀ metadata ∈ record.transaction,
        metadata.controlType.Declared
  | _ => True

namespace MessageCall

/-- The records of a call. -/
def appends : MessageCall → List RecordAppend
  | .appendRecord _ append => [append]
  | .appendRecordsBatch _ appends => appends
  | _ => []

/-- The caller gives the timestamps. -/
def Timestamped (call : MessageCall) : Prop := ∀ append ∈ call.appends, append.timestampMS.isSome

end MessageCall

/-! ## One record -/

/-- What both stores do with a record: they check its payload, and then its expiry. -/
def acceptAppend (nowMS offset : Nat) (topic : TopicConfig) (append : RecordAppend) :
    Except Error Record :=
  if append.payload.length > topic.maxMessageBytes then .error (payloadTooLarge append topic)
  else recordFromAppend nowMS offset topic append

open StorxLogStore

/-- A record with a timestamp does not depend on the clock. -/
lemma acceptAppend_clock (h : append.timestampMS.isSome) (nowMS nowMS' offset : Nat)
    (topic : TopicConfig) :
    acceptAppend nowMS offset topic append = acceptAppend nowMS' offset topic append := by
  obtain ⟨timestamp, htimestamp⟩ := Option.isSome_iff_exists.mp h
  unfold acceptAppend recordFromAppend
  rw [htimestamp]
  rfl

lemma acceptAppend_error_iff (h : append.timestampMS.isSome) (nowMS offset : Nat)
    (topic : TopicConfig) :
    (∃ err, acceptAppend nowMS offset topic append = .error err) ↔ RefusedBy topic append := by
  obtain ⟨timestamp, htimestamp⟩ := Option.isSome_iff_exists.mp h
  unfold acceptAppend RefusedBy recordFromAppend
  rw [htimestamp, Option.getD_some, Option.getD_some]
  split
  · next hlong => simp [hlong]
  · next hfits =>
    simp only [bind, Except.bind]
    cases appendRecordExpiresAt timestamp topic append with
    | error err => simp
    | ok expiresAt => simpa [pure, Except.pure] using Nat.not_lt.mp hfits

/-- What an append adds to the in-memory store. -/
structure MemoryLog.Grew (m m' : MemoryLog) (tp : TopicPartition) (taken : List Record) : Prop where
  topics : m'.topics = m.topics
  topicNames : m'.topicNames = m.topicNames
  records : ∀ a, m'.recordsAt a = if tp = a then m.recordsAt a ++ taken else m.recordsAt a
  next : ∀ a, m'.nextOffset a
    = if tp = a then m.nextOffset a + taken.length else m.nextOffset a

lemma MemoryLog.grew_nil (m : MemoryLog) (tp : TopicPartition) : Grew m m tp [] where
  topics := rfl
  topicNames := rfl
  records := by simp
  next := by simp

variable {tp : TopicPartition}

lemma MemoryLog.Grew.trans {m1 m2 m3 : MemoryLog} {first later : List Record}
    (h1 : Grew m1 m2 tp first) (h2 : Grew m2 m3 tp later) : Grew m1 m3 tp (first ++ later) where
  topics := h2.topics.trans h1.topics
  topicNames := h2.topicNames.trans h1.topicNames
  records a := by
    rw [h2.records, h1.records]
    split
    · rw [append_assoc]
    · rfl
  next a := by
    rw [h2.next, h1.next]
    split
    · rw [length_append, Nat.add_assoc]
    · rfl

lemma MemoryLog.Grew.topicForPartition {m m' : MemoryLog} {taken : List Record}
    (h : Grew m m' tp taken) (a : TopicPartition) :
    m'.topicForPartition a = m.topicForPartition a := by
  unfold MemoryLog.topicForPartition
  rw [h.topics]

variable {topic : TopicConfig}

/-- An append of one record, if its topic is there. -/
lemma MemoryLog.appendRecord_cases {m : MemoryLog} (htopic : m.topicForPartition tp = .ok topic)
    (nowMS : Nat) (append : RecordAppend) (hroom : m.nextOffset tp + 1 < 2 ^ 64) :
    (∃ err, acceptAppend nowMS (m.nextOffset tp) topic append = .error err ∧
        m.appendRecord nowMS tp append = .error err) ∨
      ∃ record m', acceptAppend nowMS (m.nextOffset tp) topic append = .ok record ∧
        m.appendRecord nowMS tp append = .ok (record, m') ∧ Grew m m' tp [record] := by
  have happend : m.appendRecord nowMS tp append
      = (acceptAppend nowMS (m.nextOffset tp) topic append).map fun record =>
        (record,
          { m with
            records := m.records.insert tp (m.recordsAt tp ++ [record])
            nextOffsets := m.nextOffsets.insert tp ((m.nextOffset tp + 1) % 2 ^ 64) }) := by
    unfold MemoryLog.appendRecord acceptAppend
    rw [htopic]
    simp only [bind, Except.bind]
    split
    · rfl
    · cases recordFromAppend nowMS (m.nextOffset tp) topic append with
      | error err => rfl
      | ok record => rfl
  rw [happend]
  cases acceptAppend nowMS (m.nextOffset tp) topic append with
  | error err => exact .inl ⟨err, rfl, rfl⟩
  | ok record =>
    refine .inr ⟨record, _, rfl, rfl, rfl, rfl, fun a => ?_, fun a => ?_⟩
    · simp only [recordsAt, Map.get_insert]
      split
      · next heq => rw [heq, Option.getD_some]
      · rfl
    · simp only [nextOffset, recordsAt, Map.get_insert]
      split
      · next heq =>
        rw [heq] at hroom ⊢
        rw [Option.getD_some]
        exact Nat.mod_eq_of_lt hroom
      · rfl

/-- A step of the plan of the segment log. -/
lemma prepareAppendRecords_cons (clock : Nat → Nat) (topic : TopicConfig) {base index : Nat}
    (append : RecordAppend) (rest : List RecordAppend) (hroom : base + index < 2 ^ 64) :
    prepareAppendRecords clock topic base index (append :: rest)
      = (do
          let record ← acceptAppend (clock index) (base + index) topic append
          let records ← prepareAppendRecords clock topic base (index + 1) rest
          .ok (record :: records)) := by
  have hoffset : offsetForBatchRecord base index = .ok (base + index) := by
    rw [offsetForBatchRecord, if_neg (by unfold maxUint64; omega)]
  rw [prepareAppendRecords, acceptAppend, hoffset]
  split
  · rfl
  · rfl

/-! ## A batch -/

/-- **The loop of the in-memory store against the plan of the segment log**: the results are the
same, and what the loop has appended is the whole batch, or the records before the one that was
refused. -/
theorem MemoryLog.appendRecordsBatchFrom_spec (memoryClock logClock : Nat → Nat) {base : Nat}
    (appends : List RecordAppend) (htimestamps : ∀ append ∈ appends, append.timestampMS.isSome)
    {m : MemoryLog} {index : Nat} (htopic : m.topicForPartition tp = .ok topic)
    (hnext : m.nextOffset tp = base + index) (hroom : base + index + appends.length < 2 ^ 64) :
    ∃ taken, Grew m (appendRecordsBatchFrom memoryClock tp m index appends).2 tp taken ∧
      (appendRecordsBatchFrom memoryClock tp m index appends).1
        = prepareAppendRecords logClock topic base index appends ∧
      match prepareAppendRecords logClock topic base index appends with
      | .ok stored => taken = stored ∧ ∀ append ∈ appends, ¬ RefusedBy topic append
      | .error _ => (∃ append ∈ appends, RefusedBy topic append) ∧
          (taken = [] ↔ ∃ append ∈ appends.head?, RefusedBy topic append) := by
  induction appends generalizing m index with
  | nil => exact ⟨[], m.grew_nil tp, rfl, rfl, fun _ hmem => absurd hmem not_mem_nil⟩
  | cons append rest ih =>
    rw [length_cons] at hroom
    have htimestamp := htimestamps append mem_cons_self
    rw [prepareAppendRecords_cons logClock topic append rest (by omega), appendRecordsBatchFrom,
      acceptAppend_clock htimestamp (logClock index) (memoryClock index), ← hnext]
    rcases appendRecord_cases htopic (memoryClock index) append (by omega) with
      ⟨err, haccept, happend⟩ | ⟨record, m1, haccept, happend, hgrew⟩
    · have hrefused := (acceptAppend_error_iff htimestamp _ _ _).mp ⟨err, haccept⟩
      rw [haccept, happend]
      exact ⟨[], m.grew_nil tp, rfl, ⟨append, mem_cons_self, hrefused⟩,
        fun _ => ⟨append, rfl, hrefused⟩, fun _ => rfl⟩
    · have haccepted : ¬ RefusedBy topic append := by
        intro hrefused
        obtain ⟨err, herr⟩ := (acceptAppend_error_iff htimestamp _ _ _).mpr hrefused
        rw [haccept] at herr
        cases herr
      have hnext1 : m1.nextOffset tp = base + (index + 1) := by
        rw [hgrew.next tp, if_pos rfl, hnext]
        rfl
      obtain ⟨taken, hlater, hresult, hprepare⟩ := ih
        (fun a ha => htimestamps a (mem_cons_of_mem append ha))
        (hgrew.topicForPartition tp ▸ htopic) hnext1 (by omega)
      rw [haccept, happend]
      dsimp only [bind, Except.bind]
      cases hloop : appendRecordsBatchFrom memoryClock tp m1 (index + 1) rest with
      | mk result m2 =>
        rw [hloop] at hlater hresult
        dsimp only at hlater hresult
        rw [← hresult] at hprepare ⊢
        refine ⟨record :: taken, ?_, ?_, ?_⟩
        · cases result with
          | error err => exact hgrew.trans hlater
          | ok later => exact hgrew.trans hlater
        · cases result with
          | error err => rfl
          | ok later => rfl
        · cases result with
          | ok later =>
            exact ⟨congrArg (record :: ·) hprepare.1, forall_mem_cons.mpr ⟨haccepted, hprepare.2⟩⟩
          | error err =>
            obtain ⟨⟨a, ha, hrefused⟩, -⟩ := hprepare
            refine ⟨⟨a, mem_cons_of_mem append ha, hrefused⟩, fun h => ?_, ?_⟩
            · cases h
            · rintro ⟨first, hfirst, hrefused⟩
              cases hfirst
              exact absurd hrefused haccepted

/-! ## The stores side by side -/

/-- The two stores hold the same. -/
structure Mirrors (m : MemoryLog) (s : StorxLogStore) : Prop where
  topics : ∀ name, m.topics.get? name = s.topics[name]?
  names : ∀ name, name ∈ m.topicNames ↔ s.topics.contains name = true
  records : ∀ tp, m.recordsAt tp = s.recordsAt tp
  next : ∀ tp, m.nextOffset tp = s.nextOffset tp
  inv : LogInv s

lemma mirrors_empty : Mirrors {} {} where
  topics name := by simp
  names name := by simp
  records tp := by simp [MemoryLog.recordsAt, StorxLogStore.recordsAt]
  next tp := by simp [MemoryLog.nextOffset, MemoryLog.recordsAt, StorxLogStore.nextOffset,
    nextOffsetFromRecords]
  inv := LogInv.empty

namespace Mirrors

variable {m m' : MemoryLog} {s s' : StorxLogStore}

lemma topicForPartition (h : Mirrors m s) (tp : TopicPartition) :
    m.topicForPartition tp = s.loadTopicForPartition tp := by
  rw [MemoryLog.topicForPartition, h.topics, loadTopicForPartition]

/-- The same records were appended to both. -/
lemma grew (h : Mirrors m s) {stored : List Record} (hm : MemoryLog.Grew m m' tp stored)
    (hs : Appended s s' tp stored) :
    Mirrors m' s' where
  topics name := by
    rw [hm.topics, hs.topics]
    exact h.topics name
  names name := by
    rw [hm.topicNames, hs.topics]
    exact h.names name
  records a := by
    rw [hm.records, hs.records, h.records]
  next a := by
    rw [hm.next, hs.next, h.next]
  inv := hs.inv

end Mirrors

lemma OffsetOrdered.filter_eq_dropWhile {records : List Record} (h : OffsetOrdered records)
    (offset : Nat) : (records.filter fun record => ¬ record.offset < offset)
      = records.dropWhile fun record => record.offset < offset := by
  simp only [h.dropWhile_eq_filter, Nat.not_lt]

namespace Mirrors

variable {m m' : MemoryLog} {s s' : StorxLogStore}

lemma readFrom (h : Mirrors m s) (tp : TopicPartition) (offset maxRecords : Nat) :
    m.readFrom tp offset maxRecords = s.readFrom tp offset maxRecords := by
  unfold MemoryLog.readFrom StorxLogStore.readFrom recordPointersFrom
  have hordered := h.inv.ordered tp
  rw [h.topicForPartition, h.records, hordered.sortedRecords_eq, hordered.filter_eq_dropWhile]

/-- A partition without a next offset has no records. -/
lemma next_getD (h : LogInv s) (tp : TopicPartition) :
    (s.nextOffsets[tp]?).getD (nextOffsetFromRecords (s.recordsAt tp)) = s.nextOffset tp := by
  unfold StorxLogStore.nextOffset
  cases hfound : s.nextOffsets[tp]? with
  | some next => rfl
  | none =>
    have hnone : s.recordsAt tp = [] := by
      refine eq_nil_iff_forall_not_mem.mpr fun r hr => ?_
      have hbelow := h.below tp r hr
      rw [StorxLogStore.nextOffset, hfound] at hbelow
      exact Nat.not_lt_zero _ hbelow
    rw [Option.getD_none, Option.getD_none, hnone]
    rfl

lemma partitionOffsets (h : Mirrors m s) (tp : TopicPartition) :
    m.partitionOffsets tp = s.partitionOffsets tp := by
  have hnext := h.next tp
  unfold MemoryLog.nextOffset at hnext
  unfold MemoryLog.partitionOffsets StorxLogStore.partitionOffsets
  rw [h.records] at hnext ⊢
  dsimp only
  rw [h.topicForPartition, (h.inv.ordered tp).sortedRecords_eq, hnext, next_getD h.inv]

end Mirrors

lemma MemoryLog.ensurePartitions_spec (tps : List TopicPartition) {m : MemoryLog}
    (hempty : ∀ tp ∈ tps, m.nextOffset tp = 0) : (tps.foldl ensurePartition m).topics = m.topics ∧
      (tps.foldl ensurePartition m).topicNames = m.topicNames ∧
      ∀ a, (tps.foldl ensurePartition m).recordsAt a = m.recordsAt a ∧
        (tps.foldl ensurePartition m).nextOffset a = m.nextOffset a := by
  induction tps generalizing m with
  | nil => exact ⟨rfl, rfl, fun _ => ⟨rfl, rfl⟩⟩
  | cons tp rest ih =>
    have hrecords : ∀ a, (m.ensurePartition tp).recordsAt a = m.recordsAt a := by
      intro a
      unfold ensurePartition recordsAt
      rw [Map.get_ite_insert]
      split
      · rfl
      · rfl
    have hnext : ∀ a, (m.ensurePartition tp).nextOffset a = m.nextOffset a := by
      intro a
      have hsame := hrecords a
      unfold nextOffset
      rw [hsame]
      unfold ensurePartition
      dsimp only
      split
      · rfl
      · rw [Map.get_insert]
        split
        · next heq =>
          rw [Option.getD_some, ← heq]
          exact (hempty tp mem_cons_self).symm
        · rfl
    obtain ⟨htopics, hnames, hsame⟩ := ih (m := m.ensurePartition tp) fun a ha =>
      (hnext a).trans (hempty a (mem_cons_of_mem tp ha))
    exact ⟨htopics, hnames, fun a => ⟨(hsame a).1.trans (hrecords a), (hsame a).2.trans (hnext a)⟩⟩

/-- What a call may do to the two stores: nothing, or the same. -/
structure Step (m : MemoryLog) (s : StorxLogStore) (memory : MessageResult × MemoryLog)
    (log : MessageResult × StorxLogStore) (count : Nat) : Prop where
  result : memory.1 = log.1
  mirrors : Mirrors memory.2 log.2
  failed : memory.1.Failed →
    (∀ tp, memory.2.recordsAt tp = m.recordsAt tp ∧ memory.2.nextOffset tp = m.nextOffset tp) ∧
      ∀ tp, log.2.recordsAt tp = s.recordsAt tp ∧ log.2.nextOffset tp = s.nextOffset tp
  next : ∀ tp, log.2.nextOffset tp ≤ s.nextOffset tp + count

namespace Mirrors

variable {m m' : MemoryLog} {s s' : StorxLogStore}

/-- Both stores have taken the same records, and none if the call failed. -/
lemma appended (h : Mirrors m s) {result result' : MessageResult} (heq : result = result')
    {stored : List Record} (hm : MemoryLog.Grew m m' tp stored)
    (hs : Appended s s' tp stored) (hfailed : result.Failed → stored = [])
    {count : Nat} (hcount : stored.length ≤ count) : Step m s (result, m') (result', s') count where
  result := heq
  mirrors := h.grew hm hs
  failed hresult := by
    obtain rfl := hfailed hresult
    refine ⟨fun a => ⟨(hm.records a).trans ?_, (hm.next a).trans ?_⟩,
      fun a => ⟨(hs.records a).trans ?_, (hs.next a).trans ?_⟩⟩
    all_goals simp
  next a := by
    dsimp only
    rw [hs.next a]
    split
    · exact Nat.add_le_add_left hcount _
    · exact Nat.le_add_right _ _

/-- A call that changes nothing. -/
lemma unchanged (h : Mirrors m s) {result result' : MessageResult} (heq : result = result')
    (count : Nat) : Step m s (result, m) (result', s) count :=
  h.appended heq (m.grew_nil ⟨"", 0⟩) (appended_nil h.inv ⟨"", 0⟩) (fun _ => rfl)
    (Nat.zero_le count)

lemma createTopic_error (h : Mirrors m s) {err : Error}
    (hcreate : s.createTopic topic = .error err) : m.createTopic topic = .error err := by
  unfold StorxLogStore.createTopic validateLogTopicForCreate at hcreate
  unfold MemoryLog.createTopic
  split at hcreate
  · next hname =>
    rw [if_pos hname]
    cases hcreate
    rfl
  · next hname =>
    rw [if_neg hname]
    split at hcreate
    · next hparts =>
      rw [if_pos hparts]
      cases hcreate
      rfl
    · next hparts =>
      rw [if_neg hparts]
      simp only [bind, Except.bind] at hcreate
      split at hcreate
      · next hexists =>
        dsimp only
        rw [if_pos ((h.names _).mpr hexists)]
        cases hcreate
        rfl
      · cases hcreate

lemma createTopic_ok (h : Mirrors m s) (hcreate : s.createTopic topic = .ok s') :
    ∃ m', m.createTopic topic = .ok m' ∧ Mirrors m' s' := by
  obtain ⟨hregistered, hnone, -⟩ := StorxLogStore.createTopic_ok hcreate
  have hfresh : topic.name ∉ m.topicNames := by
    rw [h.names, (Map.contains_eq_false_iff _ _).mpr hnone]
    exact Bool.false_ne_true
  have hparts : topic.partitions ≠ 0 := by
    intro hzero
    unfold StorxLogStore.createTopic validateLogTopicForCreate at hcreate
    rw [if_neg hregistered.name_ne, if_pos hzero] at hcreate
    cases hcreate
  have hempty : ∀ tp ∈ (normalizeTopic topic).partitionList, m.nextOffset tp = 0 := by
    intro tp hmem
    rw [h.next, StorxLogStore.nextOffset, (createTopic_fresh h.inv hcreate hmem).2]
    rfl
  let registered : MemoryLog :=
    { m with topicNames := topic.name :: m.topicNames
             topics := m.topics.set topic.name (normalizeTopic topic) }
  have hregisteredEmpty : ∀ tp ∈ (normalizeTopic topic).partitionList,
      registered.nextOffset tp = 0 := hempty
  obtain ⟨htopics, hnames, hsame⟩ := MemoryLog.ensurePartitions_spec _ hregisteredEmpty
  refine ⟨(normalizeTopic topic).partitionList.foldl MemoryLog.ensurePartition registered, ?_,
    fun name => ?_, fun name => ?_, fun tp => ?_, fun tp => ?_, h.inv.createTopic hcreate⟩
  · rw [MemoryLog.createTopic, if_neg hregistered.name_ne, if_neg hparts]
    exact if_neg hfresh
  · rw [htopics, topics_createTopic hcreate, ← h.topics]
    exact OrderedMap.get_set ..
  · rw [hnames, Map.contains_iff, topics_createTopic hcreate]
    change name ∈ topic.name :: m.topicNames ↔ _
    rw [mem_cons, h.names, Map.contains_iff]
    by_cases hname : topic.name = name
    · simp [hname]
    · simp [hname, Ne.symm hname]
  · rw [(hsame tp).1, recordsAt_createTopic h.inv hcreate tp]
    exact h.records tp
  · rw [(hsame tp).2, nextOffset_createTopic h.inv hcreate tp]
    exact h.next tp

lemma createTopic (h : Mirrors m s) (memoryClock logClock : Nat → Nat) (topic : TopicConfig) :
    Step m s (m.call memoryClock (.createTopic topic)) (s.call logClock (.createTopic topic)) 0 := by
  rw [MemoryLog.call, StorxLogStore.call]
  cases hcreate : s.createTopic topic with
  | error err =>
    rw [h.createTopic_error hcreate]
    exact h.unchanged rfl 0
  | ok s' =>
    obtain ⟨m', hmemory, hmirrors⟩ := h.createTopic_ok hcreate
    rw [hmemory]
    exact ⟨rfl, hmirrors, (fun hfailed => nomatch hfailed),
      fun tp => Nat.le_of_eq (nextOffset_createTopic h.inv hcreate tp)⟩

/-- What a batch does in the segment log. -/
lemma appendRecordsBatch_log (hinv : LogInv s) (clock : Nat → Nat)
    (hload : s.loadTopicForPartition tp = .ok topic) {appends : List RecordAppend}
    (hne : appends ≠ []) :
    (∃ err, prepareAppendRecords clock topic (s.nextOffset tp) 0 appends = .error err ∧
        s.appendRecordsBatch clock tp appends = .error err) ∨
      ∃ stored s', prepareAppendRecords clock topic (s.nextOffset tp) 0 appends
          = .ok stored ∧ s.appendRecordsBatch clock tp appends = .ok (stored, s') ∧
        Appended s s' tp stored ∧ stored.length = appends.length := by
  cases hprepare : prepareAppendRecords clock topic (s.nextOffset tp) 0 appends with
  | error err =>
    refine .inl ⟨err, rfl, ?_⟩
    rw [StorxLogStore.appendRecordsBatch, if_neg hne, hload]
    simp only [bind, Except.bind, hprepare]
  | ok stored =>
    have hrun : s.appendRecordsBatch clock tp appends
        = .ok (stored, s.recordAppendedPointers tp stored) := by
      rw [StorxLogStore.appendRecordsBatch, if_neg hne, hload]
      simp only [bind, Except.bind, hprepare]
    obtain ⟨happended, hlength⟩ := appendRecordsBatch_spec hinv hrun
    exact .inr ⟨stored, _, rfl, hrun, happended, hlength⟩

/-- **A batch**: the results are the same. The stores stay the same if a batch that is refused is
refused at its first record; otherwise the in-memory store keeps the records before the one that
was refused. -/
theorem appendRecordsBatch (h : Mirrors m s) (memoryClock logClock : Nat → Nat)
    (tp : TopicPartition) {appends : List RecordAppend}
    (htimestamps : ∀ append ∈ appends, append.timestampMS.isSome)
    (hroom : s.nextOffset tp + appends.length < 2 ^ 64) :
    ((MessageCall.appendRecordsBatch tp appends).Alike s ∧
        Step m s (m.call memoryClock (.appendRecordsBatch tp appends))
          (s.call logClock (.appendRecordsBatch tp appends)) appends.length) ∨
      (¬ (MessageCall.appendRecordsBatch tp appends).Alike s ∧
        (m.call memoryClock (.appendRecordsBatch tp appends)).1.Failed ∧
        (m.call memoryClock (.appendRecordsBatch tp appends)).2.recordsAt tp ≠ m.recordsAt tp) := by
  rw [MemoryLog.call, StorxLogStore.call]
  cases appends with
  | nil => exact .inl ⟨trivial, h.unchanged rfl 0⟩
  | cons first rest =>
    cases hload : s.loadTopicForPartition tp with
    | error err =>
      have hlog : s.appendRecordsBatch logClock tp (first :: rest) = .error err := by
        rw [StorxLogStore.appendRecordsBatch, if_neg (cons_ne_nil _ _), hload]
        rfl
      have hmemory : m.appendRecordsBatch memoryClock tp (first :: rest) = (.error err, m) := by
        rw [MemoryLog.appendRecordsBatch, MemoryLog.appendRecordsBatchFrom, MemoryLog.appendRecord,
          h.topicForPartition, hload]
        rfl
      rw [hlog, hmemory]
      refine .inl ⟨fun topic hfound => ?_, h.unchanged rfl _⟩
      rw [hload] at hfound
      cases hfound
    | ok topic =>
      have htopic := (h.topicForPartition tp).trans hload
      obtain ⟨taken, hgrew, hresult, htaken⟩ := MemoryLog.appendRecordsBatchFrom_spec memoryClock
        logClock (first :: rest) htimestamps htopic ((h.next tp).trans (Nat.add_zero _).symm) hroom
      have hbatch : m.appendRecordsBatch memoryClock tp (first :: rest)
          = MemoryLog.appendRecordsBatchFrom memoryClock tp m 0 (first :: rest) := rfl
      rw [hbatch]
      rcases appendRecordsBatch_log h.inv logClock hload (cons_ne_nil first rest) with
        ⟨err, hprepare, hlog⟩ | ⟨stored, s', hprepare, hlog, happended, hlength⟩
      · rw [hprepare] at hresult htaken
        obtain ⟨⟨refused, hmem, hrefused⟩, hnone⟩ := htaken
        have hhead : (∃ append ∈ (first :: rest).head?, RefusedBy topic append) ↔
            RefusedBy topic first := by simp
        rw [hhead] at hnone
        rw [hlog, hresult]
        by_cases hfirst : RefusedBy topic first
        · obtain rfl := hnone.mpr hfirst
          refine .inl ⟨fun found hfound _ => ?_, ?_⟩
          · rw [hload] at hfound
            cases hfound
            exact hfirst
          · exact h.appended rfl hgrew (appended_nil h.inv tp) (fun _ => rfl)
              (Nat.zero_le _)
        · refine .inr ⟨fun honce => hfirst (honce topic hload ⟨refused, ?_, hrefused⟩), rfl, ?_⟩
          · rcases mem_cons.mp hmem with rfl | hrest
            · exact absurd hrefused hfirst
            · exact hrest
          · dsimp only
            rw [hgrew.records tp, if_pos rfl]
            intro heq
            exact hfirst (hnone.mp (self_eq_append_right.mp heq.symm))
      · rw [hprepare] at hresult htaken
        obtain ⟨rfl, haccepted⟩ := htaken
        rw [hlog, hresult]
        refine .inl ⟨?_, ?_⟩
        · rintro found hfound ⟨append, hmem, hrefused⟩
          rw [hload] at hfound
          cases hfound
          exact absurd hrefused (haccepted append (mem_cons_of_mem first hmem))
        · exact h.appended rfl hgrew happended (fun hfailed => by cases hfailed) (Nat.le_of_eq hlength)

/-- An append of one record is a batch of one, which is refused at once if at all. -/
lemma appendRecord (h : Mirrors m s) (memoryClock logClock : Nat → Nat) (tp : TopicPartition)
    (htimestamp : append.timestampMS.isSome) (hroom : s.nextOffset tp + 1 < 2 ^ 64) :
    Step m s (m.call memoryClock (.appendRecord tp append))
      (s.call logClock (.appendRecord tp append)) 1 := by
  have honce : (MessageCall.appendRecordsBatch tp [append]).Alike s :=
    fun _ _ ⟨_, hmem, _⟩ => absurd hmem not_mem_nil
  have hstep := ((h.appendRecordsBatch memoryClock logClock tp
    (forall_mem_singleton.mpr htimestamp) hroom).resolve_right fun hnot => hnot.1 honce).2
  rw [MemoryLog.call, StorxLogStore.call, MemoryLog.appendRecordsBatch,
    MemoryLog.appendRecordsBatchFrom] at hstep
  rw [MemoryLog.call, StorxLogStore.call, StorxLogStore.appendRecord]
  cases hmemory : m.appendRecord (memoryClock 0) tp append with
  | error err =>
    rw [hmemory] at hstep
    cases hlog : s.appendRecordsBatch logClock tp [append] with
    | error err' =>
      rw [hlog] at hstep
      cases hstep.result
      exact h.unchanged rfl 1
    | ok appended =>
      rw [hlog] at hstep
      cases hstep.result
  | ok appended =>
    rw [hmemory] at hstep
    cases hlog : s.appendRecordsBatch logClock tp [append] with
    | error err =>
      rw [hlog] at hstep
      cases hstep.result
    | ok logged =>
      rw [hlog] at hstep
      obtain ⟨stored, s'⟩ := logged
      cases hstep.result
      exact ⟨rfl, hstep.mirrors, nofun, hstep.next⟩

/-- A read: of a partition that is there, the results are the same exactly if they come back. -/
lemma readFrom_call (h : Mirrors m s) (memoryClock logClock : Nat → Nat) (tp : TopicPartition)
    (offset maxRecords : Nat) : ((MessageCall.readFrom tp offset maxRecords).Alike s ∧
        Step m s (m.call memoryClock (.readFrom tp offset maxRecords))
          (s.call logClock (.readFrom tp offset maxRecords)) 0) ∨
      (¬ (MessageCall.readFrom tp offset maxRecords).Alike s ∧
        (m.call memoryClock (.readFrom tp offset maxRecords)).1
          ≠ (s.call logClock (.readFrom tp offset maxRecords)).1) := by
  rw [MemoryLog.call, StorxLogStore.call, h.readFrom]
  unfold StorxLogStore.readFrom MessageCall.Alike
  by_cases hzero : maxRecords = 0
  · subst hzero
    refine .inl ⟨fun topic _ => ⟨fun hpanics => absurd hpanics.1 (Nat.lt_irrefl 0), ?_⟩, ?_⟩
    · simp [recordPointersFrom]
    · simpa [readPanics] using h.unchanged rfl 0
  · simp only [if_neg hzero]
    cases hload : s.loadTopicForPartition tp with
    | error err => exact .inl ⟨fun topic hfound => (by cases hfound), h.unchanged rfl 0⟩
    | ok topic =>
      simp only [bind, Except.bind, Except.ok.injEq, forall_eq', ← Record.stored_eq_iff,
        ← map_eq_self_iff]
      by_cases hpanics : s.readPanics tp offset maxRecords
      · exact .inr ⟨fun halike => halike.1 hpanics, by simp [hpanics]⟩
      · simp only [if_neg hpanics]
        by_cases hkept : (s.recordPointersFrom tp offset maxRecords).map Record.stored
            = s.recordPointersFrom tp offset maxRecords
        · exact .inl ⟨⟨hpanics, hkept⟩, h.unchanged (by rw [hkept]) 0⟩
        · exact .inr ⟨fun halike => hkept halike.2, by simpa using Ne.symm hkept⟩

/-- **A step of both stores.** -/
theorem call (h : Mirrors m s) (memoryClock logClock : Nat → Nat) {call : MessageCall}
    (htimestamps : call.Timestamped)
    (hroom : ∀ tp, s.nextOffset tp + call.appends.length < 2 ^ 64) : (call.Alike s ∧
        Step m s (m.call memoryClock call) (s.call logClock call) call.appends.length) ∨
      (¬ call.Alike s ∧ ((m.call memoryClock call).1 = (s.call logClock call).1 →
        (m.call memoryClock call).1.Failed ∧
          ∃ tp, (m.call memoryClock call).2.recordsAt tp ≠ m.recordsAt tp)) := by
  cases call with
  | createTopic topic => exact .inl ⟨trivial, h.createTopic memoryClock logClock topic⟩
  | appendRecord tp append =>
    exact .inl ⟨trivial, h.appendRecord memoryClock logClock tp
      (htimestamps append mem_cons_self) (hroom tp)⟩
  | appendRecordsBatch tp appends =>
    rcases h.appendRecordsBatch memoryClock logClock tp htimestamps (hroom tp) with hstep | hdiffer
    · exact .inl hstep
    · exact .inr ⟨hdiffer.1, fun _ => ⟨hdiffer.2.1, tp, hdiffer.2.2⟩⟩
  | readFrom tp offset maxRecords =>
    rcases h.readFrom_call memoryClock logClock tp offset maxRecords with hstep | ⟨hnot, hne⟩
    · exact .inl hstep
    · exact .inr ⟨hnot, fun heq => absurd heq hne⟩
  | partitionOffsets tp =>
    exact .inl ⟨trivial, h.unchanged (congrArg _ (h.partitionOffsets tp)) 0⟩

end Mirrors

/-! ## Agreement of runs -/

/-- A record of so many bytes, at time 1. -/
def stampedAppend (length : Nat) : RecordAppend :=
  { timestampMS := some 1, payload := List.replicate length 0 }

end Ech0.Store
