/-
  Publishing in a transaction, exactly once.

  The batches of a transaction tile its sequence numbers: each starts where the one before it ends.
  So a publish that does not come next starts in a batch that is there already, and is either that
  batch once more or refused. The records are appended before the transaction gets the batch, and
  two checks stand in between, on the last offset and on the next sequence number: a publish that
  fails there has left its records in the log and can be sent again.
-/
import Ech0.Broker.TransactionRuns

set_option autoImplicit false

namespace Ech0.Broker

open Ech0.Lib Ech0.Store StorxLogStore Prog List

variable {trace : List Call} {entries : List (TopicPartition × Record)} (cfg : Config)

/-! ## Tilings -/

/-- The batches cover the sequence numbers from `start` on up to `stop`, one after the other. -/
def Tiles : Nat → List TransactionPublishedBatch → Nat → Prop
  | start, [], stop => start = stop
  | start, batch :: rest, stop =>
    batch.baseSequence = start ∧ 0 < batch.recordCount ∧ Tiles (start + batch.recordCount) rest stop

/-- The number of records in the batches. -/
def coverage (batches : List TransactionPublishedBatch) : Nat :=
  (batches.map TransactionPublishedBatch.recordCount).sum

@[simp] lemma coverage_concat (batches : List TransactionPublishedBatch)
    (batch : TransactionPublishedBatch) :
    coverage (batches ++ [batch]) = coverage batches + batch.recordCount := by
  simp [coverage]

variable {batches : List TransactionPublishedBatch} {batch : TransactionPublishedBatch}

lemma Tiles.concat {start stop : Nat} (h : Tiles start batches stop)
    (hbase : batch.baseSequence = stop) (hcount : 0 < batch.recordCount) :
    Tiles start (batches ++ [batch]) (stop + batch.recordCount) := by
  induction batches generalizing start with
  | nil =>
    have hstart : start = stop := h
    exact ⟨hbase.trans hstart.symm, hcount, by rw [hstart]; exact rfl⟩
  | cons first rest ih => exact ⟨h.1, h.2.1, ih h.2.2⟩

lemma Tiles.bounds {start stop : Nat} (h : Tiles start batches stop) :
    start ≤ stop ∧ ∀ batch ∈ batches, start ≤ batch.baseSequence ∧ 0 < batch.recordCount ∧
      batch.baseSequence + batch.recordCount ≤ stop := by
  induction batches generalizing start with
  | nil => exact ⟨Nat.le_of_eq h, fun batch hbatch => by cases hbatch⟩
  | cons first rest ih =>
    obtain ⟨hbase, hcount, hrest⟩ := h
    obtain ⟨hle, hall⟩ := ih hrest
    refine ⟨by omega, fun batch hbatch => ?_⟩
    rcases mem_cons.mp hbatch with rfl | hbatch
    · omega
    · have hbounds := hall batch hbatch
      omega

lemma sequenceAfterCount_of_le {base count : Nat} (h : base + count ≤ maxUint64) :
    sequenceAfterCount base count = .ok (base + count) := by
  unfold sequenceAfterCount
  rw [if_neg (by omega)]

/-- The search for the base of a batch comes upon that batch and no other. -/
lemma Tiles.find {start stop : Nat} (h : Tiles start batches stop) (hstop : stop ≤ maxUint64)
    (hbatch : batch ∈ batches) :
    findPublishedBatch ⟨batch.topic, batch.partition⟩ batch.baseSequence batch.recordCount batches
      = .ok (some batch) := by
  induction batches generalizing start with
  | nil => cases hbatch
  | cons first rest ih =>
    obtain ⟨hbase, hcount, hrest⟩ := h
    obtain ⟨hle, hall⟩ := hrest.bounds
    have hnext : first.baseSequence + first.recordCount ≤ maxUint64 := by omega
    simp only [findPublishedBatch, sequenceAfterCount_of_le hnext, bind, Except.bind]
    rcases mem_cons.mp hbatch with rfl | hbatch
    · rw [if_pos (by omega), if_neg (by simp)]
      simp [validatePublishedBatchMatch]
    · -- the batch starts behind the first one
      have hbounds := (hall batch hbatch).1
      rw [if_neg (by omega)]
      exact ih hrest hbatch

/-! ## Sequence numbers in the logs -/

/-- The sequence number that a data record of the transaction carries. -/
def dataSequence (txID : Nat) : Option TransactionRecordMetadata → Option Nat
  | some metadata =>
    if metadata.txID = txID ∧ metadata.controlType = .none then some metadata.sequence else none
  | none => none

/-- The sequence numbers that the records carry, as data of the transaction. -/
def sequencesOf (txID : Nat) (entries : List (TopicPartition × Record)) : List Nat :=
  entries.filterMap fun entry => dataSequence txID entry.2.transaction

lemma sequencesOf_append (txID : Nat) (l m : List (TopicPartition × Record)) :
    sequencesOf txID (l ++ m) = sequencesOf txID l ++ sequencesOf txID m :=
  filterMap_append

/-- Records that are data of no transaction. -/
def NoData (_ : TopicPartition) (record : Record) : Prop :=
  ∀ txID, dataSequence txID record.transaction = none

lemma sequencesOf_noData (h : ∀ call ∈ trace, AppendsOnly NoData call) (txID : Nat) :
    sequencesOf txID (appended trace) = [] := by
  apply filterMap_eq_nil_iff.mpr
  intro entry hentry
  obtain ⟨call, hcall, hin⟩ := mem_flatMap.mp hentry
  exact h call hcall entry hin txID

/-- The records that a batch was made from: one for each sequence number, at the offsets that the
batch says. -/
structure Stores (identity : TransactionIdentity) (batch : TransactionPublishedBatch)
    (records : List Record) : Prop where
  length : records.length = batch.recordCount
  offsets : records.map Record.offset = List.range' batch.baseOffset batch.recordCount
  last : records.getLast?.map Record.offset = some batch.lastOffset
  metadata : records.map Record.transaction = (List.range batch.recordCount).map fun i =>
    some (transactionRecordMetadata identity (batch.baseSequence + i) .none)

variable {identity : TransactionIdentity}

lemma Stores.sequences {records : List Record} (h : Stores identity batch records)
    (tp : TopicPartition) (txID : Nat) :
    sequencesOf txID (records.map fun record => (tp, record))
      = if identity.txID = txID then List.range' batch.baseSequence batch.recordCount else [] := by
  have hmetadata : sequencesOf txID (records.map fun record => (tp, record))
      = (records.map Record.transaction).filterMap (dataSequence txID) := by
    simp only [sequencesOf, filterMap_map]
    rfl
  rw [hmetadata, h.metadata, filterMap_map]
  by_cases hid : identity.txID = txID
  · rw [if_pos hid, List.range'_eq_map_range, ← filterMap_eq_map]
    apply filterMap_congr
    intro i _
    simp [dataSequence, transactionRecordMetadata, hid]
  · rw [if_neg hid]
    apply filterMap_eq_nil_iff.mpr
    intro i _
    simp [dataSequence, transactionRecordMetadata, hid]

/-- The records of a batch pass the check of what was read back. -/
lemma Stores.validates {records : List Record} (h : Stores identity batch records)
    (hcount : 0 < batch.recordCount) (hfits : batch.baseSequence + batch.recordCount ≤ maxUint64) :
    validatePublishedBatchRecords identity batch records = .ok () := by
  have hmetadata : ∀ (records : List Record) (index : Nat),
      batch.baseSequence + index + records.length ≤ maxUint64 →
      records.map Record.transaction = (List.range' index records.length).map (fun i =>
        some (transactionRecordMetadata identity (batch.baseSequence + i) .none)) →
      validatePublishedBatchRecordMetadata identity batch.baseSequence index records = .ok () := by
    intro records
    induction records with
    | nil => exact fun _ _ _ => rfl
    | cons record rest ih =>
      intro index hle heq
      rw [length_cons] at hle
      rw [length_cons, List.range'_succ, map_cons, map_cons, List.cons.injEq] at heq
      have hsequence : sequenceForBatchRecord batch.baseSequence index
          = .ok (batch.baseSequence + index) := by
        unfold sequenceForBatchRecord
        rw [if_neg (by omega)]
      simp only [validatePublishedBatchRecordMetadata, heq.1, hsequence, bind, Except.bind]
      rw [if_neg (by simp)]
      exact ih (index + 1) (by omega) heq.2
  have hfirst : records.head?.map Record.offset = some batch.baseOffset := by
    rw [← head?_map, h.offsets, head?_range', if_neg (by omega)]
  unfold validatePublishedBatchRecords
  rw [if_neg (by simp [h.length]), if_neg (by simp [hfirst, h.last])]
  apply hmetadata
  · rw [h.length]
    omega
  · rw [h.length, ← range_eq_range']
    exact h.metadata

/-- What was stored below the last offset makes a batch. -/
lemma newPublishedBatch_of_stored {tp : TopicPartition} {sequence base : Nat}
    {records : List Record} (hne : records ≠ [])
    (hoffsets : records.map Record.offset = List.range' base records.length)
    (hmetadata : records.map Record.transaction = (List.range records.length).map fun i =>
      some (transactionRecordMetadata identity (sequence + i) .none))
    (hfits : base + records.length ≤ maxUint64) :
    ∃ batch, newPublishedBatch tp sequence records = .ok batch ∧ Stores identity batch records ∧
      (⟨batch.topic, batch.partition⟩ : TopicPartition) = tp ∧ batch.baseSequence = sequence := by
  have hlength : 0 < records.length := length_pos_iff.mpr hne
  obtain ⟨first, last, hfirst, hlast, hbase, hend⟩ := first_last_of_offsets hne hoffsets
  have hcontiguous : validateContiguousOffsets "transaction offset overflows uint64"
      "transactional publish returned non-contiguous offsets" first.offset 0 records = .ok () :=
    validateContiguousOffsets_ok _ _ records (by rw [hbase]; exact hoffsets) (by omega)
  have hcount := transactionRecordCount_eq_ok.mpr ⟨hlength.ne', rfl⟩
  unfold newPublishedBatch
  rw [hfirst, hlast]
  simp only [hcontiguous, hcount, bind, Except.bind]
  rw [if_neg (by omega)]
  refine ⟨_, rfl, ⟨rfl, ?_, ?_, hmetadata⟩, rfl, rfl⟩
  · rw [hbase]
    exact hoffsets
  · rw [hlast]
    rfl

/-! ## What a publish does -/

/-- A publish of one record or of many. -/
structure Publish where
  identity : TransactionIdentity
  tp : TopicPartition
  baseSequence : Nat
  records : List RecordAppend

def Command.publish : Command → Option Publish
  | txPublish req => some ⟨req.identity, ⟨req.topic, req.partition⟩, req.sequence, [req.record]⟩
  | txPublishBatch req =>
    some ⟨req.identity, ⟨req.topic, req.partition⟩, req.baseSequence, req.records⟩
  | _ => none

/-- Neither the sequence numbers nor the offsets that the publish takes up reach the end of their
range. -/
def Publish.Fits (cfg : Config) (w : World) (publish : Publish) : Prop :=
  publish.baseSequence + publish.records.length ≤ maxUint64 ∧
    ∀ log, w.logAt (w.holder cfg publish.tp) = .ok log →
      log.nextOffset publish.tp + publish.records.length ≤ maxUint64

/-- A publish is refused, repeats a batch, or adds one to its transaction. -/
inductive PublishEnds (publish : Publish) (w w' : World) (trace : List Call) : Prop
  | kept (hstep : OneStep .nothing publish.identity.txID w w')
      (hcalls : ∀ call ∈ trace, AppendsOnly NoData call)
  | added (a b : TransactionState) (batch : TransactionPublishedBatch) (stored : List Record)
      (before after : List (TopicPartition × Record))
      (hopen : OpenFor w publish.identity a) (hstep : OneStep .batch publish.identity.txID w w')
      (hb : w'.transaction publish.identity.txID = some b)
      (hbatches : b.publishedBatches = a.publishedBatches ++ [batch])
      (hnext : b.nextSequence = batch.baseSequence + batch.recordCount)
      (hstores : Stores publish.identity batch stored)
      (htp : (⟨batch.topic, batch.partition⟩ : TopicPartition) = publish.tp)
      (hbase : batch.baseSequence = a.nextSequence) (hcount : 0 < batch.recordCount)
      (hfits : batch.baseSequence + batch.recordCount ≤ maxUint64)
      (hbefore : ∀ txID, sequencesOf txID before = [])
      (hafter : ∀ txID, sequencesOf txID after = [])
      (hentries : appended trace = before ++ stored.map (fun record => (publish.tp, record)) ++ after)

lemma noData_of_storedFrom {append : RecordAppend} {record : Record} {tp : TopicPartition}
    {sequence : Nat} {controlType : TransactionControlType} (hne : controlType ≠ .none)
    (h : StoredFrom append record)
    (happend : append.transaction = some (transactionRecordMetadata identity sequence controlType))
    : NoData tp record := by
  intro txID
  rw [h.transaction, happend]
  simp [dataSequence, transactionRecordMetadata, hne]

lemma noData_parts : Parts.Transactions (Makes step (AppendsOnly NoData)) cfg where
  now := appendsOnly_perform rfl
  allocate := appendsOnly_perform rfl
  list := appendsOnly_perform rfl
  load _ := appendsOnly_perform rfl
  save _ := appendsOnly_perform rfl
  abort _ _ _ := appendsOnly_publishRecord cfg fun _ h => noData_of_storedFrom (by decide) h rfl

lemma storedFrom_transactions {appends : List RecordAppend} {stored : List Record}
    (h : List.Forall₂ StoredFrom appends stored) :
    stored.map Record.transaction = appends.map RecordAppend.transaction := by
  induction h with
  | nil => rfl
  | cons hfirst _ ih => rw [map_cons, map_cons, hfirst.transaction, ih]

variable {w : World} {state : TransactionState}

/-- The save at the end of a publish. -/
lemma exec_advanceTransactionAfterPublish (hid : state.txID ≠ 0)
    (hnext : state.txID < w.metadata.nextTxID)
    (hfits : batch.baseSequence + batch.recordCount ≤ maxUint64) :
    exec step (advanceTransactionAfterPublish state batch) w
      = (.ok (), w.tick.withTransaction (publishedState state batch (w.env.clock 0))) := by
  unfold advanceTransactionAfterPublish
  rw [sequenceAfterCount_of_le hfits]
  refine (exec_bind_ok step (exec_nowMS w)).trans ?_
  rw [exec_wrapBroker, exec_saveTransaction (by exact hid) (by exact hnext)]
  rfl

/-- The part of a publish that follows the look at the transaction: the records are appended, and
then the transaction gets their batch. -/
lemma OpenFor.publish_ends {α β : Type} {cfg : Config} {w w1 : World} {publish : Publish}
    (hopen : OpenFor w publish.identity state) (hinv : Keyed w) (hworld : WorldInv w1)
    (h1 : SameTransactions w w1) (hsequence : publish.baseSequence = state.nextSequence)
    (hfits : publish.Fits cfg w1) {records : List RecordAppend}
    (hlength : records.length = publish.records.length) (hne : records ≠ [])
    (hdata : records.map RecordAppend.transaction = (List.range records.length).map fun i =>
      some (transactionRecordMetadata publish.identity (publish.baseSequence + i) .none))
    {p : Handling α} {toList : α → List Record} (hp : Ends step p w1 fun r w' trace =>
      Published cfg w1 publish.tp records (r.map toList) w' trace) (result : α → Except Error β) :
    Ends step (do
        let appended ← p
        let batch ← Prog.ofExcept
          (newPublishedBatch publish.tp publish.baseSequence (toList appended))
        advanceTransactionAfterPublish state batch
        Prog.ofExcept (result appended) : Handling β) w1
      fun _ w' trace => PublishEnds publish w w' trace := by
  apply ends_bind
  apply hp.mono
  rintro r w2 trace (⟨log, stored, log', hlog, happend, hr, hentries, hwrote⟩ |
    ⟨-, ⟨err, hr⟩, hlooked, hentries⟩)
  · cases r with
    | error err => cases hr
    | ok value =>
      obtain rfl : toList value = stored := Except.ok.inj hr
      obtain ⟨hspec, hstored⟩ := appendRecordsBatch_spec (hworld.logAt hlog) happend
      have hsame : SameTransactions w w2 :=
        h1.trans (congrArg (fun s => table s .transactions) hwrote.metadata)
      obtain ⟨hkey, hid, hnext, hfound⟩ := hopen.after hinv hsame
      have hoffsets := hfits.2 log hlog
      have hfull : toList value ≠ [] := by
        intro hempty
        rw [hempty] at hstored
        exact hne (length_eq_zero_iff.mp hstored.symm)
      have hmetadata : (toList value).map Record.transaction
          = (List.range (toList value).length).map fun i =>
            some (transactionRecordMetadata publish.identity (publish.baseSequence + i) .none) := by
        rw [storedFrom_transactions (storedFrom_appendRecordsBatch happend), hstored]
        exact hdata
      obtain ⟨batch, hbatch, hstores, htp, hbase⟩ :=
        newPublishedBatch_of_stored hfull hspec.offsets hmetadata (by omega)
      rw [← hbase] at hsequence
      have hcount : 0 < batch.recordCount := by
        rw [← hstores.length]
        exact length_pos_iff.mpr hfull
      have hroom : batch.baseSequence + batch.recordCount ≤ maxUint64 := by
        have hsequences := hfits.1
        rw [hbase, ← hstores.length]
        omega
      have hrun := exec_advanceTransactionAfterPublish hid hnext hroom
      have hcalls := Parts.advanceTransactionAfterPublish (appendsOnly_closed NoData)
        (noData_parts cfg) state batch w2
      dsimp only
      rw [hbatch]
      apply ends_bind_ok hrun
      apply ends_ofExcept
      have hstep := OneStep.save (hsame.trans w2.sameTransactions_tick)
        (by rw [hkey]; exact hopen.stored)
        (TransactionStep.published rfl batch (w2.env.clock 0) hopen.isOpen hsequence hcount)
      have hb := (World.transaction_withTransaction w2.tick (publishedState state batch (w2.env.clock 0))
        publish.identity.txID).trans (if_pos hkey)
      refine .added state _ batch (toList value) [] _ hopen (by rw [← hkey]; exact hstep) hb rfl rfl
        hstores htp hsequence hcount hroom (fun _ => rfl)
        (fun txID => sequencesOf_noData hcalls txID) ?_
      rw [appended_append, hentries, append_nil, nil_append]
  · cases r with
    | ok value => cases hr
    | error err =>
      have hsame : SameTransactions w w2 :=
        h1.trans (congrArg (fun s => table s .transactions) hlooked.metadata)
      refine .kept (OneStep.of_same hsame _) fun call hcall entry hentry => ?_
      have hin : entry ∈ appended trace := mem_flatMap.mpr ⟨call, hcall, hentry⟩
      rw [hentries] at hin
      cases hin

/-- What comes before, as long as it appends no data. -/
lemma PublishEnds.after {publish : Publish} {w w' : World} {before : List Call}
    (h : PublishEnds publish w w' trace) (hbefore : ∀ call ∈ before, AppendsOnly NoData call) :
    PublishEnds publish w w' (before ++ trace) := by
  cases h with
  | kept hstep hcalls =>
    refine .kept hstep fun call hcall => ?_
    rcases mem_append.mp hcall with hcall | hcall
    · exact hbefore call hcall
    · exact hcalls call hcall
  | added a b batch stored first after hopen hstep hb hbatches hnext hstores htp hbase hcount hfits
      hfirst hafter hentries =>
    refine .added a b batch stored (appended before ++ first) after hopen hstep hb hbatches hnext
      hstores htp hbase hcount hfits (fun txID => ?_) hafter ?_
    · rw [sequencesOf_append, sequencesOf_noData hbefore, hfirst, append_nil]
    · rw [appended_append, hentries]
      simp only [append_assoc]

/-- Reads of the metadata leave the world as it is. -/
lemma still_closed : Closed (Advances (I := calls) (ε := Error) step Eq) :=
  advances_closed step (fun _ => rfl) fun _ _ _ h1 h2 => h1.trans h2

/-- The records of a transactional batch carry the sequence numbers one after the other. -/
lemma transactionalRecordBatch_sequences {base : Nat} {appends records : List RecordAppend}
    {index : Nat} (h : transactionalRecordBatch identity base index appends = .ok records) :
    records.length = appends.length ∧
      records.map RecordAppend.transaction = (List.range' index appends.length).map fun i =>
        some (transactionRecordMetadata identity (base + i) .none) := by
  induction appends generalizing index records with
  | nil =>
    cases h
    exact ⟨rfl, rfl⟩
  | cons append rest ih =>
    obtain ⟨sequence, hsequence, h⟩ := Except.bind_eq_ok.mp h
    obtain ⟨tail, htail, h⟩ := Except.bind_eq_ok.mp h
    cases h
    obtain ⟨hlength, hmap⟩ := ih htail
    have hvalue : sequence = base + index := by
      unfold sequenceForBatchRecord at hsequence
      split at hsequence
      · cases hsequence
      · exact (Except.ok.inj hsequence).symm
    refine ⟨by simp [hlength], ?_⟩
    rw [map_cons, hmap, length_cons, List.range'_succ, map_cons, hvalue]

lemma noData_readPublishedBatch (identity : TransactionIdentity)
    (batch : TransactionPublishedBatch) :
    Makes step (AppendsOnly NoData) _ (readPublishedBatch cfg identity batch) := by
  have hC := appendsOnly_closed NoData
  exact hC.bind (hC.mapError _ (Runtime.readFrom appendsOnly_quiet hC _ _ _)) fun _ =>
    hC.bind (hC.ofExcept _) fun _ => hC.pure _

/-- What both publishes do: a batch that is known is read back, another is published. -/
lemma writable_publish_ends {β : Type} (cfg : Config) (hinv : WorldInv w) (publish : Publish)
    {count : Nat} {f : TransactionState × Option TransactionPublishedBatch → Handling β}
    (hknown : ∀ state batch, ∃ answer, f (state, some batch)
      = readPublishedBatch cfg publish.identity batch >>= answer ∧ ∀ records, ∃ r, answer records = .done r)
    (hfresh : ∀ state, OpenFor w publish.identity state → publish.baseSequence = state.nextSequence →
      Ends step (f (state, none)) w.tick fun _ w' trace => PublishEnds publish w w' trace) :
    Ends step (loadWritableTransaction cfg publish.identity publish.tp publish.baseSequence count >>= f)
      w fun _ w' trace => PublishEnds publish w w' trace := by
  apply ends_bind
  apply ((loadWritableTransaction_ends .nothing cfg hinv.keyed publish.identity _ _ _).and
    (ends_of_makes (Parts.loadWritableTransaction (appendsOnly_closed NoData) (noData_parts cfg)
      publish.identity _ _ _) w)).mono
  rintro (err | ⟨state, duplicate⟩) w1 calls ⟨hload, hcalls⟩
  · exact .kept hload.1 hcalls
  · obtain ⟨hopen, rfl, -, hsequence⟩ := hload
    cases duplicate with
    | some batch =>
      obtain ⟨answer, heq, hanswer⟩ := hknown state batch
      have hkept : ∀ {w' calls'}, SameTransactions w.tick w' →
          (∀ call ∈ calls', AppendsOnly NoData call) → PublishEnds publish w w' (calls ++ calls') :=
        fun h hcalls' => (PublishEnds.kept (OneStep.of_same (w.sameTransactions_tick.trans h) _)
          hcalls').after hcalls
      show Ends step (f (state, some batch)) _ _
      rw [heq]
      apply ends_bind_known (sameTransactions_readPublishedBatch cfg publish.identity batch)
        (noData_readPublishedBatch cfg publish.identity batch)
      · intro err w' calls' h hcalls'
        exact hkept h hcalls'
      · intro records w' calls' _ h hcalls'
        obtain ⟨r, hr⟩ := hanswer records
        rw [hr]
        show PublishEnds publish w w' (calls ++ (calls' ++ []))
        rw [append_nil]
        exact hkept h hcalls'
    | none =>
      apply (hfresh state hopen (hsequence rfl)).mono
      intro r w' trace h
      exact h.after hcalls

/-- A publish that has looked the topic up and stops there. -/
lemma publishEnds_still {publish : Publish} {calls : List (Prog.Called Broker.calls Error)}
    (hcalls : ∀ call ∈ calls, AppendsOnly NoData call) : PublishEnds publish w w.tick calls :=
  .kept (OneStep.of_same w.sameTransactions_tick _) hcalls

lemma applyTxPublish_ends (hinv : WorldInv w) (req : TxPublishCommand)
    {publish : Publish} (hpublish : (Command.txPublish req).publish = some publish)
    (hfits : publish.Fits cfg w) :
    Ends step (applyTxPublish cfg req) w fun _ w' trace => PublishEnds publish w w' trace := by
  cases hpublish
  refine writable_publish_ends cfg hinv ⟨req.identity, ⟨req.topic, req.partition⟩, req.sequence,
    [req.record]⟩ (fun state batch => ⟨_, rfl, fun records => ?_⟩) fun state hopen hsequence => ?_
  · cases records <;> exact ⟨_, rfl⟩
  · apply ends_bind_known (R := Eq)
      (Parts.normalizeRecordPriorityForTopic still_closed fun _ => rfl)
      (Parts.normalizeRecordPriorityForTopic (appendsOnly_closed NoData) (appendsOnly_perform rfl))
    · rintro err w' calls rfl hcalls
      exact publishEnds_still hcalls
    · rintro record w' calls - rfl hcalls
      have hpublish := published_mapError_ends (publishRecord_ends cfg hinv.tick
        ⟨req.topic, req.partition⟩
        { record with
          transaction := some (transactionRecordMetadata req.identity req.sequence .none) })
        (Error.wrap "publish transactional record")
      apply (hopen.publish_ends hinv.keyed hinv.tick rfl hsequence hfits
        (by rfl) (by simp) rfl hpublish fun appended =>
          .ok (transactionPublishResult req.identity.txID req.partition appended)).mono
      intro r w' trace h
      exact h.after hcalls

/-- A publish of many records. -/
lemma applyTxPublishBatch_ends (hinv : WorldInv w) (req : TxPublishBatchCommand)
    {publish : Publish} (hpublish : (Command.txPublishBatch req).publish = some publish)
    (hfits : publish.Fits cfg w) : Ends step (applyTxPublishBatch cfg req) w fun _ w' trace =>
      PublishEnds publish w w' trace := by
  cases hpublish
  have hfail : PublishEnds ⟨req.identity, ⟨req.topic, req.partition⟩, req.baseSequence, req.records⟩
      w w [] := .kept (OneStep.of_same rfl _) fun call hcall => by cases hcall
  unfold applyTxPublishBatch
  split
  · exact hfail
  · next hne =>
    apply ends_bind_ofExcept fun err _ => hfail
    intro _ _
    refine writable_publish_ends cfg hinv ⟨req.identity, ⟨req.topic, req.partition⟩, req.baseSequence,
      req.records⟩ (fun state batch => ⟨_, rfl, fun records => ⟨_, rfl⟩⟩) fun state hopen hsequence => ?_
    apply ends_bind_known (R := Eq)
      (Parts.normalizeRecordsPriorityForTopic still_closed fun _ => rfl)
      (Parts.normalizeRecordsPriorityForTopic (appendsOnly_closed NoData) (appendsOnly_perform rfl))
    · rintro err w' calls rfl hcalls
      exact publishEnds_still hcalls
    · rintro normalized w' calls hreturns rfl hcalls
      apply ends_bind_ofExcept
      · intro err _
        rw [append_nil]
        exact publishEnds_still hcalls
      · intro records hrecords
        obtain ⟨hlength, hdata⟩ := transactionalRecordBatch_sequences hrecords
        have hsame : normalized.length = req.records.length := by
          obtain ⟨topic, -, hnormalized⟩ := returns_bind hreturns
          exact (sameButHeaders_normalizeRecordsPriority
            (returns_ofExcept hnormalized)).length_eq.symm
        have hpublish := published_mapError_ends (publishBatchRecords_ends cfg
          hinv.tick ⟨req.topic, req.partition⟩ records) (Error.wrap "publish transactional record batch")
        have hfull : records ≠ [] := by
          intro hempty
          rw [hempty, hsame] at hlength
          exact hne (length_eq_zero_iff.mp hlength.symm)
        rw [← hlength, ← range_eq_range'] at hdata
        apply (hopen.publish_ends hinv.keyed hinv.tick rfl hsequence hfits
          (hlength.trans hsame) hfull hdata hpublish fun appended =>
            transactionPublishBatchResult req.identity.txID req.partition appended).mono
        intro r w' trace h
        exact h.after hcalls

/-! ## Runs -/

/-- Each publish of the run fits, in the state in which it comes, and no marker takes the last offset
of a partition: in every state of the run, the next offsets are those of the source. -/
def RunFits (cfg : Config) (cmds : List Command) (w : World) : Prop :=
  Meets (Command.next cfg)
    (fun w cmd => w.OffsetsFit ∧ ∀ publish, cmd.publish = some publish → publish.Fits cfg w) cmds w ∧
  (applyCommands cfg cmds w).OffsetsFit

/-- What a transaction says of the records that were appended for it. -/
structure Accounted (entries : List (TopicPartition × Record)) (a : TransactionState) : Prop where
  tiles : Tiles 0 a.publishedBatches (coverage a.publishedBatches)
  next : a.status = .open → a.nextSequence = coverage a.publishedBatches
  fits : coverage a.publishedBatches ≤ maxUint64
  stored : ∀ batch ∈ a.publishedBatches, ∃ records,
    Stores (transactionIdentityFromState a) batch records ∧
      records.map (fun record => ((⟨batch.topic, batch.partition⟩ : TopicPartition), record))
        <:+: entries
  sequences : sequencesOf a.txID entries = List.range (coverage a.publishedBatches)

lemma SameIdentity.identity_eq {a b : TransactionState} (h : SameIdentity a b) :
    transactionIdentityFromState b = transactionIdentityFromState a := by
  simp only [transactionIdentityFromState, h.txID, h.producerID, h.producerEpoch]

lemma OpenFor.identity_eq (h : OpenFor w identity state) (hinv : Keyed w) :
    transactionIdentityFromState state = identity := by
  obtain ⟨hkey, -, -⟩ := hinv.key _ state h.stored
  simp only [transactionIdentityFromState, hkey, h.producerID, h.producerEpoch]

/-- A transaction that gets no batch, while no data of it is appended. -/
lemma Accounted.keep {more : List (TopicPartition × Record)} {a b : TransactionState}
    (h : Accounted entries a) (hid : SameIdentity a b)
    (hbatches : b.publishedBatches = a.publishedBatches)
    (hopen : b.status = .open → a.status = .open ∧ b.nextSequence = a.nextSequence)
    (hmore : sequencesOf a.txID more = []) : Accounted (entries ++ more) b := by
  constructor
  · rw [hbatches]
    exact h.tiles
  · intro hb
    obtain ⟨ha, hnext⟩ := hopen hb
    rw [hbatches, hnext]
    exact h.next ha
  · rw [hbatches]
    exact h.fits
  · intro batch hbatch
    rw [hbatches] at hbatch
    obtain ⟨records, hstores, hinfix⟩ := h.stored batch hbatch
    rw [hid.identity_eq]
    exact ⟨records, hstores, hinfix.trans (infix_append' [] entries more)⟩
  · rw [hid.txID, hbatches, sequencesOf_append, hmore, append_nil]
    exact h.sequences

/-- A transaction that gets a batch, while the data of the batch is appended. -/
lemma Accounted.add {before after : List (TopicPartition × Record)} {a b : TransactionState}
    (h : Accounted entries a) (hopen : a.status = .open) (hid : SameIdentity a b)
    {records : List Record} (hbatches : b.publishedBatches = a.publishedBatches ++ [batch])
    (hnext : b.nextSequence = batch.baseSequence + batch.recordCount)
    (hstores : Stores (transactionIdentityFromState a) batch records)
    (hbase : batch.baseSequence = a.nextSequence) (hcount : 0 < batch.recordCount)
    (hfits : batch.baseSequence + batch.recordCount ≤ maxUint64)
    (hbefore : sequencesOf a.txID before = []) (hafter : sequencesOf a.txID after = []) :
    Accounted (entries ++ (before ++ records.map (fun record =>
      ((⟨batch.topic, batch.partition⟩ : TopicPartition), record)) ++ after)) b := by
  have hstart : batch.baseSequence = coverage a.publishedBatches := hbase.trans (h.next hopen)
  have hcoverage : coverage b.publishedBatches = coverage a.publishedBatches + batch.recordCount := by
    rw [hbatches, coverage_concat]
  constructor
  · rw [hcoverage, hbatches]
    exact h.tiles.concat hstart hcount
  · intro _
    rw [hnext, hcoverage, hstart]
  · rw [hcoverage, ← hstart]
    exact hfits
  · intro found hfound
    rw [hbatches, mem_append, mem_singleton] at hfound
    rw [hid.identity_eq]
    rcases hfound with hfound | rfl
    · obtain ⟨old, hold, hinfix⟩ := h.stored found hfound
      exact ⟨old, hold, hinfix.trans (infix_append' [] entries _)⟩
    · refine ⟨records, hstores, entries ++ before, after, ?_⟩
      simp only [append_assoc]
  · have hnew := hstores.sequences ⟨batch.topic, batch.partition⟩ a.txID
    rw [if_pos (show (transactionIdentityFromState a).txID = a.txID from rfl), hstart] at hnew
    rw [hid.txID, hcoverage, sequencesOf_append, sequencesOf_append, sequencesOf_append, hbefore,
      hafter, hnew, h.sequences, nil_append, append_nil, range_eq_range',
      range_eq_range', ← List.range'_append_1, Nat.zero_add]

/-- The transactions account for all the data that was appended. -/
structure Ledger (w : World) (entries : List (TopicPartition × Record)) : Prop where
  world : WorldInv w
  inv : TransactionsInv w
  present : ∀ txID a, w.transaction txID = some a → Accounted entries a
  absent : ∀ txID, w.transaction txID = none → sequencesOf txID entries = []

lemma Ledger.start (hworld : WorldInv w) (hnone : ∀ txID, w.transaction txID = none) :
    Ledger w [] := by
  have hno : ∀ {txID a}, w.transaction txID ≠ some a := by
    intro txID a ha
    rw [hnone] at ha
    cases ha
  exact ⟨hworld, ⟨hworld.keyed, fun a b ha => absurd ha hno, fun txID a ha => absurd ha hno⟩,
    fun txID a ha => absurd ha hno, fun _ _ => rfl⟩

lemma TransactionStep.keeps_batches {adds : Adds} (hnot : adds ≠ .batch) {a b : TransactionState}
    (h : TransactionStep adds a b) : b.publishedBatches = a.publishedBatches ∧
      (b.status = .open → a.status = .open ∧ b.nextSequence = a.nextSequence) := by
  cases h with
  | same => exact ⟨rfl, fun h => ⟨h, rfl⟩⟩
  | closed status nextSequence updatedAtMS hopen hstatus => exact ⟨rfl, fun h => absurd h hstatus⟩
  | published hadds batch updatedAtMS hopen hbase hcount => exact absurd hadds hnot
  | staged offset hadds updatedAtMS hopen hconsumer => exact ⟨rfl, fun h => ⟨h, rfl⟩⟩

/-- Nothing is published. -/
lemma Ledger.keep {w w' : World} {more : List (TopicPartition × Record)}
    {born : Option TransactionState} (h : Ledger w entries) (hworld : WorldInv w') {adds : Adds}
    (hnot : adds ≠ .batch) (hmoved : Moved adds w w' born)
    (hmore : ∀ txID, sequencesOf txID more = []) : Ledger w' (entries ++ more) := by
  refine ⟨hworld, hmoved.inv h.inv, fun txID b hb => ?_, fun txID hnone => ?_⟩
  · rcases hmoved.before hb with ⟨a, ha, hstep⟩ | ⟨hnone, hborn⟩
    · obtain ⟨hbatches, hopen⟩ := hstep.keeps_batches hnot
      exact (h.present txID a ha).keep hstep.sameIdentity hbatches hopen (hmore _)
    · -- a transaction that was begun has no batches yet, and its id is new
      obtain ⟨hkey, -, -⟩ := (hmoved.keyed h.inv.keyed).key txID b hb
      refine ⟨?_, fun _ => ?_, ?_, fun batch hbatch => ?_, ?_⟩
      · rw [hborn.batches]
        rfl
      · rw [hborn.sequence, hborn.batches]
        rfl
      · rw [hborn.batches]
        exact Nat.zero_le _
      · rw [hborn.batches] at hbatch
        cases hbatch
      · rw [hkey, hborn.batches, sequencesOf_append, h.absent txID hnone, hmore]
        rfl
  · rw [sequencesOf_append, hmore, append_nil]
    apply h.absent
    cases hbefore : w.transaction txID with
    | none => rfl
    | some a =>
      obtain ⟨b, hb, -⟩ := hmoved.kept txID a hbefore
      rw [hb] at hnone
      cases hnone

/-- Something is published, or nothing. -/
lemma Ledger.publish {w w' : World} {publish : Publish} (h : Ledger w entries)
    (hworld : WorldInv w') (hends : PublishEnds publish w w' trace) :
    Ledger w' (entries ++ appended trace) := by
  cases hends with
  | kept hstep hcalls => exact h.keep hworld (by simp) hstep.moved (sequencesOf_noData hcalls)
  | added a b batch stored before after hopen hstep hb hbatches hnext hstores htp hbase hcount hfits
      hbefore hafter hentries =>
    -- the data is that of one transaction
    have hothers : ∀ txID, txID ≠ publish.identity.txID →
        sequencesOf txID (appended trace) = [] := by
      intro txID hne
      rw [hentries, sequencesOf_append, sequencesOf_append, hbefore, hafter,
        hstores.sequences publish.tp, if_neg (Ne.symm hne)]
      rfl
    refine ⟨hworld, hstep.moved.inv h.inv, fun txID c hc => ?_, fun txID hnone => ?_⟩
    · by_cases htx : txID = publish.identity.txID
      · subst htx
        rw [hb] at hc
        cases hc
        obtain ⟨b', hb', hab⟩ := hstep.present a hopen.stored
        rw [hb] at hb'
        cases hb'
        rw [hentries, ← htp]
        rw [← hopen.identity_eq h.inv.keyed] at hstores
        exact (h.present _ a hopen.stored).add hopen.isOpen hab.sameIdentity hbatches hnext hstores
          hbase hcount hfits (hbefore _) (hafter _)
      · rw [hstep.others txID htx] at hc
        apply (h.present txID c hc).keep (SameIdentity.refl c) rfl fun hopen => ⟨hopen, rfl⟩
        rw [(h.inv.keyed.key txID c hc).1]
        exact hothers txID htx
    · have htx : txID ≠ publish.identity.txID := by
        rintro rfl
        rw [hb] at hnone
        cases hnone
      rw [hstep.others txID htx] at hnone
      rw [sequencesOf_append, h.absent txID hnone, hothers txID htx]
      rfl

lemma noData_commit (tp : TopicPartition) (identity : TransactionIdentity) (sequence : Nat) :
    Makes step (AppendsOnly NoData) _ (MessageRuntime.publishRecord cfg tp
      { transaction := some (transactionRecordMetadata identity sequence .commit), payload := [] }) :=
  appendsOnly_publishRecord cfg fun _ h => noData_of_storedFrom (by decide) h rfl

lemma Ledger.step {cfg : Config} (h : Ledger w entries) {cmd : Command}
    (hcmd : cmd.transactional = true)
    (hfits : ∀ publish, cmd.publish = some publish → publish.Fits cfg w) :
    Ledger (applyCommand cfg cmd w).2
      (entries ++ appended (Prog.trace Broker.step (cmd.apply cfg) w)) := by
  have hworld := h.world.applyCommand cfg cmd
  have hkeep : cmd.publishes = false → Ledger (applyCommand cfg cmd w).2
      (entries ++ appended (Prog.trace Broker.step (cmd.apply cfg) w)) := by
    intro hnot
    obtain ⟨born, hmoved, -⟩ := activity_moved cfg h.inv (.command cmd)
    apply h.keep hworld (Command.addition_ne_batch hnot) hmoved
    apply sequencesOf_noData
    refine Command.transactional_appends (noData_parts cfg) hcmd ?_ ?_ w
    · intro hpublishes
      rw [hnot] at hpublishes
      cases hpublishes
    · exact fun _ _ => noData_commit cfg
  cases cmd with
  | txPublish req =>
    have hends : Ends Broker.step ((Command.txPublish req).apply cfg) w fun _ w' trace =>
        PublishEnds _ w w' trace :=
      ends_replyWith (applyTxPublish_ends cfg h.world req rfl (hfits _ rfl))
    exact h.publish hworld hends
  | txPublishBatch req =>
    have hends : Ends Broker.step ((Command.txPublishBatch req).apply cfg) w fun _ w' trace =>
        PublishEnds _ w w' trace :=
      ends_replyWith (applyTxPublishBatch_ends cfg h.world req rfl (hfits _ rfl))
    exact h.publish hworld hends
  | _ => exact hkeep rfl

lemma Ledger.run {cfg : Config} (h : Ledger w []) {cmds : List Command}
    (hcmds : ∀ cmd ∈ cmds, cmd.transactional = true) (hfits : RunFits cfg cmds w) :
    Ledger (applyCommands cfg cmds w) (appended (runTrace cfg (cmds.map .command) w)) := by
  rw [appended_runTrace]
  have hmeets := meets_and hcmds hfits.1
  have hrun : Ledger (cmds.foldl (Command.next cfg) w)
      ([] ++ outputs (Command.next cfg) (Command.entries cfg) cmds w) :=
    invariant_run (fun _ _ _ h hmeets => h.step hmeets.1 hmeets.2.2) h hmeets
  exact hrun

/-! ## Repeating a publish -/

/-- The publish has the place, the base and the size of the batch. -/
structure Publish.Repeats (publish : Publish) (batch : TransactionPublishedBatch) : Prop where
  tp : (⟨batch.topic, batch.partition⟩ : TopicPartition) = publish.tp
  base : batch.baseSequence = publish.baseSequence
  count : batch.recordCount = publish.records.length

/-- The records in the reply to a publish. -/
def Reply.records : Reply → List Record
  | txPublished result => [result.record]
  | txPublishedBatch result => result.records
  | _ => []

/-- The payload of a batch is looked at before anything else. -/
def Command.payloadAccepted (cfg : Config) : Command → Prop
  | txPublishBatch req => validateBatchPayload cfg req.records = .ok ()
  | _ => True

/-- The log that the partition is read from still has the records. -/
def Retained (cfg : Config) (w : World) (tp : TopicPartition) (records : List Record) : Prop :=
  ∃ log, w.logAt (w.holder cfg tp) = .ok log ∧ ∀ record ∈ records, record ∈ log.recordsAt tp

lemma loadOpenTransaction_live_ends (h : Live w identity state) :
    Ends step (loadOpenTransaction cfg identity) w fun r w' trace =>
      r = .ok state ∧ w' = w.tick ∧ appended trace = [] := by
  have hload := exec_loadTransaction w identity.txID
  rw [h.1.stored] at hload
  have hmatch : ¬ (state.producerID ≠ identity.producerID ∨
      state.producerEpoch ≠ identity.producerEpoch) := by
    simp [h.1.producerID, h.1.producerEpoch]
  have hstatus : ¬ state.status ≠ .open := by simp [h.1.isOpen]
  unfold loadOpenTransaction
  apply ends_bind_ok hload
  dsimp only
  rw [if_neg hmatch, if_neg hstatus]
  apply ends_bind_ok (exec_nowMS w)
  rw [h.2]
  exact ⟨rfl, rfl, rfl⟩

/-- A publish that repeats a batch of a live transaction finds it. -/
lemma loadWritableTransaction_repeat_ends {publish : Publish}
    (hlive : Live w publish.identity state) (hrepeats : publish.Repeats batch)
    (hcount : 0 < batch.recordCount)
    (hfind : findPublishedBatch ⟨batch.topic, batch.partition⟩ batch.baseSequence batch.recordCount
      state.publishedBatches = .ok (some batch)) :
    Ends step (loadWritableTransaction cfg publish.identity publish.tp publish.baseSequence
        publish.records.length) w fun r w' trace =>
      r = .ok (state, some batch) ∧ w' = w.tick ∧ appended trace = [] := by
  unfold loadWritableTransaction
  apply ends_bind
  apply (loadOpenTransaction_live_ends cfg hlive).mono
  rintro r w' trace ⟨rfl, rfl, htrace⟩
  dsimp only
  rw [transactionRecordCount_eq_ok.mpr ⟨by rw [← hrepeats.count]; omega, rfl⟩]
  rw [hrepeats.tp, hrepeats.base, hrepeats.count] at hfind
  apply ends_bind_ofExcept
  · intro err herr
    cases herr
  · rintro count ⟨⟩
    rw [hfind]
    refine ⟨rfl, rfl, ?_⟩
    rw [appended_append, htrace]
    rfl

/-- The records of a batch are read back as they were appended. -/
lemma readPublishedBatch_ends (hinv : WorldInv w) {records : List Record}
    (hstores : Stores identity batch records) (hcount : 0 < batch.recordCount)
    (hfits : batch.baseSequence + batch.recordCount ≤ maxUint64) :
    Ends step (readPublishedBatch cfg identity batch) w fun r _ trace => appended trace = [] ∧
        (Retained cfg w ⟨batch.topic, batch.partition⟩ records → r = .ok records) := by
  unfold readPublishedBatch
  apply ends_bind
  apply ends_mapError
  apply (readFrom_ends cfg hinv ⟨batch.topic, batch.partition⟩ batch.baseOffset batch.recordCount).mono
  rintro r w' trace ⟨htrace, hread⟩
  have hkept : Retained cfg w ⟨batch.topic, batch.partition⟩ records → r = .ok records := by
    rintro ⟨log, hlog, hin⟩
    apply hread log records hlog
    obtain ⟨record, hrecord⟩ := exists_mem_of_length_pos (hstores.length.symm ▸ hcount)
    have hlogInv := hinv.logAt hlog
    obtain ⟨topic, htopic⟩ := hlogInv.hasPartition_of_record (hin record hrecord)
    have hoffsets := hstores.offsets
    rw [← hstores.length] at hoffsets
    have htake := (hlogInv.ordered ⟨batch.topic, batch.partition⟩).take_range hin hoffsets
    rw [hstores.length] at htake
    unfold readFrom
    rw [if_neg (by omega), (loadTopicForPartition_ok_iff _ _ _).mpr htopic]
    simp only [bind, Except.bind, recordPointersFrom, htake]
  cases r with
  | error err => exact ⟨htrace, fun h => by cases hkept h⟩
  | ok found =>
    refine ends_bind_ofExcept (fun err herr => ?_) fun _ _ => ?_
    · refine ⟨by rw [append_nil]; exact htrace, fun h => ?_⟩
      cases hkept h
      rw [hstores.validates hcount hfits] at herr
      cases herr
    · refine ⟨?_, fun h => ?_⟩
      · rw [appended_append, htrace]
        rfl
      · exact hkept h

/-- **A repeated publish** appends nothing, and is answered with the records of the first one as long
as they are there. -/
theorem publish_repeat_ends (hinv : WorldInv w) {cmd : Command} {publish : Publish}
    (hpublish : cmd.publish = some publish) (hlive : Live w publish.identity state)
    (hrepeats : publish.Repeats batch) (hcount : 0 < batch.recordCount)
    (hfits : batch.baseSequence + batch.recordCount ≤ maxUint64)
    (hfind : findPublishedBatch ⟨batch.topic, batch.partition⟩ batch.baseSequence batch.recordCount
      state.publishedBatches = .ok (some batch)) {records : List Record}
    (hstores : Stores publish.identity batch records) :
    Ends step (cmd.apply cfg) w fun r _ trace => appended trace = [] ∧
      (cmd.payloadAccepted cfg → Retained cfg w publish.tp records →
        ∃ reply, r = .ok reply ∧ reply.records = records) := by
  have hload := loadWritableTransaction_repeat_ends cfg hlive hrepeats hcount hfind
  have hread := readPublishedBatch_ends cfg hinv.tick hstores hcount hfits
  rw [hrepeats.tp] at hread
  have hlength := hstores.length
  cases cmd with
  | txPublish req =>
    cases hpublish
    apply ends_replyWith
    unfold applyTxPublish
    apply ends_bind
    apply hload.mono
    rintro r w' trace ⟨rfl, rfl, htrace⟩
    apply ends_bind
    apply hread.mono
    rintro (err | found) w' trace' ⟨htrace', hfound⟩
    · refine ⟨by rw [appended_append, htrace, htrace']; rfl, fun _ hkept => ?_⟩
      cases hfound hkept
    · have hnil : appended (trace ++ (trace' ++ [])) = [] := by
        rw [append_nil, appended_append, htrace, htrace']
        rfl
      cases found with
      | nil =>
        refine ⟨hnil, fun _ hkept => ?_⟩
        cases hfound hkept
        rw [length_nil] at hlength
        omega
      | cons record rest =>
        refine ⟨hnil, fun _ hkept => ?_⟩
        cases hfound hkept
        -- a publish of one record, so the batch has one
        have hone : rest = [] := by
          rw [hrepeats.count] at hlength
          simpa using hlength
        exact ⟨_, rfl, by rw [hone]; rfl⟩
  | txPublishBatch req =>
    cases hpublish
    apply ends_replyWith
    unfold applyTxPublishBatch
    split
    · next hempty =>
      have hzero := hrepeats.count
      rw [show req.records.length = 0 by rw [hempty]; rfl] at hzero
      omega
    · apply ends_bind_ofExcept
      · intro err herr
        refine ⟨rfl, fun haccepted _ => ?_⟩
        rw [show validateBatchPayload cfg req.records = .ok () from haccepted] at herr
        cases herr
      · intro _ _
        apply ends_bind
        apply hload.mono
        rintro r w' trace ⟨rfl, rfl, htrace⟩
        apply ends_bind
        apply hread.mono
        rintro (err | found) w' trace' ⟨htrace', hfound⟩
        · refine ⟨by rw [appended_append, htrace, htrace']; rfl, fun _ hkept => ?_⟩
          cases hfound hkept
        · apply ends_ofExcept
          refine ⟨by rw [append_nil, appended_append, htrace, htrace']; rfl, fun _ hkept => ?_⟩
          cases hfound hkept
          have hne : records ≠ [] := by
            rintro rfl
            rw [length_nil] at hlength
            omega
          obtain ⟨first, rest, rfl⟩ := exists_cons_of_ne_nil hne
          have hresult : transactionPublishBatchResult req.identity.txID req.partition (first :: rest)
              = .ok ⟨req.identity.txID, req.partition, first :: rest, first.offset,
                ((first :: rest).getLast hne).offset, ((first :: rest).getLast hne).offset + 1⟩ := by
            unfold transactionPublishBatchResult
            rw [getLast?_eq_some_getLast hne]
            rfl
          rw [hresult]
          exact ⟨_, rfl, rfl⟩
  | _ => cases hpublish

/-! ## Exactly once -/

/-- What a client may expect of the publishes of its transactions, after a run from `w0`. -/
structure ExactlyOnce (cfg : Config) (w0 : World) (cmds : List Command) : Prop where
  /-- The batches of an open transaction tile its sequence numbers. -/
  tiles : ∀ txID a, (applyCommands cfg cmds w0).transaction txID = some a → a.status = .open →
    Tiles 0 a.publishedBatches a.nextSequence
  /-- A publish that repeats a batch appends nothing, and is answered with the records that were
  appended for the batch as long as they are there. -/
  repeated : ∀ cmd publish, cmd.publish = some publish →
    ∀ a, Live (applyCommands cfg cmds w0) publish.identity a →
    ∀ batch ∈ a.publishedBatches, publish.Repeats batch →
      appended (Prog.trace step (cmd.apply cfg) (applyCommands cfg cmds w0)) = [] ∧
      ∃ records, Stores publish.identity batch records ∧
        records.map (fun record => (publish.tp, record))
          <:+: appended (runTrace cfg (cmds.map .command) w0) ∧
        (cmd.payloadAccepted cfg → Retained cfg (applyCommands cfg cmds w0) publish.tp records →
          ∃ reply, (applyCommand cfg cmd (applyCommands cfg cmds w0)).1 = .ok reply ∧
            reply.records = records)
  /-- No two data records of a transaction carry the same sequence number. -/
  once : ∀ txID, (sequencesOf txID (appended (runTrace cfg (cmds.map .command) w0))).Nodup

/-- **Exactly once.** A broker starts with the logs that it finds and without transactions. In every
run of transactions in which no publish and no marker takes up the last offset of a partition, and no
publish the last sequence number, each publish counts once. -/
theorem publishes_exactly_once (cfg : Config) (w0 : World) (hinv : WorldInv w0)
    (hnone : ∀ txID, w0.transaction txID = none) (cmds : List Command)
    (hcmds : ∀ cmd ∈ cmds, cmd.transactional = true) (hfits : RunFits cfg cmds w0) :
    ExactlyOnce cfg w0 cmds := by
  have hledger := (Ledger.start hinv hnone).run hcmds hfits
  refine ⟨fun txID a ha hopen => ?_, fun cmd publish hpublish a hlive batch hbatch hrepeats => ?_,
    fun txID => ?_⟩
  · have haccounted := hledger.present txID a ha
    rw [haccounted.next hopen]
    exact haccounted.tiles
  · have haccounted := hledger.present _ a hlive.1.stored
    obtain ⟨records, hstores, hinfix⟩ := haccounted.stored batch hbatch
    rw [hlive.1.identity_eq hledger.inv.keyed] at hstores
    rw [hrepeats.tp] at hinfix
    obtain ⟨-, hcount, hbounds⟩ := haccounted.tiles.bounds.2 batch hbatch
    have hfind := haccounted.tiles.find haccounted.fits hbatch
    obtain ⟨happended, hreply⟩ := publish_repeat_ends cfg hledger.world hpublish hlive hrepeats hcount
      (hbounds.trans haccounted.fits) hfind hstores
    exact ⟨happended, records, hstores, hinfix, hreply⟩
  · cases hfound : (applyCommands cfg cmds w0).transaction txID with
    | none =>
      rw [hledger.absent txID hfound]
      exact nodup_nil
    | some a =>
      have hsequences := (hledger.present txID a hfound).sequences
      rw [(hledger.inv.keyed.key txID a hfound).1] at hsequences
      rw [hsequences]
      exact nodup_range

/-- A transaction with two publishes, of which the first is sent twice. -/
def invoiceRun : List Command :=
  [.createTopic (newTopicConfig "orders"), .txBegin ⟨"billing", 0⟩,
    .txPublish ⟨⟨1, 1, 0⟩, 0, "orders", 0, { payload := [1] }⟩,
    .txPublish ⟨⟨1, 1, 0⟩, 0, "orders", 0, { payload := [1] }⟩,
    .txPublishBatch ⟨⟨1, 1, 0⟩, 1, "orders", 0, [{ payload := [2] }, { payload := [3] }]⟩]

theorem publishes_exactly_once_invoice :
    ExactlyOnce {} (World.fresh {} stillEnv) invoiceRun ∧
      sequencesOf 1 (appended (runTrace {} (invoiceRun.map .command) (World.fresh {} stillEnv)))
        = [0, 1, 2] := by
  have hnone : ∀ txID, (World.fresh {} stillEnv).transaction txID = none := by
    intro txID
    simp [World.transaction, World.fresh]
  have hfits : RunFits {} invoiceRun (World.fresh {} stillEnv) := by
    -- only the publishes have something to show, and their partition is held by the broker's own log
    refine ⟨⟨⟨by decide +kernel, fun publish h => (by cases h)⟩,
      ⟨by decide +kernel, fun publish h => (by cases h)⟩, ⟨by decide +kernel, ?_⟩,
      ⟨by decide +kernel, ?_⟩, ⟨by decide +kernel, ?_⟩, trivial⟩, by decide +kernel⟩
    all_goals
      rintro publish ⟨⟩
      refine ⟨by decide, ?_⟩
      rintro log ⟨⟩
      decide +kernel
  exact ⟨publishes_exactly_once {} _ (WorldInv.fresh {} stillEnv) hnone invoiceRun (by decide) hfits,
    by decide +kernel⟩

/-- A broker with a topic of two partitions, of which the first has one offset left. -/
def lastOffsetWorld : World :=
  let topic := { newTopicConfig "orders" with partitions := 2 }
  let w := (applyCommand {} (.createTopic topic) (World.fresh {} stillEnv)).2
  { w with log := (w.log.replacePartition ⟨topic, ⟨"orders", 0⟩, [], maxUint64⟩).2 }

lemma inv_lastOffsetWorld : WorldInv lastOffsetWorld := by
  have hcreated : WorldInv (applyCommand {} (.createTopic
      { newTopicConfig "orders" with partitions := 2 }) (World.fresh {} stillEnv)).2 :=
    (WorldInv.fresh {} stillEnv).applyCommand {} _
  exact ⟨hcreated.metadata, inv_replacePartition hcreated.log _, hcreated.shards⟩

/-- A publish to the last offset of a partition fails after its record was appended, so the sequence
number is free for a second record. -/
theorem last_offset_published_twice :
    let cmds : List Command := [.txBegin ⟨"billing", 0⟩,
      .txPublish ⟨⟨1, 1, 0⟩, 0, "orders", 0, { payload := [1] }⟩,
      .txPublish ⟨⟨1, 1, 0⟩, 0, "orders", 1, { payload := [1] }⟩]
    WorldInv lastOffsetWorld ∧ (∀ txID, lastOffsetWorld.transaction txID = none) ∧
      (∀ cmd ∈ cmds, cmd.transactional = true) ∧ ¬ ExactlyOnce {} lastOffsetWorld cmds := by
  intro cmds
  refine ⟨inv_lastOffsetWorld, fun txID => ?_, by decide, fun honce => ?_⟩
  · have hkeeps : SameTransactions (World.fresh {} stillEnv) ((Activity.command (.createTopic
        { newTopicConfig "orders" with partitions := 2 })).run {} (World.fresh {} stillEnv)) :=
      keepsTable_activity (by decide) (by decide)
        (by simp [Activity.footprint, Command.footprint]) {} _
    refine (hkeeps.transaction txID).trans ?_
    simp [World.transaction, World.fresh]
  · have htwice : sequencesOf 1 (appended (runTrace {} (cmds.map .command) lastOffsetWorld))
        = [0, 0] := by decide +kernel
    have hnodup := honce.once 1
    rw [htwice] at hnodup
    simp at hnodup

end Ech0.Broker
