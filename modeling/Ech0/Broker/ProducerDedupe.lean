/-
  Idempotent producers.

  A producer numbers its records. The broker keeps the batches of a producer that it has appended to
  a partition, and takes a new one for a repeat if its first number lies in the interval of one of
  them. It does not look at the numbers after the first, so a batch that starts below an interval and
  reaches into it is appended, and the numbers that they share are in the log twice. Where no batch
  starts inside a later one's interval the intervals stay apart, and each number is carried by one
  record (`carried_once`).
-/
import Ech0.Broker.Appends

set_option autoImplicit false

namespace Ech0.Broker

open Ech0.Lib Ech0.Store StorxLogStore Prog List MemoryStore World

variable (cfg : Config)

/-! ## The batches of the window -/

/-- The batch is in the table. -/
def World.HasBatch (w : World) (batch : ProducerPublishedBatch) : Prop :=
  w.metadata.producerBatches[producerBatchKey batch]? = some batch

/-- The batches of the producer in the partition. -/
def World.window (w : World) (id : ProduceIdempotency) (tp : TopicPartition) :
    List ProducerPublishedBatch :=
  w.metadata.listProducerBatches (dedupeFilter id tp)

variable {w : World}

lemma hasBatch_of_get (hinv : MemInv w.metadata) {key : String} {batch : ProducerPublishedBatch}
    (h : w.metadata.producerBatches[key]? = some batch) : w.HasBatch batch := by
  unfold World.HasBatch
  rw [(hinv.producerBatches key batch h).1]
  exact h

variable {id : ProduceIdempotency} {tp : TopicPartition}

lemma mem_window (hinv : MemInv w.metadata) (hid : id.producerID ≠ 0) (htopic : tp.topic ≠ "")
    {batch : ProducerPublishedBatch} :
    batch ∈ w.window id tp ↔ w.HasBatch batch ∧ batch.producerID = id.producerID ∧
      (⟨batch.topic, batch.partition⟩ : TopicPartition) = tp := by
  have hmatch : producerBatchMatchesFilter batch (dedupeFilter id tp) = true ↔
      batch.producerID = id.producerID ∧ (⟨batch.topic, batch.partition⟩ : TopicPartition) = tp := by
    cases tp
    simp only [dedupeFilter] at *
    simp [producerBatchMatchesFilter, hid, htopic]
  unfold window listProducerBatches
  rw [mem_insertionSort, mem_filter, hmatch, mem_map]
  constructor
  · rintro ⟨⟨⟨key, found⟩, hfound, rfl⟩, hrest⟩
    exact ⟨hasBatch_of_get hinv ((Map.mem_toList _ _ _).mp hfound), hrest⟩
  · rintro ⟨hbatch, hrest⟩
    exact ⟨⟨(_, batch), (Map.mem_toList _ _ _).mpr hbatch, rfl⟩, hrest⟩

lemma nodup_window (hinv : MemInv w.metadata) (id : ProduceIdempotency) (tp : TopicPartition) :
    (w.window id tp).Nodup := by
  have hall : ((w.metadata.producerBatches.toList.map Prod.snd).map producerBatchKey).Nodup :=
    hinv.producerBatches.nodup_of_perm (List.Perm.refl _)
  unfold window listProducerBatches
  rw [(perm_insertionSort _ _).nodup_iff]
  exact (List.Nodup.of_map _ hall).filter _

variable {count : Nat}

/-- One round of the search: it ends with the batch, or the first number lies outside. -/
lemma findProducerPublishedBatch_cons {first : ProducerPublishedBatch}
    {rest : List ProducerPublishedBatch} {found : Option ProducerPublishedBatch}
    (h : findProducerPublishedBatch id count (first :: rest) = .ok found) :
    (found = some first ∧ first.producerEpoch = id.producerEpoch ∧
        first.baseSequence = id.baseSequence ∧ first.recordCount = count) ∨
      (findProducerPublishedBatch id count rest = .ok found ∧
        (first.producerEpoch = id.producerEpoch → ¬ (first.baseSequence ≤ id.baseSequence ∧
          id.baseSequence < first.baseSequence + first.recordCount))) := by
  rw [findProducerPublishedBatch] at h
  split at h
  · next hne => exact .inr ⟨h, fun hepoch => absurd hepoch hne⟩
  · next hepoch =>
    obtain ⟨overlaps, hoverlaps, h⟩ := Except.bind_eq_ok.mp h
    split at h
    · split at h
      · cases h
      · next hmatch =>
        cases h
        simp only [not_or, not_not] at hmatch
        exact .inl ⟨rfl, not_not.mp hepoch, hmatch⟩
    · next hout =>
      obtain ⟨next, hnext, hoverlaps⟩ := Except.bind_eq_ok.mp hoverlaps
      unfold sequenceAfterCount at hnext
      split at hnext
      · cases hnext
      · cases hnext
        cases hoverlaps
        exact .inr ⟨h, fun _ => by simpa using hout⟩

variable {batches : List ProducerPublishedBatch}

/-- A batch is new if its first number lies in no interval of the window. -/
lemma findProducerPublishedBatch_none (h : findProducerPublishedBatch id count batches = .ok none) :
    ∀ batch ∈ batches, batch.producerEpoch = id.producerEpoch →
      ¬ (batch.baseSequence ≤ id.baseSequence ∧
        id.baseSequence < batch.baseSequence + batch.recordCount) := by
  induction batches with
  | nil => exact fun batch hbatch => by cases hbatch
  | cons first rest ih =>
    obtain ⟨hfound, -⟩ | ⟨hrest, hout⟩ := findProducerPublishedBatch_cons h
    · cases hfound
    · exact forall_mem_cons.mpr ⟨hout, ih hrest⟩

/-- The batch that a repeat repeats. -/
lemma findProducerPublishedBatch_some {batch : ProducerPublishedBatch}
    (h : findProducerPublishedBatch id count batches = .ok (some batch)) :
    batch ∈ batches ∧ batch.producerEpoch = id.producerEpoch ∧
      batch.baseSequence = id.baseSequence ∧ batch.recordCount = count := by
  induction batches with
  | nil => cases h
  | cons first rest ih =>
    obtain ⟨hfound, hbatch⟩ | ⟨hrest, -⟩ := findProducerPublishedBatch_cons h
    · cases hfound
      exact ⟨mem_cons_self, hbatch⟩
    · exact (ih hrest).imp_left (mem_cons_of_mem first)

/-! ## One batch -/

/-- The numbers of a producer's batch, in a partition. -/
structure Carried where
  tp : TopicPartition
  producerID : Nat
  producerEpoch : Nat
  sequence : Nat
  deriving DecidableEq

def ProduceIdempotency.number (id : ProduceIdempotency) (tp : TopicPartition) (index : Nat) : Carried :=
  ⟨tp, id.producerID, id.producerEpoch, id.baseSequence + index⟩

/-- What the window says of a number. -/
def Covers (batch : ProducerPublishedBatch) (c : Carried) : Prop :=
  (⟨batch.topic, batch.partition⟩ : TopicPartition) = c.tp ∧ batch.producerID = c.producerID ∧
    batch.producerEpoch = c.producerEpoch ∧ batch.baseSequence ≤ c.sequence ∧
    c.sequence < batch.baseSequence + batch.recordCount

/-- A batch of the request. -/
structure BatchOf (id : ProduceIdempotency) (tp : TopicPartition) (count : Nat)
    (batch : ProducerPublishedBatch) : Prop where
  producerID : batch.producerID = id.producerID
  producerEpoch : batch.producerEpoch = id.producerEpoch
  tp : (⟨batch.topic, batch.partition⟩ : TopicPartition) = tp
  baseSequence : batch.baseSequence = id.baseSequence
  recordCount : batch.recordCount = count

lemma BatchOf.covers_iff {batch : ProducerPublishedBatch} (h : BatchOf id tp count batch)
    (c : Carried) : Covers batch c ↔ ∃ index < count, c = id.number tp index := by
  unfold Covers
  rw [h.tp, h.producerID, h.producerEpoch, h.baseSequence, h.recordCount]
  constructor
  · rintro ⟨htp, hproducer, hepoch, hle, hlt⟩
    refine ⟨c.sequence - id.baseSequence, by omega, ?_⟩
    cases c
    simp only [ProduceIdempotency.number, Carried.mk.injEq] at *
    exact ⟨htp.symm, hproducer.symm, hepoch.symm, by omega⟩
  · rintro ⟨index, hlt, rfl⟩
    exact ⟨rfl, rfl, rfl, Nat.le_add_right _ _, Nat.add_lt_add_left hlt _⟩

/-- An idempotent batch repeats one of the window, is refused, or is appended and gets into the
window. -/
inductive DedupeEnds (id : ProduceIdempotency) (tp : TopicPartition) (count : Nat) (w : World)
    (accepted : Bool) (w' : World) (trace : List Call) : Prop
  | kept (hsame : KeepsTable .producerBatches w w') (hnil : appended trace = [])
      (hrepeat : accepted = true → ∃ batch ∈ w.window id tp, BatchOf id tp count batch)
  | added (batch : ProducerPublishedBatch) (stored : List Record)
      (hbatch : BatchOf id tp count batch)
      (hinsert : w'.metadata.producerBatches
        = w.metadata.producerBatches.insert (producerBatchKey batch) batch)
      (hnew : findProducerPublishedBatch id count (w.window id tp) = .ok none)
      (hid : id.producerID ≠ 0) (htopic : tp.topic ≠ "") (hlength : stored.length = count)
      (hentries : appended trace = stored.map fun record => (tp, record))

/-- There is room in the window for a batch that is not a repeat. -/
def RoomInWindow (w : World) (id : ProduceIdempotency) (tp : TopicPartition) (count : Nat) : Prop :=
  findProducerPublishedBatch id count (w.window id tp) = .ok none →
    (w.window id tp).length < producerDedupeWindowBatches

/-- The offsets of the batch do not reach the end of their range. -/
def OffsetsFit (cfg : Config) (w : World) (tp : TopicPartition) (count : Nat) : Prop :=
  ∀ log, w.logAt (w.holder cfg tp) = .ok log → log.nextOffset tp + count ≤ maxUint64

/-- What was stored below the last offset makes a batch that the table takes. -/
lemma newProducerPublishedBatch_of_stored (nowMS : Nat) {base : Nat} {records : List Record}
    (hne : records ≠ []) (hoffsets : records.map Record.offset = List.range' base records.length)
    (hfits : base + records.length ≤ maxUint64) (hid : id.producerID ≠ 0) (htopic : tp.topic ≠ "") :
    ∃ batch, newProducerPublishedBatch nowMS id tp records = .ok batch ∧
      BatchOf id tp records.length batch ∧ validateProducerBatch batch = .ok () ∧
      batch.baseOffset = base ∧ batch.lastOffset + 1 = base + records.length ∧
      batch.updatedAtMS = nowMS := by
  have hlength : 0 < records.length := length_pos_iff.mpr hne
  obtain ⟨first, last, hfirst, hlast, hbase, hend⟩ := first_last_of_offsets hne hoffsets
  have hcontiguous : validateProducerPublishedOffsets first.offset records = .ok () :=
    validateContiguousOffsets_ok _ _ records (by rw [hbase]; exact hoffsets) (by omega)
  have hcount : producerRecordCount records.length = .ok records.length := by
    unfold producerRecordCount
    rw [if_neg (by omega)]
  unfold newProducerPublishedBatch
  rw [hfirst, hlast]
  simp only [hcontiguous, hcount, bind, Except.bind]
  rw [if_neg (by omega)]
  refine ⟨_, rfl, ⟨rfl, rfl, rfl, rfl, rfl⟩, ?_, hbase, by dsimp only; omega, rfl⟩
  unfold validateProducerBatch
  dsimp only
  rw [if_neg hid, if_neg htopic, if_neg (by omega), if_neg (by omega), if_neg (by omega),
    if_neg (by omega)]

/-- The world with a batch put into its table. -/
def World.withBatch (w : World) (batch : ProducerPublishedBatch) : World :=
  { w with metadata := { w.metadata with
      producerBatches := w.metadata.producerBatches.insert (producerBatchKey batch) batch } }

lemma exec_saveProducerBatch {batch : ProducerPublishedBatch}
    (h : validateProducerBatch batch = .ok ()) :
    exec step (wrapBroker "save producer batch" (onMeta (.saveProducerBatch batch))) w
      = (.ok (), w.withBatch batch) := by
  have hsave : w.metadata.saveProducerBatch batch = .ok (w.withBatch batch).metadata := by
    unfold saveProducerBatch
    rw [h]
    rfl
  change (((MetaOp.saveProducerBatch batch).run w.metadata).1.mapError _,
    { w with metadata := ((MetaOp.saveProducerBatch batch).run w.metadata).2 }) = _
  simp only [MetaOp.run, hsave]
  rfl

/-- A window with room for one more is not pruned when it gets one. -/
lemma length_window_withBatch (hinv : MemInv w.metadata) (hid : id.producerID ≠ 0)
    (htopic : tp.topic ≠ "") {batch : ProducerPublishedBatch}
    (hvalid : validateProducerBatch batch = .ok ()) :
    ((w.withBatch batch).window id tp).length ≤ (w.window id tp).length + 1 := by
  have hinv' : MemInv (w.withBatch batch).metadata :=
    { hinv with producerBatches := hinv.producerBatches.insert hvalid }
  have hsubset : (w.withBatch batch).window id tp ⊆ batch :: w.window id tp := by
    intro found hfound
    obtain ⟨hin, hrest⟩ := (mem_window hinv' hid htopic).mp hfound
    rw [World.HasBatch, withBatch, Map.get_insert] at hin
    split at hin
    · rw [Option.some.inj hin]
      exact mem_cons_self
    · exact mem_cons_of_mem batch ((mem_window hinv hid htopic).mpr ⟨hin, hrest⟩)
  exact ((nodup_window hinv' id tp).subperm hsubset).length_le

lemma exec_listBatches (context : String) (w : World) : exec step (wrapBroker context
      (onMeta (.listProducerBatches (dedupeFilter id tp)))) w = (.ok (w.window id tp), w) := rfl

lemma exec_pruneProducerDedupeWindow (h : (w.window id tp).length ≤ producerDedupeWindowBatches) :
    exec step (pruneProducerDedupeWindow id tp) w = (.ok (), w) := by
  unfold pruneProducerDedupeWindow
  refine (exec_bind_ok step (exec_listBatches _ w)).trans ?_
  rw [if_pos h]
  rfl

/-- Programs that append nothing. -/
lemma dedupe_appends_nothing : Parts.Dedupe (Makes step (AppendsOnly fun _ _ => False)) cfg where
  now := appendsOnly_perform rfl
  list _ := appendsOnly_perform rfl
  save _ := appendsOnly_perform rfl
  delete _ := appendsOnly_perform rfl
  read := Runtime.readFrom appendsOnly_quiet (appendsOnly_closed _)

lemma saveProducerDedupeBatch_ends (cfg : Config) (hinv : WorldInv w) (hid : id.producerID ≠ 0)
    (htopic : tp.topic ≠ "") {base : Nat} {records : List Record} (hne : records ≠ [])
    (hoffsets : records.map Record.offset = List.range' base records.length)
    (hfits : base + records.length ≤ maxUint64)
    (hroom : (w.window id tp).length < producerDedupeWindowBatches) :
    Ends step (saveProducerDedupeBatch id tp records) w fun r w' trace =>
      r = .ok () ∧ appended trace = [] ∧ ∃ batch, BatchOf id tp records.length batch ∧
        w'.metadata.producerBatches
          = w.metadata.producerBatches.insert (producerBatchKey batch) batch := by
  have hcalls : ∀ call ∈ Prog.trace step (saveProducerDedupeBatch id tp records) w,
      AppendsOnly (fun _ _ => False) call :=
    Parts.saveProducerDedupeBatch (appendsOnly_closed _) (dedupe_appends_nothing cfg) w
  obtain ⟨batch, hbatch, hof, hvalid, -⟩ :=
    newProducerPublishedBatch_of_stored (w.env.clock 0) hne hoffsets hfits hid htopic
  have hshort := length_window_withBatch hinv.tick.metadata hid htopic hvalid
  have hprune : exec step (pruneProducerDedupeWindow id tp)
      (w.tick.withBatch batch) = (.ok (), w.tick.withBatch batch) :=
    exec_pruneProducerDedupeWindow (hshort.trans hroom)
  have hrun : exec step (saveProducerDedupeBatch id tp records) w
      = (.ok (), w.tick.withBatch batch) := by
    unfold saveProducerDedupeBatch
    refine (exec_bind_ok step (exec_nowMS w)).trans ?_
    rw [hbatch]
    exact (exec_bind_ok step (exec_saveProducerBatch hvalid)).trans hprune
  unfold Ends
  rw [hrun]
  exact ⟨rfl, appended_eq_nil hcalls, batch, hof, rfl⟩

lemma loadProducerDedupeBatches_ends :
    Ends step (loadProducerDedupeBatches tp id count) w fun r w' trace =>
      w' = w ∧ appended trace = [] ∧
        ∀ batches, r = .ok batches → batches = w.window id tp ∧ id.producerID ≠ 0 := by
  unfold loadProducerDedupeBatches
  apply ends_bind_ofExcept
  · intro err _
    exact ⟨rfl, rfl, nofun⟩
  · intro _ hvalid
    have hid : id.producerID ≠ 0 := by
      intro hzero
      unfold validateProduceIdempotency at hvalid
      rw [if_pos hzero] at hvalid
      cases hvalid
    apply ends_bind_ok (exec_listBatches _ w)
    apply ends_bind_ofExcept
    · intro err _
      exact ⟨rfl, rfl, nofun⟩
    · intro _ _
      refine ⟨rfl, rfl, fun batches h => ?_⟩
      cases h
      exact ⟨rfl, hid⟩

lemma readProducerPublishedBatch_ends (batch : ProducerPublishedBatch) (w : World) :
    Ends step (readProducerPublishedBatch cfg batch) w fun _ w' trace =>
      KeepsTable .producerBatches w w' ∧ appended trace = [] := by
  have hquiet : ∀ (op : Op), op.quiet → Advances (ε := Error) step (KeepsTable .producerBatches)
      _ (ask op) := fun op hop =>
    keepsTable_runtime (by decide) (by decide) op (Op.runtime_of_quiet hop)
  have hkeeps : Advances step (KeepsTable .producerBatches) _
      (readProducerPublishedBatch cfg batch) :=
    Parts.readProducerPublishedBatch (keepsTable_closed _)
      (Runtime.readFrom hquiet (keepsTable_closed _))
  have hcalls : Makes step (AppendsOnly fun _ _ => False) _
      (readProducerPublishedBatch cfg batch) :=
    Parts.readProducerPublishedBatch (appendsOnly_closed _) (dedupe_appends_nothing cfg).read
  exact ⟨hkeeps w, appended_eq_nil (hcalls w)⟩

lemma appendIdempotentProduceBatch_ends (hinv : WorldInv w)
    (htopic : tp.topic ≠ "") {records : List RecordAppend}
    (hroom : RoomInWindow w id tp records.length) (hfits : OffsetsFit cfg w tp records.length) :
    Ends step (appendIdempotentProduceBatch cfg tp id records) w fun r w' trace =>
      DedupeEnds id tp records.length w r.isOk w' trace := by
  have hrefused : ∀ {w'}, KeepsTable .producerBatches w w' → ∀ {trace}, appended trace = [] →
      DedupeEnds id tp records.length w false w' trace :=
    fun hsame _ hnil => .kept hsame hnil nofun
  unfold appendIdempotentProduceBatch
  apply ends_bind_ofExcept
  · intro err _
    exact hrefused rfl rfl
  · intro count hcount
    obtain ⟨hne, rfl⟩ : records.length ≠ 0 ∧ count = records.length := by
      unfold producerRecordCount at hcount
      split at hcount
      · cases hcount
      · next hne => exact ⟨hne, (Except.ok.inj hcount).symm⟩
    apply ends_bind
    apply loadProducerDedupeBatches_ends.mono
    rintro (err | batches) w' trace ⟨rfl, hnil, hbatches⟩
    · exact hrefused rfl hnil
    · obtain ⟨rfl, hid⟩ := hbatches batches rfl
      apply ends_bind_ofExcept
      · intro err _
        rw [append_nil]
        exact hrefused rfl hnil
      · intro found hfind
        cases found with
        | some batch =>
          obtain ⟨hmem, hepoch, hbase, hcount⟩ := findProducerPublishedBatch_some hfind
          obtain ⟨-, hproducer, htp⟩ := (mem_window hinv.metadata hid htopic).mp hmem
          apply ends_bind
          apply (readProducerPublishedBatch_ends cfg batch w').mono
          rintro (err | published) w1 trace' ⟨hsame, hnil'⟩
          · apply hrefused hsame
            rw [appended_append, hnil, hnil']
            rfl
          · refine .kept hsame ?_ fun _ => ⟨batch, hmem, hproducer, hepoch, htp, hbase, hcount⟩
            rw [appended_append, appended_append, hnil, hnil']
            rfl
        | none =>
          apply ends_bind
          apply (published_mapError_ends (publishBatchRecords_ends cfg hinv tp records)
            (Error.wrap "publish record batch")).mono
          rintro (err | appends) w1 trace' (⟨log, stored, log', hlog, happend, hr, hentries, hwrote⟩ |
            ⟨-, ⟨err', hr⟩, hlooked, hentries⟩)
          · cases hr
          · apply hrefused (congrArg (fun s => table s .producerBatches) hlooked.metadata)
            rw [appended_append, hnil, hentries]
            rfl
          · obtain rfl : appends = stored := Except.ok.inj hr
            obtain ⟨hspec, hstored⟩ := appendRecordsBatch_spec (hinv.logAt hlog) happend
            have hfull : appends ≠ [] := by
              rintro rfl
              exact hne hstored.symm
            have hend := hfits log hlog
            have hwindow : w1.window id tp = w'.window id tp := by
              unfold window
              rw [hwrote.metadata]
            apply ends_bind
            apply (saveProducerDedupeBatch_ends cfg (hwrote.inv hinv hspec.inv) hid htopic hfull
              hspec.offsets (by omega) (by rw [hwindow]; exact hroom hfind)).mono
            rintro r w2 trace'' ⟨rfl, hnil'', batch, hbatch, hinsert⟩
            rw [hstored] at hbatch
            apply ends_pure
            refine .added batch appends hbatch (by rw [hinsert, hwrote.metadata]) hfind hid htopic
              hstored ?_
            rw [append_nil, appended_append, appended_append, hnil, hnil'', hentries,
              nil_append, append_nil]
          · cases hr

/-! ## Produce commands -/

/-- The batch that a produce command asks for. -/
def Command.batch : Command → Option ProduceBatchCommand
  | produce req => some ⟨req.topic, req.partitioning, [req.record], req.idempotency⟩
  | produceBatch req => some req
  | _ => none

/-- The partition that a batch goes to. -/
def routed (cfg : Config) (w : World) (req : ProduceBatchCommand) : Option TopicPartition :=
  (Prog.exec step (planProduceBatch cfg 0 req) w).1.toOption.map ProduceBatchPlan.tp

def Reply.partition : Reply → Option UInt32
  | produced result => some result.partition
  | producedBatch result => some result.partition
  | _ => none

/-- Only the environment has changed, a cursor for one. -/
def OnlyEnv (w w' : World) : Prop := ∃ env, w' = { w with env := env }

lemma onlyEnv_closed : Closed (Advances (I := calls) (ε := Error) step OnlyEnv) := by
  apply advances_closed step (fun w => ⟨w.env, rfl⟩)
  rintro w1 w2 w3 ⟨env, rfl⟩ ⟨env', rfl⟩
  exact ⟨env', rfl⟩

/-- A batch that is routed goes to a topic that is there, and keeps its size. -/
lemma planProduceBatch_ends (hinv : MemInv w.metadata) (index : Nat) (req : ProduceBatchCommand) :
    Ends step (planProduceBatch cfg index req) w fun r w' trace =>
      OnlyEnv w w' ∧ appended trace = [] ∧ ∀ plan, r = .ok plan → plan.tp.topic = req.topic ∧
        req.topic ≠ "" ∧ plan.request.records.length = req.records.length := by
  have hC := appendsOnly_closed fun _ _ => False
  have honly : Advances step OnlyEnv _ (planProduceBatch cfg index req) :=
    Parts.planProduceBatch onlyEnv_closed (fun w => ⟨w.env, rfl⟩) fun _ _ _ => ⟨_, rfl⟩
  have hcalls : Makes step (AppendsOnly fun _ _ => False) _ (planProduceBatch cfg index req) :=
    Parts.planProduceBatch hC (appendsOnly_perform rfl) fun _ _ => appendsOnly_perform rfl
  refine ⟨honly w, appended_eq_nil (hcalls w), fun plan hplan => ?_⟩
  have hname : req.topic ≠ "" := by
    have hrun := exec_loadTopicConfig req.topic w
    cases hload : w.metadata.loadTopicConfig req.topic with
    | none =>
      rw [hload] at hrun
      have herror : exec step (planProduceBatch cfg index req) w
          = (.error (topicNotFound req.topic), w) := exec_bind_error step hrun
      rw [herror] at hplan
      cases hplan
    | some topic => exact (hinv.topics _ ((OrderedMap.mem_entries_iff _ _ _).mpr hload)).2.1
  obtain ⟨topic, -, hrest⟩ := returns_bind (returns_of_exec step hplan)
  obtain ⟨_, -, hrest⟩ := returns_bind hrest
  obtain ⟨records, hrecords, hrest⟩ := returns_bind hrest
  obtain ⟨_, -, hrest⟩ := returns_bind hrest
  obtain ⟨_, -, hrest⟩ := returns_bind hrest
  cases returns_pure hrest
  exact ⟨rfl, hname, (sameButHeaders_normalizeRecordsPriority
    (returns_ofExcept hrecords)).length_eq.symm⟩

/-- What an idempotent produce command ends with. -/
inductive ProduceEnds (cfg : Config) (req : ProduceBatchCommand) (id : ProduceIdempotency) (w : World)
    (r : Except Error Reply) (w' : World) (trace : List Call) : Prop
  | unrouted (hsame : KeepsTable .producerBatches w w') (hnil : appended trace = [])
      (herror : r.isOk = false)
  | routed (tp : TopicPartition) (hrouted : routed cfg w req = some tp)
      (htopic : tp.topic = req.topic)
      (hends : DedupeEnds id tp req.records.length w r.isOk w' trace)
      (hreply : ∀ reply, r = .ok reply → reply.partition = some tp.partition)

lemma DedupeEnds.refused {w w' : World} {accepted : Bool} {trace : List Call}
    (h : DedupeEnds id tp count w accepted w' trace) : DedupeEnds id tp count w false w' trace := by
  cases h with
  | kept hsame hnil hrepeat => exact .kept hsame hnil nofun
  | added batch stored hbatch hinsert hnew hid htopic hlength hentries =>
    exact .added batch stored hbatch hinsert hnew hid htopic hlength hentries

/-- The batch was routed before, which moves a cursor and appends nothing. -/
lemma DedupeEnds.after {w w' : World} {env : Env} {accepted : Bool} {before trace : List Call}
    (h : DedupeEnds id tp count { w with env := env } accepted w' trace)
    (hbefore : appended before = []) : DedupeEnds id tp count w accepted w' (before ++ trace) := by
  cases h with
  | kept hsame hnil hrepeat => exact .kept hsame (by rw [appended_append, hbefore, hnil]; rfl) hrepeat
  | added batch stored hbatch hinsert hnew hid htopic hlength hentries =>
    exact .added batch stored hbatch hinsert hnew hid htopic hlength
      (by rw [appended_append, hbefore, hentries]; rfl)

/-- Each batch that is routed finds room in the window of its partition, and offsets. -/
structure Roomy (cfg : Config) (w : World) (req : ProduceBatchCommand) (id : ProduceIdempotency) :
    Prop where
  window : ∀ tp, routed cfg w req = some tp → RoomInWindow w id tp req.records.length
  offsets : ∀ tp, routed cfg w req = some tp → OffsetsFit cfg w tp req.records.length

variable {req : ProduceBatchCommand}

lemma applyProduceBatch_ends (hinv : WorldInv w) (hid : req.idempotency = some id)
    (hroomy : Roomy cfg w req id) : Ends step (applyProduceBatch cfg req) w fun r w' trace =>
      ProduceEnds cfg req id w (r.map Reply.producedBatch) w' trace := by
  have hplan : Ends step (planProduceBatch cfg 0 req) w fun r _ _ =>
      r.toOption.map ProduceBatchPlan.tp = routed cfg w req := rfl
  unfold applyProduceBatch applyProduceBatchInternal
  apply ends_bind
  apply ends_bind
  apply (hplan.and (planProduceBatch_ends cfg hinv.metadata 0 req)).mono
  rintro (err | plan) w1 trace ⟨hrouted, ⟨env, rfl⟩, hnil, hreturns⟩
  · exact .unrouted rfl hnil rfl
  · obtain ⟨htopic, hname, hlength⟩ := hreturns plan rfl
    have hrouted' : routed cfg w req = some plan.tp := hrouted.symm
    rw [hid]
    apply ends_bind
    have hinv' : WorldInv { w with env := env } := ⟨hinv.metadata, hinv.log, hinv.shards⟩
    have hroom := hroomy.window plan.tp hrouted'
    have hfits := hroomy.offsets plan.tp hrouted'
    rw [← hlength] at hroom hfits
    apply (appendIdempotentProduceBatch_ends cfg hinv' (by rw [htopic]; exact hname) hroom hfits).mono
    rintro (err | ⟨records, fresh⟩) w2 trace' hends
    · rw [hlength] at hends
      exact .routed plan.tp hrouted' htopic (hends.after hnil) fun reply h => by cases h
    · rw [hlength] at hends
      apply ends_pure
      apply ends_pure
      rw [append_nil, append_nil]
      refine .routed plan.tp hrouted' htopic (hends.after hnil) fun reply h => ?_
      cases h
      rfl

/-- An idempotent produce of one record is a batch of one. -/
lemma applyProduce_ends (hinv : WorldInv w) {req : ProduceCommand} (hid : req.idempotency = some id)
    (hroomy : Roomy cfg w ⟨req.topic, req.partitioning, [req.record], some id⟩ id) :
    Ends step (applyProduce cfg req) w fun r w' trace =>
      ProduceEnds cfg ⟨req.topic, req.partitioning, [req.record], some id⟩ id w
        (r.map Reply.produced) w' trace := by
  unfold applyProduce
  rw [hid]
  apply ends_bind
  apply (applyProduceBatch_ends cfg hinv rfl hroomy).mono
  rintro (err | batch) w1 trace hends
  · exact hends
  · have hrefused : ∀ err, ProduceEnds cfg ⟨req.topic, req.partitioning, [req.record], some id⟩ id w
        (.error err) w1 trace := by
      intro err
      cases hends with
      | unrouted hsame hnil herror => exact .unrouted hsame hnil rfl
      | routed tp hrouted htopic hends hreply =>
        exact .routed tp hrouted htopic hends.refused fun reply h => by cases h
    dsimp only
    split
    · apply ends_fail
      rw [append_nil]
      exact hrefused _
    · apply ends_pure
      rw [append_nil]
      cases hends with
      | unrouted hsame hnil herror => cases herror
      | routed tp hrouted htopic hends hreply =>
        refine .routed tp hrouted htopic hends fun reply h => ?_
        cases h
        exact hreply (.producedBatch batch) rfl

/-! ## Runs -/

/-- The producer's numbers of a command. -/
def Command.numbers (cmd : Command) : Option ProduceIdempotency :=
  cmd.batch.bind ProduceBatchCommand.idempotency

/-- What the records carry that a command appends: the numbers of its batch, in their order. -/
def carriedBy (cfg : Config) (w : World) (cmd : Command) : List Carried :=
  match cmd.numbers with
  | some id => (cmd.entries cfg w).mapIdx fun index entry =>
      id.number entry.1 index
  | none => []

/-- What the records carry that a run appends. -/
def carried (cfg : Config) (cmds : List Command) (w : World) : List Carried :=
  outputs (Command.next cfg) (carriedBy cfg) cmds w

/-- The windows and the log say the same of the numbers. -/
structure Windowed (w : World) (entries : List Carried) : Prop where
  world : WorldInv w
  present : ∀ batch, w.HasBatch batch → ∀ c, Covers batch c → c ∈ entries
  covered : ∀ c ∈ entries, ∃ batch, w.HasBatch batch ∧ Covers batch c
  nodup : entries.Nodup

/-- No batch of the window starts inside the interval of the new one. -/
def StartsApart (w : World) (id : ProduceIdempotency) (tp : TopicPartition) (count : Nat) : Prop :=
  ∀ batch ∈ w.window id tp, batch.producerEpoch = id.producerEpoch →
    ¬ (id.baseSequence < batch.baseSequence ∧ batch.baseSequence < id.baseSequence + count)

lemma mapIdx_number (id : ProduceIdempotency) (tp : TopicPartition) (records : List Record) :
    (records.map fun record => (tp, record)).mapIdx (fun index entry => id.number entry.1 index)
      = (List.range records.length).map (id.number tp) := by
  apply ext_getElem
  · simp
  · intro i h1 h2
    simp

variable {entries : List Carried}

/-- The world keeps its batches, and nothing with a number is appended. -/
lemma Windowed.keep {w w' : World} (h : Windowed w entries) (hworld : WorldInv w')
    (hsame : KeepsTable .producerBatches w w') : Windowed w' entries := by
  have hbatches : w'.metadata.producerBatches = w.metadata.producerBatches := hsame
  have hiff : ∀ batch, w'.HasBatch batch ↔ w.HasBatch batch := by
    intro batch
    rw [World.HasBatch, World.HasBatch, hbatches]
  refine ⟨hworld, fun batch hbatch => h.present batch ((hiff batch).mp hbatch), fun c hc => ?_,
    h.nodup⟩
  obtain ⟨batch, hbatch, hcovers⟩ := h.covered c hc
  exact ⟨batch, (hiff batch).mpr hbatch, hcovers⟩

section
variable (hid : id.producerID ≠ 0) (htopic : tp.topic ≠ "")
  (hnew : findProducerPublishedBatch id count (w.window id tp) = .ok none)

include hid htopic hnew

/-- A batch that is new and starts apart shares no number with those of the window. -/
lemma Windowed.disjoint (h : Windowed w entries) (hapart : StartsApart w id tp count) {index : Nat}
    (hindex : index < count) : id.number tp index ∉ entries := by
  intro hmem
  obtain ⟨batch, hbatch, htp, hproducer, hepoch, hle, hlt⟩ := h.covered _ hmem
  have hwindow : batch ∈ w.window id tp :=
    (mem_window h.world.metadata hid htopic).mpr ⟨hbatch, hproducer, htp⟩
  have hout := findProducerPublishedBatch_none hnew batch hwindow hepoch
  have hinside := hapart batch hwindow hepoch
  simp only [ProduceIdempotency.number] at hle hlt
  omega

/-- The key of a batch that is new is new: a batch under the same key would have been found. -/
lemma producerBatchKey_ne_of_new (hinv : MemInv w.metadata) {batch : ProducerPublishedBatch}
    (hbatch : BatchOf id tp count batch) (found : ProducerPublishedBatch) (hfound : w.HasBatch found) :
    producerBatchKey batch ≠ producerBatchKey found := by
  intro hkey
  obtain ⟨hproducer, hepoch, htopicEq, hpartition, hbase⟩ := producerBatchKey_eq hkey
  have hcount : found.recordCount ≠ 0 := by
    have hvalid : validateProducerBatch found = .ok () :=
      (hinv.producerBatches _ found hfound).2
    intro hzero
    unfold validateProducerBatch at hvalid
    split at hvalid
    · cases hvalid
    · split at hvalid
      · cases hvalid
      · simp at hvalid
  have hwindow : found ∈ w.window id tp := by
    rw [mem_window hinv hid htopic, ← htopicEq, ← hpartition, hbatch.tp, ← hproducer,
      hbatch.producerID]
    exact ⟨hfound, rfl, rfl⟩
  have hout := findProducerPublishedBatch_none hnew found hwindow (hepoch.symm.trans hbatch.producerEpoch)
  rw [← hbase, hbatch.baseSequence] at hout
  omega

lemma Windowed.add {w' : World} (h : Windowed w entries) (hworld : WorldInv w')
    (hapart : StartsApart w id tp count) {batch : ProducerPublishedBatch}
    (hbatch : BatchOf id tp count batch) (hinsert : w'.metadata.producerBatches
      = w.metadata.producerBatches.insert (producerBatchKey batch) batch) :
    Windowed w' (entries ++ (List.range count).map (id.number tp)) := by
  have hcovers : ∀ c, Covers batch c ↔ c ∈ (List.range count).map (id.number tp) := by
    intro c
    rw [hbatch.covers_iff, mem_map]
    constructor
    · rintro ⟨index, hlt, rfl⟩
      exact ⟨index, mem_range.mpr hlt, rfl⟩
    · rintro ⟨index, hlt, rfl⟩
      exact ⟨index, mem_range.mp hlt, rfl⟩
  have hother := producerBatchKey_ne_of_new hid htopic hnew h.world.metadata hbatch
  refine ⟨hworld, fun found hfound c hc => ?_, fun c hc => ?_, ?_⟩
  · rw [World.HasBatch, hinsert] at hfound
    rcases Map.get_insert_eq_some hfound with ⟨-, rfl⟩ | ⟨-, hfound⟩
    · exact mem_append_right _ ((hcovers c).mp hc)
    · exact mem_append_left _ (h.present found hfound c hc)
  · rcases mem_append.mp hc with hc | hc
    · obtain ⟨found, hfound, hcov⟩ := h.covered c hc
      refine ⟨found, ?_, hcov⟩
      rw [World.HasBatch, hinsert, Map.get_insert_of_ne _ _ (hother found hfound)]
      exact hfound
    · refine ⟨batch, ?_, (hcovers c).mpr hc⟩
      rw [World.HasBatch, hinsert, Map.get_insert_self]
  · rw [nodup_append]
    refine ⟨h.nodup, ?_, ?_⟩
    · apply List.Nodup.map _ nodup_range
      intro i j hij
      simp only [ProduceIdempotency.number, Carried.mk.injEq] at hij
      omega
    · rintro c hc d hd rfl
      obtain ⟨index, hindex, rfl⟩ := mem_map.mp hd
      exact h.disjoint hid htopic hnew hapart (mem_range.mp hindex) hc

end

/-- The command that carries several requests at once. -/
def Command.coalesced : Command → Bool
  | produceBatches _ => true
  | _ => false

variable {cfg : Config} {cmd : Command}

/-- A command without numbers leaves the windows alone. -/
lemma keepsBatches_of_unnumbered (hcmd : cmd.coalesced = false) (hnone : cmd.numbers = none)
    (w : World) : KeepsTable .producerBatches w (applyCommand cfg cmd w).2 := by
  have hC : Closed (Advances (I := calls) (ε := Error) step
    (KeepsTable .producerBatches)) := keepsTable_closed _
  have hwithin : ∀ op : Op, op.Within ⟨[], false⟩ → Advances (ε := Error) step
      (KeepsTable .producerBatches) _ (ask op) :=
    keepsTable_within (by decide) (by decide) (by decide)
  have hcursor : ∀ topic, Advances (ε := Error) step (KeepsTable .producerBatches) _
      (ask (.nextRoundRobin topic)) := fun topic =>
    keepsTable_perform _ (by simp [Op.writes])
  have hkeeps : .producerBatches ∉ (Activity.command cmd).footprint.tables →
      KeepsTable .producerBatches w (applyCommand cfg cmd w).2 := fun h =>
    keepsTable_activity (by decide) (by decide) h cfg w
  cases cmd with
  | produce req =>
    have hid : req.idempotency = none := hnone
    exact hC.bind (Parts.applyProduce hC (Within.publish hwithin hC req.topic) trivial
      (fun h => by rw [hid] at h; cases h) fun _ => hcursor) (fun _ => hC.pure _) w
  | produceBatch req =>
    have hid : req.idempotency = none := hnone
    exact hC.bind (Parts.applyProduceBatch hC (Within.publish hwithin hC req.topic)
      (fun _ _ => trivial) (fun h => by rw [hid] at h; cases h) fun _ => hcursor)
      (fun _ => hC.pure _) w
  | produceBatches requests => cases hcmd
  | _ => exact hkeeps (by simp [Activity.footprint, Command.footprint])

/-- An idempotent command, with what it ends with. -/
lemma numbered_ends (cfg : Config) (hinv : WorldInv w) (hreq : cmd.batch = some req)
    (hid : req.idempotency = some id) (hroomy : Roomy cfg w req id) :
    Ends step (cmd.apply cfg) w fun r w' trace => ProduceEnds cfg req id w r w' trace := by
  cases cmd with
  | produce given =>
    cases hreq
    have hid' : given.idempotency = some id := hid
    rw [hid'] at hroomy ⊢
    exact ends_replyWith (applyProduce_ends cfg hinv hid' hroomy)
  | produceBatch given =>
    cases hreq
    exact ends_replyWith (applyProduceBatch_ends cfg hinv hid hroomy)
  | _ => cases hreq

/-- Each batch with numbers, if it is not a repeat, finds room in the window of its partition. -/
def Command.InWindow (cfg : Config) (w : World) (cmd : Command) : Prop :=
  ∀ req id tp, cmd.batch = some req → req.idempotency = some id → routed cfg w req = some tp →
    RoomInWindow w id tp req.records.length

/-- No batch of the window starts inside the interval of the command, and its offsets do not reach
the end of their range. -/
def Command.Apart (cfg : Config) (w : World) (cmd : Command) : Prop :=
  ∀ req id tp, cmd.batch = some req → req.idempotency = some id → routed cfg w req = some tp →
    StartsApart w id tp req.records.length ∧ OffsetsFit cfg w tp req.records.length

lemma Command.Apart.roomy (hapart : cmd.Apart cfg w) (hwindow : cmd.InWindow cfg w)
    (hreq : cmd.batch = some req) (hid : req.idempotency = some id) : Roomy cfg w req id :=
  ⟨fun tp hrouted => hwindow req id tp hreq hid hrouted,
    fun tp hrouted => (hapart req id tp hreq hid hrouted).2⟩

/-- How a command with numbers ends, and what its records carry. -/
lemma numbered_step (hinv : WorldInv w) (hwindow : cmd.InWindow cfg w) (hapart : cmd.Apart cfg w)
    (hreq : cmd.batch = some req) (hid : req.idempotency = some id) :
    ProduceEnds cfg req id w (applyCommand cfg cmd w).1 (cmd.next cfg w)
        (Prog.trace Broker.step (cmd.apply cfg) w) ∧
      carriedBy cfg w cmd = (appended (Prog.trace Broker.step (cmd.apply cfg) w)).mapIdx
        fun index entry => id.number entry.1 index := by
  refine ⟨numbered_ends cfg hinv hreq hid (hapart.roomy hwindow hreq hid), ?_⟩
  have hnumbers : cmd.numbers = some id := Option.bind_eq_some_iff.mpr ⟨req, hreq, hid⟩
  rw [carriedBy, hnumbers]
  rfl

lemma Windowed.step (h : Windowed w entries) (hcmd : cmd.coalesced = false)
    (hwindow : cmd.InWindow cfg w) (hapart : cmd.Apart cfg w) :
    Windowed (cmd.next cfg w) (entries ++ carriedBy cfg w cmd) := by
  have hworld : WorldInv (cmd.next cfg w) := h.world.applyCommand cfg cmd
  cases hnumbers : cmd.numbers with
  | none =>
    rw [carriedBy, hnumbers, append_nil]
    exact h.keep hworld (keepsBatches_of_unnumbered hcmd hnumbers w)
  | some id =>
    obtain ⟨req, hreq, hid⟩ := Option.bind_eq_some_iff.mp hnumbers
    obtain ⟨hends, hentries⟩ := numbered_step h.world hwindow hapart hreq hid
    have hkept : KeepsTable .producerBatches w (cmd.next cfg w) →
        appended (Prog.trace Broker.step (cmd.apply cfg) w) = [] →
        Windowed (cmd.next cfg w) (entries ++ carriedBy cfg w cmd) := by
      intro hsame hnil
      rw [hentries, hnil, mapIdx_nil, append_nil]
      exact h.keep hworld hsame
    cases hends with
    | unrouted hsame hnil herror => exact hkept hsame hnil
    | routed tp hrouted htopic hends hreply =>
      cases hends with
      | kept hsame hnil hrepeat => exact hkept hsame hnil
      | added batch stored hbatch hinsert hnew hne hname hlength happended =>
        rw [hentries, happended, mapIdx_number, hlength]
        exact h.add hne hname hnew hworld (hapart req id tp hreq hid hrouted).1 hbatch hinsert

/-- The numbers of a command that is accepted are carried by records from then on. -/
lemma Windowed.accepted (h : Windowed w entries) (hwindow : cmd.InWindow cfg w)
    (hapart : cmd.Apart cfg w) (hreq : cmd.batch = some req) (hid : req.idempotency = some id)
    {reply : Reply} (hok : (applyCommand cfg cmd w).1 = .ok reply) {partition : UInt32}
    (hpartition : reply.partition = some partition) {index : Nat}
    (hindex : index < req.records.length) :
    id.number ⟨req.topic, partition⟩ index ∈ entries ++ carriedBy cfg w cmd := by
  obtain ⟨hends, hentries⟩ := numbered_step h.world hwindow hapart hreq hid
  rw [hok] at hends
  cases hends with
  | unrouted hsame hnil herror => cases herror
  | routed tp hrouted htopic hends hreply =>
    have heq := hreply reply rfl
    rw [hpartition, Option.some.injEq] at heq
    have htp : (⟨req.topic, partition⟩ : TopicPartition) = tp := by rw [heq, ← htopic]
    rw [htp]
    cases hends with
    | kept hsame hnil hrepeat =>
      obtain ⟨batch, hmem, hbatch⟩ := hrepeat rfl
      have hbatchIn : w.HasBatch batch := by
        obtain ⟨⟨key, found⟩, hfound, rfl⟩ := mem_map.mp
          (mem_of_mem_filter ((mem_insertionSort _).mp hmem))
        exact hasBatch_of_get h.world.metadata ((Map.mem_toList _ _ _).mp hfound)
      exact mem_append_left _ (h.present batch hbatchIn _
        ((hbatch.covers_iff _).mpr ⟨index, hindex, rfl⟩))
    | added batch stored hbatch hinsert hnew hid' htopic' hlength happended =>
      rw [hentries, happended, mapIdx_number, hlength]
      exact mem_append_right _ (mem_map.mpr ⟨index, mem_range.mpr hindex, rfl⟩)

/-! ## Each number once -/

/-- What a client may expect of idempotent batches, after a run from `w0`. -/
structure CarriedOnce (cfg : Config) (w0 : World) (cmds : List Command) : Prop where
  /-- No number of a producer is in a partition twice. -/
  nodup : (carried cfg cmds w0).Nodup
  /-- The numbers of a batch that was accepted are in the partition of the reply, once each. -/
  accepted : ∀ before cmd after, cmds = before ++ cmd :: after →
    ∀ req id, cmd.batch = some req → req.idempotency = some id →
    ∀ reply partition, (applyCommand cfg cmd (applyCommands cfg before w0)).1 = .ok reply →
      reply.partition = some partition →
    ∀ index < req.records.length,
      (carried cfg cmds w0).count (id.number ⟨req.topic, partition⟩ index) = 1

lemma Windowed.run (h : Windowed w []) {cmds : List Command}
    (hcmds : ∀ cmd ∈ cmds, cmd.coalesced = false)
    (hmeets : Meets (Command.next cfg) (fun w cmd => cmd.InWindow cfg w ∧ cmd.Apart cfg w) cmds w) :
    Windowed (applyCommands cfg cmds w) (carried cfg cmds w) :=
  invariant_run (fun _ _ _ h hmeets => h.step hmeets.1 hmeets.2.1 hmeets.2.2) h
    (meets_and hcmds hmeets)

/-- **Each number once.** A broker starts with the logs that it finds and with empty windows. In
every run in which the batches with numbers stay within the windows and start apart from each other,
no number is appended twice, and those of accepted batches are appended once. -/
theorem carried_once (cfg : Config) (w0 : World) (hinv : WorldInv w0)
    (hnone : ∀ batch, ¬ w0.HasBatch batch) (cmds : List Command)
    (hcmds : ∀ cmd ∈ cmds, cmd.coalesced = false)
    (hmeets : Meets (Command.next cfg) (fun w cmd => cmd.InWindow cfg w ∧ cmd.Apart cfg w) cmds w0) :
    CarriedOnce cfg w0 cmds := by
  have hstart : Windowed w0 [] := ⟨hinv, fun batch hbatch => absurd hbatch (hnone batch),
    fun c hc => (by cases hc), nodup_nil⟩
  have hnodup := (hstart.run hcmds hmeets).nodup
  refine ⟨hnodup, fun before cmd after hsplit req id hreq hid reply partition hok hpartition index
    hindex => count_eq_one_of_mem hnodup ?_⟩
  subst hsplit
  obtain ⟨hmeetsBefore, hmeetsCmd, -⟩ := (meets_append before (cmd :: after) w0).mp hmeets
  have hbefore := hstart.run (fun c hc => hcmds c (mem_append_left _ hc)) hmeetsBefore
  have hmem := hbefore.accepted hmeetsCmd.1 hmeetsCmd.2 hreq hid hok hpartition hindex
  have hcarried : carried cfg (before ++ cmd :: after) w0 = carried cfg before w0 ++
      (carriedBy cfg (applyCommands cfg before w0) cmd ++
        carried cfg after (cmd.next cfg (applyCommands cfg before w0))) :=
    outputs_append before (cmd :: after) w0
  rw [hcarried, ← append_assoc]
  exact mem_append_left _ hmem

/-- A batch of a producer's numbers, for the first partition. -/
def numberedBatch (base count : Nat) : Command :=
  .produceBatch ⟨"orders", ⟨.explicit, 0, ""⟩, List.replicate count { payload := [1] },
    some ⟨7, 0, base⟩⟩

lemma hasNoBatch_fresh (cfg : Config) (env : Env) (batch : ProducerPublishedBatch) :
    ¬ (fresh cfg env).HasBatch batch := by
  simp [World.HasBatch, fresh]

/-- Two batches, of which the first is sent twice. -/
theorem carried_once_repeated :
    let cmds := [.createTopic (newTopicConfig "orders"), numberedBatch 0 3, numberedBatch 3 2,
      numberedBatch 0 3]
    CarriedOnce {} (World.fresh {} stillEnv) cmds ∧
      (carried {} cmds (World.fresh {} stillEnv)).map Carried.sequence = [0, 1, 2, 3, 4] := by
  intro cmds
  refine ⟨carried_once {} _ (WorldInv.fresh {} stillEnv) (hasNoBatch_fresh {} stillEnv) cmds
    (by decide) ⟨⟨?_, ?_⟩, ?_, ?_, ?_, trivial⟩, by decide +kernel⟩
  · intro req id tp h
    cases h
  · intro req id tp h
    cases h
  all_goals
    constructor
    · rintro req id tp ⟨⟩ ⟨⟩ hrouted -
      obtain rfl : tp = ⟨"orders", 0⟩ := Option.some.inj (hrouted.symm.trans (by decide +kernel))
      decide +kernel
    · rintro req id tp ⟨⟩ ⟨⟩ hrouted
      obtain rfl : tp = ⟨"orders", 0⟩ := Option.some.inj (hrouted.symm.trans (by decide +kernel))
      refine ⟨by unfold StartsApart; decide +kernel, ?_⟩
      rintro log ⟨⟩
      decide +kernel

/-- A batch that starts below another one and reaches into it is appended, with the numbers that they
share. -/
theorem shared_numbers_appended_twice :
    let cmds := [.createTopic (newTopicConfig "orders"), numberedBatch 5 5, numberedBatch 3 5]
    (∀ cmd ∈ cmds, cmd.coalesced = false) ∧
      Meets (Command.next {}) (fun w cmd => cmd.InWindow {} w) cmds (World.fresh {} stillEnv) ∧
      ¬ CarriedOnce {} (World.fresh {} stillEnv) cmds := by
  intro cmds
  refine ⟨by decide, ⟨?_, ?_, ?_, trivial⟩, fun honce => ?_⟩
  · intro req id tp h
    cases h
  · rintro req id tp ⟨⟩ ⟨⟩ hrouted -
    obtain rfl : tp = ⟨"orders", 0⟩ := Option.some.inj (hrouted.symm.trans (by decide +kernel))
    decide +kernel
  · rintro req id tp ⟨⟩ ⟨⟩ hrouted -
    obtain rfl : tp = ⟨"orders", 0⟩ := Option.some.inj (hrouted.symm.trans (by decide +kernel))
    decide +kernel
  · have hcount : ¬ (carried {} cmds (World.fresh {} stillEnv)).Nodup := by decide +kernel
    exact hcount honce.nodup

end Ech0.Broker
