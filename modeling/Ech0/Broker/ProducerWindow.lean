/-
  The window of an idempotent producer.

  The broker keeps the batches that it accepted last from a producer in a partition, to answer a batch
  that comes again and to refuse the batches of an epoch that is over. When there are more than it
  keeps, those that go are the oldest by the clock, by the epoch and by the first number, in this
  order. As long as each batch that is accepted is younger in this order than those in the window, and
  starts apart from them, the window holds the batches accepted last (`window_holds`). A batch that is
  older, because the clock was set back, can be the first that goes, and with it its epoch.
-/
import Ech0.Broker.CommittedReads
import Ech0.Broker.TransactionCommit
import Ech0.Broker.TransactionPublish

set_option autoImplicit false

namespace Ech0.Broker

open Ech0.Lib Ech0.Store StorxLogStore Prog List MessageRuntime World

variable {α : Type} {kept : List ProducerPublishedBatch} {n : Nat} {w : World}
  {count : Nat} (batches : List ProducerPublishedBatch)

/-! ## The order in which batches go -/

/-- The batch goes before one that is accepted at this time with these numbers. -/
def GoesBefore (batch : ProducerPublishedBatch) (time epoch base : Nat) : Prop :=
  batch.updatedAtMS < time ∨ batch.updatedAtMS = time ∧
    (batch.producerEpoch < epoch ∨ batch.producerEpoch = epoch ∧ batch.baseSequence < base)

instance (batch : ProducerPublishedBatch) (time epoch base : Nat) :
    Decidable (GoesBefore batch time epoch base) :=
  inferInstanceAs (Decidable (_ ∨ _))

def Older (left right : ProducerPublishedBatch) : Prop :=
  GoesBefore left right.updatedAtMS right.producerEpoch right.baseSequence

lemma dedupeAgeLE_iff (left right : ProducerPublishedBatch) :
    dedupeAgeLE left right = true ↔ ¬ Older right left := by
  unfold dedupeAgeLE Older GoesBefore
  by_cases htime : left.updatedAtMS = right.updatedAtMS
  · rw [if_neg (by simpa using htime)]
    by_cases hepoch : left.producerEpoch = right.producerEpoch
    · rw [if_neg (by simpa using hepoch), decide_eq_true_eq]
      omega
    · rw [if_pos hepoch, decide_eq_true_eq]
      omega
  · rw [if_pos htime, decide_eq_true_eq]
    omega

lemma Older.asymm {a b : ProducerPublishedBatch} (h : Older a b) : ¬ Older b a := by
  unfold Older GoesBefore at *
  omega

/-- Batches in the order of their age are what sorting by age gives. -/
lemma insertionSort_dedupeAge {batches : List ProducerPublishedBatch} (hperm : batches.Perm kept)
    (haged : kept.Pairwise Older) :
    (batches.insertionSort fun left right => dedupeAgeLE left right) = kept := by
  have htotal : Std.Total fun left right : ProducerPublishedBatch => dedupeAgeLE left right = true := by
    refine ⟨fun a b => ?_⟩
    rw [dedupeAgeLE_iff, dedupeAgeLE_iff]
    by_cases h : Older b a
    · exact .inr h.asymm
    · exact .inl h
  have htrans : IsTrans ProducerPublishedBatch fun left right => dedupeAgeLE left right = true := by
    refine ⟨fun a b c hab hbc => ?_⟩
    rw [dedupeAgeLE_iff] at *
    unfold Older GoesBefore at *
    omega
  have hsorted := pairwise_insertionSort
    (fun left right : ProducerPublishedBatch => dedupeAgeLE left right = true) batches
  have hkept : kept.Pairwise fun left right => dedupeAgeLE left right = true :=
    haged.imp fun h => (dedupeAgeLE_iff _ _).mpr h.asymm
  have hsame := (perm_insertionSort
    (fun left right : ProducerPublishedBatch => dedupeAgeLE left right = true) batches).trans hperm
  apply hsame.eq_of_pairwise _ hsorted hkept
  intro a b ha hb hab hba
  rw [dedupeAgeLE_iff] at hab hba
  -- of two batches in the list one is the older
  have hsymm : Std.Symm fun a b : ProducerPublishedBatch => Older a b ∨ Older b a := ⟨fun _ _ h => h.symm⟩
  have hcompare : kept.Pairwise fun a b => Older a b ∨ Older b a := haged.imp fun h => .inl h
  by_contra hne
  rcases hcompare.forall (hsame.mem_iff.mp ha) hb hne with h | h
  · exact hba h
  · exact hab h

/-! ## What is kept of the window -/

/-- The world with a batch taken out of its table. -/
def World.withoutBatch (w : World) (batch : ProducerPublishedBatch) : World :=
  { w with metadata := w.metadata.deleteProducerBatch batch }

lemma exec_deleteProducerBatches (w : World) : exec step (Prog.forEach (fun batch =>
        wrapBroker "delete producer batch" (onMeta (.deleteProducerBatch batch))) batches) w
      = (.ok (), batches.foldl withoutBatch w) := by
  induction batches generalizing w with
  | nil => rfl
  | cons batch rest ih =>
    have hdelete : exec step (wrapBroker "delete producer batch"
        (onMeta (.deleteProducerBatch batch))) w = (.ok (), w.withoutBatch batch) := rfl
    exact (exec_bind_ok step hdelete).trans (ih _)

/-- The world after the window was pruned. -/
def World.pruned (w : World) (id : ProduceIdempotency) (tp : TopicPartition) : World :=
  (((w.window id tp).insertionSort fun left right => dedupeAgeLE left right).take
    ((w.window id tp).length - producerDedupeWindowBatches)).foldl World.withoutBatch w

lemma exec_prune (id : ProduceIdempotency) (tp : TopicPartition) (w : World) :
    exec step (pruneProducerDedupeWindow id tp) w = (.ok (), w.pruned id tp) := by
  unfold pruneProducerDedupeWindow pruned
  refine (exec_bind_ok step (exec_listBatches _ w)).trans ?_
  by_cases hroom : (w.window id tp).length ≤ producerDedupeWindowBatches
  · rw [if_pos hroom, Nat.sub_eq_zero_of_le hroom]
    rfl
  · rw [if_neg hroom]
    exact exec_deleteProducerBatches _ w

/-- Batches that are taken out change nothing but their table. -/
lemma foldl_withoutBatch (w : World) : ∃ table, batches.foldl withoutBatch w
      = { w with metadata := { w.metadata with producerBatches := table } } := by
  induction batches generalizing w with
  | nil => exact ⟨_, rfl⟩
  | cons batch rest ih =>
    obtain ⟨table, htable⟩ := ih (w.withoutBatch batch)
    exact ⟨table, htable⟩

lemma WorldInv.foldl_withoutBatch (h : WorldInv w) (batches : List ProducerPublishedBatch) :
    WorldInv (batches.foldl withoutBatch w) := by
  induction batches generalizing w with
  | nil => exact h
  | cons batch rest ih =>
    exact ih ⟨h.metadata.deleteProducerBatch batch, h.log, h.shards⟩

lemma hasBatch_foldl_withoutBatch (w : World) (found : ProducerPublishedBatch) :
    (batches.foldl withoutBatch w).HasBatch found ↔
      w.HasBatch found ∧ ∀ batch ∈ batches, producerBatchKey batch ≠ producerBatchKey found := by
  induction batches generalizing w with
  | nil => simp
  | cons batch rest ih =>
    have hone : (w.withoutBatch batch).HasBatch found ↔
        w.HasBatch found ∧ producerBatchKey batch ≠ producerBatchKey found := by
      unfold World.HasBatch withoutBatch MemoryStore.deleteProducerBatch
      dsimp only
      rw [Map.get_erase]
      by_cases hkey : producerBatchKey batch = producerBatchKey found
      · simp [hkey]
      · simp [hkey]
    rw [foldl_cons, ih, hone, forall_mem_cons, and_assoc]

section
variable {w : World} {id : ProduceIdempotency} {tp : TopicPartition}

/-- Pruning keeps the youngest batches of the window. -/
lemma mem_window_pruned (hinv : WorldInv w) (hid : id.producerID ≠ 0) (htopic : tp.topic ≠ "")
    (hkept : ∀ batch, batch ∈ w.window id tp ↔ batch ∈ kept) (haged : kept.Pairwise Older)
    (batch : ProducerPublishedBatch) :
    batch ∈ (w.pruned id tp).window id tp ↔ batch ∈ kept.rtake producerDedupeWindowBatches := by
  have hnodup : kept.Nodup := haged.imp (by rintro a b h rfl; exact h.asymm h)
  have hperm : (w.window id tp).Perm kept :=
    (perm_ext_iff_of_nodup (nodup_window hinv.metadata id tp) hnodup).mpr hkept
  unfold pruned
  rw [insertionSort_dedupeAge hperm haged, hperm.length_eq, List.rtake]
  generalize kept.length - producerDedupeWindowBatches = n
  rw [mem_window (hinv.foldl_withoutBatch _).metadata hid htopic, hasBatch_foldl_withoutBatch]
  have hsplit : (kept.take n ++ kept.drop n).Nodup := by
    rw [take_append_drop]
    exact hnodup
  obtain ⟨-, -, hapart⟩ := nodup_append.mp hsplit
  constructor
  · rintro ⟨⟨hbatch, hgone⟩, hrest⟩
    have hin : batch ∈ kept.take n ++ kept.drop n := by
      rw [take_append_drop, ← hkept]
      exact (mem_window hinv.metadata hid htopic).mpr ⟨hbatch, hrest⟩
    rcases mem_append.mp hin with htaken | hleft
    · exact absurd rfl (hgone batch htaken)
    · exact hleft
  · intro hleft
    have hwindow := (hkept batch).mpr (mem_of_mem_drop hleft)
    obtain ⟨hbatch, hrest⟩ := (mem_window hinv.metadata hid htopic).mp hwindow
    refine ⟨⟨hbatch, fun gone hgone hkey => ?_⟩, hrest⟩
    -- two batches of the table under one key are one
    have hgoneIn := (hkept gone).mpr (mem_of_mem_take hgone)
    have hgoneBatch := ((mem_window hinv.metadata hid htopic).mp hgoneIn).1
    unfold World.HasBatch at hbatch hgoneBatch
    rw [hkey, hbatch] at hgoneBatch
    exact hapart gone hgone batch hleft (Option.some.inj hgoneBatch).symm

/-! ## One batch -/

lemma ensureProducerEpochWritable_ok_iff : ensureProducerEpochWritable id batches = .ok () ↔
      ∀ batch ∈ batches, batch.producerEpoch ≤ id.producerEpoch := by
  induction batches with
  | nil => simp [ensureProducerEpochWritable]
  | cons batch rest ih =>
    unfold ensureProducerEpochWritable
    rw [forall_mem_cons]
    by_cases hfenced : batch.producerEpoch > id.producerEpoch
    · rw [if_pos hfenced]
      simp only [reduceCtorEq, false_iff, not_and]
      omega
    · rw [if_neg hfenced, ih]
      exact ⟨fun h => ⟨by omega, h⟩, fun h => h.2⟩

/-- What the broker finds of a batch before it does anything. -/
def World.lookupBatch (w : World) (id : ProduceIdempotency) (tp : TopicPartition) (count : Nat) :
    Except Error (Option ProducerPublishedBatch) := do
  let count ← producerRecordCount count
  validateProduceIdempotency id count
  ensureProducerEpochWritable id (w.window id tp)
  findProducerPublishedBatch id count (w.window id tp)

lemma exec_appendIdempotentProduceBatch (cfg : Config) (w : World) (records : List RecordAppend) :
    exec step (appendIdempotentProduceBatch cfg tp id records) w =
      match w.lookupBatch id tp records.length with
      | .error err => (.error err, w)
      | .ok found => exec step (answerBatch cfg tp id records found) w := by
  unfold appendIdempotentProduceBatch lookupBatch loadProducerDedupeBatches
  simp only [exec_bind, exec_ofExcept]
  cases producerRecordCount records.length with
  | error err => rfl
  | ok count =>
    simp only [bind, Except.bind]
    cases validateProduceIdempotency id count with
    | error err => rfl
    | ok valid =>
      simp only [@exec_listBatches id tp _ w]
      cases ensureProducerEpochWritable id (w.window id tp) with
      | error err => rfl
      | ok writable =>
        simp only [exec_pure]
        cases findProducerPublishedBatch id count (w.window id tp) with
        | error err => rfl
        | ok found => rfl

variable {cfg : Config} {records : List RecordAppend} {batch : ProducerPublishedBatch}

lemma Looked.lookupBatch {w1 : World} (h : Looked cfg w w1) (count : Nat) :
    w1.lookupBatch id tp count = w.lookupBatch id tp count := by
  unfold World.lookupBatch World.window
  rw [h.metadata]

lemma peeks_append_refused {err : Error} (h : w.lookupBatch id tp records.length = .error err) :
    Peeks cfg w (appendIdempotentProduceBatch cfg tp id records) (.error err) := by
  intro w1 h1
  refine ⟨w1, h1, ?_⟩
  rw [exec_appendIdempotentProduceBatch, h1.looked.lookupBatch, h]

lemma peeks_append_known (h : w.lookupBatch id tp records.length = .ok (some batch))
    {published : List Record}
    (hread : Peeks cfg w (readProducerPublishedBatch cfg batch) (.ok published)) :
    Peeks cfg w (appendIdempotentProduceBatch cfg tp id records) (.ok (published, false)) := by
  intro w1 h1
  have hanswer : Peeks cfg w (answerBatch cfg tp id records (some batch)) (.ok (published, false)) :=
    hread.bind (peeks_pure _)
  rw [exec_appendIdempotentProduceBatch, h1.looked.lookupBatch, h]
  exact hanswer w1 h1

/-- What a batch that is found, or not found, has been checked for. -/
lemma lookupBatch_eq_ok_iff {found : Option ProducerPublishedBatch} :
    w.lookupBatch id tp count = .ok found ↔ 0 < count ∧ id.producerID ≠ 0 ∧
      sequenceAfterCount id.baseSequence count = .ok (id.baseSequence + count) ∧
      (∀ batch ∈ w.window id tp, batch.producerEpoch ≤ id.producerEpoch) ∧
      findProducerPublishedBatch id count (w.window id tp) = .ok found := by
  have hcount : ∀ n, producerRecordCount count = .ok n ↔ 0 < count ∧ count = n := by
    intro n
    unfold producerRecordCount
    split <;> simp <;> omega
  have hvalid : validateProduceIdempotency id count = .ok () ↔ id.producerID ≠ 0 ∧
      sequenceAfterCount id.baseSequence count = .ok (id.baseSequence + count) := by
    unfold validateProduceIdempotency sequenceAfterCount
    split
    · simp [*]
    · split <;> simp [*, bind, Except.bind]
  simp only [lookupBatch, Except.bind_eq_ok, hcount, and_assoc, exists_and_left, exists_eq_left',
    Unique.exists_iff, PUnit.default_eq_unit, hvalid, ensureProducerEpochWritable_ok_iff]

/-- A batch of an epoch that is over is refused. -/
lemma lookupBatch_fenced (hbatch : batch ∈ w.window id tp)
    (hepoch : id.producerEpoch < batch.producerEpoch) :
    ∃ err, w.lookupBatch id tp count = .error err := by
  cases hlookup : w.lookupBatch id tp count with
  | error err => exact ⟨err, rfl⟩
  | ok found =>
    have := (lookupBatch_eq_ok_iff.mp hlookup).2.2.2.1 batch hbatch
    omega

/-- A batch that does not hold the sequence number is passed over. -/
lemma findProducerPublishedBatch_skip {first : ProducerPublishedBatch}
    (rest : List ProducerPublishedBatch)
    (hfits : sequenceAfterCount first.baseSequence first.recordCount
      = .ok (first.baseSequence + first.recordCount))
    (hapart : first.producerEpoch = id.producerEpoch →
      ¬ (first.baseSequence ≤ id.baseSequence ∧ id.baseSequence < first.baseSequence + first.recordCount)) :
    findProducerPublishedBatch id count (first :: rest) = findProducerPublishedBatch id count rest := by
  rw [findProducerPublishedBatch]
  simp only [producerBatchOverlapsSequence, bind, Except.bind, hfits]
  by_cases hother : first.producerEpoch = id.producerEpoch
  · rw [if_neg (by simpa using hother), if_neg (by simpa using hapart hother)]
  · rw [if_pos hother]

/-- A batch is found among batches that lie apart. -/
lemma findProducerPublishedBatch_of_apart {batches : List ProducerPublishedBatch}
    (hin : batch ∈ batches) (hepoch : batch.producerEpoch = id.producerEpoch)
    (hbase : batch.baseSequence = id.baseSequence) (hcount : batch.recordCount = count)
    (hpos : 0 < count)
    (hfits : ∀ other ∈ batches, sequenceAfterCount other.baseSequence other.recordCount
      = .ok (other.baseSequence + other.recordCount))
    (hapart : ∀ other ∈ batches, other ≠ batch → other.producerEpoch = id.producerEpoch →
      ¬ (other.baseSequence ≤ id.baseSequence ∧ id.baseSequence < other.baseSequence + other.recordCount))
    : findProducerPublishedBatch id count batches = .ok (some batch) := by
  induction batches with
  | nil => cases hin
  | cons first rest ih =>
    rw [forall_mem_cons] at hfits hapart
    by_cases heq : first = batch
    · subst heq
      rw [findProducerPublishedBatch]
      simp only [producerBatchOverlapsSequence, bind, Except.bind, hfits.1]
      rw [if_neg (by simpa using hepoch), if_pos (by simp; omega),
        if_neg (by simp [hbase, hcount])]
    · rw [findProducerPublishedBatch_skip rest hfits.1 (hapart.1 heq)]
      exact ih ((mem_cons.mp hin).resolve_left fun h => heq h.symm) hfits.2 hapart.2

/-! ## A batch that is new -/

/-- A publish takes one reading of the clock for each record. -/
lemma publishBatchRecords_clock (hinv : WorldInv w) (records : List RecordAppend) :
    Ends step (publishBatchRecords cfg tp records) w fun r w' _ =>
      ∀ stored, r = .ok stored → w'.env = w.env.dropClock records.length := by
  apply ends_bind
  apply (logFor_ends cfg hinv tp).mono
  rintro (err | ref) w1 before ⟨-, ⟨cache, rfl⟩, -, -⟩
  · exact fun stored h => by cases h
  · apply ends_mapError
    apply ends_mapError
    apply ends_perform
    rcases step_append ref tp records { w with placementCache := cache } with
      ⟨err, n, hstep, -⟩ | ⟨log, stored, log', -, -, hstep⟩
    · rw [hstep]
      exact fun stored h => by cases h
    · rw [hstep]
      exact fun _ _ => rfl

/-- A batch that was accepted, with the records it became. -/
structure Accepted where
  producerEpoch : Nat
  baseSequence : Nat
  stored : List Record

/-- The entry of the window of an accepted batch. -/
structure Remembered (cfg : Config) (w : World) (tp : TopicPartition) (batch : ProducerPublishedBatch)
    (accepted : Accepted) : Prop where
  epoch : batch.producerEpoch = accepted.producerEpoch
  base : batch.baseSequence = accepted.baseSequence
  count : batch.recordCount = accepted.stored.length
  place : (⟨batch.topic, batch.partition⟩ : TopicPartition) = tp
  nonempty : accepted.stored ≠ []
  fits : sequenceAfterCount batch.baseSequence batch.recordCount
    = .ok (batch.baseSequence + batch.recordCount)
  offsets : accepted.stored.map Record.offset = List.range' batch.baseOffset accepted.stored.length
  last : batch.lastOffset + 1 = batch.baseOffset + accepted.stored.length
  retained : Retained cfg w tp accepted.stored

/-- It is read back as it was stored. -/
lemma Remembered.peeks_read {accepted : Accepted} (h : Remembered cfg w tp batch accepted)
    (hinv : WorldInv w) :
    Peeks cfg w (readProducerPublishedBatch cfg batch) (.ok accepted.stored) := by
  obtain ⟨log, hlog, hin⟩ := h.retained
  have hloginv := hinv.logAt hlog
  obtain ⟨record, hrecord⟩ := exists_mem_of_ne_nil _ h.nonempty
  have hread := peeks_readFrom hinv hlog (hloginv.hasPartition_of_record (hin record hrecord))
    batch.baseOffset batch.recordCount
  have htake : (recordsFrom (log.recordsAt tp) batch.baseOffset).take batch.recordCount
      = accepted.stored := by
    unfold recordsFrom
    rw [← (hloginv.ordered tp).dropWhile_eq_filter, h.count]
    exact (hloginv.ordered tp).take_range hin h.offsets
  rw [htake] at hread
  have hvalid : validateProducerPublishedRecords batch accepted.stored = .ok () := by
    obtain ⟨first, last, hfirst, hlast, hbase, hend⟩ := first_last_of_offsets h.nonempty h.offsets
    have hlastOffset := h.last
    unfold validateProducerPublishedRecords
    rw [if_neg (by rw [h.count]; simp), if_neg]
    rw [hfirst, hlast]
    simp only [Option.map_some, ne_eq, Option.some.injEq, not_or, not_not]
    omega
  have hchecked : Peeks cfg w (Prog.ofExcept (validateProducerPublishedRecords batch accepted.stored))
      (.ok ()) := by
    rw [hvalid]
    exact peeks_done _
  unfold readProducerPublishedBatch
  rw [h.place]
  exact (hread.wrapBroker _).bind (hchecked.bind (peeks_pure _))

/-- A change that keeps the records keeps what is remembered. -/
lemma Remembered.congr {w' : World} {accepted : Accepted} (h : Remembered cfg w tp batch accepted)
    (hholder : w'.holder cfg tp = w.holder cfg tp)
    (hlogs : ∀ log, w.logAt (w.holder cfg tp) = .ok log → ∃ log', w'.logAt (w.holder cfg tp) = .ok log' ∧
      ∀ record ∈ log.recordsAt tp, record ∈ log'.recordsAt tp) :
    Remembered cfg w' tp batch accepted := by
  obtain ⟨log, hlog, hin⟩ := h.retained
  obtain ⟨log', hlog', hkeep⟩ := hlogs log hlog
  refine { h with retained := ⟨log', ?_, fun record hrecord => hkeep record (hin record hrecord)⟩ }
  rw [hholder]
  exact hlog'

/-- What a batch that was appended leaves behind: its records, and its entry in a window that was then
pruned. -/
structure Added (cfg : Config) (w : World) (id : ProduceIdempotency) (tp : TopicPartition) (count : Nat)
    (stored : List Record) (batch : ProducerPublishedBatch) (w' : World) : Prop where
  batchOf : BatchOf id tp count batch
  time : batch.updatedAtMS = w.env.clock count
  valid : MemoryStore.validateProducerBatch batch = .ok ()
  length : stored.length = count
  offsets : stored.map Record.offset = List.range' batch.baseOffset stored.length
  last : batch.lastOffset + 1 = batch.baseOffset + stored.length
  written : ∃ log log' w1, w.logAt (w.holder cfg tp) = .ok log ∧ Appended log log' tp stored ∧
    Wrote cfg w (w.holder cfg tp) log' w1 ∧ w1.env = w.env.dropClock count ∧
    w' = (w1.tick.withBatch batch).pruned id tp

lemma exec_append_new (hinv : WorldInv w) (htopic : tp.topic ≠ "")
    (hfits : OffsetsFit cfg w tp records.length)
    (hlookup : w.lookupBatch id tp records.length = .ok none) :
    (∃ err w', exec step (appendIdempotentProduceBatch cfg tp id records) w = (.error err, w') ∧
        Looked cfg w w' ∧ ∀ log, w.logAt (w.holder cfg tp) = .ok log →
          ∃ err, log.appendRecordsBatch w.env.clock tp records = .error err) ∨
      ∃ stored batch w', Added cfg w id tp records.length stored batch w' ∧
        exec step (appendIdempotentProduceBatch cfg tp id records) w = (.ok (stored, true), w') ∧
        Forall₂ StoredFrom records stored := by
  obtain ⟨hpos, hid, -⟩ := lookupBatch_eq_ok_iff.mp hlookup
  rw [exec_appendIdempotentProduceBatch, hlookup]
  have hpublish := published_mapError_ends (publishBatchRecords_ends cfg hinv tp records)
    (Error.wrap "publish record batch")
  have hclock : Ends step (wrapBroker "publish record batch"
      (publishBatchRecords cfg tp records)) w fun r w' _ =>
      ∀ stored, r = .ok stored → w'.env = w.env.dropClock records.length := by
    apply ends_mapError
    apply (publishBatchRecords_clock hinv records).mono
    intro r w' trace h stored hr
    cases r with
    | error err => cases hr
    | ok found => exact h found rfl
  unfold Ends at hpublish hclock
  change Published cfg w tp records ((exec step (wrapBroker "publish record batch"
    (publishBatchRecords cfg tp records)) w).1.map _) (exec step (wrapBroker
      "publish record batch" (publishBatchRecords cfg tp records)) w).2 _ at hpublish
  unfold answerBatch
  rcases hrun : exec step (wrapBroker "publish record batch"
    (publishBatchRecords cfg tp records)) w with ⟨r, w1⟩
  rw [hrun] at hpublish hclock
  rcases hpublish with ⟨log, stored, log', hlog, happend, hr, -, hwrote⟩ |
    ⟨hrefused, ⟨err, hr⟩, hlooked, -⟩
  · right
    cases r with
    | error err => cases hr
    | ok found =>
      obtain rfl : found = stored := Except.ok.inj hr
      obtain ⟨hspec, hlength⟩ := appendRecordsBatch_spec (hinv.logAt hlog) happend
      have hnonempty : found ≠ [] := by
        rintro rfl
        rw [← hlength] at hpos
        exact absurd hpos (lt_irrefl 0)
      have hend : log.nextOffset tp + found.length ≤ maxUint64 := by
        rw [hlength]
        exact hfits log hlog
      obtain ⟨batch, hnew, hof, hvalid, hbase, hlast, htime⟩ :=
        newProducerPublishedBatch_of_stored (w1.env.clock 0) hnonempty hspec.offsets hend hid htopic
      refine ⟨found, batch, (w1.tick.withBatch batch).pruned id tp, ⟨hlength ▸ hof, ?_, hvalid, hlength,
        ?_, ?_, log, log', w1, hlog, hspec, hwrote, hclock found rfl, rfl⟩, ?_,
        storedFrom_appendRecordsBatch happend⟩
      · rw [htime, hclock found rfl]
        rfl
      · rw [hbase]
        exact hspec.offsets
      · rw [hbase]
        exact hlast
      · have hsave : exec step (saveProducerDedupeBatch id tp found) w1
            = (.ok (), (w1.tick.withBatch batch).pruned id tp) := by
          unfold saveProducerDedupeBatch
          refine (exec_bind_ok step (exec_nowMS w1)).trans ?_
          rw [hnew]
          exact (exec_bind_ok step (exec_saveProducerBatch hvalid)).trans (exec_prune id tp _)
        exact (exec_bind_ok step hrun).trans (exec_bind_ok step hsave)
  · left
    cases r with
    | ok found => cases hr
    | error err' => exact ⟨err', w1, exec_bind_error step hrun, hlooked, hrefused⟩

end

/-! ## Runs of one producer -/

/-- A batch as a producer sends it. -/
structure ProducerBatch where
  producerEpoch : Nat
  baseSequence : Nat
  records : List RecordAppend

def ProducerBatch.numbers (batch : ProducerBatch) (producerID : Nat) : ProduceIdempotency :=
  ⟨producerID, batch.producerEpoch, batch.baseSequence⟩

/-- What the broker does with it in a partition. -/
def ProducerBatch.produce (cfg : Config) (producerID : Nat) (tp : TopicPartition) (batch : ProducerBatch) :
    Handling (List Record × Bool) :=
  appendIdempotentProduceBatch cfg tp (batch.numbers producerID) batch.records

def ProducerBatch.next (cfg : Config) (producerID : Nat) (tp : TopicPartition) (w : World)
    (batch : ProducerBatch) : World :=
  (Prog.exec step (batch.produce cfg producerID tp) w).2

/-- The batch, if it is appended. -/
def ProducerBatch.accepted (cfg : Config) (producerID : Nat) (tp : TopicPartition) (w : World)
    (batch : ProducerBatch) : List Accepted :=
  match (Prog.exec step (batch.produce cfg producerID tp) w).1 with
  | .ok (stored, true) => [⟨batch.producerEpoch, batch.baseSequence, stored⟩]
  | _ => []

/-- The batches that are appended in a run, one after the other. -/
def acceptedIn (cfg : Config) (producerID : Nat) (tp : TopicPartition) (batches : List ProducerBatch)
    (w : World) : List Accepted :=
  outputs (ProducerBatch.next cfg producerID tp) (ProducerBatch.accepted cfg producerID tp) batches w

lemma rtake_rtake (l : List α) {m : Nat} (h : n ≤ m) : (l.rtake m).rtake n = l.rtake n := by
  unfold List.rtake
  rw [drop_drop, length_drop]
  congr 1
  omega

lemma rtake_concat (l : List α) (a : α) (h : 0 < n) :
    (l ++ [a]).rtake n = l.rtake (n - 1) ++ [a] := by
  obtain ⟨m, rfl⟩ : ∃ m, n = m + 1 := ⟨n - 1, by omega⟩
  exact rtake_concat_succ l m a

lemma forall₂_rtake {β : Type} {R : α → β → Prop} {l : List α} {l' : List β}
    (h : List.Forall₂ R l l') (n : Nat) : List.Forall₂ R (l.rtake n) (l'.rtake n) := by
  unfold List.rtake
  rw [h.length_eq]
  exact List.forall₂_drop _ h

lemma rtake_sublist (l : List α) (n : Nat) : (l.rtake n).Sublist l :=
  drop_sublist _ _

/-- Batches of one epoch, neither of which starts in the interval of the other. -/
def StartApart (left right : ProducerPublishedBatch) : Prop :=
  left.producerEpoch = right.producerEpoch →
    ¬ (left.baseSequence ≤ right.baseSequence ∧ right.baseSequence < left.baseSequence + left.recordCount) ∧
    ¬ (right.baseSequence ≤ left.baseSequence ∧ left.baseSequence < right.baseSequence + right.recordCount)

/-- The window holds the batches accepted last, in the order of their age. -/
structure Holds (cfg : Config) (producerID : Nat) (tp : TopicPartition) (w : World)
    (accepted : List Accepted) (kept : List ProducerPublishedBatch) : Prop where
  window : ∀ batch, batch ∈ w.window ⟨producerID, 0, 0⟩ tp ↔ batch ∈ kept
  aged : kept.Pairwise Older
  apart : kept.Pairwise StartApart
  recent : List.Forall₂ (Remembered cfg w tp) kept (accepted.rtake producerDedupeWindowBatches)
  top : ∀ e ∈ accepted, ∃ batch ∈ kept, e.producerEpoch ≤ batch.producerEpoch
  numbered : accepted ≠ [] → producerID ≠ 0

/-- The batch is younger than those of the window and starts apart from them. -/
structure Orderly (cfg : Config) (producerID : Nat) (tp : TopicPartition) (w : World)
    (batch : ProducerBatch) : Prop where
  young : findProducerPublishedBatch (batch.numbers producerID) batch.records.length
      (w.window (batch.numbers producerID) tp) = .ok none →
    ∀ found ∈ w.window (batch.numbers producerID) tp,
      GoesBefore found (w.env.clock batch.records.length) batch.producerEpoch batch.baseSequence
  apart : StartsApart w (batch.numbers producerID) tp batch.records.length
  fits : OffsetsFit cfg w tp batch.records.length

section
variable {cfg : Config} {producerID : Nat} {tp : TopicPartition} {w w' : World}
  {accepted : List Accepted} {kept : List ProducerPublishedBatch}

/-- Looking changes nothing of it. -/
lemma Holds.looked (h : Holds cfg producerID tp w accepted kept) (hlooked : Looked cfg w w') :
    Holds cfg producerID tp w' accepted kept := by
  refine { h with window := fun batch => ?_, recent := h.recent.imp fun batch e hbatch => ?_ }
  · rw [← h.window batch]
    unfold World.window
    rw [hlooked.metadata]
  · apply hbatch.congr (hlooked.holder tp)
    intro log hlog
    exact ⟨log, (hlooked.logAt _).trans hlog, fun _ hrecord => hrecord⟩

/-- What the window has of a batch that was accepted lately. -/
lemma Holds.exists_remembered (h : Holds cfg producerID tp w accepted kept) {e : Accepted}
    (he : e ∈ accepted.rtake producerDedupeWindowBatches) :
    ∃ batch ∈ kept, Remembered cfg w tp batch e := by
  obtain ⟨i, hi, rfl⟩ := getElem_of_mem he
  have hkept : i < kept.length := by
    rw [h.recent.length_eq]
    exact hi
  exact ⟨kept[i], getElem_mem hkept, h.recent.get hkept hi⟩

lemma Holds.exists_accepted (h : Holds cfg producerID tp w accepted kept)
    {batch : ProducerPublishedBatch} (hbatch : batch ∈ kept) :
    ∃ e ∈ accepted, Remembered cfg w tp batch e := by
  obtain ⟨i, hi, rfl⟩ := getElem_of_mem hbatch
  have hrecent : i < (accepted.rtake producerDedupeWindowBatches).length := by
    rw [← h.recent.length_eq]
    exact hi
  exact ⟨_, (rtake_sublist _ _).subset (getElem_mem hrecent), h.recent.get hi hrecent⟩

lemma pruned_eq (w : World) (id : ProduceIdempotency) (tp : TopicPartition) :
    ∃ table, w.pruned id tp = { w with metadata := { w.metadata with producerBatches := table } } :=
  foldl_withoutBatch _ w

/-- The window with a new batch, before it is pruned. -/
lemma mem_window_withBatch (hinv : WorldInv w) {id : ProduceIdempotency} (hid : id.producerID ≠ 0)
    (htopic : tp.topic ≠ "") {count : Nat}
    (hnew : findProducerPublishedBatch id count (w.window id tp) = .ok none)
    {new : ProducerPublishedBatch} (hbatch : BatchOf id tp count new)
    (hvalid : MemoryStore.validateProducerBatch new = .ok ()) (found : ProducerPublishedBatch) :
    found ∈ (w.withBatch new).window id tp ↔ found ∈ w.window id tp ∨ found = new := by
  have hinv' : MemInv (w.withBatch new).metadata :=
    { hinv.metadata with producerBatches := hinv.metadata.producerBatches.insert hvalid }
  have hhas : (w.withBatch new).HasBatch found ↔ w.HasBatch found ∨ found = new := by
    unfold World.HasBatch withBatch
    dsimp only
    rw [Map.get_insert]
    by_cases hkey : producerBatchKey new = producerBatchKey found
    · rw [if_pos hkey, Option.some.injEq]
      constructor
      · exact fun h => .inr h.symm
      · rintro (h | h)
        · exact absurd hkey (producerBatchKey_ne_of_new hid htopic hnew hinv.metadata hbatch found h)
        · exact h.symm
    · rw [if_neg hkey]
      refine ⟨.inl, fun h => h.resolve_right ?_⟩
      rintro rfl
      exact hkey rfl
  rw [mem_window hinv' hid htopic, mem_window hinv.metadata hid htopic, hhas]
  constructor
  · rintro ⟨h | h, hrest⟩
    · exact .inl ⟨h, hrest⟩
    · exact .inr h
  · rintro (h | rfl)
    · exact ⟨.inl h.1, h.2⟩
    · exact ⟨.inr rfl, hbatch.producerID, hbatch.tp⟩

section
variable {id : ProduceIdempotency} {count : Nat} {stored : List Record} {new : ProducerPublishedBatch}

lemma WorldInv.withBatch (h : WorldInv w)
    (hvalid : MemoryStore.validateProducerBatch new = .ok ()) : WorldInv (w.withBatch new) :=
  ⟨{ h.metadata with producerBatches := h.metadata.producerBatches.insert hvalid }, h.log, h.shards⟩

variable (h : Added cfg w id tp count stored new w') (hinv : WorldInv w) (hid : id.producerID ≠ 0)
  (htopic : tp.topic ≠ "") (hnew : findProducerPublishedBatch id count (w.window id tp) = .ok none)

include h

/-- The log has the records, and nothing else is seen of it outside of the window. -/
lemma Added.after :
    ∃ log log', w.logAt (w.holder cfg tp) = .ok log ∧ Appended log log' tp stored ∧
      w'.logAt (w.holder cfg tp) = .ok log' ∧ w'.holder cfg tp = w.holder cfg tp ∧
      w'.env = w.env.dropClock (count + 1) := by
  obtain ⟨log, log', w1, hlog, hspec, hwrote, henv, hw'⟩ := h.written
  obtain ⟨table, htable⟩ := pruned_eq (w1.tick.withBatch new) id tp
  obtain rfl := hw'.trans htable
  have hwritten := hwrote.logAt (w.holder cfg tp)
  rw [if_pos rfl] at hwritten
  refine ⟨log, log', hlog, hspec, hwritten, ?_, ?_⟩
  · unfold holder
    rw [← hwrote.resolved tp]
    rfl
  · rw [← Env.dropClock_dropClock, ← henv]
    rfl

include hinv

lemma Added.inv : WorldInv w' := by
  obtain ⟨log, log', w1, -, hspec, hwrote, -, hw'⟩ := h.written
  rw [hw']
  exact ((hwrote.inv hinv hspec.inv).tick.withBatch h.valid).foldl_withoutBatch _

include hid htopic hnew

/-- What is kept of the window when a new batch has come into it. -/
lemma Added.mem_window (hkept : ∀ found, found ∈ w.window id tp ∨ found = new ↔ found ∈ kept)
    (haged : kept.Pairwise Older) (found : ProducerPublishedBatch) :
    found ∈ w'.window id tp ↔ found ∈ kept.rtake producerDedupeWindowBatches := by
  obtain ⟨log, log', w1, -, hspec, hwrote, -, hw'⟩ := h.written
  have hinv1 : WorldInv w1.tick := (hwrote.inv hinv hspec.inv).tick
  have hsame : w1.tick.window id tp = w.window id tp := by
    unfold window
    rw [← hwrote.metadata]
    rfl
  rw [hw']
  apply mem_window_pruned (hinv1.withBatch h.valid) hid htopic _ haged
  intro other
  rw [mem_window_withBatch hinv1 hid htopic (hsame ▸ hnew) h.batchOf h.valid, hsame, hkept]

/-- A batch that is older than those of a full window is forgotten as soon as it is accepted. -/
lemma Added.forgotten (hkept : ∀ found, found ∈ w.window id tp ↔ found ∈ kept)
    (haged : kept.Pairwise Older)
    (hfull : kept.length = producerDedupeWindowBatches) (hold : ∀ found ∈ kept, Older new found)
    (found : ProducerPublishedBatch) : found ∈ w'.window id tp ↔ found ∈ kept := by
  have hrest : (new :: kept).rtake producerDedupeWindowBatches = kept := by
    unfold List.rtake
    rw [length_cons, hfull, Nat.add_sub_cancel_left]
    rfl
  rw [← hrest]
  apply h.mem_window hinv hid htopic hnew _ (pairwise_cons.mpr ⟨hold, haged⟩)
  intro other
  rw [hkept, mem_cons, or_comm]

end

/-- A new batch takes its place in the window, and the oldest one goes if there is no room. -/
lemma Holds.add (h : Holds cfg producerID tp w accepted kept) (hinv : WorldInv w) (htopic : tp.topic ≠ "")
    {batch : ProducerBatch} (horderly : Orderly cfg producerID tp w batch)
    (hlookup : w.lookupBatch (batch.numbers producerID) tp batch.records.length = .ok none)
    {stored : List Record} {new : ProducerPublishedBatch}
    (hadded : Added cfg w (batch.numbers producerID) tp batch.records.length stored new w') :
    Holds cfg producerID tp w' (accepted ++ [⟨batch.producerEpoch, batch.baseSequence, stored⟩])
      (kept.rtake (producerDedupeWindowBatches - 1) ++ [new]) := by
  obtain ⟨hpos, hid, hseq, hepoch, hnew⟩ := lookupBatch_eq_ok_iff.mp hlookup
  obtain ⟨log, log', hlog, hspec, hafter, hholder, -⟩ := hadded.after
  have hkept : ∀ found, found ∈ w.window (batch.numbers producerID) tp ↔ found ∈ kept := h.window
  have hof := hadded.batchOf
  have haged : (kept ++ [new]).Pairwise Older := by
    refine pairwise_append.mpr ⟨h.aged, pairwise_singleton _ _, fun found hfound b hb => ?_⟩
    rw [mem_singleton.mp hb]
    unfold Older
    rw [hadded.time, hof.producerEpoch, hof.baseSequence]
    exact horderly.young hnew found ((hkept found).mpr hfound)
  have hapart : (kept ++ [new]).Pairwise StartApart := by
    refine pairwise_append.mpr ⟨h.apart, pairwise_singleton _ _, fun found hfound b hb => ?_⟩
    rw [mem_singleton.mp hb]
    obtain ⟨e, -, he⟩ := h.exists_accepted hfound
    have hcount : 0 < found.recordCount := by
      rw [he.count]
      exact length_pos_iff.mpr he.nonempty
    intro hsameEpoch
    rw [hof.producerEpoch] at hsameEpoch
    have hout := findProducerPublishedBatch_none hnew found ((hkept found).mpr hfound) hsameEpoch
    have hinside := horderly.apart found ((hkept found).mpr hfound) hsameEpoch
    rw [hof.baseSequence, hof.recordCount]
    omega
  have hrecent : (kept ++ [new]).rtake producerDedupeWindowBatches
      = kept.rtake (producerDedupeWindowBatches - 1) ++ [new] := rtake_concat kept new (by decide)
  have hacceptedRecent : ∀ e : Accepted, (accepted ++ [e]).rtake producerDedupeWindowBatches
      = (accepted.rtake producerDedupeWindowBatches).rtake (producerDedupeWindowBatches - 1) ++ [e] := by
    intro e
    rw [rtake_rtake _ (by decide)]
    exact rtake_concat accepted e (by decide)
  have hrecords := hspec.records tp
  rw [if_pos rfl] at hrecords
  refine ⟨fun found => ?_, ?_, ?_, ?_, ?_, fun _ => hid⟩
  · rw [← hrecent]
    apply hadded.mem_window hinv hid htopic hnew _ haged
    intro other
    rw [hkept, mem_append, mem_singleton]
  · rw [← hrecent]
    exact haged.sublist (rtake_sublist _ _)
  · rw [← hrecent]
    exact hapart.sublist (rtake_sublist _ _)
  · rw [hacceptedRecent]
    apply rel_append
    · apply (forall₂_rtake h.recent _).imp
      intro found e hfound
      apply hfound.congr hholder
      intro log0 hlog0
      obtain rfl := Except.ok.inj (hlog.symm.trans hlog0)
      refine ⟨log', hafter, fun record hrecord => ?_⟩
      rw [hrecords]
      exact mem_append_left _ hrecord
    · refine .cons ⟨hof.producerEpoch, hof.baseSequence, ?_, hof.tp, ?_, ?_, hadded.offsets, hadded.last,
        log', ?_, fun record hrecord => ?_⟩ .nil
      · rw [hof.recordCount, hadded.length]
      · rintro rfl
        rw [← hadded.length] at hpos
        exact absurd hpos (lt_irrefl 0)
      · rw [hof.baseSequence, hof.recordCount]
        exact hseq
      · rw [hholder]
        exact hafter
      · rw [hrecords]
        exact mem_append_right _ hrecord
  · intro e he
    refine ⟨new, mem_append_right _ (mem_singleton_self _), ?_⟩
    rw [hof.producerEpoch]
    rcases mem_append.mp he with hold | hlast
    · obtain ⟨found, hfound, hle⟩ := h.top e hold
      exact hle.trans (hepoch found ((hkept found).mpr hfound))
    · rw [mem_singleton.mp hlast]
      exact le_rfl

/-- The invariant of a run of one producer. -/
def WindowInv (cfg : Config) (producerID : Nat) (tp : TopicPartition) (w : World)
    (accepted : List Accepted) : Prop :=
  WorldInv w ∧ ∃ kept, Holds cfg producerID tp w accepted kept

/-- A batch that changes nothing but the placement cache, or the time. -/
lemma WindowInv.looked (h : WindowInv cfg producerID tp w accepted) {batch : ProducerBatch}
    {r : Except Error (List Record × Bool)}
    (hrun : exec step (batch.produce cfg producerID tp) w = (r, w')) (hlooked : Looked cfg w w')
    (hr : ∀ stored, r ≠ .ok (stored, true)) :
    WindowInv cfg producerID tp (batch.next cfg producerID tp w)
      (accepted ++ batch.accepted cfg producerID tp w) := by
  obtain ⟨hinv, kept, hkept⟩ := h
  have hnothing : batch.accepted cfg producerID tp w = [] := by
    unfold ProducerBatch.accepted
    rw [hrun]
    match r with
    | .error err => rfl
    | .ok (stored, false) => rfl
    | .ok (stored, true) => exact absurd rfl (hr stored)
  have hnext : batch.next cfg producerID tp w = w' := congrArg Prod.snd hrun
  rw [hnothing, append_nil, hnext]
  exact ⟨hlooked.inv hinv, kept, hkept.looked hlooked⟩

lemma WindowInv.step (h : WindowInv cfg producerID tp w accepted) (htopic : tp.topic ≠ "")
    {batch : ProducerBatch} (horderly : Orderly cfg producerID tp w batch) :
    WindowInv cfg producerID tp (batch.next cfg producerID tp w)
      (accepted ++ batch.accepted cfg producerID tp w) := by
  obtain ⟨hinv, kept, hkept⟩ := id h
  cases hlookup : w.lookupBatch (batch.numbers producerID) tp batch.records.length with
  | error err =>
    obtain ⟨w', hpeeked, hrun⟩ := peeks_append_refused hlookup w (.refl cfg w)
    exact h.looked hrun hpeeked.looked fun stored hr => by cases hr
  | ok found =>
    cases found with
    | some found =>
      obtain ⟨-, -, -, -, hfind⟩ := lookupBatch_eq_ok_iff.mp hlookup
      obtain ⟨e, -, he⟩ := hkept.exists_accepted
        ((hkept.window found).mp (findProducerPublishedBatch_some hfind).1)
      obtain ⟨w', hpeeked, hrun⟩ := peeks_append_known hlookup (he.peeks_read hinv) w (.refl cfg w)
      exact h.looked hrun hpeeked.looked fun stored hr => by cases hr
    | none =>
      rcases exec_append_new hinv htopic horderly.fits hlookup with
        ⟨err, w', hrun, hlooked, -⟩ | ⟨stored, new, w', hadded, hrun, -⟩
      · exact h.looked hrun hlooked fun stored hr => by cases hr
      · have hrun' : exec Broker.step (batch.produce cfg producerID tp) w
            = (.ok (stored, true), w') := hrun
        have haccepted : batch.accepted cfg producerID tp w
            = [⟨batch.producerEpoch, batch.baseSequence, stored⟩] := by
          unfold ProducerBatch.accepted
          rw [hrun']
        have hnext : batch.next cfg producerID tp w = w' := congrArg Prod.snd hrun'
        rw [haccepted, hnext]
        exact ⟨hadded.inv hinv, _, hkept.add hinv htopic horderly hlookup hadded⟩

/-- What a batch is told: that its epoch is over, or what it became when it was accepted. In neither
case is anything appended. -/
structure Told (cfg : Config) (producerID : Nat) (tp : TopicPartition) (w : World)
    (accepted : List Accepted) (batch : ProducerBatch) : Prop where
  fenced : ∀ e ∈ accepted, batch.producerEpoch < e.producerEpoch →
    ∃ err, Peeks cfg w (batch.produce cfg producerID tp) (.error err)
  answered : ∀ e ∈ accepted.rtake producerDedupeWindowBatches, batch.producerEpoch = e.producerEpoch →
    batch.baseSequence = e.baseSequence → batch.records.length = e.stored.length →
    (∀ other ∈ accepted, other.producerEpoch ≤ batch.producerEpoch) →
    Peeks cfg w (batch.produce cfg producerID tp) (.ok (e.stored, false))

lemma WindowInv.told (h : WindowInv cfg producerID tp w accepted)
    (batch : ProducerBatch) : Told cfg producerID tp w accepted batch := by
  obtain ⟨hinv, kept, hkept⟩ := h
  refine ⟨fun e he hepoch => ?_, fun e he hepoch hbase hcount hfree => ?_⟩
  · obtain ⟨found, hfound, hle⟩ := hkept.top e he
    have hwindow : found ∈ w.window (batch.numbers producerID) tp := (hkept.window found).mpr hfound
    have hrefused : ∃ err, w.lookupBatch (batch.numbers producerID) tp batch.records.length = .error err :=
      lookupBatch_fenced hwindow (lt_of_lt_of_le hepoch hle)
    obtain ⟨err, herr⟩ := hrefused
    exact ⟨err, peeks_append_refused herr⟩
  · obtain ⟨found, hfound, hremembered⟩ := hkept.exists_remembered he
    have hid : producerID ≠ 0 :=
      hkept.numbered (ne_nil_of_mem ((rtake_sublist _ _).subset he))
    have hpos : 0 < batch.records.length := by
      rw [hcount]
      exact length_pos_iff.mpr hremembered.nonempty
    have hwindow : ∀ other, other ∈ w.window (batch.numbers producerID) tp ↔ other ∈ kept := hkept.window
    -- of two batches that lie apart, neither starts in the other
    have hsymm : Std.Symm StartApart := ⟨fun a b hab heq => (hab heq.symm).symm⟩
    have hfind : findProducerPublishedBatch (batch.numbers producerID) batch.records.length
        (w.window (batch.numbers producerID) tp) = .ok (some found) := by
      apply findProducerPublishedBatch_of_apart ((hwindow found).mpr hfound)
        (hremembered.epoch.trans hepoch.symm) (hremembered.base.trans hbase.symm)
        (hremembered.count.trans hcount.symm) hpos
      · intro other hother
        obtain ⟨_, -, hrest⟩ := hkept.exists_accepted ((hwindow other).mp hother)
        exact hrest.fits
      · intro other hother hne hsame
        have hapart := hkept.apart.forall ((hwindow other).mp hother) hfound hne
        have hstart := (hapart (hsame.trans (hepoch.trans hremembered.epoch.symm))).1
        rw [hremembered.base, ← hbase] at hstart
        exact hstart
    have hlookup : w.lookupBatch (batch.numbers producerID) tp batch.records.length = .ok (some found) := by
      refine lookupBatch_eq_ok_iff.mpr ⟨hpos, hid, ?_, fun other hother => ?_, hfind⟩
      · have hfits := hremembered.fits
        rw [hremembered.base, hremembered.count, ← hbase, ← hcount] at hfits
        exact hfits
      · obtain ⟨a, ha, hrest⟩ := hkept.exists_accepted ((hwindow other).mp hother)
        rw [hrest.epoch]
        exact hfree a ha
    exact peeks_append_known hlookup (hremembered.peeks_read hinv)

/-- **The window of a producer.** In every run of batches of one producer to one partition that starts
with an empty window and in which each new batch is younger than those in the window and starts apart
from them: after a batch of an epoch was accepted the batches of lower epochs are refused, and a batch
that comes again, of those accepted last, is answered with the records it became. Nothing is appended
in either case. -/
theorem window_holds (hinv : WorldInv w) (htopic : tp.topic ≠ "")
    (hempty : w.window ⟨producerID, 0, 0⟩ tp = []) (batches : List ProducerBatch)
    (hmeets : Meets (ProducerBatch.next cfg producerID tp) (Orderly cfg producerID tp) batches w)
    (batch : ProducerBatch) :
    Told cfg producerID tp (batches.foldl (ProducerBatch.next cfg producerID tp) w)
      (acceptedIn cfg producerID tp batches w) batch := by
  have hstart : WindowInv cfg producerID tp w [] := by
    refine ⟨hinv, [], fun found => ?_, .nil, .nil, ?_, fun e he => (by cases he), fun h => absurd rfl h⟩
    · rw [hempty]
    · rw [rtake_nil]
      exact .nil
  have hrun : WindowInv cfg producerID tp (batches.foldl (ProducerBatch.next cfg producerID tp) w)
      ([] ++ acceptedIn cfg producerID tp batches w) :=
    invariant_run (fun _ _ _ h horderly => h.step htopic horderly) hstart hmeets
  exact hrun.told batch

end

/-- A batch with its numbers and as many records. -/
def ordersBatch (epoch base count : Nat) : ProducerBatch :=
  ⟨epoch, base, List.replicate count { payload := [1] }⟩

lemma worldInv_orders : WorldInv ordersWorld :=
  (WorldInv.fresh {} stillEnv).applyCommands {} [.createTopic (newTopicConfig "orders")]

/-- Two batches and one of the next epoch, of which the last comes again. -/
theorem window_holds_orders :
    let batches := [ordersBatch 0 0 3, ordersBatch 0 3 2, ordersBatch 1 0 1]
    (acceptedIn {} 7 ⟨"orders", 0⟩ batches ordersWorld).map (fun e => (e.producerEpoch, e.baseSequence))
        = [(0, 0), (0, 3), (1, 0)] ∧
      ∀ batch, Told {} 7 ⟨"orders", 0⟩
        (batches.foldl (ProducerBatch.next {} 7 ⟨"orders", 0⟩) ordersWorld)
        (acceptedIn {} 7 ⟨"orders", 0⟩ batches ordersWorld) batch := by
  intro batches
  refine ⟨by decide +kernel, window_holds worldInv_orders (by decide) (by decide +kernel) batches
    ⟨⟨?_, ?_, ?_⟩, ⟨?_, ?_, ?_⟩, ⟨?_, ?_, ?_⟩, trivial⟩⟩
  -- each batch is younger than the window and starts apart from it, and the offsets fit
  all_goals first
    | unfold StartsApart
      decide +kernel
    | rintro log ⟨⟩
      decide +kernel
    | decide +kernel

/-! ## A clock that is set back -/

section
variable {cfg : Config} {tp : TopicPartition} {w w' : World} {id : ProduceIdempotency} {count : Nat}
  {stored : List Record} {new : ProducerPublishedBatch} {kept : List ProducerPublishedBatch}

lemma findProducerPublishedBatch_of_none {batches : List ProducerPublishedBatch}
    (hfits : ∀ other ∈ batches, sequenceAfterCount other.baseSequence other.recordCount
      = .ok (other.baseSequence + other.recordCount))
    (hapart : ∀ other ∈ batches, other.producerEpoch = id.producerEpoch →
      ¬ (other.baseSequence ≤ id.baseSequence ∧ id.baseSequence < other.baseSequence + other.recordCount)) :
    findProducerPublishedBatch id count batches = .ok none := by
  induction batches with
  | nil => rfl
  | cons first rest ih =>
    rw [forall_mem_cons] at hfits hapart
    rw [findProducerPublishedBatch_skip rest hfits.1 hapart.1]
    exact ih hfits.2 hapart.2

/-- A batch of one record without payload that is new is appended where there is room. -/
lemma exec_append_empty (hinv : WorldInv w) (htopic : tp.topic ≠ "") (haccepts : Accepts cfg w tp 2)
    (hlookup : w.lookupBatch id tp 1 = .ok none) :
    ∃ stored new w', Added cfg w id tp 1 stored new w' ∧
      exec step (appendIdempotentProduceBatch cfg tp id [{ payload := [] }]) w
        = (.ok (stored, true), w') := by
  obtain ⟨log, topic, hlog, hload, hnext, hclock⟩ := haccepts
  have hfits : OffsetsFit cfg w tp 1 := by
    intro log1 hlog1
    obtain rfl := Except.ok.inj (hlog.symm.trans hlog1)
    omega
  have hone : w.lookupBatch id tp ([{ payload := [] }] : List RecordAppend).length = .ok none := hlookup
  rcases exec_append_new hinv htopic hfits hone with
    ⟨err, w', -, -, hrefused⟩ | ⟨stored, new, w', hadded, hrun, -⟩
  · obtain ⟨result, hresult⟩ := appendRecordsBatch_of_accepts hload (by omega)
      (fun ttl httl => hclock ttl httl 0) none
    obtain ⟨err', herr⟩ := hrefused log hlog
    rw [hresult] at herr
    cases herr
  · exact ⟨stored, new, w', hadded, hrun⟩

lemma Added.accepts (h : Added cfg w id tp count stored new w')
    (haccepts : Accepts cfg w tp (count + n)) : Accepts cfg w' tp n := by
  obtain ⟨log1, topic, hlog1, hload, hnext, hclock⟩ := haccepts
  obtain ⟨log, log', hlog, hspec, hafter, hholder, henv⟩ := h.after
  obtain rfl := Except.ok.inj (hlog.symm.trans hlog1)
  refine ⟨log', topic, ?_, ?_, ?_, fun ttl httl i => ?_⟩
  · rw [hholder]
    exact hafter
  · unfold loadTopicForPartition at hload ⊢
    rw [hspec.topics]
    exact hload
  · rw [hspec.next, if_pos rfl, h.length]
    omega
  · rw [henv]
    exact hclock ttl httl _

end

/-- A clock that is set back. -/
def setBackEnv : Env := { stillEnv with clock := fun reading => if reading < 2048 then 1000 else 5 }

/-- A batch of one record without payload. -/
def emptyBatch (epoch base : Nat) : ProducerBatch := ⟨epoch, base, [{ payload := [] }]⟩

/-- After `n` batches of one epoch, before the clock is set back. -/
structure Filled (n : Nat) (kept : List ProducerPublishedBatch) (w : World) : Prop where
  inv : WorldInv w
  env : w.env = setBackEnv.dropClock (2 * n)
  accepts : Accepts {} w ⟨"orders", 0⟩ (2000 - n)
  window : ∀ found, found ∈ w.window ⟨7, 0, 0⟩ ⟨"orders", 0⟩ ↔ found ∈ kept
  length : kept.length = n
  aged : kept.Pairwise Older
  numbers : ∀ found ∈ kept, found.producerEpoch = 0 ∧ found.updatedAtMS = 1000 ∧
    found.baseSequence < n ∧ found.recordCount = 1

/-- A batch with numbers that are not in the window is new. -/
lemma lookupBatch_of_numbers (epoch base : Nat) (hn : n ≤ 1024)
    (hnumbers : ∀ found ∈ w.window ⟨7, epoch, base⟩ ⟨"orders", 0⟩, found.producerEpoch = 0 ∧
      found.updatedAtMS = 1000 ∧ found.baseSequence < n ∧ found.recordCount = 1)
    (hnew : epoch = 0 → n ≤ base) (hbase : base < 2 ^ 63) :
    w.lookupBatch ⟨7, epoch, base⟩ ⟨"orders", 0⟩ 1 = .ok none := by
  have hsequence : ∀ first < 2 ^ 63, sequenceAfterCount first 1 = .ok (first + 1) :=
    fun first hfirst => sequenceAfterCount_of_le (by unfold maxUint64; omega)
  refine lookupBatch_eq_ok_iff.mpr ⟨by decide, by simp, hsequence base hbase, fun other hother => ?_,
    findProducerPublishedBatch_of_none ?_ ?_⟩
  · rw [(hnumbers other hother).1]
    exact Nat.zero_le _
  · intro other hother
    obtain ⟨-, -, hlow, hone⟩ := hnumbers other hother
    rw [hone]
    exact hsequence _ (by omega)
  · rintro other hother hepoch ⟨-, hinside⟩
    change base < _ at hinside
    obtain ⟨hzero, -, hlow, hone⟩ := hnumbers other hother
    have := hnew (hepoch.symm.trans hzero)
    omega

lemma Accepts.mono {cfg : Config} {tp : TopicPartition} {m : Nat} (h : Accepts cfg w tp m)
    (hle : n ≤ m) : Accepts cfg w tp n := by
  obtain ⟨log, topic, hlog, hload, hnext, hclock⟩ := h
  exact ⟨log, topic, hlog, hload, by omega, hclock⟩

lemma Filled.next (h : Filled n kept w) (hn : n < 1024) :
    ∃ kept', Filled (n + 1) kept' ((emptyBatch 0 n).next {} 7 ⟨"orders", 0⟩ w) := by
  have hlookup := lookupBatch_of_numbers 0 n hn.le
    (fun found hfound => h.numbers found ((h.window found).mp hfound)) (fun _ => le_rfl) (by omega)
  obtain ⟨stored, new, w', hadded, hrun⟩ :=
    exec_append_empty h.inv (by decide) (h.accepts.mono (by omega)) hlookup
  have hnext : (emptyBatch 0 n).next {} 7 ⟨"orders", 0⟩ w = w' := congrArg Prod.snd hrun
  have htime : new.updatedAtMS = 1000 := by
    rw [hadded.time, h.env]
    exact if_pos (by omega)
  obtain ⟨-, hepoch, -, hbase, hcount⟩ := hadded.batchOf
  have haged : (kept ++ [new]).Pairwise Older := by
    refine pairwise_append.mpr ⟨h.aged, pairwise_singleton _ _, fun found hfound b hb => ?_⟩
    obtain ⟨hzero, hthen, hlow, -⟩ := h.numbers found hfound
    rw [mem_singleton.mp hb]
    exact .inr ⟨hthen.trans htime.symm, .inr ⟨hzero.trans hepoch.symm, by rw [hbase]; exact hlow⟩⟩
  have hroom : (kept ++ [new]).rtake producerDedupeWindowBatches = kept ++ [new] := by
    unfold List.rtake
    rw [length_append, h.length, length_singleton,
      Nat.sub_eq_zero_of_le (by unfold producerDedupeWindowBatches; omega), drop_zero]
  rw [hnext]
  obtain ⟨-, -, -, -, -, -, henv⟩ := hadded.after
  refine ⟨kept ++ [new], hadded.inv h.inv, ?_, ?_, fun found => ?_, ?_, haged, fun found hfound => ?_⟩
  · rw [henv, h.env, Env.dropClock_dropClock]
    rfl
  · exact hadded.accepts (h.accepts.mono (by omega))
  · rw [← hroom]
    apply hadded.mem_window h.inv (by simp) (by decide) (lookupBatch_eq_ok_iff.mp hlookup).2.2.2.2 _ haged
    intro other
    rw [mem_append, mem_singleton]
    exact or_congr (h.window other) Iff.rfl
  · rw [length_append, h.length, length_singleton]
  · rcases mem_append.mp hfound with hold | hlast
    · obtain ⟨hzero, hthen, hlow, hone⟩ := h.numbers found hold
      exact ⟨hzero, hthen, by omega, hone⟩
    · rw [mem_singleton.mp hlast]
      exact ⟨hepoch, htime, by rw [hbase]; exact Nat.lt_succ_self n, hcount⟩

lemma filled_run (n : Nat) (hn : n ≤ 1024) :
    ∃ kept, Filled n kept (((List.range n).map (emptyBatch 0)).foldl
      (ProducerBatch.next {} 7 ⟨"orders", 0⟩) { ordersWorld with env := setBackEnv }) := by
  induction n with
  | zero =>
    refine ⟨[], ⟨worldInv_orders.metadata, worldInv_orders.log, worldInv_orders.shards⟩, ?_, ?_,
      fun found => ?_, rfl, .nil, fun found hfound => ?_⟩
    · exact (Env.dropClock_zero setBackEnv).symm
    · have hload : (ordersWorld.log.loadTopicForPartition ⟨"orders", 0⟩).toOption.map
          TopicConfig.messageTTLMS = some none := by decide +kernel
      obtain ⟨topic, htopic, hnever⟩ := Option.map_eq_some_iff.mp hload
      refine ⟨ordersWorld.log, topic, rfl, Except.toOption_eq_some.mp htopic, by decide +kernel,
        fun ttl httl => ?_⟩
      rw [hnever] at httl
      cases httl
    · have hnone : ordersWorld.window ⟨7, 0, 0⟩ ⟨"orders", 0⟩ = [] := by decide +kernel
      change found ∈ ordersWorld.window ⟨7, 0, 0⟩ ⟨"orders", 0⟩ ↔ found ∈ []
      rw [hnone]
    · cases hfound
  | succ n ih =>
    obtain ⟨kept, hkept⟩ := ih (by omega)
    rw [range_succ, map_append, foldl_append]
    exact hkept.next (by omega)

/-- When the clock is set back behind a full window, a batch of the next epoch is forgotten as soon as it
is accepted, and a batch of the epoch before is accepted after it. -/
lemma Filled.not_told (h : Filled producerDedupeWindowBatches kept w) (accepted : List Accepted) :
    ¬ Told {} 7 ⟨"orders", 0⟩ ((emptyBatch 1 0).next {} 7 ⟨"orders", 0⟩ w)
      (accepted ++ (emptyBatch 1 0).accepted {} 7 ⟨"orders", 0⟩ w) (emptyBatch 0 5000) := by
  intro htold
  have hwidth : producerDedupeWindowBatches = 1024 := rfl
  have hlookup := lookupBatch_of_numbers 1 0 hwidth.le
    (fun found hfound => h.numbers found ((h.window found).mp hfound)) (by omega) (by omega)
  obtain ⟨stored, new, w', hadded, hrun⟩ :=
    exec_append_empty h.inv (by decide) (h.accepts.mono (by omega)) hlookup
  have hproduce : exec step ((emptyBatch 1 0).produce {} 7 ⟨"orders", 0⟩) w
      = (.ok (stored, true), w') := hrun
  have hnext : (emptyBatch 1 0).next {} 7 ⟨"orders", 0⟩ w = w' := congrArg Prod.snd hproduce
  have haccepted : (emptyBatch 1 0).accepted {} 7 ⟨"orders", 0⟩ w = [⟨1, 0, stored⟩] := by
    unfold ProducerBatch.accepted
    rw [hproduce]
    rfl
  have htime : new.updatedAtMS = 5 := by
    have hlate : ¬ 2 * producerDedupeWindowBatches + 1 < 2048 := by omega
    rw [hadded.time, h.env]
    change (if 2 * producerDedupeWindowBatches + 1 < 2048 then 1000 else 5) = 5
    rw [if_neg hlate]
  have hwindow : ∀ found, found ∈ w'.window ⟨7, 0, 5000⟩ ⟨"orders", 0⟩ ↔ found ∈ kept := by
    apply hadded.forgotten h.inv (by decide) (by decide) (lookupBatch_eq_ok_iff.mp hlookup).2.2.2.2
      h.window h.aged h.length
    intro found hfound
    left
    rw [htime, (h.numbers found hfound).2.1]
    decide
  have hlookup' := lookupBatch_of_numbers 0 5000 hwidth.le
    (fun found hfound => h.numbers found ((hwindow found).mp hfound)) (by omega) (by omega)
  obtain ⟨stored', new', w'', -, hrun'⟩ := exec_append_empty (hadded.inv h.inv) (by decide)
    (hadded.accepts (h.accepts.mono (by omega))) hlookup'
  rw [haccepted, hnext] at htold
  obtain ⟨err, hrefused⟩ := htold.fenced ⟨1, 0, stored⟩
    (mem_append_right _ (mem_singleton_self _)) Nat.zero_lt_one
  obtain ⟨w3, -, herr⟩ := hrefused w' (.refl {} w')
  have hboth := herr.symm.trans hrun'
  cases hboth

/-- After batches of one epoch that fill the window a batch of the next epoch is accepted at an earlier
time. It does not keep the batches of the epoch before out. -/
theorem epoch_forgotten :
    let batches := (List.range producerDedupeWindowBatches).map (emptyBatch 0) ++ [emptyBatch 1 0]
    ¬ Told {} 7 ⟨"orders", 0⟩
      (batches.foldl (ProducerBatch.next {} 7 ⟨"orders", 0⟩) { ordersWorld with env := setBackEnv })
      (acceptedIn {} 7 ⟨"orders", 0⟩ batches { ordersWorld with env := setBackEnv })
      (emptyBatch 0 5000) := by
  intro batches
  obtain ⟨kept, hkept⟩ := filled_run producerDedupeWindowBatches le_rfl
  have hworld : ∀ (first : List ProducerBatch) (w : World),
      (first ++ [emptyBatch 1 0]).foldl (ProducerBatch.next {} 7 ⟨"orders", 0⟩) w
        = (emptyBatch 1 0).next {} 7 ⟨"orders", 0⟩
          (first.foldl (ProducerBatch.next {} 7 ⟨"orders", 0⟩) w) := by
    intro first w
    rw [foldl_append, foldl_cons, foldl_nil]
  have haccepted : ∀ (first : List ProducerBatch) (w : World),
      acceptedIn {} 7 ⟨"orders", 0⟩ (first ++ [emptyBatch 1 0]) w
        = acceptedIn {} 7 ⟨"orders", 0⟩ first w ++ (emptyBatch 1 0).accepted {} 7 ⟨"orders", 0⟩
          (first.foldl (ProducerBatch.next {} 7 ⟨"orders", 0⟩) w) := by
    intro first w
    unfold acceptedIn
    rw [outputs_append, outputs, outputs, append_nil]
  rw [hworld, haccepted]
  exact hkept.not_told _

end Ech0.Broker
