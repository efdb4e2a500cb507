/-
  What a consumer that acknowledges records one by one is given.

  Its position is the first offset that it has not acknowledged, whether or not there is a record at
  that offset to acknowledge. A consumer never gets to acknowledge an offset that compaction or expiry
  has taken out of the log, and has no reason to acknowledge a control record; at such an offset its
  position stays (`delivered_iff`), and a fetch is a window from there on out of which the records
  acknowledged since are left out.
-/
import Ech0.Broker.CommittedReads

set_option autoImplicit false

namespace Ech0.Broker

open Ech0.Lib Ech0.Store StorxLogStore List

variable (consumer : String) {policy : TopicPriorityPolicy} {records : List Record}

section
variable {cfg : Config} {w : World} {tp : TopicPartition} {log : StorxLogStore}

/-- What ordering by priority gives. -/
def World.ordered (w : World) (topic : String) (records : List Record) : Except Error (List Record) :=
  if records.length < 2 then .ok records
  else match w.metadata.loadTopicConfig topic with
    | none => .error (topicNotFound topic)
    | some config =>
      let policy := normalizeTopicPriorityPolicy config.priorityPolicy
      if policy.enabled then orderRecordsByPriorityPolicy policy records else .ok records

/-- The records can be put in the order of their priority, if that is asked for at all. -/
def World.Orderable (w : World) (topic : String) (records : List Record) : Prop :=
  records.length < 2 ∨ ∃ config, w.metadata.loadTopicConfig topic = some config ∧
    ((normalizeTopicPriorityPolicy config.priorityPolicy).enabled = false ∨
      ∀ record ∈ records, ∃ priority,
        recordPriority (normalizeTopicPriorityPolicy config.priorityPolicy) record = .ok priority)

lemma peeks_orderRecordsByPriority (topic : String) (records : List Record) :
    Peeks cfg w (orderRecordsByPriority topic records) (w.ordered topic records) := by
  unfold orderRecordsByPriority World.ordered
  by_cases hshort : records.length < 2
  · rw [if_pos hshort, if_pos hshort]
    exact peeks_pure _
  · rw [if_neg hshort, if_neg hshort]
    have hload : Peeks cfg w (loadTopicConfig topic)
        ((w.metadata.loadTopicConfig topic).elim (.error (topicNotFound topic)) .ok) := by
      intro w1 h1
      refine ⟨w1, h1, ?_⟩
      have hrun := exec_loadTopicConfig topic w1
      rw [h1.looked.metadata] at hrun
      refine hrun.trans ?_
      cases w.metadata.loadTopicConfig topic <;> rfl
    cases hconfig : w.metadata.loadTopicConfig topic with
    | none =>
      rw [hconfig] at hload
      exact hload.bind_error
    | some config =>
      rw [hconfig] at hload
      refine hload.bind ?_
      dsimp only
      split
      · exact peeks_done _
      · exact peeks_pure _

/-- The loop that looks up the priorities. -/
lemma mapM_prioritized_ok {items : List PrioritizedRecord} (h : (records.mapM fun record => do
      let priority ← recordPriority policy record
      .ok (PrioritizedRecord.mk record priority)) = Except.ok items) :
    items.map PrioritizedRecord.record = records ∧
      ∀ item ∈ items, recordPriority policy item.record = .ok item.priority := by
  induction records generalizing items with
  | nil =>
    cases h
    exact ⟨rfl, by simp⟩
  | cons first rest ih =>
    rw [mapM_cons] at h
    obtain ⟨item, hitem, h⟩ := Except.bind_eq_ok.mp h
    obtain ⟨others, hothers, h⟩ := Except.bind_eq_ok.mp h
    obtain ⟨priority, hpriority, hmk⟩ := Except.bind_eq_ok.mp hitem
    cases hmk
    cases h
    obtain ⟨hmap, hall⟩ := ih hothers
    exact ⟨by rw [map_cons, hmap], forall_mem_cons.mpr ⟨hpriority, hall⟩⟩

/-- Records that have been put in order have priorities, and are sorted by them. -/
lemma orderRecordsByPriorityPolicy_ok {out : List Record}
    (h : orderRecordsByPriorityPolicy policy records = .ok out) :
    ∃ items : List PrioritizedRecord, items.map PrioritizedRecord.record = records ∧
      (∀ item ∈ items, recordPriority policy item.record = .ok item.priority) ∧
      out = (items.insertionSort fun left right => prioritizedRecordLE left right).map
        PrioritizedRecord.record := by
  obtain ⟨items, hitems, h⟩ := Except.bind_eq_ok.mp h
  obtain ⟨hmap, hall⟩ := mapM_prioritized_ok hitems
  exact ⟨items, hmap, hall, (Except.ok.inj h).symm⟩

lemma mapM_prioritized_of_priorities
    (h : ∀ record ∈ records, ∃ priority, recordPriority policy record = .ok priority) :
    ∃ items, (records.mapM fun record => do
      let priority ← recordPriority policy record
      .ok (PrioritizedRecord.mk record priority)) = Except.ok items := by
  induction records with
  | nil => exact ⟨[], rfl⟩
  | cons first rest ih =>
    obtain ⟨priority, hpriority⟩ := h first mem_cons_self
    obtain ⟨others, hothers⟩ := ih fun record hrecord => h record (mem_cons_of_mem _ hrecord)
    refine ⟨⟨first, priority⟩ :: others, ?_⟩
    rw [mapM_cons, hothers, hpriority]
    rfl

/-- Ordering neither adds nor drops a record. -/
lemma ordered_perm {topic : String} {out : List Record} (h : w.ordered topic records = .ok out) :
    out.Perm records := by
  unfold World.ordered at h
  split at h
  · cases h
    exact .refl _
  · split at h
    · cases h
    · next config hconfig =>
      dsimp only at h
      split at h
      · obtain ⟨items, rfl, -, rfl⟩ := orderRecordsByPriorityPolicy_ok h
        exact (perm_insertionSort _ items).map _
      · cases h
        exact .refl _

lemma ordered_ok_iff (topic : String) (records : List Record) :
    (∃ out, w.ordered topic records = .ok out) ↔ w.Orderable topic records := by
  unfold World.ordered World.Orderable
  by_cases hshort : records.length < 2
  · simp [hshort]
  · rw [if_neg hshort]
    cases w.metadata.loadTopicConfig topic with
    | none => simp [hshort]
    | some config =>
      simp only [hshort, false_or, Option.some.injEq, exists_eq_left']
      by_cases henabled : (normalizeTopicPriorityPolicy config.priorityPolicy).enabled = true
      · rw [if_pos henabled]
        simp only [henabled, Bool.true_eq_false, false_or]
        constructor
        · rintro ⟨out, hout⟩
          obtain ⟨items, rfl, hall, -⟩ := orderRecordsByPriorityPolicy_ok hout
          exact forall_mem_map.mpr fun item hitem => ⟨item.priority, hall item hitem⟩
        · intro hall
          obtain ⟨items, hitems⟩ := mapM_prioritized_of_priorities hall
          refine ⟨(items.insertionSort fun left right => prioritizedRecordLE left right).map
            PrioritizedRecord.record, ?_⟩
          unfold orderRecordsByPriorityPolicy
          rw [hitems]
          rfl
      · rw [if_neg henabled]
        simp [henabled]

lemma peeks_removePendingAckedRecords (records : List Record) :
    Peeks cfg w (removePendingAckedRecords consumer tp records)
      (.ok (recordsWithoutPendingOffsets records (pendingOf (w.offsetState consumer tp)))) := by
  have hnone : ∀ records : List Record, recordsWithoutPendingOffsets records [] = records := fun _ =>
    filter_eq_self.mpr fun _ _ => by simp
  unfold removePendingAckedRecords
  by_cases hnil : records = []
  · rw [if_pos hnil, hnil]
    exact peeks_pure _
  · rw [if_neg hnil]
    have hload : Peeks cfg w (wrapBroker "load pending acked offsets"
        (onMeta (.loadConsumerOffsetState consumer tp))) (.ok (w.offsetState consumer tp)) :=
      (peeks_onMeta (fun _ => rfl)).wrapBroker _
    generalize w.offsetState consumer tp = stored at hload ⊢
    refine hload.bind ?_
    cases stored with
    | none =>
      change Peeks cfg w (pure records) (.ok (recordsWithoutPendingOffsets records []))
      rw [hnone]
      exact peeks_pure _
    | some state =>
      change Peeks cfg w (if state.pendingOffsets = [] then pure records
        else pure (recordsWithoutPendingOffsets records state.pendingOffsets))
          (.ok (recordsWithoutPendingOffsets records state.pendingOffsets))
      by_cases hpending : state.pendingOffsets = []
      · rw [if_pos hpending, hpending, hnone]
        exact peeks_pure _
      · rw [if_neg hpending]
        exact peeks_pure _

variable {start : Nat}

/-- A partition whose start is known is there. -/
lemma exists_log_of_logStart (h : w.logStart cfg tp = some start) :
    ∃ log offsets, w.logAt (w.holder cfg tp) = .ok log ∧ log.HasPartition tp ∧
      log.partitionOffsets tp = .ok offsets ∧ offsets.logStartOffset = start := by
  unfold World.logStart at h
  split at h
  · cases h
  · next log hlog =>
    obtain ⟨offsets, hoffsets, hstart⟩ := Option.map_eq_some_iff.mp h
    have hresult := Except.toOption_eq_some.mp hoffsets
    obtain ⟨topic, htopic, -⟩ := Except.bind_eq_ok.mp hresult
    exact ⟨log, offsets, hlog, ⟨topic, (loadTopicForPartition_ok_iff log tp topic).mp htopic⟩,
      hresult, hstart⟩

lemma peeks_loadConsumerOffset (context : String) :
    Peeks cfg w (wrapBroker context (onMeta (.loadConsumerOffset consumer tp)))
      (.ok ((w.offsetState consumer tp).map ConsumerOffsetState.nextOffset)) := by
  have hsame : w.metadata.loadConsumerOffset consumer tp
      = (w.offsetState consumer tp).map ConsumerOffsetState.nextOffset := by
    unfold MemoryStore.loadConsumerOffset World.offsetState MemoryStore.loadConsumerOffsetState
    cases w.metadata.offsetStates[offsetKey consumer tp]? with
    | some state => rfl
    | none => cases w.metadata.offsets[offsetKey consumer tp]? <;> rfl
  rw [← hsame]
  exact (peeks_onMeta (fun _ => rfl)).wrapBroker _

lemma peeks_fetchStart (start : Nat) : Peeks cfg w (QueueRuntime.fetchStart consumer tp none start)
      (.ok (position (w.offsetState consumer tp) start)) := by
  refine (peeks_loadConsumerOffset consumer "load consumer offset").bind ?_
  cases w.offsetState consumer tp with
  | none => exact peeks_pure _
  | some state => exact peeks_pure _

lemma peeks_logOffsets (hlog : w.logAt (w.holder cfg tp) = .ok log) : Peeks cfg w
      (onLog (w.holder cfg tp) (.partitionOffsets tp)) (log.partitionOffsets tp) :=
  peeks_onLog hlog rfl fun _ _ => rfl

/-- The consumer is paused in the partition. -/
def World.paused (w : World) (consumer : String) (tp : TopicPartition) : Bool :=
  (w.metadata.loadConsumerPause consumer tp).any ConsumerPauseState.paused

lemma peeks_isConsumerPaused :
    Peeks cfg w (isConsumerPaused consumer tp) (.ok (w.paused consumer tp)) :=
  ((peeks_onMeta (fun _ => rfl)).wrapBroker _).bind (peeks_pure _)

variable {consumer : String}

lemma peeks_pausedPollResult_none (hpaused : w.paused consumer tp = false) (offset : Option Nat) :
    Peeks cfg w (pausedPollResult cfg consumer tp offset) (.ok none) := by
  refine (peeks_isConsumerPaused consumer).bind ?_
  rw [hpaused]
  exact peeks_pure _

section
variable (hinv : WorldInv w) (hlog : w.logAt (w.holder cfg tp) = .ok log)
  (hstart : w.logStart cfg tp = some start)

include hinv hstart

lemma peeks_partitionOffsets_ok : ∃ offsets : PartitionOffsetState, offsets.logStartOffset = start ∧
      Peeks cfg w (MessageRuntime.partitionOffsets cfg tp) (.ok offsets) := by
  obtain ⟨log, offsets, hlog, -, hoffsets, hstart⟩ := exists_log_of_logStart hstart
  have hload := peeks_logOffsets hlog
  rw [hoffsets] at hload
  exact ⟨offsets, hstart, (peeks_logFor hinv hlog).bind (hload.wrapBroker _)⟩

lemma peeks_fetchStartOffset
    (consumer : String) : Peeks cfg w (fetchStartOffset cfg consumer tp none)
      (.ok (position (w.offsetState consumer tp) start)) := by
  obtain ⟨offsets, rfl, hoffsets⟩ := peeks_partitionOffsets_ok hinv hstart
  refine (hoffsets.wrapBroker _).bind ((peeks_loadConsumerOffset consumer _).bind ?_)
  cases w.offsetState consumer tp with
  | none => exact peeks_pure _
  | some state => exact peeks_pure _

/-- A paused consumer gets no records. -/
lemma peeks_pausedPollResult_some
    (hpaused : w.paused consumer tp = true) : ∃ poll : PollResult, poll.records = [] ∧
      Peeks cfg w (pausedPollResult cfg consumer tp none) (.ok (some poll)) := by
  obtain ⟨offsets, -, hoffsets⟩ := peeks_partitionOffsets_ok hinv hstart
  refine ⟨⟨[], position (w.offsetState consumer tp) start, offsets.highWatermark,
    offsets.lowWatermark, offsets.logStartOffset⟩, rfl, (peeks_isConsumerPaused consumer).bind ?_⟩
  rw [hpaused]
  exact (peeks_fetchStartOffset hinv hstart consumer).bind
    ((hoffsets.wrapBroker _).bind (peeks_pure _))

include hlog

/-- A fetch without an offset reads a page from the position of the consumer. -/
lemma peeks_fetch (consumer : String) (maxRecords : Nat) :
    ∃ poll : PollResult, poll.records = (recordsFrom (log.recordsAt tp)
        (position (w.offsetState consumer tp) start)).take maxRecords ∧
      Peeks cfg w (MessageRuntime.fetch cfg consumer tp none maxRecords) (.ok poll) := by
  obtain ⟨_, offsets, hlog', hpart, hoffsets, rfl⟩ := exists_log_of_logStart hstart
  obtain rfl := Except.ok.inj (hlog.symm.trans hlog')
  have hload := peeks_logOffsets hlog
  rw [hoffsets] at hload
  have hread : Peeks cfg w (onLog (w.holder cfg tp) (.readFrom tp
      (position (w.offsetState consumer tp) offsets.logStartOffset) maxRecords)) (log.readFrom tp _ _) :=
    peeks_onLog hlog rfl (fun _ _ => rfl)
  rw [readFrom_eq (hinv.logAt hlog) hpart] at hread
  generalize (recordsFrom (log.recordsAt tp)
    (position (w.offsetState consumer tp) offsets.logStartOffset)).take maxRecords = page at hread ⊢
  let poll : PollResult :=
    ⟨page, (page.getLast?.map fun record => record.offset + 1).getD
      (position (w.offsetState consumer tp) offsets.logStartOffset), offsets.highWatermark,
      offsets.lowWatermark, offsets.logStartOffset⟩
  have hfetch : Peeks cfg w (QueueRuntime.fetch (w.holder cfg tp) consumer tp none maxRecords)
      (.ok poll) :=
    (hload.wrapBroker _).bind ((peeks_fetchStart consumer _).bind
      ((hread.wrapBroker _).bind (peeks_pure _)))
  exact ⟨poll, rfl, (peeks_logFor hinv hlog).bind (hfetch.wrapBroker _)⟩

/-- The log starts at its first record. -/
lemma logStart_le {record : Record}
    (hrecord : record ∈ log.recordsAt tp) : start ≤ record.offset := by
  obtain ⟨_, offsets, hlog', ⟨topic, htopic⟩, hoffsets, rfl⟩ := exists_log_of_logStart hstart
  obtain rfl := Except.ok.inj (hlog.symm.trans hlog')
  unfold partitionOffsets at hoffsets
  rw [(loadTopicForPartition_ok_iff log tp topic).mpr htopic] at hoffsets
  cases hoffsets
  have hordered := (hinv.logAt hlog).ordered tp
  change ((log.recordsAt tp).map Record.offset).head?.getD _ ≤ _
  generalize log.recordsAt tp = records at hrecord hordered
  cases records with
  | nil => cases hrecord
  | cons first rest =>
    rcases mem_cons.mp hrecord with rfl | hrest
    · exact le_rfl
    · exact ((pairwise_cons.mp hordered).1 record hrest).le

end

/-! ## Where the consumer stands -/

end

end Ech0.Broker
