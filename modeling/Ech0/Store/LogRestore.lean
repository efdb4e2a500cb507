/-
  What the snapshot of a log holds, and what a log restored from a snapshot holds.

  A snapshot lists the topics, and maps the text key of a partition to its records and to its
  next offset. `Holds` says of a snapshot which records and which next offsets it stands for;
  the snapshot of a well-formed log stands for what the log has. The restoration is described
  by `restore_ok_iff`, which says when it goes through, and `restore_spec`, which says what it
  leaves behind: the records as they were, and as next offsets those of the snapshot, whatever
  they are.
-/
import Ech0.Store.LogInvariant

set_option autoImplicit false

namespace Ech0.Store

open Ech0.Lib StorxLogStore List Map

variable (es : List (String × List Record)) {s' : StorxLogStore}

/-- The records and next offsets a snapshot stands for. -/
structure Snapshot.Holds (snapshot : Snapshot) (records : TopicPartition → List Record)
    (next : TopicPartition → Option Nat) : Prop where
  records : ∀ key rs, snapshot.records[key]? = some rs ↔
    ∃ tp, partitionKey tp = key ∧ records tp = rs ∧ rs ≠ []
  next : ∀ key n, snapshot.logOffsets[key]? = some n ↔
    ∃ tp, partitionKey tp = key ∧ next tp = some n

namespace Snapshot.Holds

variable {snapshot : Snapshot} {records : TopicPartition → List Record}
  {next : TopicPartition → Option Nat}

/-- A partition without records has no entry. -/
lemma get_records (h : snapshot.Holds records next) (tp : TopicPartition) :
    snapshot.records[partitionKey tp]? = if records tp = [] then none else some (records tp) := by
  split
  · next hnil =>
    rw [Option.eq_none_iff_forall_not_mem]
    intro rs hrs
    obtain ⟨a, hkey, hval, hne⟩ := (h.records _ rs).mp hrs
    rw [partitionKey_injective hkey, hnil] at hval
    exact hne hval.symm
  · next hne => exact (h.records _ _).mpr ⟨tp, rfl, rfl, hne⟩

lemma get_next (h : snapshot.Holds records next) (tp : TopicPartition) :
    snapshot.logOffsets[partitionKey tp]? = next tp := by
  refine Option.ext fun n => ⟨fun hn => ?_, fun hn => (h.next _ n).mpr ⟨tp, rfl, hn⟩⟩
  obtain ⟨a, hkey, hval⟩ := (h.next _ n).mp hn
  rw [← partitionKey_injective hkey]
  exact hval

/-- A snapshot is described by its entries at the keys of partitions, if it has no others. -/
lemma of_get (hkeys : ∀ key rs, snapshot.records[key]? = some rs → ∃ tp, partitionKey tp = key)
    (hkeys2 : ∀ key n, snapshot.logOffsets[key]? = some n → ∃ tp, partitionKey tp = key)
    (hrecords : ∀ tp, snapshot.records[partitionKey tp]?
      = if records tp = [] then none else some (records tp))
    (hnext : ∀ tp, snapshot.logOffsets[partitionKey tp]? = next tp) :
    snapshot.Holds records next := by
  constructor
  · intro key rs
    constructor
    · intro hget
      obtain ⟨tp, rfl⟩ := hkeys key rs hget
      rw [hrecords] at hget
      split at hget
      · cases hget
      · next hne =>
        cases hget
        exact ⟨tp, rfl, rfl, hne⟩
    · rintro ⟨tp, rfl, rfl, hne⟩
      rw [hrecords, if_neg hne]
  · intro key n
    constructor
    · intro hget
      obtain ⟨tp, rfl⟩ := hkeys2 key n hget
      exact ⟨tp, rfl, (hnext tp).symm.trans hget⟩
    · rintro ⟨tp, rfl, hn⟩
      exact (hnext tp).trans hn

end Snapshot.Holds

namespace StorxLogStore

/-! ## The snapshot of a log -/

/-- The loop of `snapshotRecords`, over partitions that are all different: each entry is written
once, so the records already there for its key are none. -/
lemma snapshotPartitionRecords_loop (es : List (TopicPartition × List Record))
    (hnodup : (es.map Prod.fst).Nodup) (out : Map String (List Record))
    (hout : ∀ e ∈ es, out[partitionKey e.1]? = none) (key : String) (rs : List Record) :
    (es.foldl snapshotPartitionRecords out)[key]? = some rs ↔
      out[key]? = some rs ∨ ∃ e ∈ es, partitionKey e.1 = key ∧ e.2 = rs ∧ rs ≠ [] := by
  induction es generalizing out with
  | nil => simp
  | cons e rest ih =>
    rw [map_cons, nodup_cons] at hnodup
    have hfree := hout e mem_cons_self
    have hother : ∀ e' ∈ rest, partitionKey e.1 ≠ partitionKey e'.1 := fun e' he' heq =>
      hnodup.1 (partitionKey_injective heq ▸ mem_map_of_mem he')
    have hstep : snapshotPartitionRecords out e
        = if e.2 = [] then out else out.insert (partitionKey e.1) e.2 := by
      rw [snapshotPartitionRecords, hfree]
      rfl
    have hrest : ∀ e' ∈ rest, (snapshotPartitionRecords out e)[partitionKey e'.1]? = none := by
      intro e' he'
      rw [hstep]
      split
      · exact hout e' (mem_cons_of_mem e he')
      · rw [get_insert_of_ne _ _ (hother e' he')]
        exact hout e' (mem_cons_of_mem e he')
    rw [foldl_cons, ih hnodup.2 _ hrest, hstep]
    simp only [mem_cons, exists_eq_or_imp, ← or_assoc]
    refine or_congr_left ?_
    by_cases hnil : e.2 = []
    · rw [if_pos hnil]
      constructor
      · exact Or.inl
      · rintro (h | ⟨-, rfl, hne⟩)
        · exact h
        · exact absurd hnil hne
    · rw [if_neg hnil]
      constructor
      · intro h
        rcases get_insert_eq_some h with ⟨hkey, rfl⟩ | ⟨-, h⟩
        · exact Or.inr ⟨hkey, rfl, hnil⟩
        · exact Or.inl h
      · rintro (h | ⟨rfl, rfl, -⟩)
        · rw [get_insert_of_ne _ _ fun heq => ?_]
          · exact h
          · rw [← heq, hfree] at h
            cases h
        · exact get_insert_self _ _ _

variable {s : StorxLogStore}

lemma mem_recordsAt_iff (s : StorxLogStore) (tp : TopicPartition) (rs : List Record)
    (hne : rs ≠ []) : s.records[tp]? = some rs ↔ s.recordsAt tp = rs := by
  unfold recordsAt
  cases hget : s.records[tp]? with
  | none => simp [hne.symm]
  | some found => simp

/-- **The snapshot of a well-formed log** stands for its records and next offsets. -/
theorem snapshot_holds (hinv : LogInv s) :
    s.snapshot.Holds s.recordsAt (fun tp => s.nextOffsets[tp]?) := by
  constructor
  · intro key rs
    change ((s.records.toList.foldl snapshotPartitionRecords ∅).map
      fun _ records => sortedRecords records)[key]? = some rs ↔ _
    rw [Std.ExtTreeMap.getElem?_map, Option.map_eq_some_iff]
    have hloop := snapshotPartitionRecords_loop s.records.toList s.records.nodup_keys ∅ (by simp) key
    constructor
    · rintro ⟨found, hfound, rfl⟩
      rcases (hloop found).mp hfound with h | ⟨⟨tp, rs⟩, hmem, hkey, rfl, hne⟩
      · simp at h
      · have hat := (mem_recordsAt_iff s tp rs hne).mp ((mem_toList _ _ _).mp hmem)
        have hord : OffsetOrdered rs := hat ▸ hinv.ordered tp
        exact ⟨tp, hkey, by rw [hat, hord.sortedRecords_eq], by rw [hord.sortedRecords_eq]; exact hne⟩
    · rintro ⟨tp, hkey, rfl, hne⟩
      refine ⟨s.recordsAt tp, (hloop _).mpr (Or.inr ⟨(tp, s.recordsAt tp), ?_, hkey, rfl, hne⟩),
        (hinv.ordered tp).sortedRecords_eq⟩
      exact (mem_toList _ _ _).mpr ((mem_recordsAt_iff s tp _ hne).mpr rfl)
  · intro key n
    have hnodup : (s.nextOffsets.toList.map fun e => partitionKey e.1).Nodup := by
      have h := (s.nextOffsets.nodup_keys).map partitionKey_injective
      rw [map_map] at h
      exact h
    have hloop := get_setEach_iff (fun e : TopicPartition × Nat => partitionKey e.1) Prod.snd
      hnodup key n
    refine hloop.trans ⟨?_, ?_⟩
    · rintro ⟨⟨tp, m⟩, hmem, hkey, rfl⟩
      exact ⟨tp, hkey, (mem_toList _ _ _).mp hmem⟩
    · rintro ⟨tp, hkey, hn⟩
      exact ⟨(tp, n), (mem_toList _ _ _).mpr hn, hkey, rfl⟩

/-! ## Appending restored records

A restored record goes to its place in offset order and takes the place of a record that has
its offset. Records that come in order are appended one after the other. -/

variable {records : List Record}

lemma appendRecordSorted_eq (record : Record) :
    appendRecordSorted record records = insertKeyed Record.offset record records := by
  induction records with
  | nil => rfl
  | cons first rest ih => rw [appendRecordSorted, insertKeyed, ih]

lemma mem_appendRecordSorted (hord : OffsetOrdered records) {record r : Record}
    (h : r ∈ appendRecordSorted record records) : r = record ∨ r ∈ records := by
  rw [appendRecordSorted_eq, mem_insertKeyed hord] at h
  exact h.imp_right And.left

/-- One partition was written by a restoration; the key index is not built yet and stays so. -/
structure PartitionRestored (s s' : StorxLogStore) (tp : TopicPartition) (records : List Record)
    (next : Nat) : Prop where
  topics : s'.topics = s.topics
  keyRecords : s.keyRecords = ∅ → s'.keyRecords = ∅
  records : ∀ a, s'.recordsAt a = if tp = a then records else s.recordsAt a
  next : ∀ a, s'.nextOffset a = if tp = a then next else s.nextOffset a
  inv : LogInv s'

variable {tp : TopicPartition}

/-- **One restored record.** -/
theorem recordAppendedPointer_spec (hinv : LogInv s) (hpart : s.HasPartition tp) (record : Record) :
    PartitionRestored s (s.recordAppendedPointer tp record) tp
      (appendRecordSorted record (s.recordsAt tp)) (max (s.nextOffset tp) (record.offset + 1)) := by
  -- the next offset is written only when the record lies beyond it; in either case it is the maximum
  have hafter : s.recordAppendedPointer tp record =
      { topics := s.topics
        records := s.records.insert tp (appendRecordSorted record (s.recordsAt tp))
        nextOffsets := s.nextOffsets.insert tp (max (s.nextOffset tp) (record.offset + 1))
        keyRecords := s.keysAfter tp [record] } := by
    unfold recordAppendedPointer
    rw [recordAppendedKeyPointersLocked_eq]
    change (if record.offset ≥ s.nextOffset tp then _ else _) = _
    split
    · rw [Nat.max_eq_right (by omega)]
      rfl
    · rw [Nat.max_eq_left (by omega), insert_eq_self _ _ _ (hinv.get_nextOffset hpart)]
      rfl
  rw [hafter]
  refine ⟨rfl, fun hk => ?_, recordsAt_of_insert rfl, nextOffset_of_insert rfl, ?_⟩
  · simp [keysAfter, hk]
  · have hkeyed : KeyOrdered Record.offset (s.recordsAt tp) := hinv.ordered tp
    refine hinv.of_partition hpart rfl rfl rfl (appendRecordSorted_eq record ▸ hkeyed.insertKeyed)
      fun r hr => ?_
    rcases mem_appendRecordSorted (hinv.ordered tp) hr with rfl | hr
    · omega
    · have := hinv.below tp r hr
      omega

lemma appendRestoredRecord_ok (hpart : s.HasPartition tp) (record : Record) :
    s.appendRestoredRecord tp record = .ok (s.recordAppendedPointer tp record) := by
  obtain ⟨topic, htopic⟩ := hpart
  rw [appendRestoredRecord, (loadTopicForPartition_ok_iff s tp topic).mpr htopic]
  rfl

lemma appendRestoredRecord_error (hpart : ¬ s.HasPartition tp) (record : Record) :
    ∃ err, s.appendRestoredRecord tp record = .error err := by
  rw [appendRestoredRecord]
  cases hload : s.loadTopicForPartition tp with
  | error err => exact ⟨err, rfl⟩
  | ok topic => exact absurd ⟨topic, (loadTopicForPartition_ok_iff s tp topic).mp hload⟩ hpart

lemma hasPartition_congr (h : s'.topics = s.topics) (tp : TopicPartition) :
    s'.HasPartition tp ↔ s.HasPartition tp := by
  rw [HasPartition, HasPartition, h]

/-- The loop over restored records, in any order and with any offsets: the log stays well
formed. -/
lemma appendRestoredRecords_inv (records : List Record) (hinv : LogInv s)
    (hpart : s.HasPartition tp) :
    ∃ s', appendRestoredRecords tp s records = (.ok (), s') ∧ s'.topics = s.topics ∧ LogInv s' ∧
      ∀ r ∈ s'.recordsAt tp, r ∈ s.recordsAt tp ∨ r ∈ records := by
  induction records generalizing s with
  | nil => exact ⟨s, rfl, rfl, hinv, fun _ hr => Or.inl hr⟩
  | cons record rest ih =>
    have hstep := recordAppendedPointer_spec hinv hpart record
    obtain ⟨s', hrun, ht, hinv', hmem⟩ := ih hstep.inv ((hasPartition_congr hstep.topics tp).mpr hpart)
    refine ⟨s', ?_, ht.trans hstep.topics, hinv', fun r hr => ?_⟩
    · rw [appendRestoredRecords, appendRestoredRecord_ok hpart]
      exact hrun
    · rcases hmem r hr with hr | hr
      · rw [hstep.records, if_pos rfl] at hr
        rcases mem_appendRecordSorted (hinv.ordered tp) hr with rfl | hr
        · exact Or.inr mem_cons_self
        · exact Or.inl hr
      · exact Or.inr (mem_cons_of_mem record hr)

/-- **Records that come in order** are appended as they come. -/
theorem appendRestoredRecords_spec (records : List Record) (hinv : LogInv s)
    (hpart : s.HasPartition tp) (hord : OffsetOrdered (s.recordsAt tp ++ records)) :
    ∃ s', appendRestoredRecords tp s records = (.ok (), s') ∧
      PartitionRestored s s' tp (s.recordsAt tp ++ records)
        (max (s.nextOffset tp) (nextOffsetFromRecords records)) := by
  induction records generalizing s with
  | nil =>
    refine ⟨s, rfl, rfl, id, fun a => ?_, fun a => ?_, hinv⟩
    · split
      · next heq => rw [heq, append_nil]
      · rfl
    · split
      · next heq => rw [heq, nextOffsetFromRecords, foldl_nil, Nat.max_zero]
      · rfl
  | cons record rest ih =>
    have hstep := recordAppendedPointer_spec hinv hpart record
    have hlt : ∀ r ∈ s.recordsAt tp, r.offset < record.offset := fun r hr =>
      (pairwise_append.mp hord).2.2 r hr record mem_cons_self
    have hat : (s.recordAppendedPointer tp record).recordsAt tp = s.recordsAt tp ++ [record] := by
      rw [hstep.records, if_pos rfl, appendRecordSorted_eq, insertKeyed_of_lt hlt]
    have hassoc : s.recordsAt tp ++ record :: rest = s.recordsAt tp ++ [record] ++ rest := by
      rw [append_assoc, singleton_append]
    obtain ⟨s', hrun, hs'⟩ := ih hstep.inv ((hasPartition_congr hstep.topics tp).mpr hpart)
      (by rw [hat, ← hassoc]; exact hord)
    refine ⟨s', ?_, hs'.topics.trans hstep.topics, fun hk => hs'.keyRecords (hstep.keyRecords hk),
      fun a => ?_, fun a => ?_, hs'.inv⟩
    · rw [appendRestoredRecords, appendRestoredRecord_ok hpart]
      exact hrun
    · rw [hs'.records, hat, hassoc]
      split
      · rfl
      · next hne => rw [hstep.records, if_neg hne]
    · rw [hs'.next, hstep.next, if_pos rfl]
      split
      · -- both sides are the least bound above the first record and the rest
        refine eq_of_forall_ge_iff fun n => ?_
        simp only [Nat.max_le, nextOffsetFromRecords_le_iff, forall_mem_cons, Nat.succ_le_iff,
          and_assoc]
      · next hne => rw [hstep.next, if_neg hne]

/-! ## Restoring the topics -/

/-- A list of topics that a log accepts: each is well formed and no name occurs twice. -/
structure TopicList (topics : List TopicConfig) : Prop where
  registered : ∀ topic ∈ topics, RegisteredTopic topic.name topic
  nodup : (topics.map TopicConfig.name).Nodup

lemma topicList_listLogTopics {s : StorxLogStore} (h : LogInv s) : TopicList s.listLogTopics := by
  constructor
  · intro topic htopic
    obtain ⟨⟨name, found⟩, he, rfl⟩ := mem_map.mp htopic
    have hreg := h.topic name found ((mem_toList _ _ _).mp he)
    exact ⟨rfl, hreg.name_eq ▸ hreg.name_ne, hreg.partitions_ne, hreg.normal⟩
  · have hnames : s.listLogTopics.map TopicConfig.name = s.topics.toList.map Prod.fst := by
      rw [listLogTopics, map_map]
      refine map_congr_left fun e he => ?_
      exact (h.topic e.1 e.2 ((mem_toList _ _ _).mp he)).name_eq
    rw [hnames]
    exact s.topics.nodup_keys

/-- The partition is one of a topic of the list. -/
def InTopics (topics : List TopicConfig) (tp : TopicPartition) : Prop :=
  ∃ topic ∈ topics, topic.name = tp.topic ∧ tp.partition < topic.partitions

lemma createTopic_of_registered {topic : TopicConfig} (h : RegisteredTopic topic.name topic)
    (hnew : s.topics[topic.name]? = none) : ∃ s', s.createTopic topic = .ok s' := by
  rw [createTopic, validateLogTopicForCreate, if_neg h.name_ne, if_neg h.partitions_ne]
  simp only [bind, Except.bind, h.normal, (contains_eq_false_iff _ _).mpr hnew]
  exact ⟨_, rfl⟩

/-- The log that has the given topics and no records. -/
structure FreshLog (s : StorxLogStore) (topics : List TopicConfig) : Prop where
  topics : ∀ name topic, s.topics[name]? = some topic ↔ topic ∈ topics ∧ topic.name = name
  keyRecords : s.keyRecords = ∅
  records : ∀ tp, s.recordsAt tp = []
  next : ∀ tp, s.nextOffset tp = 0
  inv : LogInv s

lemma FreshLog.hasPartition_iff {topics : List TopicConfig} (h : FreshLog s topics)
    (tp : TopicPartition) : s.HasPartition tp ↔ InTopics topics tp := by
  constructor
  · rintro ⟨topic, hget, hlt⟩
    obtain ⟨hmem, hname⟩ := (h.topics _ _).mp hget
    exact ⟨topic, hmem, hname, hlt⟩
  · rintro ⟨topic, hmem, hname, hlt⟩
    exact ⟨topic, (h.topics _ _).mpr ⟨hmem, hname⟩, hlt⟩

lemma FreshLog.createTopic {created : List TopicConfig} {topic : TopicConfig}
    (hfresh : FreshLog s created) (hreg : RegisteredTopic topic.name topic)
    (h : s.createTopic topic = .ok s') : FreshLog s' (created ++ [topic]) where
  topics name found := by
    have hnew := (createTopic_ok h).2.1
    rw [topics_createTopic h, hreg.normal]
    by_cases heq : topic.name = name
    · rw [if_pos heq, Option.some.injEq, mem_append, mem_singleton]
      constructor
      · rintro rfl
        exact ⟨Or.inr rfl, heq⟩
      · rintro ⟨hmem | rfl, hname⟩
        · rw [(hfresh.topics topic.name found).mpr ⟨hmem, hname.trans heq.symm⟩] at hnew
          cases hnew
        · rfl
    · rw [if_neg heq, hfresh.topics, mem_append, mem_singleton]
      constructor
      · rintro ⟨hmem, hname⟩
        exact ⟨Or.inl hmem, hname⟩
      · rintro ⟨hmem | rfl, hname⟩
        · exact ⟨hmem, hname⟩
        · exact absurd hname heq
  keyRecords := by
    rw [(createTopic_ok h).2.2, ensureTopicPartitionsLocked, keyRecords_ensurePartitions]
    exact hfresh.keyRecords
  records tp := by rw [recordsAt_createTopic hfresh.inv h, hfresh.records]
  next tp := by rw [nextOffset_createTopic hfresh.inv h, hfresh.next]
  inv := hfresh.inv.createTopic h

/-- The loop of `restoreLogTopics`, after the topics `created`. -/
lemma restoreLogTopics_loop (topics created : List TopicConfig) (hfresh : FreshLog s created)
    (hreg : ∀ topic ∈ topics, RegisteredTopic topic.name topic)
    (hnodup : ((created ++ topics).map TopicConfig.name).Nodup) :
    ∃ s', restoreLogTopics s topics = (.ok (), s') ∧ FreshLog s' (created ++ topics) := by
  induction topics generalizing s created with
  | nil => exact ⟨s, rfl, by rw [append_nil]; exact hfresh⟩
  | cons topic rest ih =>
    have hnew : s.topics[topic.name]? = none := by
      rw [Option.eq_none_iff_forall_ne_some]
      intro found hfound
      obtain ⟨hmem, hname⟩ := (hfresh.topics _ _).mp hfound
      rw [map_append, nodup_append] at hnodup
      exact hnodup.2.2 _ (mem_map_of_mem hmem) _ (mem_map_of_mem mem_cons_self) hname
    obtain ⟨s1, hcreate⟩ := createTopic_of_registered (hreg topic mem_cons_self) hnew
    have hassoc : created ++ topic :: rest = (created ++ [topic]) ++ rest := by
      rw [append_assoc, singleton_append]
    obtain ⟨s', hrun, hs'⟩ := ih (created ++ [topic])
      (hfresh.createTopic (hreg topic mem_cons_self) hcreate)
      (fun t ht => hreg t (mem_cons_of_mem topic ht)) (hassoc ▸ hnodup)
    refine ⟨s', ?_, hassoc ▸ hs'⟩
    rw [restoreLogTopics, hcreate]
    exact hrun

lemma restoreLogTopics_spec {topics : List TopicConfig} (h : TopicList topics) :
    ∃ s', restoreLogTopics {} topics = (.ok (), s') ∧ FreshLog s' topics :=
  restoreLogTopics_loop topics [] ⟨by simp, rfl, fun _ => by simp [recordsAt],
    fun _ => by simp [nextOffset], LogInv.empty⟩ h.registered h.nodup

/-! ## Restoring the records -/

/-- The loop of `restoreLogRecordValues` over entries that can all be appended. -/
lemma restoreLogRecordValues_spec (hinv : LogInv s) (hnodup : (es.map Prod.fst).Nodup)
    (hload : ∀ e ∈ es, ∃ tp, partitionKey tp = e.1 ∧ NulFree tp.topic ∧ s.HasPartition tp ∧
      s.recordsAt tp = [] ∧ s.nextOffset tp = 0 ∧ OffsetOrdered e.2) :
    ∃ s', restoreLogRecordValues s es = (.ok (), s') ∧ s'.topics = s.topics ∧ LogInv s' ∧
      (s.keyRecords = ∅ → s'.keyRecords = ∅) ∧ (∀ tp rs, (partitionKey tp, rs) ∈ es →
        s'.recordsAt tp = rs ∧ s'.nextOffset tp = nextOffsetFromRecords rs) ∧
      (∀ tp, partitionKey tp ∉ es.map Prod.fst →
        s'.recordsAt tp = s.recordsAt tp ∧ s'.nextOffset tp = s.nextOffset tp) := by
  induction es generalizing s with
  | nil => exact ⟨s, rfl, rfl, hinv, id, nofun, fun _ _ => ⟨rfl, rfl⟩⟩
  | cons e rest ih =>
    obtain ⟨key, rs⟩ := e
    rw [map_cons, nodup_cons] at hnodup
    obtain ⟨tp, hkey, hnul, hpart, hempty, hzero, hord⟩ := hload (key, rs) mem_cons_self
    dsimp only at hkey hord
    obtain ⟨s1, hrun, hs1⟩ := appendRestoredRecords_spec rs hinv hpart (by rw [hempty]; exact hord)
    rw [hempty, hzero, nil_append, Nat.zero_max] at hs1
    have hother : ∀ a, partitionKey a ∈ rest.map Prod.fst → tp ≠ a := by
      rintro a ha rfl
      exact hnodup.1 (hkey ▸ ha)
    obtain ⟨s', hrun', ht, hinv', hk, hin, hout⟩ := ih hs1.inv hnodup.2 (by
      intro e he
      obtain ⟨a, hakey, hanul, hapart, haempty, hazero, haord⟩ := hload e (mem_cons_of_mem _ he)
      have hne : tp ≠ a := hother a (hakey ▸ mem_map_of_mem he)
      refine ⟨a, hakey, hanul, (hasPartition_congr hs1.topics a).mpr hapart, ?_, ?_, haord⟩
      · rw [hs1.records, if_neg hne, haempty]
      · rw [hs1.next, if_neg hne, hazero])
    refine ⟨s', ?_, ht.trans hs1.topics, hinv', fun h => hk (hs1.keyRecords h), ?_, ?_⟩
    · rw [restoreLogRecordValues, restoreLogPartitionRecords, ← hkey,
        parsePartitionKey_partitionKey hnul]
      dsimp only
      rw [hrun]
      exact hrun'
    · intro a rs' hmem
      rcases mem_cons.mp hmem with heq | hmem
      · cases heq
        have hsame : tp = a := partitionKey_injective hkey
        have hout' := hout a hnodup.1
        rw [hout'.1, hout'.2, hs1.records, hs1.next, if_pos hsame, if_pos hsame]
        exact ⟨rfl, rfl⟩
      · exact hin a rs' hmem
    · intro a ha
      rw [map_cons, mem_cons, not_or] at ha
      have hne : tp ≠ a := fun heq => ha.1 (heq ▸ hkey)
      obtain ⟨hr, hn⟩ := hout a ha.2
      rw [hr, hn, hs1.records, hs1.next, if_neg hne, if_neg hne]
      exact ⟨rfl, rfl⟩

lemma appendRestoredRecords_topics (tp : TopicPartition) (records : List Record)
    (s : StorxLogStore) : (appendRestoredRecords tp s records).2.topics = s.topics := by
  induction records generalizing s with
  | nil => rfl
  | cons record rest ih =>
    rw [appendRestoredRecords, appendRestoredRecord]
    cases s.loadTopicForPartition tp with
    | error err => rfl
    | ok topic =>
      refine (ih (s.recordAppendedPointer tp record)).trans ?_
      unfold recordAppendedPointer
      rw [recordAppendedKeyPointersLocked_eq]
      dsimp only
      split
      · rfl
      · rfl

/-- An entry that cannot be appended makes the loop fail, whatever comes before it. -/
lemma restoreLogRecordValues_error {rs : List Record} (hmem : (partitionKey tp, rs) ∈ es)
    (hne : rs ≠ []) (hbad : ¬ (NulFree tp.topic ∧ s.HasPartition tp)) :
    ∃ err, (restoreLogRecordValues s es).1 = .error err := by
  induction es generalizing s with
  | nil => cases hmem
  | cons e rest ih =>
    obtain ⟨key, records⟩ := e
    rw [restoreLogRecordValues]
    cases hrun : s.restoreLogPartitionRecords key records with
    | mk outcome s1 =>
      cases outcome with
      | error err => exact ⟨err, rfl⟩
      | ok _ =>
        rcases mem_cons.mp hmem with heq | hmem
        · -- this is the entry: parsing it or appending its first record fails
          cases heq
          rw [restoreLogPartitionRecords] at hrun
          by_cases hnul : NulFree tp.topic
          · rw [parsePartitionKey_partitionKey hnul] at hrun
            have hpart : ¬ s.HasPartition tp := fun hp => hbad ⟨hnul, hp⟩
            cases rs with
            | nil => exact absurd rfl hne
            | cons record more =>
              obtain ⟨err, herr⟩ := appendRestoredRecord_error hpart record
              simp only [appendRestoredRecords, herr] at hrun
              cases hrun
          · obtain ⟨err, herr⟩ := parsePartitionKey_isError hnul
            simp only [herr] at hrun
            cases hrun
        · refine ih hmem ?_
          have htopics : s1.topics = s.topics := by
            rw [restoreLogPartitionRecords] at hrun
            cases hparse : parsePartitionKey key with
            | error err => simp [hparse] at hrun
            | ok a =>
              simp only [hparse] at hrun
              have h := appendRestoredRecords_topics a records s
              rw [hrun] at h
              exact h
          rw [hasPartition_congr htopics]
          exact hbad

/-! ## Restoring the next offsets -/

/-- The entry that `restoreLogNextOffsetMap` makes of a key and a value. -/
def nextOffsetEntry (e : String × Nat) : Option (TopicPartition × Nat) :=
  match parsePartitionKey e.1 with
  | .ok tp => some (tp, e.2)
  | .error _ => none

lemma restoreLogNextOffsetMap_eq (offsets : Map String Nat) :
    restoreLogNextOffsetMap offsets = setSome nextOffsetEntry offsets.toList ∅ := by
  unfold restoreLogNextOffsetMap setSome nextOffsetEntry
  congr 1
  funext next e
  cases parsePartitionKey e.1 with
  | error err => rfl
  | ok tp => rfl

/-- The keys that parse are those of topics without a NUL byte. -/
lemma restoreLogNextOffsetMap_spec {snapshot : Snapshot} {records : TopicPartition → List Record}
    {next : TopicPartition → Option Nat} (h : snapshot.Holds records next) (tp : TopicPartition) :
    (restoreLogNextOffsetMap snapshot.logOffsets)[tp]?
      = if NulFree tp.topic then next tp else none := by
  have hentry : ∀ e ∈ snapshot.logOffsets.toList, ∀ a n, nextOffsetEntry e = some (a, n) →
      partitionKey a = e.1 ∧ NulFree a.topic ∧ e.2 = n ∧ next a = some n := by
    rintro ⟨key, m⟩ he a n hsome
    obtain ⟨b, rfl, hb⟩ := (h.next key m).mp ((mem_toList _ _ _).mp he)
    unfold nextOffsetEntry at hsome
    split at hsome
    · next parsed hparse =>
      cases hsome
      obtain ⟨hnul, rfl⟩ := parsePartitionKey_partitionKey_iff.mp hparse
      exact ⟨rfl, hnul, rfl, hb⟩
    · cases hsome
  have hnodup : ((snapshot.logOffsets.toList.filterMap nextOffsetEntry).map Prod.fst).Nodup := by
    rw [List.Nodup, pairwise_map, pairwise_filterMap]
    refine List.Pairwise.imp_of_mem ?_ (pairwise_map.mp snapshot.logOffsets.nodup_keys)
    rintro e1 e2 he1 he2 hne ⟨a, n⟩ hs1 ⟨b, m⟩ hs2 heq
    exact hne ((hentry e1 he1 a n hs1).1.symm.trans
      ((congrArg partitionKey heq).trans (hentry e2 he2 b m hs2).1))
  rw [restoreLogNextOffsetMap_eq]
  by_cases hnul : NulFree tp.topic
  · rw [if_pos hnul]
    cases hnext : next tp with
    | none =>
      rw [get_setSome_of_not_mem]
      · simp
      · intro e he n hsome
        rw [(hentry e he tp n hsome).2.2.2] at hnext
        cases hnext
    | some n =>
      have hmem : (partitionKey tp, n) ∈ snapshot.logOffsets.toList :=
        (mem_toList _ _ _).mpr ((h.next _ _).mpr ⟨tp, rfl, hnext⟩)
      refine get_setSome_of_mem nextOffsetEntry ∅ hmem ?_ hnodup
      simp only [nextOffsetEntry, parsePartitionKey_partitionKey hnul]
  · rw [if_neg hnul, get_setSome_of_not_mem]
    · simp
    · intro e he n hsome
      exact hnul (hentry e he tp n hsome).2.1

/-- The loop of `advanceRestoredNextOffsets` over the records of one partition is that of
`nextOffsetFromRecords`. -/
lemma advance_loop (tp : TopicPartition) (records : List Record) (next : Map TopicPartition Nat) :
    let advanced := records.foldl (fun next record =>
      if record.offset ≥ (next[tp]?).getD 0 then next.insert tp (record.offset + 1) else next) next
    (∀ a, tp ≠ a → advanced[a]? = next[a]?) ∧
      (advanced[tp]?).getD 0
        = records.foldl (fun next record => if record.offset ≥ next then record.offset + 1 else next)
            ((next[tp]?).getD 0) := by
  induction records generalizing next with
  | nil => exact ⟨fun _ _ => rfl, rfl⟩
  | cons record rest ih =>
    dsimp only at ih ⊢
    rw [foldl_cons, foldl_cons]
    by_cases hge : record.offset ≥ (next[tp]?).getD 0
    · rw [if_pos hge, if_pos hge]
      obtain ⟨hother, hself⟩ := ih (next.insert tp (record.offset + 1))
      refine ⟨fun a ha => ?_, ?_⟩
      · rw [hother a ha, get_insert_of_ne _ _ ha]
      · rw [hself, get_insert_self, Option.getD_some]
    · rw [if_neg hge, if_neg hge]
      exact ih next

lemma advanceRestoredNextOffsets_spec (hnodup : (es.map Prod.fst).Nodup)
    (hload : ∀ e ∈ es, ∃ tp, partitionKey tp = e.1 ∧ NulFree tp.topic)
    (next : Map TopicPartition Nat) :
    let advanced := es.foldl (fun next e => advanceRestoredNextOffsets next e.1 e.2) next
    (∀ tp, partitionKey tp ∉ es.map Prod.fst → advanced[tp]? = next[tp]?) ∧
      ∀ tp rs, (partitionKey tp, rs) ∈ es → next[tp]? = none →
        (advanced[tp]?).getD 0 = nextOffsetFromRecords rs := by
  induction es generalizing next with
  | nil => exact ⟨fun _ _ => rfl, nofun⟩
  | cons e rest ih =>
    obtain ⟨key, rs⟩ := e
    rw [map_cons, nodup_cons] at hnodup
    obtain ⟨tp, hkey, hnul⟩ := hload (key, rs) mem_cons_self
    dsimp only at hkey
    have hadv : advanceRestoredNextOffsets next key rs = rs.foldl (fun next record =>
        if record.offset ≥ (next[tp]?).getD 0 then next.insert tp (record.offset + 1) else next) next := by
      rw [advanceRestoredNextOffsets, ← hkey, parsePartitionKey_partitionKey hnul]
    obtain ⟨hother, hself⟩ := advance_loop tp rs next
    rw [← hadv] at hother hself
    obtain ⟨hout, hin⟩ := ih hnodup.2 (fun e he => hload e (mem_cons_of_mem _ he))
      (advanceRestoredNextOffsets next key rs)
    refine ⟨fun a ha => ?_, fun a rs' hmem hnone => ?_⟩
    · rw [map_cons, mem_cons, not_or] at ha
      rw [foldl_cons, hout a ha.2, hother a fun heq => ha.1 (heq ▸ hkey)]
    · rw [foldl_cons]
      rcases mem_cons.mp hmem with heq | hmem
      · cases heq
        have hsame : tp = a := partitionKey_injective hkey
        subst hsame
        rw [hout _ hnodup.1, hself, hnone]
        rfl
      · have hne : tp ≠ a := by
          rintro rfl
          exact hnodup.1 (mem_map.mpr ⟨_, hmem, hkey⟩)
        exact hin a rs' hmem ((hother a hne).trans hnone)

/-! ## The restoration as a whole -/

/-- What a log looks like that was restored from a snapshot of the given contents. -/
structure RestoredLog (s : StorxLogStore) (topics : List TopicConfig)
    (records : TopicPartition → List Record) (next : TopicPartition → Option Nat) : Prop where
  topics_iff : ∀ name topic, s.topics[name]? = some topic ↔ topic ∈ topics ∧ topic.name = name
  keyRecords : s.keyRecords = ∅
  records_iff : ∀ tp, (s.records[tp]?).isSome ↔ InTopics topics tp
  records_eq : ∀ tp, s.recordsAt tp = records tp
  /-- The next offset is the snapshot's, where it has one under a key that parses. -/
  next_some : ∀ tp n, NulFree tp.topic → next tp = some n → s.nextOffsets[tp]? = some n
  /-- Elsewhere it follows the last record. -/
  next_none : ∀ tp, (NulFree tp.topic → next tp = none) →
    ((s.nextOffsets[tp]?).isSome ↔ InTopics topics tp) ∧
      s.nextOffset tp = nextOffsetFromRecords (records tp)

section
variable {snapshot : Snapshot} {records : TopicPartition → List Record}
  {next : TopicPartition → Option Nat}

/-- **A restoration that can go through**: every partition that has records has a name that
parses and belongs to a topic of the snapshot. -/
theorem restore_spec (ht : TopicList snapshot.topics) (h : snapshot.Holds records next)
    (hord : ∀ tp, OffsetOrdered (records tp))
    (hload : ∀ tp, records tp ≠ [] → NulFree tp.topic ∧ InTopics snapshot.topics tp)
    (old : StorxLogStore) : ∃ s', old.restore snapshot = (.ok (), s') ∧
      RestoredLog s' snapshot.topics records next := by
  obtain ⟨s0, hrun0, hfresh⟩ := restoreLogTopics_spec ht
  have hentry : ∀ e ∈ snapshot.records.toList, ∃ tp, partitionKey tp = e.1 ∧ NulFree tp.topic ∧
      InTopics snapshot.topics tp ∧ records tp = e.2 := by
    rintro ⟨key, rs⟩ he
    obtain ⟨tp, hkey, hrs, hne⟩ := (h.records key rs).mp ((mem_toList _ _ _).mp he)
    obtain ⟨hnul, hin⟩ := hload tp (hrs ▸ hne)
    exact ⟨tp, hkey, hnul, hin, hrs⟩
  obtain ⟨s1, hrun1, htopics, hinv1, hkeys, hin1, hout1⟩ := restoreLogRecordValues_spec
    snapshot.records.toList hfresh.inv snapshot.records.nodup_keys (fun e he => by
      obtain ⟨tp, hkey, hnul, hin, hrs⟩ := hentry e he
      exact ⟨tp, hkey, hnul, (hfresh.hasPartition_iff tp).mpr hin, hfresh.records tp,
        hfresh.next tp, hrs ▸ hord tp⟩)
  have hpart : ∀ tp, s1.HasPartition tp ↔ InTopics snapshot.topics tp := fun tp => by
    rw [hasPartition_congr htopics, hfresh.hasPartition_iff]
  -- every partition now has its records, and the next offset that follows from them
  have hall : ∀ tp, s1.recordsAt tp = records tp ∧
      s1.nextOffset tp = nextOffsetFromRecords (records tp) := by
    intro tp
    by_cases hne : records tp = []
    · have hkey : partitionKey tp ∉ snapshot.records.toList.map Prod.fst := by
        intro hmem
        obtain ⟨⟨key, rs⟩, he, rfl⟩ := mem_map.mp hmem
        have hget := (mem_toList _ _ _).mp he
        rw [h.get_records, if_pos hne] at hget
        cases hget
      obtain ⟨hr, hn⟩ := hout1 tp hkey
      rw [hr, hn, hfresh.records, hfresh.next, hne]
      exact ⟨rfl, rfl⟩
    · exact hin1 tp _ ((mem_toList _ _ _).mpr ((h.records _ _).mpr ⟨tp, rfl, rfl, hne⟩))
  -- next offsets that the snapshot does not give are computed again, to the same values
  have hadvanced : ∀ (tp : TopicPartition) (n : Nat),
      (snapshot.records.toList.foldl (fun next e => advanceRestoredNextOffsets next e.1 e.2) ∅)[tp]?
        = some n → s1.nextOffsets[tp]? = some n := by
    intro tp n hn
    obtain ⟨hout, hin⟩ := advanceRestoredNextOffsets_spec snapshot.records.toList
      snapshot.records.nodup_keys (fun e he => by
        obtain ⟨tp, hkey, hnul, _⟩ := hentry e he
        exact ⟨tp, hkey, hnul⟩) ∅
    by_cases hkey : partitionKey tp ∈ snapshot.records.toList.map Prod.fst
    · obtain ⟨⟨key, rs⟩, he, rfl⟩ := mem_map.mp hkey
      obtain ⟨a, hakey, _, hain, _⟩ := hentry _ he
      have hsame : a = tp := partitionKey_injective hakey
      have hval := hin tp rs he (by simp)
      rw [hn, Option.getD_some] at hval
      rw [hinv1.get_nextOffset ((hpart tp).mpr (hsame ▸ hain)), (hin1 tp rs he).2, hval]
    · rw [hout tp hkey] at hn
      simp at hn
  let s' := s1.restoreLogNextOffsets
    (if (restoreLogNextOffsetMap snapshot.logOffsets).isEmpty then
      snapshot.records.toList.foldl (fun next e => advanceRestoredNextOffsets next e.1 e.2)
        (restoreLogNextOffsetMap snapshot.logOffsets)
    else restoreLogNextOffsetMap snapshot.logOffsets)
  have hnext : ∀ tp : TopicPartition, s'.nextOffsets[tp]?
      = ((restoreLogNextOffsetMap snapshot.logOffsets)[tp]?).or s1.nextOffsets[tp]? := by
    intro tp
    refine (get_setEach_toList _ _ tp).trans ?_
    split
    · next hempty =>
      rw [Std.ExtTreeMap.isEmpty_iff.mp hempty]
      cases hadv : (snapshot.records.toList.foldl
          (fun next e => advanceRestoredNextOffsets next e.1 e.2) ∅)[tp]? with
      | none => simp
      | some n => simp [hadvanced tp n hadv]
    · rfl
  refine ⟨s', ?_, ?_⟩
  · rw [restore, hrun0]
    dsimp only
    rw [restoreLogRecords, hrun1]
  · refine ⟨fun name topic => ?_, hkeys hfresh.keyRecords, fun tp => ?_, fun tp => (hall tp).1,
      fun tp n hnul hn => ?_, fun tp hnone => ?_⟩
    · change s1.topics[name]? = some topic ↔ _
      rw [htopics]
      exact hfresh.topics name topic
    · exact (hinv1.records_iff tp).trans (hpart tp)
    · rw [hnext, restoreLogNextOffsetMap_spec h, if_pos hnul, hn, Option.some_or]
    · have hzero : (restoreLogNextOffsetMap snapshot.logOffsets)[tp]? = none := by
        rw [restoreLogNextOffsetMap_spec h]
        split
        · next hnul => exact hnone hnul
        · rfl
      have hsame : s'.nextOffsets[tp]? = s1.nextOffsets[tp]? := by
        rw [hnext, hzero, Option.none_or]
      refine ⟨?_, ?_⟩
      · rw [hsame]
        exact (hinv1.next_iff tp).trans (hpart tp)
      · rw [nextOffset, hsame]
        exact (hall tp).2

/-- **When a restoration goes through.** -/
theorem restore_ok_iff (ht : TopicList snapshot.topics) (h : snapshot.Holds records next)
    (hord : ∀ tp, OffsetOrdered (records tp)) (old : StorxLogStore) :
    (old.restore snapshot).1 = .ok () ↔
      ∀ tp, records tp ≠ [] → NulFree tp.topic ∧ InTopics snapshot.topics tp := by
  constructor
  · intro hok tp hne
    by_contra hbad
    obtain ⟨s0, hrun0, hfresh⟩ := restoreLogTopics_spec ht
    have hmem : (partitionKey tp, records tp) ∈ snapshot.records.toList :=
      (mem_toList _ _ _).mpr ((h.records _ _).mpr ⟨tp, rfl, rfl, hne⟩)
    rw [← hfresh.hasPartition_iff] at hbad
    obtain ⟨err, herr⟩ := restoreLogRecordValues_error snapshot.records.toList hmem hne hbad
    rw [restore, hrun0] at hok
    dsimp only at hok
    rw [restoreLogRecords] at hok
    cases hrun : restoreLogRecordValues s0 snapshot.records.toList with
    | mk outcome s1 =>
      rw [hrun] at herr hok
      dsimp only at herr
      subst herr
      cases hok
  · intro hload
    obtain ⟨s', hrun, _⟩ := restore_spec ht h hord hload old
    rw [hrun]

end

/-! ## Moving one partition -/

theorem clearPartitionLocked_spec (hinv : LogInv s) (hpart : s.HasPartition tp) :
    PartitionRestored s (s.clearPartitionLocked tp) tp [] 0 where
  topics := rfl
  keyRecords h := by
    apply Map.ext_get
    intro a
    rw [clearPartitionLocked, get_erase, h]
    simp
  records := recordsAt_of_insert rfl
  next := nextOffset_of_insert rfl
  inv := hinv.of_partition hpart rfl rfl rfl List.Pairwise.nil (by simp)

/-- A log hands out a partition as it has it. -/
lemma snapshotPartition_of_hasPartition (hinv : LogInv s) (hpart : s.HasPartition tp) :
    ∃ topic : TopicConfig, topic.name = tp.topic ∧
      s.snapshotPartition tp = .ok ⟨topic, tp, s.recordsAt tp, s.nextOffset tp⟩ := by
  obtain ⟨topic, htopic⟩ := hpart
  refine ⟨topic, (hinv.topic _ topic htopic.1).name_eq, ?_⟩
  rw [snapshotPartition, (loadTopicForPartition_ok_iff s tp topic).mpr htopic,
    hinv.get_nextOffset ⟨topic, htopic⟩]
  rfl

lemma clearPartition_of_hasPartition (hpart : s.HasPartition tp) :
    s.clearPartition tp = .ok (s.clearPartitionLocked tp) := by
  obtain ⟨topic, htopic⟩ := hpart
  rw [clearPartition, (loadTopicForPartition_ok_iff _ _ topic).mpr htopic]
  rfl

lemma clearPartition_ok (h : s.clearPartition tp = .ok s') :
    s.HasPartition tp ∧ s' = s.clearPartitionLocked tp := by
  obtain ⟨topic, hload, h⟩ := Except.bind_eq_ok.mp h
  cases h
  exact ⟨⟨topic, (loadTopicForPartition_ok_iff _ _ _).mp hload⟩, rfl⟩

/-- `ensurePartitionSnapshotTopic` creates a topic or leaves the log alone. -/
lemma ensurePartitionSnapshotTopic_spec (snapshot : PartitionSnapshot) (s : StorxLogStore) :
    let result := s.ensurePartitionSnapshotTopic snapshot
    (result.2 = s ∨ s.createTopic snapshot.topic = .ok result.2) ∧
      (result.1 = .ok () → result.2.HasPartition snapshot.topicPartition) := by
  have hpart : ∀ {t : StorxLogStore} {tp : TopicPartition},
      (t.loadTopicForPartition tp).map (fun _ => ()) = .ok () → t.HasPartition tp := by
    intro t tp hmap
    cases hload : t.loadTopicForPartition tp with
    | error err =>
      rw [hload] at hmap
      cases hmap
    | ok topic => exact ⟨topic, (loadTopicForPartition_ok_iff _ _ _).mp hload⟩
  unfold ensurePartitionSnapshotTopic
  dsimp only
  split
  · exact ⟨Or.inl rfl, nofun⟩
  · split
    · next topic hload =>
      exact ⟨Or.inl rfl, fun _ => ⟨topic, (loadTopicForPartition_ok_iff _ _ _).mp hload⟩⟩
    · split
      · exact ⟨Or.inl rfl, nofun⟩
      · split
        · exact ⟨Or.inl rfl, nofun⟩
        · split
          · next created hcreate => exact ⟨Or.inr hcreate, fun h => hpart h⟩
          · split
            · exact ⟨Or.inl rfl, nofun⟩
            · exact ⟨Or.inl rfl, fun h => hpart h⟩

/-- **The arrival of a partition** keeps a log well formed, whatever its snapshot holds. -/
theorem inv_replacePartition (hinv : LogInv s) (snapshot : PartitionSnapshot) :
    LogInv (s.replacePartition snapshot).2 := by
  obtain ⟨hchange, hpart⟩ := ensurePartitionSnapshotTopic_spec snapshot s
  unfold replacePartition
  cases hensure : s.ensurePartitionSnapshotTopic snapshot with
  | mk outcome s1 =>
    rw [hensure] at hchange hpart
    dsimp only at hchange hpart
    have hinv1 : LogInv s1 := by
      rcases hchange with rfl | hcreate
      · exact hinv
      · exact hinv.createTopic hcreate
    cases outcome with
    | error err => exact hinv1
    | ok _ =>
      have hclear := clearPartitionLocked_spec hinv1 (hpart rfl)
      have hpart2 := (hasPartition_congr hclear.topics snapshot.topicPartition).mpr (hpart rfl)
      obtain ⟨s2, hrun, ht, hinv2, hmem⟩ := appendRestoredRecords_inv
        (sortedRecords snapshot.records) hclear.inv hpart2
      dsimp only
      rw [hrun]
      have hpart3 := (hasPartition_congr ht snapshot.topicPartition).mpr hpart2
      refine hinv2.of_partition hpart3 rfl
        (insert_eq_self _ _ _ (hinv2.get_records hpart3)).symm rfl
        (hinv2.ordered _) fun r hr => ?_
      rcases hmem r hr with hr | hr
      · rw [hclear.records, if_pos rfl] at hr
        cases hr
      · have hin : r ∈ snapshot.records := (mem_insertionSort _).mp hr
        have := lt_nextOffsetFromRecords hin
        omega

/-- **A partition moved from a well-formed log** arrives as it was. -/
theorem replacePartition_spec (hinv : LogInv s) {snapshot : PartitionSnapshot}
    (hpart : s.HasPartition snapshot.topicPartition)
    (hname : snapshot.topic.name = snapshot.topicPartition.topic)
    (hord : OffsetOrdered snapshot.records)
    (hbelow : ∀ r ∈ snapshot.records, r.offset < snapshot.nextOffset) :
    ∃ s', s.replacePartition snapshot = (.ok (), s') ∧
      PartitionRestored s s' snapshot.topicPartition snapshot.records snapshot.nextOffset := by
  obtain ⟨topic, htopic⟩ := id hpart
  have hensure : s.ensurePartitionSnapshotTopic snapshot = (.ok (), s) := by
    unfold ensurePartitionSnapshotTopic
    dsimp only
    rw [if_neg (fun h => h.2 hname), (loadTopicForPartition_ok_iff _ _ _).mpr htopic]
  have hclear := clearPartitionLocked_spec hinv hpart
  have hpart1 := (hasPartition_congr hclear.topics snapshot.topicPartition).mpr hpart
  obtain ⟨s1, hrun, hs1⟩ := appendRestoredRecords_spec snapshot.records hclear.inv hpart1 (by
    rw [hclear.records, if_pos rfl, nil_append]
    exact hord)
  rw [hclear.records, if_pos rfl, nil_append] at hs1
  have hnext : max snapshot.nextOffset (nextOffsetFromRecords snapshot.records) = snapshot.nextOffset :=
    Nat.max_eq_left ((nextOffsetFromRecords_le_iff _ _).mpr hbelow)
  let s' := { s1 with nextOffsets := s1.nextOffsets.insert snapshot.topicPartition snapshot.nextOffset }
  have hrec : ∀ a, s1.recordsAt a
      = if snapshot.topicPartition = a then snapshot.records else s.recordsAt a := by
    intro a
    rw [hs1.records, hclear.records]
    split
    · rfl
    · rfl
  refine ⟨s', ?_, hs1.topics.trans hclear.topics,
    fun h => hs1.keyRecords (hclear.keyRecords h), hrec, fun a => ?_, ?_⟩
  · rw [replacePartition, hensure]
    dsimp only
    rw [hord.sortedRecords_eq, hrun]
    dsimp only
    rw [hnext]
  · refine (nextOffset_of_insert (s := s1) rfl a).trans ?_
    split
    · rfl
    · next hne => rw [hs1.next, if_neg hne, hclear.next, if_neg hne]
  · have hpart2 := (hasPartition_congr hs1.topics snapshot.topicPartition).mpr hpart1
    refine hs1.inv.of_partition hpart2 rfl
      (insert_eq_self _ _ _ (hs1.inv.get_records hpart2)).symm rfl
      (hs1.inv.ordered _) fun r hr => ?_
    rw [hrec, if_pos rfl] at hr
    exact hbelow r hr

end StorxLogStore

end Ech0.Store
