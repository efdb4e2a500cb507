/-
  The invariant of a segment log, and what an append does to a log that satisfies it.

  A log is well formed when its partitions are those of its topics, the records of a partition
  stand in offset order, and every record lies below the partition's next offset. Creating a
  topic, appending, retention, compaction and the move of a partition all keep this. A restore
  need not: it takes the next offsets from the snapshot as they are.

  Everything but the creation of a topic writes a single partition, and the argument about it
  is made once (`LogInv.of_partition`): the new records are in order and lie below the new next
  offset.
-/
import Ech0.Lib.KeyedInsert
import Ech0.Lib.Prog
import Ech0.Store.LogMaintenance

set_option autoImplicit false

namespace Ech0.Store

open Ech0.Lib List

variable {base next : Nat} {r : Record} {records : List Record} {tp : TopicPartition}

/-! ## Records in offset order -/

/-- The records of a partition as its index keeps them. -/
def OffsetOrdered (records : List Record) : Prop :=
  records.Pairwise fun left right => left.offset < right.offset

variable {records : List Record}

lemma OffsetOrdered.sortedRecords_eq (h : OffsetOrdered records) :
    sortedRecords records = records :=
  (h.imp fun hlt => Nat.le_of_lt hlt).insertionSort_eq

/-- In offset order, a record is told by its offset. -/
lemma OffsetOrdered.eq_of_offset (h : OffsetOrdered records) {left right : Record}
    (hl : left ∈ records) (hr : right ∈ records) (heq : left.offset = right.offset) :
    left = right := by
  have hkeyed : KeyOrdered Record.offset records := h
  exact hkeyed.eq_of_key hl hr heq

/-- Every other record stands before the last. -/
lemma lt_or_eq_getLast (hord : OffsetOrdered records) {last record : Record}
    (hlast : records.getLast? = some last) (hrecord : record ∈ records) :
    record.offset < last.offset ∨ record = last := by
  have hsplit := dropLast_append_getLast? last hlast
  rw [← hsplit] at hord hrecord
  rcases mem_append.mp hrecord with hbefore | hat
  · exact .inl ((pairwise_append.mp hord).2.2 record hbefore last mem_cons_self)
  · exact .inr (mem_singleton.mp hat)

/-- The last of the records that satisfy something. -/
lemma getLast?_filter_eq_some_iff (hord : OffsetOrdered records) (p : Record → Bool)
    (last : Record) : (records.filter p).getLast? = some last ↔
      last ∈ records ∧ p last = true ∧ ∀ record ∈ records, p record = true → record.offset ≤ last.offset := by
  have hfiltered : OffsetOrdered (records.filter p) := hord.filter p
  constructor
  · intro hlast
    obtain ⟨hmem, hp⟩ := mem_filter.mp (mem_of_getLast? hlast)
    refine ⟨hmem, hp, fun record hrecord hseen => ?_⟩
    rcases lt_or_eq_getLast hfiltered hlast (mem_filter.mpr ⟨hrecord, hseen⟩) with hlt | rfl
    · exact hlt.le
    · exact le_rfl
  · rintro ⟨hmem, hp, hmax⟩
    have hin := mem_filter.mpr ⟨hmem, hp⟩
    have hlast := getLast?_eq_some_getLast (ne_nil_of_mem hin)
    rcases lt_or_eq_getLast hfiltered hlast hin with hlt | heq
    · obtain ⟨hmem', hp'⟩ := mem_filter.mp (mem_of_getLast? hlast)
      exact absurd (hmax _ hmem' hp') (by omega)
    · rw [hlast, ← heq]

lemma OffsetOrdered.append {left right : List Record} (hl : OffsetOrdered left)
    (hr : OffsetOrdered right) (hbelow : ∀ r ∈ left, r.offset < next)
    (habove : ∀ r ∈ right, next ≤ r.offset) : OffsetOrdered (left ++ right) := by
  refine pairwise_append.mpr ⟨hl, hr, fun a ha b hb => ?_⟩
  have h1 := hbelow a ha
  have h2 := habove b hb
  omega

/-- The records passed over are those below. -/
lemma OffsetOrdered.dropWhile_eq_filter (h : OffsetOrdered records) (offset : Nat) :
    (records.dropWhile fun record => record.offset < offset)
      = records.filter fun record => offset ≤ record.offset := by
  induction records with
  | nil => rfl
  | cons first rest ih =>
    obtain ⟨hfirst, hrest⟩ := pairwise_cons.mp h
    by_cases hlt : first.offset < offset
    · rw [dropWhile_cons, if_pos (decide_eq_true hlt), filter_cons,
        if_neg (by rw [decide_eq_true_eq]; omega)]
      exact ih hrest
    · rw [dropWhile_cons, if_neg (by rw [decide_eq_true_eq]; exact hlt)]
      symm
      apply filter_eq_self.mpr
      intro r hr
      rw [decide_eq_true_eq]
      rcases mem_cons.mp hr with rfl | hr
      · omega
      · have := hfirst r hr
        omega

/-- Records at consecutive offsets are what is read from the first of these offsets on. -/
lemma OffsetOrdered.take_range (h : OffsetOrdered records) {found : List Record}
    (hfound : ∀ r ∈ found, r ∈ records)
    (hoffsets : found.map Record.offset = List.range' base found.length) :
    (records.dropWhile fun record => record.offset < base).take found.length = found := by
  induction records generalizing found base with
  | nil =>
    have hempty : found = [] := eq_nil_iff_forall_not_mem.mpr fun r hr => by cases hfound r hr
    rw [hempty]
    rfl
  | cons first rest ih =>
    obtain ⟨hfirst, hrest⟩ := pairwise_cons.mp h
    cases found with
    | nil => rfl
    | cons r others =>
      rw [map_cons, length_cons, List.range'_succ, List.cons.injEq] at hoffsets
      obtain ⟨hr, hothers⟩ := hoffsets
      by_cases hlt : first.offset < base
      · -- the first record is not one of them, and is skipped
        rw [dropWhile_cons, if_pos (decide_eq_true hlt)]
        apply ih hrest
        · intro a ha
          rcases mem_cons.mp (hfound a ha) with rfl | hmem
          · have hin : a.offset ∈ (r :: others).map Record.offset := mem_map_of_mem ha
            rw [map_cons, hothers, hr, ← List.range'_succ, mem_range'_1] at hin
            omega
          · exact hmem
        · rw [map_cons, length_cons, List.range'_succ, hr, hothers]
      · have heq : r = first := by
          rcases mem_cons.mp (hfound r mem_cons_self) with heq | hmem
          · exact heq
          · have hafter := hfirst r hmem
            omega
        subst heq
        have hkeep : rest.dropWhile (fun record => record.offset < base + 1) = rest := by
          cases rest with
          | nil => rfl
          | cons next tail =>
            have hafter := hfirst next mem_cons_self
            rw [dropWhile_cons, if_neg (by rw [decide_eq_true_eq]; omega)]
        rw [dropWhile_cons, if_neg (by rw [decide_eq_true_eq]; exact hlt), length_cons,
          take_succ_cons]
        congr 1
        rw [← hkeep]
        apply ih hrest _ hothers
        intro a ha
        rcases mem_cons.mp (hfound a (mem_cons_of_mem r ha)) with rfl | hmem
        · have hin : a.offset ∈ others.map Record.offset := mem_map_of_mem ha
          rw [hothers, mem_range'_1] at hin
          omega
        · exact hmem

/-- The loop of `nextOffsetFromRecords`, from any start and over anything that has an offset: the
least bound above the start and above every offset. -/
lemma nextOffset_loop {α : Type} (offset : α → Nat) (l : List α) (start bound : Nat) :
    l.foldl (fun next a => if offset a ≥ next then offset a + 1 else next) start ≤ bound ↔
      start ≤ bound ∧ ∀ a ∈ l, offset a < bound := by
  induction l generalizing start with
  | nil => simp
  | cons a rest ih =>
    rw [foldl_cons, ih, forall_mem_cons, ← and_assoc]
    refine and_congr_left fun _ => ?_
    split <;> omega

lemma nextOffsetFromRecords_le_iff (records : List Record) (bound : Nat) :
    nextOffsetFromRecords records ≤ bound ↔ ∀ r ∈ records, r.offset < bound := by
  rw [nextOffsetFromRecords, nextOffset_loop Record.offset]
  simp

lemma lt_nextOffsetFromRecords (h : r ∈ records) : r.offset < nextOffsetFromRecords records :=
  (nextOffsetFromRecords_le_iff records _).mp (Nat.le_refl _) r h

/-! ## The invariant -/

namespace StorxLogStore

/-- The partition exists: its topic is registered and has that many partitions. -/
def HasPartition (s : StorxLogStore) (tp : TopicPartition) : Prop :=
  ∃ topic, s.topics[tp.topic]? = some topic ∧ tp.partition < topic.partitions

lemma loadTopicForPartition_ok_iff (s : StorxLogStore) (tp : TopicPartition)
    (topic : TopicConfig) : s.loadTopicForPartition tp = .ok topic ↔
      s.topics[tp.topic]? = some topic ∧ tp.partition < topic.partitions := by
  unfold loadTopicForPartition checkPartition
  split
  · next h => simp [h]
  · next found h =>
    rw [h, Option.some.injEq]
    split
    · next hge =>
      constructor
      · intro hc
        cases hc
      · rintro ⟨rfl, hlt⟩
        exact absurd hlt (UInt32.not_lt.mpr hge)
    · next hlt =>
      constructor
      · intro hc
        cases hc
        exact ⟨rfl, UInt32.not_le.mp hlt⟩
      · rintro ⟨rfl, _⟩
        rfl

lemma HasPartition.load {s : StorxLogStore} (h : s.HasPartition tp) :
    ∃ topic, s.loadTopicForPartition tp = .ok topic := by
  obtain ⟨topic, htopic⟩ := h
  exact ⟨topic, (loadTopicForPartition_ok_iff s tp topic).mpr htopic⟩

/-- The defaulting reads after a write to one partition. -/
lemma recordsAt_of_insert {s s' : StorxLogStore} (h : s'.records = s.records.insert tp records)
    (a : TopicPartition) : s'.recordsAt a = if tp = a then records else s.recordsAt a := by
  rw [recordsAt, h, Map.get_insert]
  split
  · rfl
  · rfl

lemma nextOffset_of_insert {s s' : StorxLogStore}
    (h : s'.nextOffsets = s.nextOffsets.insert tp next) (a : TopicPartition) :
    s'.nextOffset a = if tp = a then next else s.nextOffset a := by
  rw [nextOffset, h, Map.get_insert]
  split
  · rfl
  · rfl

/-- What a topic of the store looks like: it went through `validateLogTopicForCreate`. -/
structure RegisteredTopic (name : String) (topic : TopicConfig) : Prop where
  name_eq : topic.name = name
  name_ne : name ≠ ""
  partitions_ne : topic.partitions ≠ 0
  normal : normalizeTopic topic = topic

end StorxLogStore

open StorxLogStore

structure LogInv (s : StorxLogStore) : Prop where
  topic : ∀ name topic, s.topics[name]? = some topic → RegisteredTopic name topic
  records_iff : ∀ tp, (s.records[tp]?).isSome ↔ s.HasPartition tp
  next_iff : ∀ tp, (s.nextOffsets[tp]?).isSome ↔ s.HasPartition tp
  ordered : ∀ tp, OffsetOrdered (s.recordsAt tp)
  below : ∀ tp, ∀ r ∈ s.recordsAt tp, r.offset < s.nextOffset tp

namespace LogInv

lemma empty : LogInv {} where
  topic := by simp
  records_iff := by simp [HasPartition]
  next_iff := by simp [HasPartition]
  ordered := by simp [recordsAt, OffsetOrdered]
  below := by simp [recordsAt]

variable {s s' : StorxLogStore}

/-- The key index plays no part. -/
lemma congr (h : LogInv s) (ht : s'.topics = s.topics) (hr : s'.records = s.records)
    (hn : s'.nextOffsets = s.nextOffsets) : LogInv s' := by
  obtain ⟨topics, records, nextOffsets, keys⟩ := s'
  cases ht
  cases hr
  cases hn
  exact ⟨h.topic, h.records_iff, h.next_iff, h.ordered, h.below⟩

variable {tp : TopicPartition}

/-- **A write to one partition.** -/
theorem of_partition (h : LogInv s) (hpart : s.HasPartition tp) (ht : s'.topics = s.topics)
    (hr : s'.records = s.records.insert tp records)
    (hn : s'.nextOffsets = s.nextOffsets.insert tp next) (hord : OffsetOrdered records)
    (hbelow : ∀ r ∈ records, r.offset < next) : LogInv s' := by
  have hhas : ∀ a, s'.HasPartition a ↔ s.HasPartition a := fun a => by
    rw [HasPartition, HasPartition, ht]
  refine ⟨fun name topic hget => h.topic name topic (ht ▸ hget), fun a => ?_, fun a => ?_,
    fun a => ?_, fun a => ?_⟩
  · rw [hhas, hr, Map.get_insert]
    split
    · next heq => exact iff_of_true rfl (heq ▸ hpart)
    · exact h.records_iff a
  · rw [hhas, hn, Map.get_insert]
    split
    · next heq => exact iff_of_true rfl (heq ▸ hpart)
    · exact h.next_iff a
  · rw [recordsAt_of_insert hr]
    split
    · exact hord
    · exact h.ordered a
  · rw [recordsAt_of_insert hr, nextOffset_of_insert hn]
    split
    · exact hbelow
    · exact h.below a

/-- A registered partition has its two entries, which are what the defaulting reads see. -/
lemma get_records (h : LogInv s) (hpart : s.HasPartition tp) :
    s.records[tp]? = some (s.recordsAt tp) := by
  obtain ⟨records, hrec⟩ := Option.isSome_iff_exists.mp ((h.records_iff tp).mpr hpart)
  rw [recordsAt, hrec, Option.getD_some]

lemma get_nextOffset (h : LogInv s) (hpart : s.HasPartition tp) :
    s.nextOffsets[tp]? = some (s.nextOffset tp) := by
  obtain ⟨next, hnext⟩ := Option.isSome_iff_exists.mp ((h.next_iff tp).mpr hpart)
  rw [nextOffset, hnext, Option.getD_some]

lemma hasPartition_of_ne_nil (h : LogInv s) (hne : s.recordsAt tp ≠ []) : s.HasPartition tp := by
  rw [← h.records_iff]
  rw [recordsAt] at hne
  cases hget : s.records[tp]? with
  | none => simp [hget] at hne
  | some records => rfl

lemma hasPartition_of_record (h : LogInv s) (hr : r ∈ s.recordsAt tp) : s.HasPartition tp :=
  h.hasPartition_of_ne_nil (ne_nil_of_mem hr)

lemma hasPartition_of_nextOffset (h : LogInv s) (hne : s.nextOffset tp ≠ 0) :
    s.HasPartition tp := by
  rw [← h.next_iff]
  rw [nextOffset] at hne
  cases hget : s.nextOffsets[tp]? with
  | none => simp [hget] at hne
  | some next => rfl

end LogInv

/-! ## Topics -/

lemma mem_partitionList (topic : TopicConfig) (tp : TopicPartition) :
    tp ∈ topic.partitionList ↔ tp.topic = topic.name ∧ tp.partition < topic.partitions := by
  simp only [TopicConfig.partitionList, mem_map, mem_range]
  constructor
  · rintro ⟨i, hi, rfl⟩
    refine ⟨rfl, ?_⟩
    have hsmall : i < 2 ^ 32 := Nat.lt_trans hi (UInt32.toNat_lt _)
    rw [UInt32.lt_iff_toNat_lt, UInt32.toNat_ofNat_of_lt' hsmall]
    exact hi
  · rintro ⟨hname, hlt⟩
    refine ⟨tp.partition.toNat, UInt32.lt_iff_toNat_lt.mp hlt, ?_⟩
    rw [UInt32.ofNat_toNat, ← hname]

namespace StorxLogStore

variable {s s' : StorxLogStore}

lemma records_ensurePartition (s : StorxLogStore) (tp a : TopicPartition) :
    (s.ensurePartition tp).records[a]? = if tp = a then some (s.recordsAt a) else s.records[a]? :=
  Map.get_ite_insert s.records tp a []

lemma recordsAt_ensurePartition (s : StorxLogStore) (tp a : TopicPartition) :
    (s.ensurePartition tp).recordsAt a = s.recordsAt a := by
  rw [recordsAt, records_ensurePartition]
  split
  · rfl
  · rfl

lemma nextOffsets_ensurePartition (s : StorxLogStore) (tp a : TopicPartition) :
    (s.ensurePartition tp).nextOffsets[a]?
      = if tp = a then some ((s.nextOffsets[a]?).getD (nextOffsetFromRecords (s.recordsAt a)))
        else s.nextOffsets[a]? := by
  have hrec : ((s.ensurePartition tp).records[tp]?).getD [] = s.recordsAt tp :=
    recordsAt_ensurePartition s tp tp
  refine (Map.get_ite_insert s.nextOffsets tp a _).trans ?_
  split
  · next heq =>
    rw [← heq]
    exact congrArg (fun records => some ((s.nextOffsets[tp]?).getD (nextOffsetFromRecords records))) hrec
  · rfl

/-- What `ensureTopicPartitionsLocked` leaves behind, one partition after the other. -/
lemma ensurePartitions_spec (tps : List TopicPartition) (s : StorxLogStore) (a : TopicPartition) :
    (tps.foldl ensurePartition s).topics = s.topics ∧
    (tps.foldl ensurePartition s).records[a]?
      = (if a ∈ tps then some (s.recordsAt a) else s.records[a]?) ∧
    (tps.foldl ensurePartition s).nextOffsets[a]?
      = (if a ∈ tps then some ((s.nextOffsets[a]?).getD (nextOffsetFromRecords (s.recordsAt a)))
         else s.nextOffsets[a]?) := by
  induction tps generalizing s with
  | nil => exact ⟨rfl, rfl, rfl⟩
  | cons tp rest ih =>
    obtain ⟨ht, hr, hn⟩ := ih (s.ensurePartition tp)
    refine ⟨ht, ?_, ?_⟩
    · rw [foldl_cons, hr, recordsAt_ensurePartition, records_ensurePartition]
      by_cases heq : tp = a
      · simp [heq]
      · simp [heq, Ne.symm heq]
    · rw [foldl_cons, hn, recordsAt_ensurePartition, nextOffsets_ensurePartition]
      by_cases heq : tp = a
      · simp [heq]
      · simp [heq, Ne.symm heq]

lemma keyRecords_ensurePartitions (tps : List TopicPartition) (s : StorxLogStore) :
    (tps.foldl ensurePartition s).keyRecords = s.keyRecords := by
  induction tps generalizing s with
  | nil => rfl
  | cons tp rest ih => exact ih (s.ensurePartition tp)

variable {topic : TopicConfig} (hinv : LogInv s) (h : s.createTopic topic = .ok s')

include h

/-- What a successful `CreateTopic` does. -/
lemma createTopic_ok :
    RegisteredTopic topic.name (normalizeTopic topic) ∧ s.topics[topic.name]? = none ∧
      s' = ({ s with topics := s.topics.insert topic.name (normalizeTopic topic)
              }).ensureTopicPartitionsLocked (normalizeTopic topic) := by
  unfold createTopic validateLogTopicForCreate at h
  split at h
  · cases h
  · next hname =>
    split at h
    · cases h
    · next hparts =>
      simp only [bind, Except.bind] at h
      split at h
      · cases h
      · next hc =>
        rw [Bool.not_eq_true, Map.contains_eq_false_iff] at hc
        refine ⟨⟨rfl, hname, ?_, normalizeTopic_idem topic⟩, hc, (Except.ok.inj h).symm⟩
        simp [normalizeTopic, hparts]

/-- A topic of another name was there before if it is there after. -/
lemma topics_createTopic (name : String) :
    s'.topics[name]? = if topic.name = name then some (normalizeTopic topic) else s.topics[name]? := by
  obtain ⟨_, _, rfl⟩ := createTopic_ok h
  rw [ensureTopicPartitionsLocked, (ensurePartitions_spec _ _ ⟨"", 0⟩).1, Map.get_insert]

lemma hasPartition_createTopic (tp : TopicPartition) :
    s'.HasPartition tp ↔ tp ∈ (normalizeTopic topic).partitionList ∨ s.HasPartition tp := by
  have hnone := (createTopic_ok h).2.1
  have hname : (normalizeTopic topic).name = topic.name := rfl
  rw [mem_partitionList, hname]
  unfold HasPartition
  rw [topics_createTopic h]
  by_cases heq : topic.name = tp.topic
  · rw [if_pos heq]
    rw [heq] at hnone
    simp [hnone, heq]
  · simp [heq, Ne.symm heq]

include hinv

/-- A new topic's partitions are new. -/
lemma createTopic_fresh (hmem : tp ∈ (normalizeTopic topic).partitionList) :
    s.records[tp]? = none ∧ s.nextOffsets[tp]? = none := by
  have hname : tp.topic = topic.name := ((mem_partitionList _ _).mp hmem).1
  have hfresh : ¬ s.HasPartition tp := by
    rintro ⟨found, hfound, _⟩
    rw [hname, (createTopic_ok h).2.1] at hfound
    cases hfound
  constructor
  · rw [← Option.not_isSome_iff_eq_none, hinv.records_iff]
    exact hfresh
  · rw [← Option.not_isSome_iff_eq_none, hinv.next_iff]
    exact hfresh

/-- The new partitions are empty, the others keep what they had. -/
lemma createTopic_spec (tp : TopicPartition) :
    s'.records[tp]? = (if tp ∈ (normalizeTopic topic).partitionList then some [] else s.records[tp]?) ∧
    s'.nextOffsets[tp]?
      = (if tp ∈ (normalizeTopic topic).partitionList then some 0 else s.nextOffsets[tp]?) := by
  obtain ⟨_, hr, hn⟩ := ensurePartitions_spec (normalizeTopic topic).partitionList
    { s with topics := s.topics.insert topic.name (normalizeTopic topic) } tp
  rw [(createTopic_ok h).2.2, ensureTopicPartitionsLocked, hr, hn]
  by_cases hmem : tp ∈ (normalizeTopic topic).partitionList
  · obtain ⟨hr0, hn0⟩ := createTopic_fresh hinv h hmem
    simp [hmem, recordsAt, hr0, hn0, nextOffsetFromRecords]
  · simp [hmem]

lemma recordsAt_createTopic (tp : TopicPartition) : s'.recordsAt tp = s.recordsAt tp := by
  rw [recordsAt, recordsAt, (createTopic_spec hinv h tp).1]
  split
  · next hmem => rw [(createTopic_fresh hinv h hmem).1, Option.getD_some, Option.getD_none]
  · rfl

lemma nextOffset_createTopic (tp : TopicPartition) : s'.nextOffset tp = s.nextOffset tp := by
  rw [nextOffset, nextOffset, (createTopic_spec hinv h tp).2]
  split
  · next hmem => rw [(createTopic_fresh hinv h hmem).2, Option.getD_some, Option.getD_none]
  · rfl

end StorxLogStore

lemma LogInv.createTopic {s s' : StorxLogStore} {topic : TopicConfig} (hinv : LogInv s)
    (h : s.createTopic topic = .ok s') : LogInv s' := by
  refine ⟨fun name found hget => ?_, fun tp => ?_, fun tp => ?_, fun tp => ?_, fun tp => ?_⟩
  · rw [topics_createTopic h] at hget
    split at hget
    · next heq =>
      cases hget
      exact heq ▸ (createTopic_ok h).1
    · exact hinv.topic name found hget
  · rw [hasPartition_createTopic h, (createTopic_spec hinv h tp).1, ← hinv.records_iff]
    split
    · next hmem => simp [hmem]
    · next hmem => simp [hmem]
  · rw [hasPartition_createTopic h, (createTopic_spec hinv h tp).2, ← hinv.next_iff]
    split
    · next hmem => simp [hmem]
    · next hmem => simp [hmem]
  · rw [recordsAt_createTopic hinv h]
    exact hinv.ordered tp
  · rw [recordsAt_createTopic hinv h, nextOffset_createTopic hinv h]
    exact hinv.below tp

/-! ## Appending -/

namespace StorxLogStore

variable {stored : List Record} {clock : Nat → Nat} {topic : TopicConfig} {base index : Nat}

/-- A record that is taken has room, and those behind it are taken. -/
lemma prepareAppendRecords_taken {append : RecordAppend} {rest : List RecordAppend}
    (h : prepareAppendRecords clock topic base index (append :: rest) = .ok stored) :
    append.payload.length ≤ topic.maxMessageBytes ∧ base + index ≤ maxUint64 ∧ ∃ record others,
      recordFromAppend (clock index) (base + index) topic append = .ok record ∧
        prepareAppendRecords clock topic base (index + 1) rest = .ok others ∧
        stored = record :: others := by
  unfold prepareAppendRecords at h
  split at h
  · cases h
  · next hsize =>
    obtain ⟨offset, hoffset, h⟩ := Except.bind_eq_ok.mp h
    obtain ⟨record, hrecord, h⟩ := Except.bind_eq_ok.mp h
    obtain ⟨others, hothers, h⟩ := Except.bind_eq_ok.mp h
    unfold offsetForBatchRecord at hoffset
    split at hoffset
    · cases hoffset
    · next hroom =>
      cases h
      cases hoffset
      exact ⟨Nat.le_of_not_lt hsize, Nat.le_of_not_lt hroom, record, others, hrecord, hothers, rfl⟩

/-- The records an append makes: as many as it was given, at consecutive offsets. -/
lemma prepareAppendRecords_spec (appends : List RecordAppend)
    (h : prepareAppendRecords clock topic base index appends = .ok stored) :
    stored.map Record.offset = (List.range' (base + index) appends.length) := by
  induction appends generalizing index stored with
  | nil =>
    cases h
    rfl
  | cons append rest ih =>
    obtain ⟨-, -, record, others, hrecord, hothers, rfl⟩ := prepareAppendRecords_taken h
    obtain ⟨_, -, hrecord⟩ := Except.bind_eq_ok.mp hrecord
    cases hrecord
    rw [map_cons, ih hothers, length_cons, List.range'_succ]
    rfl

lemma offsetOrdered_of_range {n : Nat} (h : records.map Record.offset = List.range' base n) :
    OffsetOrdered records := by
  have hp : (records.map Record.offset).Pairwise (· < ·) := by
    rw [h]
    exact pairwise_lt_range'
  exact (pairwise_map.mp hp)

lemma mem_range_of_mem {n : Nat} (h : records.map Record.offset = List.range' base n)
    (hr : r ∈ records) : base ≤ r.offset ∧ r.offset < base + n := by
  have hmem : r.offset ∈ List.range' base n := h ▸ mem_map_of_mem hr
  rw [mem_range'_1] at hmem
  omega

/-- The next offset after records at consecutive offsets from `base` on. -/
lemma nextOffsetFromRecords_append_range {existing : List Record} {n : Nat} (hn : 0 < n)
    (hbelow : ∀ r ∈ existing, r.offset < base) (h : records.map Record.offset = List.range' base n) :
    nextOffsetFromRecords (existing ++ records) = base + n := by
  apply Nat.le_antisymm
  · refine (nextOffsetFromRecords_le_iff _ _).mpr fun r hr => ?_
    rcases mem_append.mp hr with hr | hr
    · have := hbelow r hr
      omega
    · exact (mem_range_of_mem h hr).2
  · have hlast : base + n - 1 ∈ records.map Record.offset := by
      rw [h, mem_range'_1]
      omega
    obtain ⟨r, hr, hoff⟩ := mem_map.mp hlast
    have hlt := lt_nextOffsetFromRecords (mem_append_right existing hr)
    omega

variable {s s' : StorxLogStore}

/-- The key index of a partition, if there is one, gets the keys of the records. -/
def keysAfter (s : StorxLogStore) (tp : TopicPartition) (stored : List Record) :
    Map TopicPartition (Map Bytes Nat) :=
  match s.keyRecords[tp]? with
  | none => s.keyRecords
  | some keys => s.keyRecords.insert tp (stored.foldl appendKeyPointer keys)

lemma recordAppendedKeyPointersLocked_eq (s : StorxLogStore) (tp : TopicPartition) (stored : List Record) :
    s.recordAppendedKeyPointersLocked tp stored = { s with keyRecords := s.keysAfter tp stored } := by
  unfold recordAppendedKeyPointersLocked keysAfter
  cases s.keyRecords[tp]? <;> rfl

/-- What a successful append gives. -/
structure Appended (s s' : StorxLogStore) (tp : TopicPartition) (stored : List Record) : Prop where
  topics : s'.topics = s.topics
  hasPartition : stored ≠ [] → s.HasPartition tp
  offsets : stored.map Record.offset = List.range' (s.nextOffset tp) stored.length
  records : ∀ a, s'.recordsAt a = if tp = a then s.recordsAt a ++ stored else s.recordsAt a
  next : ∀ a, s'.nextOffset a = if tp = a then s.nextOffset a + stored.length else s.nextOffset a
  inv : LogInv s'

lemma appended_nil (hinv : LogInv s) (tp : TopicPartition) : Appended s s tp [] where
  topics := rfl
  hasPartition := fun h => absurd rfl h
  offsets := rfl
  records := by simp
  next := by simp
  inv := hinv

variable {tp : TopicPartition}

section
variable (hinv : LogInv s) (hoff : stored.map Record.offset = List.range' (s.nextOffset tp) stored.length)
include hinv hoff

lemma offsetOrdered_append : OffsetOrdered (s.recordsAt tp ++ stored) :=
  (hinv.ordered tp).append (offsetOrdered_of_range hoff) (hinv.below tp)
    fun _ hr => (mem_range_of_mem hoff hr).1

lemma recordAppendedPointers_eq (hne : stored ≠ []) :
    s.recordAppendedPointers tp stored =
      { topics := s.topics
        records := s.records.insert tp (s.recordsAt tp ++ stored)
        nextOffsets := s.nextOffsets.insert tp (s.nextOffset tp + stored.length)
        keyRecords := s.keysAfter tp stored } := by
  unfold recordAppendedPointers
  rw [if_neg hne, (offsetOrdered_append hinv hoff).sortedRecords_eq]
  dsimp only
  rw [recordAppendedKeyPointersLocked_eq,
    nextOffsetFromRecords_append_range (length_pos_iff.mpr hne) (hinv.below tp) hoff]
  rfl

lemma recordAppendedPointers_spec (hpart : s.HasPartition tp) :
    Appended s (s.recordAppendedPointers tp stored) tp stored := by
  by_cases hne : stored = []
  · subst hne
    exact appended_nil hinv tp
  · rw [recordAppendedPointers_eq hinv hoff hne]
    refine ⟨rfl, fun _ => hpart, hoff, fun a => ?_, fun a => ?_, ?_⟩
    · refine (recordsAt_of_insert rfl a).trans ?_
      split
      · next heq => rw [heq]
      · rfl
    · refine (nextOffset_of_insert rfl a).trans ?_
      split
      · next heq => rw [heq]
      · rfl
    · refine hinv.of_partition hpart rfl rfl rfl (offsetOrdered_append hinv hoff) (forall_mem_append.mpr ⟨?_, ?_⟩)
      · exact fun r hr => Nat.lt_of_lt_of_le (hinv.below tp r hr) (Nat.le_add_right _ _)
      · exact fun r hr => (mem_range_of_mem hoff hr).2

end

/-- What an append that is taken does. -/
lemma appendRecordsBatch_ok {appends : List RecordAppend}
    (h : s.appendRecordsBatch clock tp appends = .ok (stored, s')) :
    appends = [] ∧ stored = [] ∧ s' = s ∨ ∃ topic, s.loadTopicForPartition tp = .ok topic ∧
      prepareAppendRecords clock topic (s.nextOffset tp) 0 appends = .ok stored ∧
      s' = s.recordAppendedPointers tp stored := by
  unfold appendRecordsBatch at h
  split at h
  · next hnil =>
    cases h
    exact .inl ⟨hnil, rfl, rfl⟩
  · obtain ⟨topic, hload, h⟩ := Except.bind_eq_ok.mp h
    obtain ⟨prepared, hprep, h⟩ := Except.bind_eq_ok.mp h
    cases h
    exact .inr ⟨topic, hload, hprep, rfl⟩

/-- **An append** writes the given records at the next offsets of its partition, and nothing
else. -/
theorem appendRecordsBatch_spec {clock : Nat → Nat} {appends : List RecordAppend} (hinv : LogInv s)
    (h : s.appendRecordsBatch clock tp appends = .ok (stored, s')) :
    Appended s s' tp stored ∧ stored.length = appends.length := by
  obtain ⟨rfl, rfl, rfl⟩ | ⟨topic, hload, hprep, rfl⟩ := appendRecordsBatch_ok h
  · exact ⟨appended_nil hinv tp, rfl⟩
  · have hoff := prepareAppendRecords_spec appends hprep
    have hlen : stored.length = appends.length := by
      have hlens := congrArg List.length hoff
      rw [length_map, length_range'] at hlens
      exact hlens
    rw [← hlen] at hoff
    exact ⟨recordAppendedPointers_spec hinv hoff ⟨topic, (loadTopicForPartition_ok_iff _ _ _).mp hload⟩, hlen⟩

/-! ## Logs that only grow -/

/-- The second log has the first one's topics and records, and, above the first one's next
offsets, perhaps more. -/
structure Extends (s s' : StorxLogStore) : Prop where
  topics : ∀ (name : String) (topic : TopicConfig), s.topics[name]? = some topic →
    s'.topics[name]? = some topic
  records : ∀ tp, ∃ added, s'.recordsAt tp = s.recordsAt tp ++ added ∧
    ∀ r ∈ added, s.nextOffset tp ≤ r.offset
  next : ∀ tp, s.nextOffset tp ≤ s'.nextOffset tp

lemma Extends.refl (s : StorxLogStore) : Extends s s :=
  ⟨fun _ _ h => h, fun _ => ⟨[], (append_nil _).symm, nofun⟩,
    fun _ => Nat.le_refl _⟩

lemma Extends.trans {s1 s2 s3 : StorxLogStore} (h1 : Extends s1 s2) (h2 : Extends s2 s3) :
    Extends s1 s3 := by
  refine ⟨fun name topic h => h2.topics name topic (h1.topics name topic h), fun tp => ?_,
    fun tp => Nat.le_trans (h1.next tp) (h2.next tp)⟩
  obtain ⟨added1, heq1, hoff1⟩ := h1.records tp
  obtain ⟨added2, heq2, hoff2⟩ := h2.records tp
  refine ⟨added1 ++ added2, by rw [heq2, heq1, append_assoc], fun r hr => ?_⟩
  rcases mem_append.mp hr with hr | hr
  · exact hoff1 r hr
  · exact Nat.le_trans (h1.next tp) (hoff2 r hr)

lemma Appended.extends (h : Appended s s' tp stored) : Extends s s' where
  topics name topic hget := by
    rw [h.topics]
    exact hget
  records a := by
    rw [h.records a]
    split
    · next heq =>
      refine ⟨stored, rfl, fun r hr => ?_⟩
      rw [← heq]
      exact (mem_range_of_mem h.offsets hr).1
    · exact ⟨[], (append_nil _).symm, nofun⟩
  next a := by
    rw [h.next a]
    split
    · exact Nat.le_add_right _ _
    · exact Nat.le_refl _

/-! ## Retention and compaction -/

/-- Records were removed, and nothing else happened. -/
structure Trimmed (s s' : StorxLogStore) : Prop where
  topics : s'.topics = s.topics
  records : ∀ tp, (s'.recordsAt tp).Sublist (s.recordsAt tp)
  next : ∀ tp, s'.nextOffset tp = s.nextOffset tp
  inv : LogInv s'

lemma Trimmed.refl (hinv : LogInv s) : Trimmed s s :=
  ⟨rfl, fun _ => List.Sublist.refl _, fun _ => rfl, hinv⟩

lemma Trimmed.trans {s1 s2 s3 : StorxLogStore} (h1 : Trimmed s1 s2) (h2 : Trimmed s2 s3) :
    Trimmed s1 s3 :=
  ⟨h2.topics.trans h1.topics, fun tp => (h2.records tp).trans (h1.records tp),
    fun tp => (h2.next tp).trans (h1.next tp), h2.inv⟩

/-- A loop whose every round only removes records only removes records. -/
lemma trimmed_foldl {α : Type} (topics : Map String TopicConfig)
    (f : StorxLogStore → α → StorxLogStore) (l : List α)
    (hf : ∀ a ∈ l, ∀ s, LogInv s → s.topics = topics → Trimmed s (f s a))
    (hinv : LogInv s) (ht : s.topics = topics) : Trimmed s (l.foldl f s) := by
  induction l generalizing s with
  | nil => exact Trimmed.refl hinv
  | cons a rest ih =>
    have hstep := hf a mem_cons_self s hinv ht
    refine hstep.trans (ih (fun b hb => hf b (mem_cons_of_mem a hb)) hstep.inv ?_)
    rw [hstep.topics, ht]

lemma removeKeyPointersLocked_eq (s : StorxLogStore) (tp : TopicPartition) (remove : List Nat) :
    ∃ keys, s.removeKeyPointersLocked tp remove = { s with keyRecords := keys } := by
  unfold removeKeyPointersLocked
  split
  · exact ⟨_, rfl⟩
  · exact ⟨_, rfl⟩

lemma trimmed_deleteRecordPointers (hinv : LogInv s) (hpart : s.HasPartition tp)
    (remove : List Nat) : Trimmed s (s.deleteRecordPointers tp remove) := by
  unfold deleteRecordPointers
  split
  · exact Trimmed.refl hinv
  · have hsub : ((s.recordsAt tp).filter fun r => r.offset ∉ remove).Sublist (s.recordsAt tp) :=
      filter_sublist
    -- the records that are left lie below the next offset, so the maximum is the old value
    have hnext : max ((s.nextOffsets[tp]?).getD (nextOffsetFromRecords (s.recordsAt tp)))
        (nextOffsetFromRecords ((s.recordsAt tp).filter fun r => r.offset ∉ remove))
          = s.nextOffset tp := by
      rw [hinv.get_nextOffset hpart, Option.getD_some, Nat.max_eq_left]
      exact (nextOffsetFromRecords_le_iff _ _).mpr fun r hr => hinv.below tp r (hsub.subset hr)
    unfold removeRecordPointers
    dsimp only
    rw [hnext]
    obtain ⟨keys, hkeys⟩ := removeKeyPointersLocked_eq
      { s with records := s.records.insert tp ((s.recordsAt tp).filter fun r => r.offset ∉ remove) } tp remove
    rw [hkeys]
    refine ⟨rfl, fun a => ?_, fun a => ?_, ?_⟩
    · rw [recordsAt_of_insert (s := s) rfl]
      split
      · next heq => exact heq ▸ hsub
      · exact List.Sublist.refl _
    · refine (nextOffset_of_insert (s := s) rfl a).trans ?_
      split
      · next heq => rw [heq]
      · rfl
    · exact hinv.of_partition hpart rfl rfl rfl ((hinv.ordered tp).sublist hsub)
        fun r hr => hinv.below tp r (hsub.subset hr)

lemma recordsAt_deleteRecordPointers (s : StorxLogStore) (tp : TopicPartition) (remove : List Nat) :
    (s.deleteRecordPointers tp remove).recordsAt tp
      = (s.recordsAt tp).filter fun record => record.offset ∉ remove := by
  unfold deleteRecordPointers
  by_cases hnone : remove = []
  · rw [if_pos hnone, hnone]
    simp
  · rw [if_neg hnone]
    unfold removeRecordPointers
    dsimp only
    obtain ⟨keys, hkeys⟩ := removeKeyPointersLocked_eq
      { s with records := s.records.insert tp ((s.recordsAt tp).filter fun r => r.offset ∉ remove) } tp remove
    rw [hkeys]
    exact (recordsAt_of_insert rfl tp).trans (if_pos rfl)

lemma recordsAt_latestOffsetsByKeyIndexOrRecords (s : StorxLogStore) (tp a : TopicPartition) :
    (s.latestOffsetsByKeyIndexOrRecords tp).2.recordsAt a = s.recordsAt a := by
  unfold latestOffsetsByKeyIndexOrRecords
  split <;> rfl

lemma compactPartition_eq (s : StorxLogStore) (nowMS : Nat) (topic : TopicConfig) (tp : TopicPartition) :
    s.compactPartition nowMS topic tp = (s.latestOffsetsByKeyIndexOrRecords tp).2.deleteRecordPointers tp
      (compactionRemovableOffsetsWithLatest topic (s.recordsAt tp) nowMS
        (s.latestOffsetsByKeyIndexOrRecords tp).1) := by
  unfold compactPartition
  dsimp only
  rw [recordsAt_latestOffsetsByKeyIndexOrRecords]

/-- The partitions that the maintenance loops visit are those of the log. -/
lemma hasPartition_of_listLogTopics (hinv : LogInv s) {topic : TopicConfig}
    (htopic : topic ∈ s.listLogTopics) (hmem : tp ∈ topic.partitionList) : s.HasPartition tp := by
  obtain ⟨⟨name, found⟩, hentry, rfl⟩ := mem_map.mp htopic
  have hget := Std.ExtTreeMap.mem_toList_iff_getElem?_eq_some.mp hentry
  obtain ⟨hname, hlt⟩ := (mem_partitionList _ _).mp hmem
  refine ⟨found, ?_, hlt⟩
  rw [hname, (hinv.topic name found hget).name_eq]
  exact hget

/-- The two maintenance loops: over the topics of the log, and over their partitions. -/
lemma trimmed_maintenance (f : TopicConfig → StorxLogStore → TopicPartition → StorxLogStore)
    (hf : ∀ topic s tp, LogInv s → s.HasPartition tp → Trimmed s (f topic s tp)) (hinv : LogInv s) :
    Trimmed s (s.listLogTopics.foldl (fun s topic => topic.partitionList.foldl (f topic) s) s) := by
  refine trimmed_foldl s.topics _ _ (fun topic htopic s1 hinv1 ht1 => ?_) hinv rfl
  refine trimmed_foldl s.topics _ _ (fun tp htp s2 hinv2 ht2 => ?_) hinv1 ht1
  refine hf topic s2 tp hinv2 ?_
  obtain ⟨found, hfound, hlt⟩ := hasPartition_of_listLogTopics hinv htopic htp
  exact ⟨found, ht2 ▸ hfound, hlt⟩

/-- **Retention** only removes records. -/
theorem trimmed_enforceRetention (hinv : LogInv s) (nowMS : Nat) :
    Trimmed s (s.enforceRetention nowMS) :=
  trimmed_maintenance _ (fun _ _ _ hinv hpart => trimmed_deleteRecordPointers hinv hpart _) hinv

lemma trimmed_compactPartition (nowMS : Nat) (topic : TopicConfig) (hinv : LogInv s)
    (hpart : s.HasPartition tp) : Trimmed s (s.compactPartition nowMS topic tp) := by
  unfold compactPartition latestOffsetsByKeyIndexOrRecords
  cases hkeys : s.keyRecords[tp]? with
  | some keys => exact trimmed_deleteRecordPointers hinv hpart _
  | none =>
    -- the key index is built first, which the records do not show
    let keys := (s.recordsAt tp).foldl appendKeyPointer ∅
    let built := { s with keyRecords := s.keyRecords.insert tp keys }
    have hbuilt : LogInv built := hinv.congr rfl rfl rfl
    have htrim := trimmed_deleteRecordPointers hbuilt hpart
      (compactionRemovableOffsetsWithLatest topic (s.recordsAt tp) nowMS keys)
    exact ⟨htrim.topics, htrim.records, htrim.next, htrim.inv⟩

/-- **Compaction** only removes records. -/
theorem trimmed_compact (hinv : LogInv s) (nowMS : Nat) : Trimmed s (s.compact nowMS) :=
  trimmed_maintenance _ (fun topic _ _ hinv hpart => trimmed_compactPartition nowMS topic hinv hpart)
    hinv

end StorxLogStore

end Ech0.Store
