/-
  What a broker restored from a snapshot looks like.

  A broker over one log gets its records back when their partitions have names that parse and
  belong to topics that the snapshot lists (`restore_single`). A sharded broker merges the
  snapshots of its shards, and splits the merged one by placement when it restores; this goes
  through when every partition of every shard has a name that parses and a placement on a
  registered shard, and when the partitions with records belong to listed topics
  (`restore_sharded`). The records of a partition are then those of the last shard that has
  some, and its next offset is that of the last shard that has the partition at all.
-/
import Ech0.Broker.Invariants

set_option autoImplicit false

namespace Ech0.Broker

open Ech0.Lib Ech0.Store Ech0.Store.StorxLogStore List

variable (shards : Map UInt32 StorxLogStore) (order : List UInt32) {V : Type} {tp : TopicPartition}

/-! ## The topics of a snapshot -/

/-- A normalized topic has partitions. -/
lemma partitions_ne_zero {topic : TopicConfig} (h : normalizeTopic topic = topic) :
    topic.partitions ≠ 0 := by
  intro hzero
  have hparts := congrArg TopicConfig.partitions h
  rw [normalizeTopic, hzero] at hparts
  cases hparts

lemma topicList_listTopics {s : MemoryStore} (h : MemInv s) : TopicList s.listTopics := by
  constructor
  · intro topic htopic
    obtain ⟨e, he, rfl⟩ := mem_map.mp htopic
    obtain ⟨hname, hne, hnormal⟩ := h.topics e he
    exact ⟨rfl, hname ▸ hne, partitions_ne_zero hnormal, hnormal⟩
  · have hnames : s.listTopics.map TopicConfig.name = s.topics.entries.map Prod.fst := by
      rw [MemoryStore.listTopics, OrderedMap.values, map_map]
      exact map_congr_left fun e he => (h.topics e he).1
    rw [hnames]
    exact s.topics.nodup

/-! ## Merging the shards

What the loop over the shards leaves under a key is what the last shard reports there. -/

namespace MessageRuntime

/-- The entry that the last of the shards reports. -/
def lastReported {V : Type} (order : List UInt32) (report : UInt32 → Option V) : Option V :=
  order.reverse.findSome? report

lemma lastReported_cons (id : UInt32) (rest : List UInt32) (report : UInt32 → Option V) :
    lastReported (id :: rest) report = (lastReported rest report).or (report id) := by
  rw [lastReported, reverse_cons, findSome?_append, findSome?_singleton]
  rfl

/-- The records of a partition on a shard, if it has any. -/
def reportedRecords (shards : Map UInt32 StorxLogStore) (tp : TopicPartition) (id : UInt32) :
    Option (List Record) :=
  (shards[id]?).bind fun log => if log.recordsAt tp = [] then none else some (log.recordsAt tp)

lemma reportedRecords_eq_some_iff (tp : TopicPartition) (id : UInt32) (rs : List Record) :
    reportedRecords shards tp id = some rs ↔
      ∃ log : StorxLogStore, shards[id]? = some log ∧ log.recordsAt tp = rs ∧ rs ≠ [] := by
  unfold reportedRecords
  rw [Option.bind_eq_some_iff]
  refine exists_congr fun log => and_congr_right fun _ => ?_
  split
  · next hnil =>
    rw [hnil]
    exact ⟨nofun, fun hc => absurd hc.1.symm hc.2⟩
  · next hne =>
    rw [Option.some.injEq]
    exact ⟨fun heq => ⟨heq, heq ▸ hne⟩, fun hand => hand.1⟩

/-- The next offset of a partition on a shard, if the shard has the partition. -/
def reportedNext (shards : Map UInt32 StorxLogStore) (tp : TopicPartition) (id : UInt32) :
    Option Nat :=
  (shards[id]?).bind fun log => log.nextOffsets[tp]?

lemma merge_spec (out : Snapshot) : let merged := order.foldl (mergeShard shards) out
    merged.topics = out.topics ∧
    (∀ key : String, merged.records[key]? = (lastReported order fun id =>
      (shards[id]?).bind fun log => log.snapshot.records[key]?).or out.records[key]?) ∧
    (∀ key : String, merged.logOffsets[key]? = (lastReported order fun id =>
      (shards[id]?).bind fun log => log.snapshot.logOffsets[key]?).or out.logOffsets[key]?) := by
  induction order generalizing out with
  | nil => exact ⟨rfl, fun _ => rfl, fun _ => rfl⟩
  | cons id rest ih =>
    obtain ⟨htopics, hrecords, hnext⟩ := ih (mergeShard shards out id)
    have hstep : (mergeShard shards out id).topics = out.topics ∧
        (∀ key : String, (mergeShard shards out id).records[key]?
          = ((shards[id]?).bind fun log => log.snapshot.records[key]?).or out.records[key]?) ∧
        (∀ key : String, (mergeShard shards out id).logOffsets[key]?
          = ((shards[id]?).bind fun log => log.snapshot.logOffsets[key]?).or
              out.logOffsets[key]?) := by
      unfold mergeShard
      cases shards[id]? with
      | none => exact ⟨rfl, fun _ => rfl, fun _ => rfl⟩
      | some log =>
        exact ⟨rfl, Map.get_setEach_toList log.snapshot.records out.records,
          Map.get_setEach_toList log.snapshot.logOffsets out.logOffsets⟩
    refine ⟨htopics.trans hstep.1, fun key => ?_, fun key => ?_⟩
    · rw [foldl_cons, hrecords, hstep.2.1, lastReported_cons, Option.or_assoc]
    · rw [foldl_cons, hnext, hstep.2.2, lastReported_cons, Option.or_assoc]

lemma lastReported_some {order : List UInt32} {report : UInt32 → Option V} {v : V}
    (h : lastReported order report = some v) : ∃ id ∈ order, report id = some v := by
  obtain ⟨id, hid, hreport⟩ := exists_of_findSome?_eq_some h
  exact ⟨id, mem_reverse.mp hid, hreport⟩

lemma lastReported_congr {report report' : UInt32 → Option V} (h : ∀ id, report id = report' id) :
    lastReported order report = lastReported order report' :=
  congrArg (lastReported order) (funext h)

/-- **The merged snapshot** stands for the last records and the last next offsets reported. -/
theorem merge_holds {shards : Map UInt32 StorxLogStore}
    (hshards : ∀ (id : UInt32) (log : StorxLogStore), shards[id]? = some log → LogInv log)
    (order : List UInt32) (topics : List TopicConfig) :
    (order.foldl (mergeShard shards) { topics := topics }).Holds
      (fun tp => (lastReported order (reportedRecords shards tp)).getD [])
      (fun tp => lastReported order (reportedNext shards tp)) := by
  obtain ⟨_, hrecords, hnext⟩ := merge_spec shards order { topics := topics }
  have hentry : ∀ (id : UInt32) (tp : TopicPartition),
      ((shards[id]?).bind fun log => log.snapshot.records[partitionKey tp]?)
        = reportedRecords shards tp id :=
    fun id tp => Option.bind_congr fun log hget => (snapshot_holds (hshards id log hget)).get_records tp
  have hentry2 : ∀ (id : UInt32) (tp : TopicPartition),
      ((shards[id]?).bind fun log => log.snapshot.logOffsets[partitionKey tp]?)
        = reportedNext shards tp id :=
    fun id tp => Option.bind_congr fun log hget => (snapshot_holds (hshards id log hget)).get_next tp
  refine Snapshot.Holds.of_get (fun key rs hget => ?_) (fun key n hget => ?_) (fun tp => ?_)
    fun tp => ?_
  · rw [hrecords] at hget
    simp only [Std.ExtTreeMap.getElem?_empty, Option.or_none] at hget
    obtain ⟨id, _, hid⟩ := lastReported_some hget
    obtain ⟨log, hlog, hrs⟩ := Option.bind_eq_some_iff.mp hid
    obtain ⟨tp, hkey, _⟩ := ((snapshot_holds (hshards id log hlog)).records key rs).mp hrs
    exact ⟨tp, hkey⟩
  · rw [hnext] at hget
    simp only [Std.ExtTreeMap.getElem?_empty, Option.or_none] at hget
    obtain ⟨id, _, hid⟩ := lastReported_some hget
    obtain ⟨log, hlog, hn⟩ := Option.bind_eq_some_iff.mp hid
    obtain ⟨tp, hkey, _⟩ := ((snapshot_holds (hshards id log hlog)).next key n).mp hn
    exact ⟨tp, hkey⟩
  · rw [hrecords, lastReported_congr order fun id => hentry id tp]
    simp only [Std.ExtTreeMap.getElem?_empty, Option.or_none]
    cases hlast : lastReported order (reportedRecords shards tp) with
    | none => simp
    | some rs =>
      obtain ⟨id, _, hid⟩ := lastReported_some hlast
      obtain ⟨_, _, _, hne⟩ := (reportedRecords_eq_some_iff _ _ _ _).mp hid
      simp [hne]
  · rw [hnext, lastReported_congr order fun id => hentry2 id tp]
    simp only [Std.ExtTreeMap.getElem?_empty, Option.or_none]

/-! ## Splitting a snapshot by placement -/

/-- The shard that a key's partition is placed on, if the key parses and there is a placement. -/
def placed (placements : Map TopicPartition UInt32) (key : String) : Option UInt32 :=
  (snapshotShardID placements key).toOption

lemma snapshotShardID_ok_iff (placements : Map TopicPartition UInt32) (key : String)
    (id : UInt32) : snapshotShardID placements key = .ok id ↔ placed placements key = some id :=
  Except.toOption_eq_some.symm

lemma placed_partitionKey {placements : Map TopicPartition UInt32} (h : NulFree tp.topic) :
    placed placements (partitionKey tp) = placements[tp]? := by
  unfold placed snapshotShardID
  rw [parsePartitionKey_partitionKey h]
  cases hget : placements[tp]? with
  | none | some id => simp [Except.mapError, bind, Except.bind, hget, Except.toOption]

lemma placed_of_not_nulFree {placements : Map TopicPartition UInt32} (h : ¬ NulFree tp.topic) :
    placed placements (partitionKey tp) = none := by
  unfold placed snapshotShardID
  cases hparse : parsePartitionKey (partitionKey tp) with
  | error err => rfl
  | ok a => exact absurd (parsePartitionKey_partitionKey_iff.mp hparse).1 h

section
variable {V : Type} {set : Snapshot → String → V → Snapshot}
  {placements : Map TopicPartition UInt32}

lemma splitEntries_cons {key : String} {value : V} {rest : List (String × V)}
    {out : Map UInt32 Snapshot} {id : UInt32} {s : Snapshot}
    (hplaced : placed placements key = some id) (hget : out[id]? = some s) :
    splitEntries set placements ((key, value) :: rest) out
      = splitEntries set placements rest (out.insert id (set s key value)) := by
  rw [splitEntries, (snapshotShardID_ok_iff _ _ _).mpr hplaced]
  simp only [bind, Except.bind, snapshotForShard, hget]

variable (set placements) in
/-- Entries that are all placed on registered shards are put into these shards' snapshots. -/
lemma splitEntries_ok (es : List (String × V)) (out : Map UInt32 Snapshot)
    (h : ∀ e ∈ es, ∃ id, placed placements e.1 = some id ∧ (out[id]?).isSome = true) :
    ∃ out', splitEntries set placements es out = .ok out' ∧ ∀ id : UInt32, out'[id]?
      = (out[id]?).map fun s =>
          (es.filter fun e => placed placements e.1 = some id).foldl (fun s e => set s e.1 e.2) s := by
  induction es generalizing out with
  | nil => exact ⟨out, rfl, fun id => by simp⟩
  | cons e rest ih =>
    obtain ⟨key, value⟩ := e
    obtain ⟨id, hplaced, hsome⟩ := h (key, value) mem_cons_self
    obtain ⟨s, hget⟩ := Option.isSome_iff_exists.mp hsome
    obtain ⟨out', hrun, hout'⟩ := ih (out.insert id (set s key value)) (by
      intro e he
      obtain ⟨a, ha, hsome⟩ := h e (mem_cons_of_mem _ he)
      refine ⟨a, ha, ?_⟩
      rw [Map.get_insert]
      split
      · rfl
      · exact hsome)
    refine ⟨out', by rw [splitEntries_cons hplaced hget, hrun], fun a => ?_⟩
    rw [hout', Map.get_insert, filter_cons]
    dsimp only
    by_cases heq : id = a
    · subst heq
      simp [hplaced, hget]
    · have hne : ¬ placed placements key = some a := by
        rw [hplaced]
        exact fun h => heq (Option.some.inj h)
      simp [heq, hne]

variable (set placements) in
/-- An entry that is not placed on a registered shard stops the loop. -/
lemma splitEntries_error (es : List (String × V)) (out : Map UInt32 Snapshot)
    (h : ∃ e ∈ es, ∀ id : UInt32, placed placements e.1 = some id → out[id]? = none) :
    ∃ err, splitEntries set placements es out = .error err := by
  induction es generalizing out with
  | nil =>
    obtain ⟨e, he, _⟩ := h
    cases he
  | cons e rest ih =>
    obtain ⟨key, value⟩ := e
    cases hshard : snapshotShardID placements key with
    | error err => exact ⟨err, by rw [splitEntries, hshard]; rfl⟩
    | ok id =>
      have hplaced := (snapshotShardID_ok_iff _ _ _).mp hshard
      cases hget : out[id]? with
      | none =>
        have hfor : ∃ err, snapshotForShard out id = .error err := by
          rw [snapshotForShard, hget]
          exact ⟨_, rfl⟩
        obtain ⟨err, herr⟩ := hfor
        refine ⟨err, ?_⟩
        rw [splitEntries, hshard]
        simp only [bind, Except.bind, herr]
      | some s =>
        rw [splitEntries_cons hplaced hget]
        refine ih _ ?_
        obtain ⟨e, he, hbad⟩ := h
        rcases mem_cons.mp he with rfl | he
        · cases hget.symm.trans (hbad id hplaced)
        · refine ⟨e, he, fun a ha => ?_⟩
          by_cases heq : id = a
          · cases hget.symm.trans (heq ▸ hbad a ha)
          · exact (Map.get_insert_of_ne _ _ heq).trans (hbad a ha)

/-- The loop neither adds a shard nor drops one. -/
lemma splitEntries_isSome (es : List (String × V)) {out out' : Map UInt32 Snapshot}
    (h : splitEntries set placements es out = .ok out') (id : UInt32) :
    (out'[id]?).isSome = (out[id]?).isSome := by
  by_cases hall : ∀ e ∈ es, ∃ id, placed placements e.1 = some id ∧ (out[id]?).isSome = true
  · obtain ⟨out1, hrun, hout1⟩ := splitEntries_ok set placements es out hall
    cases hrun.symm.trans h
    rw [hout1, Option.isSome_map]
  · have hbad : ∃ e ∈ es, ∀ id : UInt32, placed placements e.1 = some id → out[id]? = none := by
      push Not at hall
      obtain ⟨e, he, hbad⟩ := hall
      refine ⟨e, he, fun id hid => ?_⟩
      rw [← Option.not_isSome_iff_eq_none]
      exact hbad id hid
    obtain ⟨err, herr⟩ := splitEntries_error set placements es out hbad
    rw [h] at herr
    cases herr

end

/-- One entry of a snapshot put into another one's records, or into its next offsets. -/
lemma foldl_set_records (es : List (String × List Record)) (s : Snapshot) :
    es.foldl (fun s e => { s with records := s.records.insert e.1 e.2 }) s
      = { s with records := Map.setEach Prod.fst Prod.snd es s.records } := by
  induction es generalizing s with
  | nil => rfl
  | cons e rest ih => exact ih _

lemma foldl_set_logOffsets (es : List (String × Nat)) (s : Snapshot) :
    es.foldl (fun s e => { s with logOffsets := s.logOffsets.insert e.1 e.2 }) s
      = { s with logOffsets := Map.setEach Prod.fst Prod.snd es s.logOffsets } := by
  induction es generalizing s with
  | nil => rfl
  | cons e rest ih => exact ih _

/-- The entries of a map that are placed on a shard. -/
lemma get_setEach_placed (m : Map String V) (placements : Map TopicPartition UInt32) (id : UInt32)
    (key : String) (v : V) : (Map.setEach Prod.fst Prod.snd
      (m.toList.filter fun e => placed placements e.1 = some id) ∅)[key]? = some v
      ↔ m[key]? = some v ∧ placed placements key = some id := by
  have hnodup : ((m.toList.filter fun e => placed placements e.1 = some id).map Prod.fst).Nodup :=
    (m.nodup_keys).sublist (filter_sublist.map Prod.fst)
  rw [Map.get_setEach_iff _ _ hnodup]
  constructor
  · rintro ⟨⟨k, v'⟩, hmem, rfl, rfl⟩
    obtain ⟨hmem, hplaced⟩ := mem_filter.mp hmem
    exact ⟨(Map.mem_toList _ _ _).mp hmem, of_decide_eq_true hplaced⟩
  · rintro ⟨hget, hplaced⟩
    exact ⟨(key, v), mem_filter.mpr ⟨(Map.mem_toList _ _ _).mpr hget,
      decide_eq_true hplaced⟩, rfl, rfl⟩

section
variable {snapshot : Snapshot} {records : TopicPartition → List Record}
  {next : TopicPartition → Option Nat} (h : snapshot.Holds records next)
  {shards : Map UInt32 StorxLogStore}

/-- A partition that a snapshot mentions can go to a shard: its name parses and it has a
placement on a registered shard. -/
def Placeable (shards : Map UInt32 StorxLogStore) (placements : Map TopicPartition UInt32)
    (tp : TopicPartition) : Prop :=
  NulFree tp.topic ∧ ∃ id : UInt32, placements[tp]? = some id ∧ (shards[id]?).isSome = true

lemma placeable_iff (placements : Map TopicPartition UInt32) (tp : TopicPartition) :
    Placeable shards placements tp ↔
      ∃ id : UInt32, placed placements (partitionKey tp) = some id ∧ (shards[id]?).isSome = true := by
  unfold Placeable
  by_cases hnul : NulFree tp.topic
  · simp [hnul, placed_partitionKey hnul]
  · simp [hnul, placed_of_not_nulFree hnul]

include h

/-- **The split** of a snapshot whose partitions can all be placed: each shard gets the records
and next offsets of the partitions placed on it. -/
theorem splitRestoreSnapshot_ok
    (hplace : ∀ tp, records tp ≠ [] ∨ (next tp).isSome = true →
      Placeable shards (snapshotPlacementMap snapshot.placements) tp) :
    ∃ parts, splitRestoreSnapshot shards snapshot = .ok parts ∧
      ∀ id : UInt32, (shards[id]?).isSome = true → ∃ part, parts[id]? = some part ∧
        part.topics = snapshot.topics ∧ part.Holds
          (fun tp => if (snapshotPlacementMap snapshot.placements)[tp]? = some id then records tp
            else [])
          (fun tp => if (snapshotPlacementMap snapshot.placements)[tp]? = some id then next tp
            else none) := by
  have hget : ∀ id : UInt32, (shards.map fun _ _ => ({ topics := snapshot.topics } : Snapshot))[id]?
      = (shards[id]?).map fun _ => { topics := snapshot.topics } := fun id =>
    Std.ExtTreeMap.getElem?_map
  obtain ⟨out1, hrun1, hout1⟩ := splitEntries_ok
    (fun s key records => { s with records := s.records.insert key records })
    (snapshotPlacementMap snapshot.placements) snapshot.records.toList
    (shards.map fun _ _ => ({ topics := snapshot.topics } : Snapshot)) (by
      rintro ⟨key, rs⟩ he
      obtain ⟨tp, rfl, rfl, hne⟩ := (h.records key rs).mp ((Map.mem_toList _ _ _).mp he)
      obtain ⟨id, hid, hsome⟩ := (placeable_iff _ _).mp (hplace tp (Or.inl hne))
      exact ⟨id, hid, by rw [hget, Option.isSome_map, hsome]⟩)
  simp only [foldl_set_records, hget, Option.map_map] at hout1
  obtain ⟨out2, hrun2, hout2⟩ := splitEntries_ok
    (fun s key offset => { s with logOffsets := s.logOffsets.insert key offset })
    (snapshotPlacementMap snapshot.placements) snapshot.logOffsets.toList out1 (by
      rintro ⟨key, n⟩ he
      obtain ⟨tp, rfl, hn⟩ := (h.next key n).mp ((Map.mem_toList _ _ _).mp he)
      obtain ⟨id, hid, hsome⟩ := (placeable_iff _ _).mp (hplace tp (Or.inr (by rw [hn]; rfl)))
      exact ⟨id, hid, by rw [hout1, Option.isSome_map, hsome]⟩)
  simp only [foldl_set_logOffsets, hout1, Option.map_map] at hout2
  refine ⟨out2, ?_, fun id hid => ?_⟩
  · unfold splitRestoreSnapshot splitSnapshotRecords splitSnapshotLogOffsets
    simp only [bind, Except.bind, hrun1, hrun2]
  obtain ⟨log, hlog⟩ := Option.isSome_iff_exists.mp hid
  have hpart := hout2 id
  rw [hlog, Option.map_some] at hpart
  refine ⟨_, hpart, rfl, fun key rs => ?_, fun key n => ?_⟩
  · refine (get_setEach_placed snapshot.records _ id key rs).trans ?_
    constructor
    · rintro ⟨hrs, hplaced⟩
      obtain ⟨tp, rfl, rfl, hne⟩ := (h.records key rs).mp hrs
      have hnul := (hplace tp (Or.inl hne)).1
      rw [placed_partitionKey hnul] at hplaced
      exact ⟨tp, rfl, if_pos hplaced, hne⟩
    · rintro ⟨tp, rfl, hrs, hne⟩
      split at hrs
      · next hplaced =>
        subst hrs
        have hnul := (hplace tp (Or.inl hne)).1
        exact ⟨(h.records _ _).mpr ⟨tp, rfl, rfl, hne⟩,
          (placed_partitionKey hnul).trans hplaced⟩
      · exact absurd hrs.symm hne
  · refine (get_setEach_placed snapshot.logOffsets _ id key n).trans ?_
    constructor
    · rintro ⟨hget', hplaced⟩
      obtain ⟨tp, rfl, hn⟩ := (h.next key n).mp hget'
      have hnul := (hplace tp (Or.inr (by rw [hn]; rfl))).1
      rw [placed_partitionKey hnul] at hplaced
      exact ⟨tp, rfl, (if_pos hplaced).trans hn⟩
    · rintro ⟨tp, rfl, hn⟩
      split at hn
      · next hplaced =>
        have hnul := (hplace tp (Or.inr (by rw [hn]; rfl))).1
        exact ⟨(h.next _ _).mpr ⟨tp, rfl, hn⟩, (placed_partitionKey hnul).trans hplaced⟩
      · cases hn

/-- A partition that cannot be placed stops the split. -/
lemma splitRestoreSnapshot_error (hmentioned : records tp ≠ [] ∨ (next tp).isSome = true)
    (hbad : ¬ Placeable shards (snapshotPlacementMap snapshot.placements) tp) :
    ∃ err, splitRestoreSnapshot shards snapshot = .error err := by
  rw [placeable_iff] at hbad
  have hnone : ∀ (m : Map UInt32 Snapshot) (id : UInt32),
      (∀ a : UInt32, (m[a]?).isSome = (shards[a]?).isSome) →
      placed (snapshotPlacementMap snapshot.placements) (partitionKey tp) = some id →
      m[id]? = none := by
    intro m id hm hid
    rw [← Option.not_isSome_iff_eq_none, hm]
    exact fun hsome => hbad ⟨id, hid, hsome⟩
  have hget : ∀ id : UInt32, (shards.map fun _ _ => ({ topics := snapshot.topics } : Snapshot))[id]?
      = (shards[id]?).map fun _ => { topics := snapshot.topics } := fun id =>
    Std.ExtTreeMap.getElem?_map
  unfold splitRestoreSnapshot
  cases hrun : splitSnapshotRecords snapshot
      (shards.map fun _ _ => ({ topics := snapshot.topics } : Snapshot)) with
  | error err => exact ⟨err, by simp only [bind, Except.bind, hrun]⟩
  | ok out1 =>
    simp only [bind, Except.bind, hrun]
    have hdomain : ∀ a : UInt32, (out1[a]?).isSome = (shards[a]?).isSome := fun a =>
      (splitEntries_isSome _ hrun a).trans (by rw [hget, Option.isSome_map])
    rcases hmentioned with hrecords | hnext
    · -- the first loop would have stopped
      have hmem : (partitionKey tp, records tp) ∈ snapshot.records.toList :=
        (Map.mem_toList _ _ _).mpr ((h.records _ _).mpr ⟨tp, rfl, rfl, hrecords⟩)
      obtain ⟨err, herr⟩ := splitEntries_error
        (fun s key records => { s with records := s.records.insert key records })
        (snapshotPlacementMap snapshot.placements) snapshot.records.toList
        (shards.map fun _ _ => ({ topics := snapshot.topics } : Snapshot))
        ⟨_, hmem, fun id hid => hnone _ id (fun a => by rw [hget, Option.isSome_map]) hid⟩
      rw [splitSnapshotRecords, herr] at hrun
      cases hrun
    · obtain ⟨n, hn⟩ := Option.isSome_iff_exists.mp hnext
      have hmem : (partitionKey tp, n) ∈ snapshot.logOffsets.toList :=
        (Map.mem_toList _ _ _).mpr ((h.next _ _).mpr ⟨tp, rfl, hn⟩)
      exact splitEntries_error _ _ snapshot.logOffsets.toList out1
        ⟨_, hmem, fun id hid => hnone out1 id hdomain hid⟩

/-! ## Restoring the runtime -/

omit h in
lemma joinErrors_eq_none_iff (errors : List Error) : joinErrors errors = none ↔ errors = [] := by
  cases errors with
  | nil => simp [joinErrors]
  | cons err rest => simp [joinErrors]

/-- The errors of the shards' restorations. -/
def restoreErrors (restored : Map UInt32 (Except Error Unit × StorxLogStore)) : List Error :=
  restored.toList.filterMap fun e =>
    match e.2.1 with
    | .ok () => none
    | .error err => some (err.wrap ("restore message shard " ++ showUInt32 e.1))

omit h in
lemma restoreErrors_eq_nil_iff (restored : Map UInt32 (Except Error Unit × StorxLogStore)) :
    restoreErrors restored = [] ↔
      ∀ (id : UInt32) (e : Except Error Unit × StorxLogStore), restored[id]? = some e →
        e.1 = .ok () := by
  unfold restoreErrors
  rw [filterMap_eq_nil_iff]
  constructor
  · intro hall id e hget
    have hnone := hall (id, e) ((Map.mem_toList _ _ _).mpr hget)
    split at hnone
    · next heq => exact heq
    · cases hnone
  · rintro hall ⟨id, e⟩ hmem
    have hok := hall id e ((Map.mem_toList _ _ _).mp hmem)
    dsimp only
    rw [hok]

variable {cfg : Config} {w : World}

omit h in
/-- A restoration whose snapshot can be split goes through when that of every shard does. -/
lemma restore_of_split (hsharded : cfg.sharded = true) {parts : Map UInt32 Snapshot}
    (hsplit : splitRestoreSnapshot w.shards snapshot = .ok parts) :
    let restored := w.shards.map (restoreShard snapshot.topics parts)
    (restore cfg snapshot w).2 = { w with shards := restored.map fun _ e => e.2 } ∧
      ((restore cfg snapshot w).1 = .ok () ↔
        ∀ (id : UInt32) (log : StorxLogStore), w.shards[id]? = some log →
          (restoreShard snapshot.topics parts id log).1 = .ok ()) := by
  intro restored
  have hrestored : ∀ id : UInt32, restored[id]?
      = (w.shards[id]?).map (restoreShard snapshot.topics parts id) := fun id =>
    Std.ExtTreeMap.getElem?_map
  have herrors : joinErrors (restoreErrors restored) = none ↔
      ∀ (id : UInt32) (log : StorxLogStore), w.shards[id]? = some log →
        (restoreShard snapshot.topics parts id log).1 = .ok () := by
    rw [joinErrors_eq_none_iff, restoreErrors_eq_nil_iff]
    constructor
    · intro hall id log hlog
      exact hall id _ (by rw [hrestored, hlog]; rfl)
    · intro hall id e he
      rw [hrestored] at he
      obtain ⟨log, hlog, rfl⟩ := Option.map_eq_some_iff.mp he
      exact hall id log hlog
  have hrun : restore cfg snapshot w = ((joinErrors (restoreErrors restored)).elim (.ok ()) .error,
      { w with shards := restored.map fun _ e => e.2 }) := by
    unfold restore
    rw [if_pos hsharded, hsplit]
    dsimp only
    split
    · next hjoin => exact hjoin ▸ rfl
    · next hjoin => exact hjoin ▸ rfl
  rw [hrun, ← herrors]
  cases joinErrors (restoreErrors restored) with
  | none => exact ⟨rfl, fun _ => rfl, fun _ => rfl⟩
  | some err => exact ⟨rfl, nofun, nofun⟩

/-- The shards after a restoration that went through. -/
structure RestoredShards (shards shards' : Map UInt32 StorxLogStore) (topics : List TopicConfig)
    (placements : Map TopicPartition UInt32) (records : TopicPartition → List Record)
    (next : TopicPartition → Option Nat) : Prop where
  isSome : ∀ id : UInt32, (shards'[id]?).isSome = (shards[id]?).isSome
  shard : ∀ (id : UInt32) (log : StorxLogStore), shards'[id]? = some log → RestoredLog log topics
    (fun tp => if placements[tp]? = some id then records tp else [])
    (fun tp => if placements[tp]? = some id then next tp else none)

variable (ht : TopicList snapshot.topics) (hord : ∀ tp, OffsetOrdered (records tp))
  (hsharded : cfg.sharded = true)

include ht hord hsharded

/-- **When the restoration of a sharded broker goes through**: every partition that the snapshot
mentions can be placed, and those with records belong to topics of the snapshot. -/
theorem restore_sharded_spec :
    ((restore cfg snapshot w).1 = .ok () ↔
      (∀ tp, records tp ≠ [] ∨ (next tp).isSome = true →
        Placeable w.shards (snapshotPlacementMap snapshot.placements) tp) ∧
      ∀ tp, records tp ≠ [] → InTopics snapshot.topics tp) ∧
    ((restore cfg snapshot w).1 = .ok () → ∃ shards',
      (restore cfg snapshot w).2 = { w with shards := shards' } ∧
        RestoredShards w.shards shards' snapshot.topics (snapshotPlacementMap snapshot.placements)
          records next) := by
  by_cases hplace : ∀ tp, records tp ≠ [] ∨ (next tp).isSome = true →
      Placeable w.shards (snapshotPlacementMap snapshot.placements) tp
  · obtain ⟨parts, hsplit, hparts⟩ := splitRestoreSnapshot_ok h hplace
    obtain ⟨hworld, hok⟩ := restore_of_split hsharded hsplit
    have hord' : ∀ (id : UInt32) (tp : TopicPartition), OffsetOrdered
        (if (snapshotPlacementMap snapshot.placements)[tp]? = some id then records tp else []) := by
      intro id tp
      split
      · exact hord tp
      · exact List.Pairwise.nil
    have hshard : ∀ (id : UInt32) (log : StorxLogStore), w.shards[id]? = some log →
        ∃ part, restoreShard snapshot.topics parts id log = log.restore part ∧
          part.topics = snapshot.topics ∧ part.Holds
            (fun tp => if (snapshotPlacementMap snapshot.placements)[tp]? = some id then records tp
              else [])
            (fun tp => if (snapshotPlacementMap snapshot.placements)[tp]? = some id then next tp
              else none) := by
      intro id log hlog
      obtain ⟨part, hget, htopics, hholds⟩ := hparts id (by rw [hlog]; rfl)
      exact ⟨part, by rw [restoreShard, hget, Option.getD_some], htopics, hholds⟩
    have hiff : (restore cfg snapshot w).1 = .ok () ↔
        ∀ tp, records tp ≠ [] → InTopics snapshot.topics tp := by
      rw [hok]
      constructor
      · intro hall tp hne
        obtain ⟨_, id, hid, hsome⟩ := hplace tp (Or.inl hne)
        obtain ⟨log, hlog⟩ := Option.isSome_iff_exists.mp hsome
        obtain ⟨part, hrun, htopics, hholds⟩ := hshard id log hlog
        have hgood := hall id log hlog
        rw [hrun, restore_ok_iff (htopics ▸ ht) hholds (hord' id)] at hgood
        have hin := (hgood tp (by rw [if_pos hid]; exact hne)).2
        rw [htopics] at hin
        exact hin
      · intro hin id log hlog
        obtain ⟨part, hrun, htopics, hholds⟩ := hshard id log hlog
        rw [hrun, restore_ok_iff (htopics ▸ ht) hholds (hord' id), htopics]
        intro tp hne
        split at hne
        · exact ⟨(hplace tp (Or.inl hne)).1, hin tp hne⟩
        · exact absurd rfl hne
    refine ⟨⟨fun hrun => ⟨hplace, hiff.mp hrun⟩, fun hboth => hiff.mpr hboth.2⟩, fun hrun => ?_⟩
    refine ⟨_, hworld, fun id => ?_, fun id log' hget => ?_⟩
    · rw [Std.ExtTreeMap.getElem?_map, Std.ExtTreeMap.getElem?_map, Option.isSome_map,
        Option.isSome_map]
    · rw [Std.ExtTreeMap.getElem?_map, Std.ExtTreeMap.getElem?_map, Option.map_map] at hget
      obtain ⟨log, hlog, rfl⟩ := Option.map_eq_some_iff.mp hget
      obtain ⟨part, hpart, htopics, hholds⟩ := hshard id log hlog
      have hin := hiff.mp hrun
      obtain ⟨s', hrestore, hspec⟩ := restore_spec (htopics ▸ ht) hholds (hord' id) (by
        intro tp hne
        rw [htopics]
        split at hne
        · exact ⟨(hplace tp (Or.inl hne)).1, hin tp hne⟩
        · exact absurd rfl hne) log
      rw [Function.comp_apply, hpart, hrestore, ← htopics]
      exact hspec
  · have hbad : ∃ tp, (records tp ≠ [] ∨ (next tp).isSome = true) ∧
        ¬ Placeable w.shards (snapshotPlacementMap snapshot.placements) tp := by
      push Not at hplace
      exact hplace
    obtain ⟨tp, hmentioned, hnot⟩ := hbad
    obtain ⟨err, herr⟩ := splitRestoreSnapshot_error h hmentioned hnot
    have hrun : restore cfg snapshot w = (.error err, w) := by
      unfold restore
      rw [if_pos hsharded, herr]
    rw [hrun]
    exact ⟨⟨nofun, fun hc => absurd hc.1 hplace⟩, nofun⟩

end

lemma lastReported_isSome_iff (report : UInt32 → Option V) :
    (lastReported order report).isSome = true ↔ ∃ id ∈ order, (report id).isSome = true := by
  rw [lastReported, findSome?_isSome_iff]
  simp only [mem_reverse]

/-- Some shard has records of the partition. -/
def HasRecords (shards : Map UInt32 StorxLogStore) (order : List UInt32) (tp : TopicPartition) :
    Prop :=
  ∃ id ∈ order, ∃ log : StorxLogStore, shards[id]? = some log ∧ log.recordsAt tp ≠ []

/-- Some shard has the partition. -/
def HasLog (shards : Map UInt32 StorxLogStore) (order : List UInt32) (tp : TopicPartition) : Prop :=
  ∃ id ∈ order, ∃ log : StorxLogStore, shards[id]? = some log ∧ log.HasPartition tp

lemma mergedRecords_ne_nil_iff (tp : TopicPartition) :
    (lastReported order (reportedRecords shards tp)).getD [] ≠ [] ↔ HasRecords shards order tp := by
  constructor
  · intro hne
    cases hlast : lastReported order (reportedRecords shards tp) with
    | none =>
      rw [hlast] at hne
      exact absurd rfl hne
    | some rs =>
      obtain ⟨id, hid, hreport⟩ := lastReported_some hlast
      obtain ⟨log, hlog, heq, hrs⟩ := (reportedRecords_eq_some_iff _ _ _ _).mp hreport
      exact ⟨id, hid, log, hlog, heq ▸ hrs⟩
  · rintro ⟨id, hid, log, hlog, hne⟩
    have hreport := (reportedRecords_eq_some_iff shards tp id _).mpr ⟨log, hlog, rfl, hne⟩
    have hsome := (lastReported_isSome_iff order (reportedRecords shards tp)).mpr
      ⟨id, hid, by rw [hreport]; rfl⟩
    obtain ⟨rs, hrs⟩ := Option.isSome_iff_exists.mp hsome
    obtain ⟨_, _, hlast⟩ := lastReported_some hrs
    obtain ⟨_, _, _, hne'⟩ := (reportedRecords_eq_some_iff _ _ _ _).mp hlast
    rw [hrs]
    exact hne'

lemma mergedNext_isSome_iff {shards : Map UInt32 StorxLogStore}
    (hshards : ∀ (id : UInt32) (log : StorxLogStore), shards[id]? = some log → LogInv log)
    (order : List UInt32) (tp : TopicPartition) :
    (lastReported order (reportedNext shards tp)).isSome = true ↔ HasLog shards order tp := by
  rw [lastReported_isSome_iff]
  constructor
  · rintro ⟨id, hid, hsome⟩
    obtain ⟨n, hn⟩ := Option.isSome_iff_exists.mp hsome
    obtain ⟨log, hlog, hnext⟩ := Option.bind_eq_some_iff.mp hn
    exact ⟨id, hid, log, hlog, ((hshards id log hlog).next_iff tp).mp (by rw [hnext]; rfl)⟩
  · rintro ⟨id, hid, log, hlog, hpart⟩
    refine ⟨id, hid, ?_⟩
    rw [reportedNext, hlog]
    exact ((hshards id log hlog).next_iff tp).mpr hpart

/-- The placements of a snapshot are the stored ones. -/
lemma get_snapshotPlacementMap {s : MemoryStore} (h : MemInv s) (tp : TopicPartition) :
    (snapshotPlacementMap s.snapshot.placements)[tp]?
      = (s.placements[tp]?).map ShardPlacement.shardID := by
  have hnodup : ((s.placements.toList.map Prod.snd).map ShardPlacement.topicPartition).Nodup :=
    h.placements.nodup_of_perm (List.Perm.refl _)
  refine Option.ext fun id => ?_
  refine (Map.get_setEach_iff _ ShardPlacement.shardID hnodup tp id).trans ?_
  rw [Option.map_eq_some_iff]
  constructor
  · rintro ⟨placement, hmem, rfl, rfl⟩
    obtain ⟨⟨tp, found⟩, he, rfl⟩ := mem_map.mp hmem
    have hget := (Map.mem_toList _ _ _).mp he
    refine ⟨found, ?_, rfl⟩
    rw [(h.placements tp found hget).1]
    exact hget
  · rintro ⟨placement, hget, rfl⟩
    exact ⟨placement, mem_map.mpr ⟨_, (Map.mem_toList _ _ _).mpr hget, rfl⟩,
      (h.placements tp placement hget).1, rfl⟩

end MessageRuntime

/-! ## The broker as a whole -/

namespace World

open MessageRuntime

variable {w : World} {cfg : Config}

/-- The topics that a snapshot lists: the metadata's, or, when it has none and there is one log,
those of the log. -/
def listedTopics (cfg : Config) (w : World) : List TopicConfig :=
  if w.metadata.listTopics = [] ∧ cfg.sharded = false then w.log.listLogTopics
  else w.metadata.listTopics

lemma snapshot_topics (cfg : Config) (order : List UInt32) (w : World) :
    (w.snapshot cfg order).topics = w.listedTopics cfg := by
  unfold snapshot listedTopics
  dsimp only
  split
  · next hnone =>
    have htopics : w.metadata.listTopics = [] := hnone
    unfold MessageRuntime.snapshot
    cases hsharded : cfg.sharded with
    | true =>
      rw [if_pos rfl, (merge_spec w.shards order _).1]
      simp
    | false =>
      simp only [htopics, and_self, if_true]
      rfl
  · next hsome =>
    have htopics : ¬ w.metadata.listTopics = [] := hsome
    rw [if_neg fun hand => htopics hand.1]
    rfl

lemma topicList_listedTopics (h : WorldInv w) (cfg : Config) : TopicList (w.listedTopics cfg) := by
  unfold listedTopics
  split
  · exact topicList_listLogTopics h.log
  · exact topicList_listTopics h.metadata

/-- The metadata that comes back from a snapshot that lists the given topics and dead letters. -/
def restoredMetadata (w : World) (topics : List TopicConfig) (entries : List DLQIndexEntry) :
    MemoryStore :=
  { w.metadata with
    topics := MemoryStore.restoreMemoryTopics topics
    dlqIndexes := MemoryStore.restoreTable MemoryStore.dlqEntryKey
      (fun entry => (MemoryStore.validateDLQIndexEntry entry).isOk) entries }

/-- The metadata comes back when the keys of the records parse. -/
lemma restore_metadata (hinv : WorldInv w) (order : List UInt32) (entries : List DLQIndexEntry)
    {records : TopicPartition → List Record} {next : TopicPartition → Option Nat}
    (hholds : (w.snapshot cfg order).Holds records next)
    (hnul : ∀ tp, records tp ≠ [] → NulFree tp.topic) (old : MemoryStore) :
    old.restore { w.snapshot cfg order with dlqIndexes := entries }
      = .ok (w.restoredMetadata (w.listedTopics cfg) entries) := by
  rw [← snapshot_topics cfg order]
  refine MemoryStore.restore_snapshot hinv.metadata old ?_
  rintro ⟨key, rs⟩ he
  obtain ⟨tp, rfl, rfl, hne⟩ := (hholds.records key rs).mp ((Map.mem_toList _ _ _).mp he)
  exact ⟨tp, parsePartitionKey_partitionKey (hnul tp hne)⟩

/-- The broker is restored when its messages are, as the metadata then comes back. -/
lemma restore_iff {stored : Snapshot} {v : World} {Good : Prop} {metadata : MemoryStore}
    (hok : (MessageRuntime.restore cfg stored v).1 = .ok () ↔ Good)
    (hmeta : Good → ∀ old : MemoryStore, old.restore stored = .ok metadata) :
    ((v.restore cfg stored).1 = .ok () ↔ Good) ∧ (Good → (v.restore cfg stored).2
      = { (MessageRuntime.restore cfg stored v).2 with metadata := metadata }) := by
  rcases hrun : MessageRuntime.restore cfg stored v with ⟨err | _, v'⟩
  · rw [hrun] at hok
    have hbad : ¬ Good := fun h => nomatch hok.mpr h
    have hresult : (v.restore cfg stored).1 = .error (err.wrap "restore log store") := by
      unfold restore
      rw [hrun]
    rw [hresult]
    exact ⟨iff_of_false nofun hbad, fun h => absurd h hbad⟩
  · rw [hrun] at hok
    have hgood := hok.mp rfl
    have hresult : v.restore cfg stored = (.ok (), { v' with metadata := metadata }) := by
      unfold restore
      rw [hrun]
      dsimp only
      rw [hmeta hgood]
    rw [hresult]
    exact ⟨iff_of_true rfl hgood, fun _ => rfl⟩

/-- Every partition of the log that has records has a name that parses and belongs to one of the
topics. -/
def LogRestorable (w : World) (topics : List TopicConfig) : Prop :=
  ∀ tp, w.log.recordsAt tp ≠ [] → NulFree tp.topic ∧ InTopics topics tp

/-- **A broker over one log** is restored from its snapshot just when its log is restorable. The
dead letters are those that the snapshot lists. -/
theorem restore_single (hinv : WorldInv w) (hsingle : cfg.sharded = false) (order : List UInt32)
    (entries : List DLQIndexEntry) (v : World) :
    let topics := w.listedTopics cfg
    let result := v.restore cfg { w.snapshot cfg order with dlqIndexes := entries }
    (result.1 = .ok () ↔ w.LogRestorable topics) ∧
      (result.1 = .ok () → ∃ log',
        result.2 = { v with metadata := w.restoredMetadata topics entries, log := log' } ∧
          RestoredLog log' topics w.log.recordsAt fun tp => w.log.nextOffsets[tp]?) := by
  intro topics result
  have hlogSnapshot : MessageRuntime.snapshot cfg order w = w.log.snapshot := by
    unfold MessageRuntime.snapshot
    rw [hsingle]
    rfl
  have hholds : (w.snapshot cfg order).Holds w.log.recordsAt fun tp => w.log.nextOffsets[tp]? := by
    have h := snapshot_holds hinv.log
    rw [← hlogSnapshot] at h
    exact ⟨h.records, h.next⟩
  let stored := { w.snapshot cfg order with dlqIndexes := entries }
  have hstored : stored.Holds w.log.recordsAt fun tp => w.log.nextOffsets[tp]? :=
    ⟨hholds.records, hholds.next⟩
  have htopics : stored.topics = topics := snapshot_topics cfg order w
  have ht : TopicList stored.topics := htopics ▸ topicList_listedTopics hinv cfg
  have hok := restore_ok_iff ht hstored hinv.log.ordered v.log
  rw [htopics] at hok
  have hrun : MessageRuntime.restore cfg stored v
      = ((v.log.restore stored).1.mapError (Error.wrap "restore messages"),
          { v with log := (v.log.restore stored).2 }) := by
    unfold MessageRuntime.restore
    rw [hsingle]
    rfl
  have hmessages : (MessageRuntime.restore cfg stored v).1 = .ok () ↔ w.LogRestorable topics := by
    refine Iff.trans ?_ hok
    rw [hrun]
    cases (v.log.restore stored).1 <;> simp [Except.mapError]
  obtain ⟨hiff, hworld⟩ := restore_iff hmessages fun hload =>
    restore_metadata hinv order entries hholds fun tp hne => (hload tp hne).1
  refine ⟨hiff, fun hresult => ?_⟩
  have hload := hiff.mp hresult
  obtain ⟨log', hrestore, hspec⟩ := restore_spec ht hstored hinv.log.ordered
    (by rw [htopics]; exact hload) v.log
  rw [htopics] at hspec
  refine ⟨log', (hworld hload).trans ?_, hspec⟩
  rw [hrun, hrestore]

/-- Every partition of a shard can be placed on one of the given shards, and those with records
belong to one of the topics. -/
def ShardsRestorable (w : World) (order : List UInt32) (topics : List TopicConfig)
    (shards : Map UInt32 StorxLogStore) : Prop :=
  (∀ tp, HasLog w.shards order tp →
    Placeable shards (snapshotPlacementMap w.metadata.snapshot.placements) tp) ∧
  ∀ tp, HasRecords w.shards order tp → InTopics topics tp

/-- **A sharded broker** is restored from its snapshot just when its shards are restorable. A
partition then has, on the shard it is placed on, the records that the last shard with records
reports, and the next offset that the last shard with the partition reports. -/
theorem restore_sharded (hinv : WorldInv w) (hsharded : cfg.sharded = true) (order : List UInt32)
    (entries : List DLQIndexEntry) (v : World) :
    let topics := w.listedTopics cfg
    let result := v.restore cfg { w.snapshot cfg order with dlqIndexes := entries }
    (result.1 = .ok () ↔ w.ShardsRestorable order topics v.shards) ∧
      (result.1 = .ok () → ∃ shards',
        result.2 = { v with metadata := w.restoredMetadata topics entries, shards := shards' } ∧
          RestoredShards v.shards shards' topics
            (snapshotPlacementMap w.metadata.snapshot.placements)
            (fun tp => (lastReported order (reportedRecords w.shards tp)).getD [])
            (fun tp => lastReported order (reportedNext w.shards tp))) := by
  intro topics result
  let records := fun tp => (lastReported order (reportedRecords w.shards tp)).getD []
  let next := fun tp => lastReported order (reportedNext w.shards tp)
  have hmerged : MessageRuntime.snapshot cfg order w
      = order.foldl (mergeShard w.shards) { topics := w.metadata.listTopics } := by
    unfold MessageRuntime.snapshot
    rw [if_pos hsharded]
  have hholds : (w.snapshot cfg order).Holds records next := by
    have h := merge_holds hinv.shards order w.metadata.listTopics
    rw [← hmerged] at h
    exact ⟨h.records, h.next⟩
  let stored := { w.snapshot cfg order with dlqIndexes := entries }
  have hstored : stored.Holds records next := ⟨hholds.records, hholds.next⟩
  have htopics : stored.topics = topics := snapshot_topics cfg order w
  have ht : TopicList stored.topics := htopics ▸ topicList_listedTopics hinv cfg
  have hord : ∀ tp, OffsetOrdered (records tp) := by
    intro tp
    change OffsetOrdered ((lastReported order (reportedRecords w.shards tp)).getD [])
    cases hlast : lastReported order (reportedRecords w.shards tp) with
    | none => exact .nil
    | some rs =>
      obtain ⟨id, _, hreport⟩ := lastReported_some hlast
      obtain ⟨log, hlog, rfl, _⟩ := (reportedRecords_eq_some_iff _ _ _ _).mp hreport
      exact (hinv.shards id log hlog).ordered tp
  have hmentioned : ∀ tp, records tp ≠ [] ∨ (next tp).isSome = true ↔ HasLog w.shards order tp := by
    intro tp
    rw [mergedRecords_ne_nil_iff, mergedNext_isSome_iff hinv.shards]
    refine ⟨fun hor => hor.elim (fun hrec => ?_) id, Or.inr⟩
    obtain ⟨id, hid, log, hlog, hne⟩ := hrec
    exact ⟨id, hid, log, hlog, (hinv.shards id log hlog).hasPartition_of_ne_nil hne⟩
  obtain ⟨hok, hspec⟩ := restore_sharded_spec (w := v) hstored ht hord hsharded
  rw [htopics] at hok hspec
  have hiff : (MessageRuntime.restore cfg stored v).1 = .ok () ↔
      w.ShardsRestorable order topics v.shards := by
    rw [hok]
    refine and_congr (forall_congr' fun tp => ?_) (forall_congr' fun tp => ?_)
    · rw [hmentioned]
      exact Iff.rfl
    · rw [mergedRecords_ne_nil_iff]
  obtain ⟨hresult, hworld⟩ := restore_iff hiff fun hgood => restore_metadata hinv order entries hholds
    fun tp hne => (hgood.1 tp ((hmentioned tp).mp (Or.inl hne))).1
  refine ⟨hresult, fun hrestored => ?_⟩
  have hgood := hresult.mp hrestored
  obtain ⟨shards', hshards, hrestored'⟩ := hspec (hiff.mpr hgood)
  refine ⟨shards', (hworld hgood).trans ?_, hrestored'⟩
  rw [hshards]

end World

/-! ## Snapshots of reachable states -/

section
open MessageRuntime

variable {cfg : Config} {w : World} (h : Reachable cfg w) (hsharded : cfg.sharded = true)
  {order : List UInt32} (horder : order.Perm cfg.shardIDs)

include h hsharded horder

/-- The order of the shards is one of all shards. -/
lemma Reachable.mem_order (id : UInt32) : id ∈ order ↔ (w.shards[id]?).isSome = true := by
  rw [horder.mem_iff, h.shards_isSome]
  exact ⟨fun hid => ⟨hsharded, hid⟩, fun hand => hand.2⟩

lemma Reachable.hasLog_iff (tp : TopicPartition) : HasLog w.shards order tp ↔
    ∃ (id : UInt32) (log : StorxLogStore), w.shards[id]? = some log ∧ log.HasPartition tp := by
  refine exists_congr fun id => ⟨fun hand => hand.2, fun hand => ⟨?_, hand⟩⟩
  obtain ⟨log, hlog, _⟩ := hand
  rw [h.mem_order hsharded horder, hlog]
  rfl

lemma Reachable.hasRecords_iff (tp : TopicPartition) : HasRecords w.shards order tp ↔
    ∃ (id : UInt32) (log : StorxLogStore), w.shards[id]? = some log ∧ log.recordsAt tp ≠ [] := by
  refine exists_congr fun id => ⟨fun hand => hand.2, fun hand => ⟨?_, hand⟩⟩
  obtain ⟨log, hlog, _⟩ := hand
  rw [h.mem_order hsharded horder, hlog]
  rfl

omit horder in
/-- What can be placed in a fresh broker of the same configuration. -/
lemma Reachable.placeable_fresh_iff (env : Env) (tp : TopicPartition) :
    Placeable (World.fresh cfg env).shards (snapshotPlacementMap w.metadata.snapshot.placements) tp ↔
      NulFree tp.topic ∧ ∃ placement : ShardPlacement,
        w.metadata.placements[tp]? = some placement ∧ placement.shardID ∈ cfg.shardIDs := by
  unfold Placeable
  refine and_congr_right fun _ => ?_
  rw [get_snapshotPlacementMap h.inv.metadata]
  constructor
  · rintro ⟨id, hid, hsome⟩
    obtain ⟨placement, hget, rfl⟩ := Option.map_eq_some_iff.mp hid
    exact ⟨placement, hget, (((Reachable.fresh env).shards_isSome _).mp hsome).2⟩
  · rintro ⟨placement, hget, hmem⟩
    exact ⟨placement.shardID, by rw [hget]; rfl,
      ((Reachable.fresh env).shards_isSome _).mpr ⟨hsharded, hmem⟩⟩

end

end Ech0.Broker
