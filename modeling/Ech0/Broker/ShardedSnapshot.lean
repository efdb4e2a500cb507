/-
  Snapshots of a sharded runtime.

  Every shard has a log for every partition, also for those that are placed elsewhere, and
  reports a next offset for each. Where two shards report one, the merge keeps the later, so
  the next offset of a partition survives only if no shard comes after the one that has its
  records. A second thing gets lost in the other broker: a restoration does not forget the
  placements that were looked up before it.
-/
import Ech0.Broker.ShardedRuntime
import Ech0.Broker.SnapshotRestore

set_option autoImplicit false

namespace Ech0.Broker

open Ech0.Lib Ech0.Store Ech0.Store.StorxLogStore MessageRuntime List World

variable {log : StorxLogStore} {order : List UInt32} {tp : TopicPartition}

/-! ## What a client finds -/

/-- The shard that `Resolve` finds for a partition. -/
def World.foundShard (cfg : Config) (w : World) (tp : TopicPartition) : UInt32 :=
  ((w.placementCache[tp]?).map ShardPlacement.shardID).getD (w.storedShard cfg tp)

/-- The records of a partition and the offset of the next one, on the shard it is looked up on. -/
def World.partitionState (cfg : Config) (w : World) (tp : TopicPartition) :
    Option (List Record × Nat) :=
  (w.shards[w.foundShard cfg tp]?).map fun log => (log.recordsAt tp, log.nextOffset tp)

lemma ShardInv.foundShard_eq {cfg : Config} {w : World} (h : ShardInv cfg w)
    (tp : TopicPartition) : w.foundShard cfg tp = w.storedShard cfg tp := by
  unfold foundShard
  cases hget : w.placementCache[tp]? with
  | none => rfl
  | some placement => exact h.cache tp placement hget

/-! ## What the shards report -/

/-- When one shard at most reports something, the order does not matter. -/
lemma lastReported_unique {V : Type} {report : UInt32 → Option V} {owner : UInt32}
    (hmem : owner ∈ order) (hother : ∀ id, id ≠ owner → report id = none) :
    lastReported order report = report owner := by
  cases hlast : lastReported order report with
  | none => exact (findSome?_eq_none_iff.mp hlast owner (mem_reverse.mpr hmem)).symm
  | some v =>
    obtain ⟨id, _, hid⟩ := lastReported_some hlast
    have heq : id = owner := by
      by_contra hne
      rw [hother id hne] at hid
      cases hid
    rw [← hid, heq]

/-- When every shard reports something, the last one is heard. -/
lemma lastReported_getLast {V : Type} {report : UInt32 → Option V} {last : UInt32}
    (hlast : order.getLast? = some last) (hall : (report last).isSome = true) :
    lastReported order report = report last := by
  obtain ⟨init, rfl⟩ := getLast?_eq_some_iff.mp hlast
  obtain ⟨v, hv⟩ := Option.isSome_iff_exists.mp hall
  rw [lastReported, reverse_append, reverse_singleton, singleton_append,
    findSome?_cons, hv]

section
variable {cfg : Config} {w : World} (h : ShardInv cfg w) {order : List UInt32}
  (horder : order.Perm cfg.shardIDs)

include h

/-- A partition that has been appended to belongs to a topic. -/
lemma ShardInv.hasTopicPartition_of_next {id : UInt32} (hlog : w.shards[id]? = some log)
    (hne : log.nextOffset tp ≠ 0) : w.HasTopicPartition tp := by
  exact (h.hasPartition_iff hlog tp).mp ((h.inv.shards id log hlog).hasPartition_of_nextOffset hne)

include horder

lemma ShardInv.mem_order (id : UInt32) : id ∈ order ↔ (w.shards[id]?).isSome = true := by
  rw [horder.mem_iff, h.shards_iff]

/-- The merged records are those of the shard that the partition is placed on. -/
lemma ShardInv.mergedRecords_eq (hlog : w.shards[w.storedShard cfg tp]? = some log) :
    (lastReported order (reportedRecords w.shards tp)).getD [] = log.recordsAt tp := by
  have hmem : w.storedShard cfg tp ∈ order := (h.mem_order horder _).mpr (by rw [hlog]; rfl)
  have hother : ∀ id, id ≠ w.storedShard cfg tp → reportedRecords w.shards tp id = none := by
    intro id hne
    cases hreport : reportedRecords w.shards tp id with
    | none => rfl
    | some rs =>
      obtain ⟨found, hfound, hrecords, hnonempty⟩ := (reportedRecords_eq_some_iff _ _ _ _).mp hreport
      rw [(h.owned tp id found hfound hne).1] at hrecords
      exact absurd hrecords.symm hnonempty
  rw [lastReported_unique hmem hother, reportedRecords, hlog, Option.bind_some]
  split
  · next hnil => rw [hnil, Option.getD_none]
  · rfl

/-- The merged next offset is that of the shard that the partition is placed on when it is zero,
or when this shard comes last. -/
lemma ShardInv.mergedNext_eq_iff (hlog : w.shards[w.storedShard cfg tp]? = some log) :
    (lastReported order (reportedNext w.shards tp)).getD 0 = log.nextOffset tp ↔
      (log.nextOffset tp ≠ 0 → order.getLast? = some (w.storedShard cfg tp)) := by
  have hmem : w.storedShard cfg tp ∈ order := (h.mem_order horder _).mpr (by rw [hlog]; rfl)
  obtain ⟨last, hlast⟩ := Option.isSome_iff_exists.mp
    (getLast?_isSome.mpr (ne_nil_of_mem hmem))
  obtain ⟨lastLog, hlastLog⟩ := Option.isSome_iff_exists.mp
    ((h.mem_order horder last).mp (mem_of_getLast? hlast))
  by_cases hpart : w.HasTopicPartition tp
  · have hget := (h.inv.shards last lastLog hlastLog).get_nextOffset
      ((h.hasPartition_iff hlastLog tp).mpr hpart)
    have hreport : reportedNext w.shards tp last = some (lastLog.nextOffset tp) := by
      rw [reportedNext, hlastLog, Option.bind_some, hget]
    rw [lastReported_getLast hlast (by rw [hreport]; rfl), hreport, Option.getD_some, hlast,
      Option.some_inj]
    by_cases heq : last = w.storedShard cfg tp
    · subst heq
      cases hlog.symm.trans hlastLog
      exact ⟨fun _ _ => rfl, fun _ => rfl⟩
    · rw [(h.owned tp last lastLog hlastLog heq).2]
      exact ⟨fun hzero hne => absurd hzero.symm hne, fun himp =>
        (Decidable.byContradiction fun hne => heq (himp (Ne.symm hne)))⟩
  · have hzero : log.nextOffset tp = 0 := by
      by_contra hne
      exact hpart (h.hasTopicPartition_of_next hlog hne)
    have hnone : lastReported order (reportedNext w.shards tp) = none := by
      rw [← Option.not_isSome_iff_eq_none, mergedNext_isSome_iff h.inv.shards]
      rintro ⟨id, _, found, hfound, hhas⟩
      exact hpart ((h.hasPartition_iff hfound tp).mp hhas)
    rw [hnone, hzero]
    exact ⟨fun _ hc => absurd rfl hc, fun _ => rfl⟩

end

/-! ## Snapshot and restore -/

/-- The snapshot of one runtime, the shards taken in this order, goes into another one, and every
partition has the records and the next offset there that it had. -/
def SnapshotPreserved (cfg : Config) (order : List UInt32) (w v : World) : Prop :=
  ∃ w', v.restore cfg (w.snapshot cfg order) = (.ok (), w') ∧
    ∀ tp, w'.partitionState cfg tp = w.partitionState cfg tp

/-- No topic has a NUL in its name; and a partition that has been appended to is on the shard
that comes last, where the other runtime does not remember it to be elsewhere. -/
def SnapshotSafe (cfg : Config) (order : List UInt32) (w v : World) : Prop :=
  (∀ topic ∈ w.metadata.listTopics, NulFree topic.name) ∧
  ∀ tp records next, w.partitionState cfg tp = some (records, next) → next ≠ 0 →
    order.getLast? = some (w.foundShard cfg tp) ∧
      ∀ placement : ShardPlacement, v.placementCache[tp]? = some placement →
        placement.shardID = w.foundShard cfg tp

section
variable {cfg : Config} {w v : World} (h : ShardInv cfg w) (hplaced : AllPlaced w)
  (hv : ShardInv cfg v) {order : List UInt32} (horder : order.Perm cfg.shardIDs)

include h

lemma ShardInv.hasTopicPartition_iff (tp : TopicPartition) :
    w.HasTopicPartition tp ↔ InTopics w.metadata.listTopics tp := by
  unfold World.HasTopicPartition InTopics
  constructor
  · rintro ⟨topic, hload, hlt⟩
    have hentry := (OrderedMap.mem_entries_iff _ _ _).mpr hload
    exact ⟨topic, mem_map.mpr ⟨_, hentry, rfl⟩, (h.inv.metadata.topics _ hentry).1, hlt⟩
  · rintro ⟨topic, hmem, hname, hlt⟩
    obtain ⟨⟨name, found⟩, hentry, rfl⟩ := mem_map.mp hmem
    have hkey := (h.inv.metadata.topics _ hentry).1
    exact ⟨found, (OrderedMap.mem_entries_iff _ _ _).mp ((hkey.symm.trans hname) ▸ hentry), hlt⟩

include hplaced in
/-- Where the snapshot places the partitions of the topics. -/
lemma ShardInv.snapshotPlacement_eq {tp : TopicPartition} (hpart : w.HasTopicPartition tp) :
    (snapshotPlacementMap w.metadata.snapshot.placements)[tp]? = some (w.storedShard cfg tp) := by
  obtain ⟨placement, hget⟩ := Option.isSome_iff_exists.mp (hplaced tp hpart)
  have hload : w.metadata.placements[tp]? = some placement := hget
  rw [get_snapshotPlacementMap h.inv.metadata, storedShard, hget, hload]
  rfl

include hplaced hv horder in
/-- The snapshot is accepted just when no topic has a NUL in its name. -/
lemma ShardInv.shardsRestorable_iff (hsharded : cfg.sharded = true) :
    w.ShardsRestorable order (w.listedTopics cfg) v.shards ↔
      ∀ topic ∈ w.metadata.listTopics, NulFree topic.name := by
  have hlisted : w.listedTopics cfg = w.metadata.listTopics := by
    unfold listedTopics
    rw [if_neg fun hc => (by rw [hsharded] at hc; cases hc.2)]
  have hhas : ∀ tp, HasLog w.shards order tp ↔ w.HasTopicPartition tp := by
    intro tp
    constructor
    · rintro ⟨id, _, log, hlog, hpart⟩
      exact (h.hasPartition_iff hlog tp).mp hpart
    · intro hpart
      obtain ⟨log, hlog⟩ := h.ownerLog tp
      exact ⟨_, (h.mem_order horder _).mpr (by rw [hlog]; rfl), log, hlog,
        (h.hasPartition_iff hlog tp).mpr hpart⟩
  rw [World.ShardsRestorable, hlisted]
  constructor
  · rintro ⟨hplace, _⟩ topic hmem
    have hreg := (topicList_listTopics h.inv.metadata).registered topic hmem
    have hpart : w.HasTopicPartition ⟨topic.name, 0⟩ := (h.hasTopicPartition_iff _).mpr
      ⟨topic, hmem, rfl, UInt32.lt_iff_toNat_lt.mpr (Nat.pos_of_ne_zero fun hzero =>
        hreg.partitions_ne (UInt32.toNat_inj.mp hzero))⟩
    exact (hplace _ ((hhas _).mpr hpart)).1
  · intro hnul
    refine ⟨fun tp hlog => ?_, fun tp hrecords => ?_⟩
    · have hpart := (hhas tp).mp hlog
      obtain ⟨topic, hmem, hname, _⟩ := (h.hasTopicPartition_iff tp).mp hpart
      exact ⟨hname ▸ hnul topic hmem, _, h.snapshotPlacement_eq hplaced hpart,
        (hv.shards_iff _).mpr (h.storedShard_mem tp)⟩
    · obtain ⟨id, _, log, hlog, hne⟩ := hrecords
      exact (h.hasTopicPartition_iff tp).mp ((h.hasPartition_iff hlog tp).mp
        ((h.inv.shards id log hlog).hasPartition_of_ne_nil hne))

include horder in
/-- A restored shard has what the merged snapshot has of the partitions placed on it, and
nothing of the others. -/
lemma ShardInv.restoredShard (hnul : ∀ topic ∈ w.metadata.listTopics, NulFree topic.name)
    {topics : List TopicConfig} {id : UInt32} {log : StorxLogStore}
    {placements : Map TopicPartition UInt32}
    (hlog : RestoredLog log topics
      (fun tp => if placements[tp]? = some id
        then (lastReported order (reportedRecords w.shards tp)).getD [] else [])
      (fun tp => if placements[tp]? = some id
        then lastReported order (reportedNext w.shards tp) else none))
    (tp : TopicPartition) {owner : StorxLogStore}
    (howner : w.shards[w.storedShard cfg tp]? = some owner) :
    (log.recordsAt tp, log.nextOffset tp) = if placements[tp]? = some id
      then (owner.recordsAt tp, (lastReported order (reportedNext w.shards tp)).getD 0)
      else ([], 0) := by
  have hrecords := hlog.records_eq tp
  have hnone := hlog.next_none tp
  have hsome := hlog.next_some tp
  by_cases hhere : placements[tp]? = some id
  · simp only [if_pos hhere] at hrecords hnone hsome ⊢
    rw [h.mergedRecords_eq horder howner] at hrecords hnone
    rw [hrecords]
    cases hnext : lastReported order (reportedNext w.shards tp) with
    | none =>
      -- no shard has the partition, and so none has records of it
      have hempty : owner.recordsAt tp = [] := by
        by_contra hne
        have hlogged : HasLog w.shards order tp := ⟨_, (h.mem_order horder _).mpr (by rw [howner]; rfl),
          owner, howner, (h.inv.shards _ owner howner).hasPartition_of_ne_nil hne⟩
        have hisSome := (mergedNext_isSome_iff h.inv.shards order tp).mpr hlogged
        rw [hnext] at hisSome
        cases hisSome
      rw [(hnone fun _ => hnext).2, hempty]
      rfl
    | some n =>
      obtain ⟨found, _, foundLog, hfound, hpart⟩ := (mergedNext_isSome_iff h.inv.shards order tp).mp
        (by rw [hnext]; rfl)
      obtain ⟨topic, hmem, hname, _⟩ := (h.hasTopicPartition_iff tp).mp
        ((h.hasPartition_iff hfound tp).mp hpart)
      rw [nextOffset, hsome n (hname ▸ hnul topic hmem) hnext]
  · simp only [if_neg hhere] at hrecords hnone ⊢
    rw [hrecords, (hnone fun _ => trivial).2]
    rfl

include hplaced hv horder in
/-- What becomes of one partition. -/
lemma ShardInv.restored_iff (hnul : ∀ topic ∈ w.metadata.listTopics, NulFree topic.name)
    {topics : List TopicConfig} (entries : List DLQIndexEntry) {shards' : Map UInt32 StorxLogStore}
    (hshards : RestoredShards v.shards shards' topics
      (snapshotPlacementMap w.metadata.snapshot.placements)
      (fun tp => (lastReported order (reportedRecords w.shards tp)).getD [])
      (fun tp => lastReported order (reportedNext w.shards tp)))
    (tp : TopicPartition) :
    partitionState cfg { v with metadata := w.restoredMetadata topics entries,
                                      shards := shards' } tp = w.partitionState cfg tp ↔
      ∀ records next, w.partitionState cfg tp = some (records, next) → next ≠ 0 →
        order.getLast? = some (w.foundShard cfg tp) ∧
          ∀ placement : ShardPlacement, v.placementCache[tp]? = some placement →
            placement.shardID = w.foundShard cfg tp := by
  let w' : World := { v with metadata := w.restoredMetadata topics entries, shards := shards' }
  obtain ⟨owner, howner⟩ := h.ownerLog tp
  have hstate : w.partitionState cfg tp = some (owner.recordsAt tp, owner.nextOffset tp) := by
    rw [partitionState, h.foundShard_eq, howner]
    rfl
  -- the partition is looked up where the other runtime remembers it, or else where it is placed
  have hresolved : (∀ placement : ShardPlacement, v.placementCache[tp]? = some placement →
      placement.shardID = w.storedShard cfg tp) ↔ w'.foundShard cfg tp = w.storedShard cfg tp := by
    change _ ↔ ((v.placementCache[tp]?).map ShardPlacement.shardID).getD (w.storedShard cfg tp) = _
    cases v.placementCache[tp]? with
    | none => simp
    | some placement => simp
  have hregistered : w'.foundShard cfg tp ∈ cfg.shardIDs := by
    change ((v.placementCache[tp]?).map ShardPlacement.shardID).getD (w.storedShard cfg tp) ∈ _
    cases hget : v.placementCache[tp]? with
    | none => exact h.storedShard_mem tp
    | some placement =>
      have hshard : placement.shardID = v.storedShard cfg tp := hv.cache tp placement hget
      rw [Option.map_some, Option.getD_some, hshard]
      exact hv.storedShard_mem tp
  obtain ⟨found, hfound⟩ := Option.isSome_iff_exists.mp ((hshards.isSome _).trans
    ((hv.shards_iff _).mpr hregistered))
  have hstate' : w'.partitionState cfg tp = some (found.recordsAt tp, found.nextOffset tp) := by
    have hget : w'.shards[w'.foundShard cfg tp]? = some found := hfound
    rw [partitionState, hget]
    rfl
  change w'.partitionState cfg tp = _ ↔ _
  rw [hstate', hstate, h.restoredShard horder hnul (hshards.shard _ found hfound) tp howner,
    h.foundShard_eq, hresolved]
  have hmerged := h.mergedNext_eq_iff horder howner
  by_cases hzero : owner.nextOffset tp = 0
  · have hempty : owner.recordsAt tp = [] := eq_nil_iff_forall_not_mem.mpr fun r hr =>
      Nat.not_lt_zero _ (hzero ▸ (h.inv.shards _ owner howner).below tp r hr)
    have hmergedZero := hmerged.mpr fun hne => absurd hzero hne
    rw [hmergedZero, hempty, hzero, ite_self]
    refine ⟨fun _ records next hsome hne => ?_, fun _ => rfl⟩
    cases hsome
    exact absurd rfl hne
  · rw [h.snapshotPlacement_eq hplaced (h.hasTopicPartition_of_next howner hzero), Option.some_inj]
    by_cases heq : w'.foundShard cfg tp = w.storedShard cfg tp
    · rw [if_pos (congrArg some heq.symm), Prod.mk.injEq, hmerged]
      refine ⟨fun hand records next hsome _ => ?_, fun hall => ⟨rfl, fun hne => ?_⟩⟩
      · exact ⟨hand.2 hzero, heq⟩
      · exact (hall _ _ rfl hne).1
    · rw [if_neg fun hc => heq (Option.some.inj hc).symm]
      refine ⟨fun hpair => ?_, fun hall => absurd (hall _ _ rfl hzero).2 heq⟩
      exact absurd (congrArg Prod.snd hpair).symm hzero

include hplaced hv horder in
/-- A snapshot of a runtime whose shards are alike. -/
lemma ShardInv.snapshotPreserved_iff (hsharded : cfg.sharded = true) :
    SnapshotPreserved cfg order w v ↔ SnapshotSafe cfg order w v := by
  obtain ⟨hok, hspec⟩ := restore_sharded h.inv hsharded order
    (w.snapshot cfg order).dlqIndexes v
  rw [h.shardsRestorable_iff hplaced hv horder hsharded] at hok
  constructor
  · rintro ⟨w', hrun, hsame⟩
    have hnul := hok.mp (congrArg Prod.fst hrun)
    obtain ⟨shards', hworld, hshards⟩ := hspec (congrArg Prod.fst hrun)
    have hw' : w' = _ := (congrArg Prod.snd hrun).symm.trans hworld
    subst hw'
    exact ⟨hnul, fun tp => (h.restored_iff hplaced hv horder hnul _ hshards tp).mp (hsame tp)⟩
  · rintro ⟨hnul, hlast⟩
    obtain ⟨shards', hworld, hshards⟩ := hspec (hok.mpr hnul)
    refine ⟨_, Prod.ext (hok.mpr hnul) hworld, fun tp => ?_⟩
    exact (h.restored_iff hplaced hv horder hnul _ hshards tp).mpr (hlast tp)

end

/-- **A snapshot of a sharded runtime** comes back as it was, in another runtime with the same
shards, just when it is safe: the partitions with a history are all on the shard that is visited
last, and the other runtime does not remember them elsewhere. -/
theorem snapshot_preserved_iff {cfg : Config} (hsharded : cfg.sharded = true) (env env' : Env)
    (ops ops' : List RuntimeOp) {order : List UInt32} (horder : order.Perm cfg.shardIDs) :
    SnapshotPreserved cfg order (runtimeRun cfg env ops) (runtimeRun cfg env' ops') ↔
      SnapshotSafe cfg order (runtimeRun cfg env ops) (runtimeRun cfg env' ops') := by
  obtain ⟨h, hplaced⟩ := shardInv_runtimeRun hsharded env ops
  obtain ⟨hv, _⟩ := shardInv_runtimeRun hsharded env' ops'
  exact h.snapshotPreserved_iff hplaced hv horder hsharded

/-! ## One record on the first of two shards -/

/-- The partitions with a history are listed with the shards' next offsets. -/
lemma snapshotSafe_of_entries {cfg : Config} {w v : World}
    (hnul : ∀ topic ∈ w.metadata.listTopics, NulFree topic.name)
    (hlast : ∀ shard ∈ w.shards.toList, ∀ e ∈ shard.2.nextOffsets.toList, e.2 ≠ 0 →
      order.getLast? = some (w.foundShard cfg e.1)) (hcache : v.placementCache = ∅) :
    SnapshotSafe cfg order w v := by
  refine ⟨hnul, fun tp records next hstate hne => ⟨?_, fun placement hget => ?_⟩⟩
  · obtain ⟨log, hlog, hpair⟩ := Option.map_eq_some_iff.mp hstate
    cases hpair
    cases hget : log.nextOffsets[tp]? with
    | none =>
      rw [nextOffset, hget] at hne
      exact absurd rfl hne
    | some n =>
      rw [nextOffset, hget] at hne
      exact hlast (_, log) ((Map.mem_toList _ _ _).mpr hlog) (tp, n)
        ((Map.mem_toList _ _ _).mpr hget) hne
  · rw [hcache] at hget
    simp at hget

def noRecord : World := runtimeRun twoShards { clock := fun _ => 1, jitter := fun _ => 0 } []

/-- The shard with the record is visited last, and has the last word. -/
theorem snapshot_preserved_owner_last : SnapshotPreserved twoShards [1, 0] oneRecord noRecord := by
  refine (snapshot_preserved_iff rfl _ _ _ [] (by decide)).mpr ?_
  exact snapshotSafe_of_entries (by decide +kernel) (by decide +kernel) rfl

/-- The shard with the record is visited first, and the other one has it that nothing was ever
appended: the next record would take the place of the first. -/
theorem snapshot_loses_next_offset : ¬ SnapshotPreserved twoShards [0, 1] oneRecord noRecord := by
  have hrun : ShardInv twoShards oneRecord ∧ AllPlaced oneRecord := shardInv_runtimeRun rfl _ _
  have hrun' : ShardInv twoShards noRecord ∧ AllPlaced noRecord := shardInv_runtimeRun rfl _ _
  intro hpreserved
  have hsafe := (hrun.1.snapshotPreserved_iff hrun.2 hrun'.1 (by decide) rfl).mp hpreserved
  have hstate : oneRecord.partitionState twoShards ⟨"orders", 0⟩
      = some ([⟨0, 5, [], [], 0, none, none, [1]⟩], 1) := by decide +kernel
  have hlast := (hsafe.2 _ _ _ hstate (by decide)).1
  exact absurd hlast (by decide +kernel)

end Ech0.Broker
