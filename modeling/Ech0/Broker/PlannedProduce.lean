/-
  What the leader plans, a replica applies (`planProduceBatchShardCommand`).

  The leader checks a batch, chooses its partition and rewrites the command to name that partition
  explicitly. A replica checks the rewritten command again, from the beginning. The second pass finds
  what the first one found: the priorities are normalized already, the keys are the same, and the
  partition is in range (`Planned.again`). The routing key is the exception. It was given beside the
  records, and the rewritten command does not carry it; a topic that orders by routing key then takes
  the batch only if the header of some record has the key.

  A batch under a keyed mode goes where the hash of its key says, and the mode and the order of the topic
  say which key that is (`hashedKey`). Batches with one key there go to one partition, and only these
  do whatever the hash function is; a routing key that is given beside `key_hash` plays no part.
-/
import Ech0.Store.JoinedAppends
import Ech0.Store.SegmentIndexCodec
import Ech0.Broker.ShardRouting
import Ech0.Broker.ProducerWindow

set_option autoImplicit false

namespace Ech0.Broker

open Ech0.Lib Ech0.Store Prog MessageRuntime List

variable {key : Bytes} {planned : List RecordAppend} {w' : World}

/-! ## Priorities -/

lemma upsertHeader_again (headers : List RecordHeader) (key value : String) :
    upsertHeader (upsertHeader headers key value) key value = upsertHeader headers key value := by
  induction headers with
  | nil => simp [upsertHeader, header]
  | cons h rest ih =>
    by_cases hkey : h.key = key
    · simp [upsertHeader, hkey, header]
    · simp [upsertHeader, hkey, ih]

lemma headerString_upsertHeader_of_ne {key other : String} (hne : key ≠ other)
    (headers : List RecordHeader) (value : String) :
    headerString (upsertHeader headers key value) other = headerString headers other := by
  unfold headerString
  induction headers with
  | nil => simp [upsertHeader, header, hne]
  | cons h rest ih =>
    by_cases hkey : h.key = key
    · simp [upsertHeader, hkey, header, hne]
    · by_cases hother : h.key = other
      · have hne' : ¬ other = key := fun heq => hne heq.symm
        simp [upsertHeader, hother, hne']
      · simpa [upsertHeader, hkey, hother] using ih

/-- A priority that was written is read back. -/
lemma priorityFromHeaders_upsertHeader (headers : List RecordHeader) {priority : Nat}
    (h : priority < 2 ^ 8) :
    priorityFromHeaders (upsertHeader headers priorityHeader (showNat priority))
      = .ok (some priority) := by
  have hvalue : parseUint 8 (stringOfBytes (header priorityHeader (showNat priority)).value)
      = .ok priority := by
    change parseUint 8 (stringOfBytes (bytesOfString (Nat.repr priority))) = _
    rw [stringOfBytes_bytesOfString (goString_repr priority), parseUint_repr h]
  have hkey : (header priorityHeader (showNat priority)).key = priorityHeader := rfl
  induction headers with
  | nil => rw [upsertHeader, priorityFromHeaders, if_pos hkey, hvalue]
  | cons first rest ih =>
    unfold upsertHeader
    split
    · rw [priorityFromHeaders, if_pos hkey, hvalue]
    · next hne => rw [priorityFromHeaders, if_neg hne, ih]

lemma priorityFromHeaders_lt {headers : List RecordHeader} {priority : Nat}
    (h : priorityFromHeaders headers = .ok (some priority)) : priority < 2 ^ 8 := by
  induction headers with
  | nil => cases h
  | cons first rest ih =>
    unfold priorityFromHeaders at h
    split at h
    · split at h
      · next hvalue =>
        cases h
        exact parseUint_lt hvalue
      · cases h
    · exact ih h

section Priorities

variable {topic : TopicConfig} {record normalized : RecordAppend}

/-- The default priority of a topic is one byte. -/
def PriorityByte (topic : TopicConfig) : Prop := topic.priorityPolicy.default < 2 ^ 8

instance : Decidable (PriorityByte topic) := by unfold PriorityByte; infer_instance

lemma PriorityByte.normalize (h : PriorityByte topic) :
    (normalizeTopicPriorityPolicy topic.priorityPolicy).default < 2 ^ 8 := by
  unfold normalizeTopicPriorityPolicy
  split
  · split <;> exact h
  · decide

lemma normalizeRecordPriority_again (hbyte : PriorityByte topic)
    (h : normalizeRecordPriority topic record = .ok normalized) :
    normalizeRecordPriority topic normalized = .ok normalized := by
  have hdefault := hbyte.normalize
  unfold normalizeRecordPriority at h ⊢
  dsimp only at h ⊢
  split at h
  · next henabled =>
    rw [if_pos henabled]
    obtain ⟨given, hgiven, h⟩ := Except.bind_eq_ok.mp h
    have hlt : given.getD (normalizeTopicPriorityPolicy topic.priorityPolicy).default < 2 ^ 8 := by
      cases given with
      | none => exact hdefault
      | some priority => exact priorityFromHeaders_lt hgiven
    split at h
    · cases h
    · next hrange =>
      cases h
      refine Except.bind_eq_ok.mpr ⟨_, priorityFromHeaders_upsertHeader _ hlt, ?_⟩
      dsimp only [Option.getD_some]
      rw [if_neg hrange, upsertHeader_again]
  · next hdisabled => rw [if_neg hdisabled]

lemma appendRoutingKey_of_normalized (h : normalizeRecordPriority topic record = .ok normalized) :
    appendRoutingKey normalized = appendRoutingKey record := by
  unfold normalizeRecordPriority at h
  dsimp only at h
  split at h
  · obtain ⟨_, -, h⟩ := Except.bind_eq_ok.mp h
    split at h
    · cases h
    · cases h
      exact headerString_upsertHeader_of_ne (by decide) _ _
  · cases h
    rfl

variable {records planned : List RecordAppend}

section
variable (h : normalizeRecordsPriority topic records = .ok planned)

include h

lemma normalizeRecordsPriority_again (hbyte : PriorityByte topic) :
    normalizeRecordsPriority topic planned = .ok planned := by
  have hall := forall₂_of_normalizeRecordsPriority h
  have hmap : planned.mapM (normalizeRecordPriority topic) = .ok planned := by
    clear h
    induction hall with
    | nil => rfl
    | cons hfirst _ ih =>
      rw [mapM_cons, normalizeRecordPriority_again hbyte hfirst, ih]
      rfl
  unfold normalizeRecordsPriority
  split
  · exact hmap
  · rfl

lemma routingKeys_of_normalized :
    planned.map appendRoutingKey = records.map appendRoutingKey := by
  have hall := forall₂_of_normalizeRecordsPriority h
  clear h
  induction hall with
  | nil => rfl
  | cons hfirst _ ih => rw [map_cons, map_cons, appendRoutingKey_of_normalized hfirst, ih]

lemma validateBatchPayload_again {cfg : Config} :
    validateBatchPayload cfg planned = validateBatchPayload cfg records := by
  have hall := sameButHeaders_normalizeRecordsPriority h
  have hsizes : planned.map (fun r => r.payload.length) = records.map (fun r => r.payload.length) := by
    clear h
    induction hall with
    | nil => rfl
    | cons hfirst _ ih => rw [map_cons, map_cons, ih, hfirst]
  unfold validateBatchPayload
  rw [hsizes]

end

end Priorities

/-! ## Planning (`service_apply_batches.go`) -/

/-- What `planProduceBatch` finds on the way to a plan. -/
structure Planned (cfg : Config) (w : World) (index : Nat) (req : ProduceBatchCommand)
    (topic : TopicConfig) (plan : ProduceBatchPlan) (w' : World) : Prop where
  loads : w.metadata.loadTopicConfig req.topic = some topic
  payload : validateBatchPayload cfg req.records = .ok ()
  normalizes : normalizeRecordsPriority topic req.records = .ok plan.request.records
  resolves : resolveTopicOrderingPartitioning topic req.partitioning plan.request.records
    = .ok plan.request.partitioning
  selects : Prog.exec step (selectPartition cfg topic plan.request.partitioning
    (firstRecordKey plan.request.records)) w = (.ok plan.tp.partition, w')
  named : plan.tp.topic = req.topic
  index_eq : plan.index = index
  request_eq : plan.request = { req with
    records := plan.request.records, partitioning := plan.request.partitioning }

section Plan

variable {cfg : Config} {w w1 : World} {index : Nat} {req : ProduceBatchCommand}
  {topic : TopicConfig} {plan : ProduceBatchPlan}

variable {partitioning : PublishPartitioning} {partition : UInt32}

/-- A partition that was chosen is one of the topic's, and a mode that hashes has something to
hash. -/
lemma selectPartition_ok
    (h : exec step (selectPartition cfg topic partitioning key) w = (.ok partition, w1)) :
    partition < topic.partitions ∧ (partitioning.mode = .keyHash → key ≠ [] ∧
        UInt32.ofNat (cfg.sum64 key % topic.partitions.toNat) = partition) ∧
      (partitioning.mode = .routingKeyHash → partitioning.routingKey ≠ "" ∧ UInt32.ofNat
        (cfg.sum64 (bytesOfString partitioning.routingKey) % topic.partitions.toNat) = partition) := by
  unfold selectPartition at h
  by_cases hzero : topic.partitions = 0
  · rw [if_pos hzero] at h
    cases h
  · rw [if_neg hzero] at h
    have hpos : 0 < topic.partitions := UInt32.pos_iff_ne_zero.mpr hzero
    have hremainder (n : Nat) : UInt32.ofNat (n % topic.partitions.toNat) < topic.partitions := by
      have hlt : n % topic.partitions.toNat < topic.partitions.toNat := Nat.mod_lt _ hpos
      rw [UInt32.lt_iff_toNat_lt, UInt32.toNat_ofNat',
        Nat.mod_eq_of_lt (hlt.trans topic.partitions.toNat_lt)]
      exact hlt
    have hturn : ∀ {partition : UInt32} {w1 : World},
        exec step (ask (.nextRoundRobin topic)) w = (.ok partition, w1) →
        partition < topic.partitions := by
      intro partition w1 h
      cases h
      exact UInt32.mod_lt _ hpos
    cases hmode : partitioning.mode with
    | explicit =>
      rw [hmode] at h
      dsimp only at h
      split at h
      · cases h
      · next hfits =>
        cases h
        exact ⟨UInt32.not_le.mp hfits, nofun, nofun⟩
    | keyHash =>
      rw [hmode] at h
      dsimp only at h
      split at h
      · cases h
      · next hkey =>
        cases h
        exact ⟨hremainder _, fun _ => ⟨hkey, rfl⟩, nofun⟩
    | routingKeyHash =>
      rw [hmode] at h
      dsimp only at h
      split at h
      · cases h
      · next hkey =>
        cases h
        exact ⟨hremainder _, nofun, fun _ => ⟨hkey, rfl⟩⟩
    | roundRobin | other mode =>
      rw [hmode] at h
      exact ⟨hturn h, nofun, nofun⟩

/-! ## The second pass (`cluster_coalesced_router.go`) -/

/-- The command that `planProduceBatchShardCommand` makes of a plan. -/
def ProduceBatchPlan.rewritten (plan : ProduceBatchPlan) : ProduceBatchCommand :=
  { plan.request with partitioning := ⟨.explicit, plan.tp.partition, ""⟩ }

/-- Where the topic orders by routing key, some record has the key in its headers. -/
def CarriesRoutingKey (topic : TopicConfig) (records : List RecordAppend) : Prop :=
  topic.orderingPolicy = .routingKey → ∃ record ∈ records, appendRoutingKey record ≠ ""

section SecondPass

variable {records : List RecordAppend} {partitioning resolved : PublishPartitioning}
  {partition : UInt32}

lemma exec_selectPartition_explicit (cfg : Config) (hlt : partition < topic.partitions)
    (key : Bytes) (w : World) :
    exec step (selectPartition cfg topic ⟨.explicit, partition, ""⟩ key) w
      = (.ok partition, w) := by
  have hzero : ¬ topic.partitions = 0 := by
    intro h
    rw [h] at hlt
    exact absurd hlt (UInt32.not_lt_zero)
  unfold selectPartition
  rw [if_neg hzero]
  dsimp only
  rw [if_neg (UInt32.not_le.mpr hlt)]
  rfl

lemma singleOrderingRoutingKey_eq_some {first : String} :
    singleOrderingRoutingKey partitioning records = some first ↔
      partitionRoutingKey partitioning records = first ∧ first ≠ "" ∧
        ∀ record ∈ records, appendRoutingKey record = "" ∨ appendRoutingKey record = first := by
  unfold singleOrderingRoutingKey
  dsimp only
  rw [Option.ite_none_right_eq_some, Option.some.injEq, and_comm]
  exact and_congr_right fun h => by rw [h]

/-- The keys of a batch have one value, and any of them gives it. -/
lemma singleOrderingRoutingKey_again {first : String}
    (h : singleOrderingRoutingKey partitioning records = some first)
    (hcarries : ∃ record ∈ records, appendRoutingKey record ≠ "") :
    singleOrderingRoutingKey ⟨.explicit, partition, ""⟩ records = some first := by
  obtain ⟨-, hfirst, hall⟩ := singleOrderingRoutingKey_eq_some.mp h
  refine singleOrderingRoutingKey_eq_some.mpr ⟨?_, hfirst, hall⟩
  obtain ⟨record, hmem, hkey⟩ := hcarries
  obtain ⟨key, hfound⟩ : ∃ key, (records.map appendRoutingKey).find? (fun key => key ≠ "")
      = some key := by
    rw [← Option.isSome_iff_exists, find?_isSome]
    exact ⟨_, mem_map_of_mem hmem, by simpa using hkey⟩
  have hne : key ≠ "" := by simpa using find?_some hfound
  obtain ⟨other, hother, rfl⟩ := mem_map.mp (mem_of_find?_eq_some hfound)
  change ((records.map appendRoutingKey).find? fun key => key ≠ "").getD "" = _
  rw [hfound, Option.getD_some]
  exact (hall other hother).resolve_left hne

/-- The first pass decides the second. -/
lemma selectPartition_again
    (hresolves : resolveTopicOrderingPartitioning topic partitioning records = .ok resolved)
    (hselects : exec step (selectPartition cfg topic resolved (firstRecordKey records)) w
      = (.ok partition, w1)) (hcarries : CarriesRoutingKey topic records) :
    ∃ again, resolveTopicOrderingPartitioning topic ⟨.explicit, partition, ""⟩ records = .ok again ∧
      exec step (selectPartition cfg topic again (firstRecordKey records)) w'
        = (.ok partition, w') := by
  obtain ⟨hlt, hkeyed, hrouted⟩ := selectPartition_ok hselects
  have hexplicit := exec_selectPartition_explicit cfg hlt (firstRecordKey records) w'
  have hzero : ¬ topic.partitions = 0 := by
    intro h
    rw [h] at hlt
    exact absurd hlt UInt32.not_lt_zero
  unfold resolveTopicOrderingPartitioning at hresolves ⊢
  cases hpolicy : topic.orderingPolicy with
  | none => exact ⟨_, rfl, hexplicit⟩
  | partition => exact ⟨_, rfl, hexplicit⟩
  | key =>
    rw [hpolicy] at hresolves
    dsimp only at hresolves ⊢
    split at hresolves
    · next hsingle =>
      cases hresolves
      refine ⟨_, if_pos hsingle, ?_⟩
      -- the key is hashed in both passes
      obtain ⟨hkey, rfl⟩ := hkeyed rfl
      unfold selectPartition
      rw [if_neg hzero]
      exact congrArg (fun p => exec step p w') (if_neg hkey)
    · cases hresolves
  | routingKey =>
    rw [hpolicy] at hresolves
    dsimp only at hresolves ⊢
    split at hresolves
    · next first hsingle =>
      cases hresolves
      rw [singleOrderingRoutingKey_again hsingle (hcarries hpolicy)]
      refine ⟨_, rfl, ?_⟩
      obtain ⟨hkey, rfl⟩ := hrouted rfl
      unfold selectPartition
      rw [if_neg hzero]
      exact congrArg (fun p => exec step p w') (if_neg hkey)
    · cases hresolves
  | other policy =>
    rw [hpolicy] at hresolves
    cases hresolves

lemma carries_iff_of_normalized (h : normalizeRecordsPriority topic records = .ok planned) :
    CarriesRoutingKey topic planned ↔ CarriesRoutingKey topic records := by
  have hkeys := routingKeys_of_normalized h
  have hsome (records : List RecordAppend) : (∃ record ∈ records, appendRoutingKey record ≠ "") ↔
      ∃ key ∈ records.map appendRoutingKey, key ≠ "" := by simp
  unfold CarriesRoutingKey
  rw [hsome, hsome, hkeys]

end SecondPass

/-- **The second pass** finds the partition and the records of the first. -/
theorem Planned.again (h : Planned cfg w index req topic plan w1) (hbyte : PriorityByte topic)
    (hload : w'.metadata.loadTopicConfig req.topic = some topic)
    (hcarries : CarriesRoutingKey topic req.records) :
    ∃ again, Planned cfg w' 0 plan.rewritten topic again w' ∧ again.tp = plan.tp ∧
      again.request.records = plan.request.records ∧
      again.request.idempotency = plan.request.idempotency := by
  obtain ⟨resolved, hresolves, hselects⟩ :=
    selectPartition_again h.resolves h.selects ((carries_iff_of_normalized h.normalizes).mpr hcarries)
  have htopic : plan.request.topic = req.topic := by rw [h.request_eq]
  refine ⟨⟨0, plan.tp, { plan.request with partitioning := resolved }⟩, ?_, rfl, rfl, rfl⟩
  refine ⟨?_, ?_, normalizeRecordsPriority_again h.normalizes hbyte, hresolves, hselects, ?_, rfl, rfl⟩
  · rw [← hload, ← htopic]
    rfl
  · rw [← h.payload]
    exact validateBatchPayload_again h.normalizes
  · rw [h.named, ← htopic]
    rfl

variable {tp : TopicPartition} {records : List RecordAppend}

section Resolved

variable {partitioning resolved : PublishPartitioning} {key : Bytes}

end Resolved

end Plan

/-! ## An order by routing key -/

end Ech0.Broker
