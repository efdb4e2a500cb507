/-
  The sharded message runtime, and what holds of it as long as topics are created, messages are
  published and fetched, partitions are moved and logs are cleaned.

  All shards have the topics of the metadata (`topics_eq`), and a partition has its records on
  one shard only, the one its placement names (`owned`). Neither holds at every point inside a
  handler: `createTopic` visits the shards one after the other, and `reassignPartitionData` has
  a partition on two shards for a moment. So the handlers are executed as a whole here, each
  from a state that satisfies `ShardInv` to one that satisfies it again.
-/
import Ech0.Broker.Appends

set_option autoImplicit false

namespace Ech0.Broker

open Ech0.Lib Ech0.Store Ech0.Store.StorxLogStore Prog ShardResolver List World
open MessageRuntime (publishRecord publishBatchRecords createTopicLog createTopicLogs logFor cleanLogs)

variable {id : UInt32} {w' : World}
  {cache : Map TopicPartition ShardPlacement} {log : StorxLogStore} {tp : TopicPartition}

/-! ## Operations -/

/-- What is done to a sharded runtime. -/
inductive RuntimeOp where
  | createTopic (topic : TopicConfig)
  | publish (tp : TopicPartition) (record : RecordAppend)
  | publishBatch (tp : TopicPartition) (records : List RecordAppend)
  | fetch (consumer : String) (tp : TopicPartition) (offset : Option Nat) (maxRecords : Nat)
  | reassign (req : ReassignPartitionCommand)
  | enforceRetention (nowMS : Nat)
  | compact (nowMS : Nat)

def RuntimeOp.run (cfg : Config) : RuntimeOp → World → World
  | createTopic topic, w => ((applyCreateTopic cfg topic).run w).2
  | publish tp record, w => ((publishRecord cfg tp record).run w).2
  | publishBatch tp records, w => ((publishBatchRecords cfg tp records).run w).2
  | fetch consumer tp offset maxRecords, w =>
    ((MessageRuntime.fetch cfg consumer tp offset maxRecords).run w).2
  | reassign req, w => ((applyReassignPartition cfg req).run w).2
  | enforceRetention nowMS, w => MessageRuntime.enforceRetention cfg nowMS w
  | compact nowMS, w => MessageRuntime.compact cfg nowMS w

/-- A run of a runtime that starts with empty directories. -/
def runtimeRun (cfg : Config) (env : Env) (ops : List RuntimeOp) : World :=
  ops.foldl (fun w op => op.run cfg w) (World.fresh cfg env)

/-! ## The invariant -/

/-- The shard of a partition by its stored placement. -/
def World.storedShard (cfg : Config) (w : World) (tp : TopicPartition) : UInt32 :=
  ((w.metadata.loadShardPlacement tp).map ShardPlacement.shardID).getD
    (ShardResolver.shardForPartition cfg tp.partition)

/-- The metadata has the partition. -/
def World.HasTopicPartition (w : World) (tp : TopicPartition) : Prop :=
  ∃ topic, w.metadata.loadTopicConfig tp.topic = some topic ∧ tp.partition < topic.partitions

structure ShardInv (cfg : Config) (w : World) : Prop where
  inv : WorldInv w
  shards_iff : ∀ id : UInt32, (w.shards[id]?).isSome = true ↔ id ∈ cfg.shardIDs
  topics_eq : ∀ (id : UInt32) (log : StorxLogStore), w.shards[id]? = some log →
    ∀ name : String, log.topics[name]? = w.metadata.loadTopicConfig name
  placement : ∀ tp placement, w.metadata.loadShardPlacement tp = some placement →
    placement.shardID ∈ cfg.shardIDs
  cache : ∀ (tp : TopicPartition) (placement : ShardPlacement),
    w.placementCache[tp]? = some placement → placement.shardID = w.storedShard cfg tp
  owned : ∀ (tp : TopicPartition) (id : UInt32) (log : StorxLogStore), w.shards[id]? = some log →
    id ≠ w.storedShard cfg tp → log.recordsAt tp = [] ∧ log.nextOffset tp = 0

/-- Every partition has a placement. -/
def AllPlaced (w : World) : Prop :=
  ∀ tp, w.HasTopicPartition tp → (w.metadata.loadShardPlacement tp).isSome = true

/-- The cached placements name these shards. -/
def CacheAgrees (cache : Map TopicPartition ShardPlacement) (shardOf : TopicPartition → UInt32) : Prop :=
  ∀ (tp : TopicPartition) (placement : ShardPlacement), cache[tp]? = some placement →
    placement.shardID = shardOf tp

lemma CacheAgrees.insert {shardOf : TopicPartition → UInt32} (h : CacheAgrees cache shardOf)
    {placement : ShardPlacement} (hshard : placement.shardID = shardOf tp) :
    CacheAgrees (cache.insert tp placement) shardOf := by
  intro a found hfound
  rcases Map.get_insert_eq_some hfound with ⟨rfl, rfl⟩ | ⟨-, hold⟩
  · exact hshard
  · exact h a found hold

lemma mem_shardIDs (cfg : Config) (id : UInt32) : id ∈ cfg.shardIDs ↔ id < cfg.shardCount := by
  unfold Config.shardIDs
  rw [mem_map]
  constructor
  · rintro ⟨n, hn, rfl⟩
    rw [mem_range] at hn
    rw [UInt32.lt_iff_toNat_lt, UInt32.toNat_ofNat']
    exact Nat.lt_of_le_of_lt (Nat.mod_le _ _) hn
  · intro hlt
    exact ⟨id.toNat, mem_range.mpr (UInt32.lt_iff_toNat_lt.mp hlt), UInt32.ofNat_toNat⟩

lemma shardForPartition_mem (cfg : Config) (partition : UInt32) :
    shardForPartition cfg partition ∈ cfg.shardIDs := by
  rw [mem_shardIDs]
  have hpos : cfg.shardCount ≠ 0 := by
    unfold Config.shardCount
    split
    · decide
    · next hne => exact hne
  have hpos' : 0 < cfg.shardCount.toNat :=
    Nat.pos_of_ne_zero fun hzero => hpos (UInt32.toNat_inj.mp hzero)
  rw [shardForPartition, UInt32.lt_iff_toNat_lt, UInt32.toNat_mod]
  exact Nat.mod_lt _ hpos'

namespace ShardInv

variable {cfg : Config} {w : World} (h : ShardInv cfg w)

include h

lemma storedShard_mem (tp : TopicPartition) : w.storedShard cfg tp ∈ cfg.shardIDs := by
  unfold storedShard
  cases hget : w.metadata.loadShardPlacement tp with
  | none => exact shardForPartition_mem cfg tp.partition
  | some placement => exact h.placement tp placement hget

/-- The log of the shard that a partition is placed on. -/
lemma ownerLog (tp : TopicPartition) : ∃ log : StorxLogStore,
    w.shards[w.storedShard cfg tp]? = some log :=
  Option.isSome_iff_exists.mp ((h.shards_iff _).mpr (h.storedShard_mem tp))

lemma hasPartition_iff (hlog : w.shards[id]? = some log) (tp : TopicPartition) :
    log.HasPartition tp ↔ w.HasTopicPartition tp := by
  unfold HasPartition World.HasTopicPartition
  rw [h.topics_eq id log hlog]

/-- A change of the logs that keeps their topics and puts nothing of a partition where it is not
placed. -/
lemma of_shards (hinv : WorldInv w') (hmetadata : w'.metadata = w.metadata)
    (hcache : CacheAgrees w'.placementCache (w.storedShard cfg))
    (hsome : ∀ id : UInt32, (w'.shards[id]?).isSome = (w.shards[id]?).isSome)
    (hlogs : ∀ (id : UInt32) (log' : StorxLogStore), w'.shards[id]? = some log' →
      ∃ log, w.shards[id]? = some log ∧ log'.topics = log.topics ∧ ∀ a, id ≠ w.storedShard cfg a →
        log.recordsAt a = [] ∧ log.nextOffset a = 0 → log'.recordsAt a = [] ∧ log'.nextOffset a = 0) :
    ShardInv cfg w' := by
  have hstored : w'.storedShard cfg = w.storedShard cfg := by
    funext a
    rw [storedShard, hmetadata]
    rfl
  refine ⟨hinv, fun id => ?_, fun id log' hlog' name => ?_, hmetadata ▸ h.placement, hstored ▸ hcache,
    fun a id log' hlog' hne => ?_⟩
  · rw [hsome, h.shards_iff]
  · obtain ⟨log, hlog, htopics, -⟩ := hlogs id log' hlog'
    rw [htopics, hmetadata, h.topics_eq id log hlog]
  · obtain ⟨log, hlog, -, hempty⟩ := hlogs id log' hlog'
    rw [hstored] at hne
    exact hempty a hne (h.owned a id log hlog hne)

/-! ## Resolving a partition -/

/-- The cache and the process readings aside, the worlds are the same. -/
lemma congr_cache (hcache : CacheAgrees cache (w.storedShard cfg)) :
    ShardInv cfg { w with placementCache := cache } :=
  ⟨⟨h.inv.metadata, h.inv.log, h.inv.shards⟩, h.shards_iff, h.topics_eq, h.placement, hcache,
    h.owned⟩

lemma resolved_eq (tp : TopicPartition) : resolvedShard cfg w tp = w.storedShard cfg tp := by
  unfold resolvedShard
  cases hcached : w.placementCache[tp]? with
  | some placement => exact h.cache tp placement hcached
  | none =>
    unfold storedShard
    cases w.metadata.loadShardPlacement tp <;> rfl

/-- A cache that leads to the same shards. -/
lemma cache_of_resolved (hresolved : ∀ tp, resolvedShard cfg w' tp = resolvedShard cfg w tp) :
    CacheAgrees w'.placementCache (w.storedShard cfg) := by
  intro tp placement hcached
  rw [← h.resolved_eq, ← hresolved, resolvedShard, hcached]

/-- `Resolve` finds the shard of the stored placement, and changes the cache at most. -/
lemma exec_resolve (tp : TopicPartition) :
    ∃ placement cache, exec step (resolve cfg tp) w
        = (.ok placement, { w with placementCache := cache }) ∧
      placement.shardID = w.storedShard cfg tp ∧
      ShardInv cfg { w with placementCache := cache } := by
  obtain ⟨placement, cache, hrun, hshard, hresolved⟩ := Broker.exec_resolve cfg h.inv tp
  exact ⟨placement, cache, hrun, hshard.trans (h.resolved_eq tp),
    h.congr_cache (h.cache_of_resolved hresolved)⟩

variable (hsharded : cfg.sharded = true)

include hsharded

lemma holder_eq (tp : TopicPartition) : w.holder cfg tp = .shard (w.storedShard cfg tp) := by
  rw [holder, if_pos hsharded, h.resolved_eq]

lemma exec_logFor (tp : TopicPartition) :
    ∃ cache, exec step (logFor cfg tp) w
        = (.ok (.shard (w.storedShard cfg tp)), { w with placementCache := cache }) ∧
      ShardInv cfg { w with placementCache := cache } := by
  obtain ⟨cache, hlooked, hrun⟩ := Broker.exec_logFor cfg h.inv tp
  obtain ⟨log, hlog⟩ := h.ownerLog tp
  rw [h.holder_eq hsharded, logAt_shard.mpr hlog] at hrun
  exact ⟨cache, hrun, h.congr_cache (h.cache_of_resolved hlooked.resolved)⟩

/-! ## Publishing and fetching -/

/-- A publish writes to the shard that the partition is placed on, or nowhere. -/
lemma published {records : List RecordAppend} {r : Except Error (List Record)} {trace : List Call}
    (hpublished : Published cfg w tp records r w' trace) :
    ShardInv cfg w' ∧ w'.metadata = w.metadata := by
  rcases hpublished with ⟨log, stored, log', hlog, happend, -, -, hwrote⟩ | ⟨-, -, hlooked, -⟩
  · obtain ⟨hspec, -⟩ := appendRecordsBatch_spec (h.inv.logAt hlog) happend
    rw [h.holder_eq hsharded] at hlog hwrote
    have hget : ∀ id : UInt32, w'.shards[id]?
        = if id = w.storedShard cfg tp then some log' else w.shards[id]? := by
      intro id
      apply Option.ext
      intro found
      rw [← logAt_shard, hwrote.logAt]
      by_cases hid : id = w.storedShard cfg tp
      · simp [hid]
      · rw [if_neg fun heq => hid (LogRef.shard.inj heq), if_neg hid, logAt_shard]
    refine ⟨h.of_shards (hwrote.inv h.inv hspec.inv) hwrote.metadata (h.cache_of_resolved hwrote.resolved)
      (fun id => ?_) fun id found hfound => ?_, hwrote.metadata⟩
    · rw [hget]
      split
      · next heq => rw [heq, logAt_shard.mp hlog, Option.isSome_some, Option.isSome_some]
      · rfl
    · rw [hget] at hfound
      split at hfound
      · next heq =>
        cases hfound
        refine ⟨log, heq ▸ logAt_shard.mp hlog, hspec.topics, fun a hne hempty => ?_⟩
        have hother : tp ≠ a := fun hsame => hne (heq.trans (by rw [hsame]))
        rw [hspec.records, hspec.next, if_neg hother, if_neg hother]
        exact hempty
      · exact ⟨found, hfound, rfl, fun _ _ hempty => hempty⟩
  · have hget : ∀ id : UInt32, w'.shards[id]? = w.shards[id]? := by
      intro id
      apply Option.ext
      intro found
      rw [← logAt_shard, hlooked.logAt, logAt_shard]
    exact ⟨h.of_shards (hlooked.inv h.inv) hlooked.metadata (h.cache_of_resolved hlooked.resolved)
      (fun id => by rw [hget]) fun id found hfound =>
        ⟨found, hget id ▸ hfound, rfl, fun _ _ hempty => hempty⟩, hlooked.metadata⟩

lemma publishBatch (tp : TopicPartition) (records : List RecordAppend) :
    ShardInv cfg ((publishBatchRecords cfg tp records).run w).2 ∧
      ((publishBatchRecords cfg tp records).run w).2.metadata = w.metadata :=
  h.published hsharded (publishBatchRecords_ends cfg h.inv tp records)

lemma publish (tp : TopicPartition) (record : RecordAppend) :
    ShardInv cfg ((publishRecord cfg tp record).run w).2 ∧
      ((publishRecord cfg tp record).run w).2.metadata = w.metadata :=
  h.published hsharded (publishRecord_ends cfg h.inv tp record)

end ShardInv

lemma ShardInv.fetch {cfg : Config} {w : World} (h : ShardInv cfg w)
    (hsharded : cfg.sharded = true) (consumer : String) (tp : TopicPartition) (offset : Option Nat)
    (maxRecords : Nat) :
    ShardInv cfg ((MessageRuntime.fetch cfg consumer tp offset maxRecords).run w).2 ∧
      ((MessageRuntime.fetch cfg consumer tp offset maxRecords).run w).2.metadata = w.metadata := by
  obtain ⟨cache, hrun, hinv⟩ := h.exec_logFor hsharded tp
  -- after the shard is known, the world does not change any more
  have hC : Closed (Advances (I := calls) (ε := Error) step fun w w' => w' = w) :=
    advances_closed step (fun _ => rfl) fun _ _ _ h1 h2 => h2.trans h1
  have hfetch : Advances (I := calls) (ε := Error) step (fun w w' => w' = w) _
      (QueueRuntime.fetch (.shard (w.storedShard cfg tp)) consumer tp offset maxRecords) :=
    Parts.queueFetch hC (fun w => step_log_read rfl (fun _ _ => rfl) w) (fun _ => rfl)
      fun start w => step_log_read rfl (fun _ _ => rfl) w
  unfold MessageRuntime.fetch wrapBroker Handling.run
  rw [exec_bind_ok step hrun, exec_mapError, hfetch]
  exact ⟨hinv, rfl⟩

/-! ## Creating a topic -/

section
variable {cfg : Config} {w : World}

/-- A call on a registered shard that does not look at the clock. -/
lemma exec_onShard (hlog : w.shards[id]? = some log) {op : LogOp} (hreadings : op.readings = 0) :
    exec step (onLog (.shard id) op) w = ((op.run w.env.clock log).1,
      { w with shards := w.shards.insert id (op.run w.env.clock log).2 }) := by
  change step (.log (.shard id) op) w = _
  simp only [step, logAt, hlog, setLog, hreadings, Env.dropClock_zero]
  rfl

/-- No shard has a topic that the metadata does not have. -/
lemma exec_topicExists (h : ShardInv cfg w) (hsharded : cfg.sharded = true) (topic : String) :
    exec step (MessageRuntime.topicExists cfg topic) w
      = (.ok (w.metadata.loadTopicConfig topic).isSome, w) := by
  have hload : exec step
      (wrapBroker "load sharded topic config" (onMeta (.loadTopicConfig topic))) w
        = (.ok (w.metadata.loadTopicConfig topic), w) := rfl
  unfold MessageRuntime.topicExists
  rw [if_pos hsharded]
  refine (exec_bind_ok step hload).trans ?_
  cases hget : w.metadata.loadTopicConfig topic with
  | some found => rfl
  | none =>
    have hloop : ∀ ids : List UInt32, (∀ id ∈ ids, id ∈ cfg.shardIDs) →
        exec step (MessageRuntime.existsOnShard topic ids) w = (.ok false, w) := by
      intro ids
      induction ids with
      | nil => intro _; rfl
      | cons id rest ih =>
        intro hids
        obtain ⟨log, hlog⟩ := Option.isSome_iff_exists.mp
          ((h.shards_iff id).mpr (hids id mem_cons_self))
        have habsent : exec step
            (wrapBroker "check sharded topic" (onLog (.shard id) (.topicExists topic))) w
              = (.ok false, w) := by
          refine Prod.ext ?_ (step_log_read rfl (fun _ _ => rfl) w)
          change ((step (.log (.shard id) (.topicExists topic)) w).1).mapError _ = _
          simp only [step, logAt, hlog, LogOp.run]
          have hcontains : log.topicExists topic = false := by
            rw [topicExists, Map.contains_eq_false_iff, h.topics_eq id log hlog, hget]
          rw [hcontains]
          rfl
        refine (exec_bind_ok step habsent).trans ?_
        exact ih fun a ha => hids a (mem_cons_of_mem id ha)
    exact hloop cfg.shardIDs fun _ hid => hid

/-- The log after `CreateTopic`, whether it went through or not. -/
def createdLog (topic : TopicConfig) (log : StorxLogStore) : StorxLogStore :=
  (LogOp.save log (log.createTopic topic)).2

/-- A log that lacks the topic does not refuse it for being there. -/
lemma code_createTopic {topic : TopicConfig} {err : Error}
    (habsent : log.topicExists topic.name = false) (h : log.createTopic topic = .error err) :
    err.code ≠ .topicExists := by
  unfold createTopic validateLogTopicForCreate at h
  by_cases hname : topic.name = ""
  · rw [if_pos hname] at h
    cases h
    decide
  · rw [if_neg hname] at h
    by_cases hparts : topic.partitions = 0
    · rw [if_pos hparts] at h
      cases h
      show Code.invalidArgument ≠ .topicExists
      decide
    · have hcontains : log.topics.contains (normalizeTopic topic).name = false := habsent
      rw [if_neg hparts] at h
      simp only [bind, Except.bind, hcontains] at h
      cases h

/-- One shard: its log is put through `CreateTopic`, and errors are reported where that fails. -/
lemma exec_createTopicLog (topic : TopicConfig) (id : UInt32) (w : World) : ∃ errs shards',
    exec step (createTopicLog topic id) w = (.ok errs, { w with shards := shards' }) ∧
      (∀ a : UInt32, shards'[a]?
        = if id = a then (w.shards[a]?).map (createdLog topic) else w.shards[a]?) ∧
      (errs = [] ↔ ∃ log log', w.shards[id]? = some log ∧ log.createTopic topic = .ok log') ∧
      ((∀ log, w.shards[id]? = some log → log.topicExists topic.name = false) →
        ∀ err ∈ errs, err.code ≠ .topicExists) := by
  have hcodes : ∀ {err : Error}, err.code ≠ .topicExists →
      ∀ found ∈ [err.wrap "create sharded topic log", brokerStoreError .unavailable
        ("create topic " ++ topic.name ++ " on message shard " ++ showUInt32 id)],
      found.code ≠ .topicExists := by
    intro err hcode
    refine forall_mem_cons.mpr ⟨hcode, forall_mem_singleton.mpr ?_⟩
    show Code.unavailable ≠ .topicExists
    decide
  unfold createTopicLog
  rw [exec_bind, exec_attempt]
  cases hlog : w.shards[id]? with
  | none =>
    have hcreate : exec step (onLog (.shard id) (.createTopic topic)) w
        = (.error (shardNotRegistered id), w) := by
      change step (.log (.shard id) (.createTopic topic)) w = _
      simp only [step, logAt, hlog]
      rfl
    rw [hcreate]
    refine ⟨_, w.shards, rfl, fun a => ?_, by simp, fun _ => hcodes ?_⟩
    · split
      · next heq => rw [← heq, hlog]; rfl
      · rfl
    · show Code.invalidArgument ≠ .topicExists
      decide
  | some log =>
    have hget : ∀ a : UInt32, (w.shards.insert id (createdLog topic log))[a]?
        = if id = a then (w.shards[a]?).map (createdLog topic) else w.shards[a]? := by
      intro a
      rw [Map.get_insert]
      split
      · next heq => rw [← heq, hlog]; rfl
      · rfl
    have hcreate : exec step (onLog (.shard id) (.createTopic topic)) w
        = ((LogOp.save log (log.createTopic topic)).1,
          { w with shards := w.shards.insert id (createdLog topic log) }) := exec_onShard hlog rfl
    rw [hcreate]
    cases hresult : log.createTopic topic with
    | ok log' => exact ⟨[], _, rfl, hget, by simp [hresult], by simp⟩
    | error err =>
      exact ⟨_, _, rfl, hget, by simp [hresult], fun habsent =>
        hcodes (code_createTopic (habsent log rfl) hresult)⟩

/-- The loop over the shards: every log is put through `CreateTopic`. -/
lemma exec_createTopicLog_loop (topic : TopicConfig) (ids : List UInt32) (hnodup : ids.Nodup)
    (w : World) : ∃ errors shards', exec step (Prog.collect (createTopicLog topic) ids) w
        = (.ok errors, { w with shards := shards' }) ∧
      (∀ a : UInt32, shards'[a]?
        = if a ∈ ids then (w.shards[a]?).map (createdLog topic) else w.shards[a]?) ∧
      (errors.flatten = [] ↔ ∀ id ∈ ids, ∃ log log', w.shards[id]? = some log ∧
        log.createTopic topic = .ok log') ∧
      ((∀ id ∈ ids, ∀ log, w.shards[id]? = some log → log.topicExists topic.name = false) →
        ∀ err ∈ errors.flatten, err.code ≠ .topicExists) := by
  induction ids generalizing w with
  | nil => exact ⟨[], w.shards, rfl, fun id => by simp, by simp, by simp⟩
  | cons id rest ih =>
    rw [nodup_cons] at hnodup
    obtain ⟨errs, shards1, hone, hget1, herrs, hcodes⟩ := exec_createTopicLog topic id w
    obtain ⟨errors, shards', hrest, hget, herrors, hcodes'⟩ := ih hnodup.2 { w with shards := shards1 }
    have hother : ∀ a ∈ rest, shards1[a]? = w.shards[a]? := fun a ha =>
      (hget1 a).trans (if_neg fun heq : id = a => hnodup.1 (heq ▸ ha))
    refine ⟨errs :: errors, shards', (exec_bind_ok step hone).trans (exec_bind_ok step hrest),
      fun a => ?_, ?_, fun habsent => ?_⟩
    · rw [hget]
      by_cases ha : a ∈ rest
      · rw [if_pos ha, if_pos (mem_cons_of_mem id ha), hother a ha]
      · rw [if_neg ha, hget1]
        simp only [mem_cons, ha, or_false, eq_comm]
    · rw [flatten_cons, append_eq_nil_iff, herrs, herrors, forall_mem_cons]
      exact and_congr_right' (forall₂_congr fun a ha => by rw [hother a ha])
    · rw [flatten_cons, forall_mem_append]
      obtain ⟨hhere, hthere⟩ := forall_mem_cons.mp habsent
      exact ⟨hcodes hhere, hcodes' fun a ha log hlog => hthere a ha log (hother a ha ▸ hlog)⟩

lemma nodup_shardIDs (cfg : Config) : cfg.shardIDs.Nodup := by
  unfold Config.shardIDs
  refine List.Nodup.map_on (fun a ha b hb heq => ?_) nodup_range
  have ha' := Nat.lt_trans (mem_range.mp ha) cfg.shardCount.toNat_lt
  have hb' := Nat.lt_trans (mem_range.mp hb) cfg.shardCount.toNat_lt
  have htoNat := congrArg UInt32.toNat heq
  rw [UInt32.toNat_ofNat', UInt32.toNat_ofNat', Nat.mod_eq_of_lt ha', Nat.mod_eq_of_lt hb'] at htoNat
  exact htoNat

/-- A log creates a new topic that has a name and partitions. -/
lemma createTopic_ok_iff (log : StorxLogStore) (topic : TopicConfig) :
    (∃ log', log.createTopic topic = .ok log') ↔
      topic.name ≠ "" ∧ topic.partitions ≠ 0 ∧ log.topics[topic.name]? = none := by
  unfold createTopic validateLogTopicForCreate
  by_cases hname : topic.name = ""
  · simp [hname, bind, Except.bind]
  · by_cases hparts : topic.partitions = 0
    · simp [hname, hparts, bind, Except.bind]
    · rw [if_neg hname, if_neg hparts]
      simp only [bind, Except.bind]
      change (∃ log', (if log.topics.contains topic.name = true then _ else _) = _) ↔ _
      rw [← Map.contains_eq_false_iff]
      cases log.topics.contains topic.name with
      | true => simp
      | false => simp [hname, hparts]

variable (h : ShardInv cfg w) (hsharded : cfg.sharded = true) {topic : TopicConfig}

include h hsharded

/-- A topic that exists is refused. -/
lemma exec_createTopic_exists (hold : (w.metadata.loadTopicConfig topic.name).isSome = true) :
    ∃ err, exec step (MessageRuntime.createTopic cfg topic) w = (.error err, w) := by
  unfold MessageRuntime.createTopic
  rw [if_pos hsharded, exec_bind_ok step (exec_topicExists h hsharded topic.name), hold]
  exact ⟨_, rfl⟩

omit hsharded in
variable (topic) in
/-- The shards' logs after the loop over them. -/
lemma exec_createTopicLogs : ∃ result shards',
    exec step (createTopicLogs cfg topic) w
        = (result, { w with shards := shards' }) ∧
      (∀ id : UInt32, shards'[id]? = (w.shards[id]?).map (createdLog topic)) ∧
      (result = .ok () ↔ ∀ (id : UInt32) (log : StorxLogStore), w.shards[id]? = some log →
        ∃ log', log.createTopic topic = .ok log') := by
  obtain ⟨errors, shards', hrun, hget, herrors, -⟩ := exec_createTopicLog_loop topic cfg.shardIDs
    (nodup_shardIDs cfg) w
  have hall : (∀ id ∈ cfg.shardIDs, ∃ log log', w.shards[id]? = some log ∧
      log.createTopic topic = .ok log') ↔ ∀ (id : UInt32) (log : StorxLogStore),
      w.shards[id]? = some log → ∃ log', log.createTopic topic = .ok log' := by
    refine ⟨fun hall id log hlog => ?_, fun hall id hid => ?_⟩
    · obtain ⟨found, log', hfound, hok⟩ := hall id ((h.shards_iff id).mp (by rw [hlog]; rfl))
      cases hlog.symm.trans hfound
      exact ⟨log', hok⟩
    · obtain ⟨log, hlog⟩ := Option.isSome_iff_exists.mp ((h.shards_iff id).mpr hid)
      exact ⟨log, (hall id log hlog).imp fun _ hok => ⟨hlog, hok⟩⟩
  have hget' : ∀ id : UInt32, shards'[id]? = (w.shards[id]?).map (createdLog topic) := by
    intro id
    rw [hget]
    split
    · rfl
    · next hnot =>
      rw [← h.shards_iff id, Option.not_isSome_iff_eq_none] at hnot
      rw [hnot]
      rfl
  rw [hall] at herrors
  unfold createTopicLogs
  rw [exec_bind_ok step hrun]
  cases hflat : errors.flatten with
  | nil => exact ⟨.ok (), shards', rfl, hget', fun _ => herrors.mp hflat, fun _ => rfl⟩
  | cons err rest =>
    refine ⟨_, shards', rfl, hget', nofun, fun hc => ?_⟩
    rw [herrors.mpr hc] at hflat
    cases hflat

/-- A topic that no log accepts is refused, and nothing is left of it. -/
lemma exec_createTopic_invalid (hnew : w.metadata.loadTopicConfig topic.name = none)
    (hbad : ¬ (topic.name ≠ "" ∧ topic.partitions ≠ 0)) :
    ∃ err, exec step (MessageRuntime.createTopic cfg topic) w = (.error err, w) := by
  have hfail : ∀ log : StorxLogStore, ¬ ∃ log', log.createTopic topic = .ok log' := by
    intro log hok
    obtain ⟨hname, hparts, _⟩ := (createTopic_ok_iff log topic).mp hok
    exact hbad ⟨hname, hparts⟩
  have hsame : ∀ log : StorxLogStore, createdLog topic log = log := by
    intro log
    unfold createdLog
    cases hcreate : log.createTopic topic with
    | ok log' => exact absurd ⟨log', hcreate⟩ (hfail log)
    | error err => rfl
  obtain ⟨result, shards', hrun, hget, hresult⟩ := exec_createTopicLogs h topic
  have hshards : shards' = w.shards := Map.ext_get fun id => by
    rw [hget]
    cases w.shards[id]? with
    | none => rfl
    | some log => exact congrArg some (hsame log)
  subst hshards
  -- there is a shard, and it has refused the topic
  obtain ⟨log, hlog⟩ := h.ownerLog ⟨"", 0⟩
  unfold MessageRuntime.createTopic
  rw [if_pos hsharded, exec_bind_ok step (exec_topicExists h hsharded topic.name), hnew]
  cases result with
  | ok _ => exact absurd (hresult.mp rfl _ log hlog) (hfail log)
  | error err => exact ⟨err, exec_bind_error step hrun⟩

/-- **A new topic** is put on every shard and into the metadata. -/
theorem exec_createTopic_new (hnew : w.metadata.loadTopicConfig topic.name = none)
    (hname : topic.name ≠ "") (hparts : topic.partitions ≠ 0) :
    ∃ w', exec step (MessageRuntime.createTopic cfg topic) w = (.ok (), w') ∧
      ShardInv cfg w' ∧ w'.metadata
        = { w.metadata with topics := w.metadata.topics.set topic.name (normalizeTopic topic) } := by
  have hcreate : ∀ (id : UInt32) (log : StorxLogStore), w.shards[id]? = some log →
      ∃ log', log.createTopic topic = .ok log' := fun id log hlog =>
    (createTopic_ok_iff log topic).mpr ⟨hname, hparts, by rw [h.topics_eq id log hlog, hnew]⟩
  obtain ⟨result, shards', hrun, hget, hresult⟩ := exec_createTopicLogs h topic
  cases hresult.mpr hcreate
  let metadata := { w.metadata with topics := w.metadata.topics.set topic.name (normalizeTopic topic) }
  have hsaved : w.metadata.saveTopicConfig topic = .ok metadata := if_neg hname
  let w' : World := { w with metadata := metadata, shards := shards' }
  have hsave : exec step
      (wrapBroker "save sharded topic config" (onMeta (.saveTopicConfig topic)))
      { w with shards := shards' } = (.ok (), w') := by
    change ((MetaOp.save w.metadata (w.metadata.saveTopicConfig topic)).1.mapError _,
      ({ w with metadata := (MetaOp.save w.metadata (w.metadata.saveTopicConfig topic)).2,
                shards := shards' } : World)) = _
    rw [hsaved]
    rfl
  -- each shard's log is what `CreateTopic` makes of it
  have hshard : ∀ (id : UInt32) (log' : StorxLogStore), shards'[id]? = some log' →
      ∃ log, w.shards[id]? = some log ∧ log.createTopic topic = .ok log' := by
    intro id log' hlog'
    rw [hget] at hlog'
    obtain ⟨log, hlog, rfl⟩ := Option.map_eq_some_iff.mp hlog'
    obtain ⟨created, hok⟩ := hcreate id log hlog
    refine ⟨log, hlog, ?_⟩
    rw [createdLog, hok]
    rfl
  refine ⟨w', ?_, ⟨⟨?_, h.inv.log, fun id log' hlog' => ?_⟩, fun id => ?_,
    fun id log' hlog' name => ?_, h.placement, h.cache, fun tp id log' hlog' hne => ?_⟩, rfl⟩
  · unfold MessageRuntime.createTopic
    rw [if_pos hsharded, exec_bind_ok step (exec_topicExists h hsharded topic.name), hnew]
    exact (exec_bind_ok step hrun).trans hsave
  · exact h.inv.metadata.saveTopicConfig hsaved
  · obtain ⟨log, hlog, hok⟩ := hshard id log' hlog'
    exact (h.inv.shards id log hlog).createTopic hok
  · rw [← h.shards_iff id]
    change (shards'[id]?).isSome = true ↔ _
    rw [hget, Option.isSome_map]
  · obtain ⟨log, hlog, hok⟩ := hshard id log' hlog'
    rw [topics_createTopic hok, h.topics_eq id log hlog]
    exact (OrderedMap.get_set w.metadata.topics topic.name name (normalizeTopic topic)).symm
  · obtain ⟨log, hlog, hok⟩ := hshard id log' hlog'
    have hlogInv := h.inv.shards id log hlog
    rw [recordsAt_createTopic hlogInv hok, nextOffset_createTopic hlogInv hok]
    exact h.owned tp id log hlog hne

end

/-! ## Placements -/

section
variable {cfg : Config} {w : World}

/-- The world with one more placement. -/
def World.withPlacement (w : World) (placement : ShardPlacement) : World :=
  let placements := w.metadata.placements.insert placement.topicPartition placement
  { w with metadata := { w.metadata with placements := placements } }

variable {placement : ShardPlacement}

lemma saveShardPlacement_ok {s : MemoryStore} (hname : placement.topic ≠ "") :
    s.saveShardPlacement placement = .ok { s with
      placements := s.placements.insert placement.topicPartition placement } := by
  rw [MemoryStore.saveShardPlacement, MemoryStore.validateShardPlacement, if_neg hname]
  rfl

lemma exec_saveShardPlacement (context : String) (hname : placement.topic ≠ "") (w : World) :
    exec step (wrapBroker context (onMeta (.saveShardPlacement placement))) w
      = (.ok (), w.withPlacement placement) := by
  change ((MetaOp.save w.metadata (w.metadata.saveShardPlacement placement)).1.mapError _,
    { w with metadata := (MetaOp.save w.metadata (w.metadata.saveShardPlacement placement)).2 }) = _
  rw [saveShardPlacement_ok hname]
  rfl

/-- The shard of a partition once a placement is saved. -/
lemma storedShard_withPlacement (placement : ShardPlacement) (a : TopicPartition) :
    (w.withPlacement placement).storedShard cfg a
      = if placement.topicPartition = a then placement.shardID else w.storedShard cfg a := by
  change (((w.metadata.placements.insert placement.topicPartition placement)[a]?).map
    ShardPlacement.shardID).getD _ = _
  rw [Map.get_insert]
  split
  · rfl
  · rfl

/-- A saved placement adds to the placements there are. -/
lemma isSome_withPlacement (placement : ShardPlacement) (a : TopicPartition) :
    ((w.withPlacement placement).metadata.loadShardPlacement a).isSome = true ↔
      placement.topicPartition = a ∨ (w.metadata.loadShardPlacement a).isSome = true := by
  change ((w.metadata.placements.insert placement.topicPartition placement)[a]?).isSome = true ↔ _
  rw [Map.get_insert]
  split
  · next heq => exact ⟨fun _ => Or.inl heq, fun _ => rfl⟩
  · next hne => exact ⟨Or.inr, fun hor => hor.resolve_left hne⟩

/-- Saving a placement that agrees with where the partition already is. -/
lemma ShardInv.savePlacement (h : ShardInv cfg w) (hname : placement.topic ≠ "")
    (hshard : placement.shardID = w.storedShard cfg placement.topicPartition)
    (hcache : CacheAgrees cache (w.storedShard cfg)) :
    ShardInv cfg { w.withPlacement placement with placementCache := cache } := by
  have hstored : ∀ tp, storedShard cfg { w.withPlacement placement with placementCache := cache }
      tp = w.storedShard cfg tp := by
    intro tp
    refine (storedShard_withPlacement placement tp).trans ?_
    split
    · next heq => rw [hshard, heq]
    · rfl
  refine ⟨⟨h.inv.metadata.saveShardPlacement (saveShardPlacement_ok hname), h.inv.log,
      h.inv.shards⟩, h.shards_iff, h.topics_eq, fun tp found hfound => ?_, fun tp found hfound => ?_,
    fun tp id log hlog hne => h.owned tp id log hlog fun heq => hne (heq.trans (hstored tp).symm)⟩
  · rcases Map.get_insert_eq_some hfound with ⟨-, rfl⟩ | ⟨-, hold⟩
    · rw [hshard]
      exact h.storedShard_mem _
    · exact h.placement tp found hold
  · rw [hstored]
    exact hcache tp found hfound

/-- The body of the loop of `EnsureTopic`, for a placement as `PlanTopic` makes it. -/
lemma exec_ensurePlacement (h : ShardInv cfg w) (hname : placement.topic ≠ "")
    (hplan : placement.shardID = shardForPartition cfg placement.partition) :
    ∃ w', exec step (ensurePlacement placement) w = (.ok (), w') ∧
      ShardInv cfg w' ∧ w'.metadata.topics = w.metadata.topics ∧
      (w'.metadata.loadShardPlacement placement.topicPartition).isSome = true ∧
      ∀ tp, (w.metadata.loadShardPlacement tp).isSome = true →
        (w'.metadata.loadShardPlacement tp).isSome = true := by
  unfold ensurePlacement
  rw [exec_bind_ok step (exec_loadShardPlacement _ w)]
  cases hget : w.metadata.loadShardPlacement placement.topicPartition with
  | some existing =>
    have hkey := (h.inv.metadata.placements _ existing hget).1
    have hsame : existing.shardID = w.storedShard cfg existing.topicPartition := by
      rw [hkey, storedShard, hget]
      rfl
    refine ⟨_, rfl, h.congr_cache (CacheAgrees.insert h.cache hsame), rfl, ?_, fun tp htp => htp⟩
    change (w.metadata.loadShardPlacement placement.topicPartition).isSome = true
    rw [hget]
    rfl
  | none =>
    have hsame : placement.shardID = w.storedShard cfg placement.topicPartition := by
      rw [storedShard, hget]
      exact hplan
    let cache := w.placementCache.insert placement.topicPartition placement
    refine ⟨{ w.withPlacement placement with placementCache := cache },
      (exec_bind_ok step (exec_saveShardPlacement _ hname w)).trans rfl,
      h.savePlacement hname hsame (CacheAgrees.insert h.cache hsame), rfl,
      (isSome_withPlacement placement _).mpr (Or.inl rfl),
      fun tp htp => (isSome_withPlacement placement tp).mpr (Or.inr htp)⟩

/-- The loop of `EnsureTopic`. -/
lemma exec_ensurePlacements (placements : List ShardPlacement)
    (hplan : ∀ placement ∈ placements, placement.topic ≠ "" ∧
      placement.shardID = shardForPartition cfg placement.partition) (h : ShardInv cfg w) :
    ∃ w', exec step (Prog.forEach ensurePlacement placements) w = (.ok (), w') ∧
      ShardInv cfg w' ∧ w'.metadata.topics = w.metadata.topics ∧ (∀ placement ∈ placements,
        (w'.metadata.loadShardPlacement placement.topicPartition).isSome = true) ∧
      ∀ tp, (w.metadata.loadShardPlacement tp).isSome = true →
        (w'.metadata.loadShardPlacement tp).isSome = true := by
  induction placements generalizing w with
  | nil => exact ⟨w, rfl, h, rfl, nofun, fun _ htp => htp⟩
  | cons placement rest ih =>
    obtain ⟨hname, hshard⟩ := hplan placement mem_cons_self
    obtain ⟨w1, hrun1, h1, htopics1, hhere, hkept1⟩ := exec_ensurePlacement h hname hshard
    obtain ⟨w2, hrun2, h2, htopics2, hrest, hkept2⟩ :=
      ih (fun p hp => hplan p (mem_cons_of_mem placement hp)) h1
    refine ⟨w2, (exec_bind_ok step hrun1).trans hrun2, h2, htopics2.trans htopics1,
      fun p hp => ?_, fun tp htp => hkept2 tp (hkept1 tp htp)⟩
    rcases mem_cons.mp hp with rfl | hp
    · exact hkept2 _ hhere
    · exact hrest p hp

lemma mem_planTopic {topic : TopicConfig} (hparts : topic.partitions ≠ 0)
    (placement : ShardPlacement) : placement ∈ planTopic cfg topic ↔
      placement.topic = topic.name ∧ placement.partition < topic.partitions ∧
        placement.shardID = shardForPartition cfg placement.partition := by
  unfold planTopic
  rw [mem_map]
  constructor
  · rintro ⟨tp, htp, rfl⟩
    rw [mem_partitionList] at htp
    obtain ⟨_, hlt⟩ := htp
    rw [if_neg hparts] at hlt
    exact ⟨rfl, hlt, rfl⟩
  · rintro ⟨hname, hlt, hshard⟩
    refine ⟨⟨topic.name, placement.partition⟩, ?_, ?_⟩
    · rw [mem_partitionList, if_neg hparts]
      exact ⟨rfl, hlt⟩
    · rw [← hname, ← hshard]

/-- **Creating a topic** keeps the shards alike and places every new partition. -/
theorem ShardInv.applyCreateTopic (h : ShardInv cfg w) (hplaced : AllPlaced w)
    (hsharded : cfg.sharded = true) (topic : TopicConfig) :
    ShardInv cfg ((applyCreateTopic cfg topic).run w).2 ∧
      AllPlaced ((Broker.applyCreateTopic cfg topic).run w).2 := by
  let t := normalizeTopicPolicies topic
  unfold Broker.applyCreateTopic Handling.run
  rw [exec_bind, exec_ofExcept]
  cases validateTopicPolicies t with
  | error err => exact ⟨h, hplaced⟩
  | ok _ =>
    dsimp only
    split
    · exact ⟨h, hplaced⟩
    · have herror : ∀ err, exec step (MessageRuntime.createTopic cfg t) w = (.error err, w) →
          exec step (do
            wrapBroker "create topic" (MessageRuntime.createTopic cfg t)
            wrapBroker "ensure topic shard placement" (ensureTopic cfg t)
            pure t) w = (.error (err.wrap "create topic"), w) := by
        intro err hrun
        refine exec_bind_error step ?_
        rw [exec_wrapBroker, hrun]
        rfl
      by_cases hold : (w.metadata.loadTopicConfig t.name).isSome = true
      · obtain ⟨err, hrun⟩ := exec_createTopic_exists h hsharded hold
        rw [herror err hrun]
        exact ⟨h, hplaced⟩
      · have hnew := Option.not_isSome_iff_eq_none.mp hold
        by_cases hgood : t.name ≠ "" ∧ t.partitions ≠ 0
        · obtain ⟨w1, hrun1, h1, hmeta1⟩ := exec_createTopic_new h hsharded hnew hgood.1 hgood.2
          obtain ⟨w2, hrun2, h2, htopics2, hhere, hkept⟩ := exec_ensurePlacements
            (planTopic cfg t) (fun placement hmem => by
              obtain ⟨hname, _, hshard⟩ := (mem_planTopic hgood.2 placement).mp hmem
              exact ⟨hname ▸ hgood.1, hshard⟩) h1
          have hrun : exec step (do
              wrapBroker "create topic" (MessageRuntime.createTopic cfg t)
              wrapBroker "ensure topic shard placement" (ensureTopic cfg t)
              pure t) w = (.ok t, w2) := by
            exact (exec_bind_ok step (exec_wrapBroker_ok hrun1 _)).trans
              ((exec_bind_ok step (exec_wrapBroker_ok hrun2 _)).trans rfl)
          rw [hrun]
          refine ⟨h2, fun tp htp => ?_⟩
          obtain ⟨found, hfound, hlt⟩ := htp
          rw [MemoryStore.loadTopicConfig, htopics2, hmeta1] at hfound
          dsimp only at hfound
          rw [OrderedMap.get_set] at hfound
          split at hfound
          · next heq =>
            -- a partition of the new topic
            cases hfound
            have hparts : (normalizeTopic t).partitions = t.partitions := if_neg hgood.2
            rw [hparts] at hlt
            exact hhere ⟨tp.topic, tp.partition, shardForPartition cfg tp.partition⟩
              ((mem_planTopic hgood.2 _).mpr ⟨heq.symm, hlt, rfl⟩)
          · refine hkept tp ?_
            rw [MemoryStore.loadShardPlacement, hmeta1]
            exact hplaced tp ⟨found, hfound, hlt⟩
        · obtain ⟨err, hrun⟩ := exec_createTopic_invalid h hsharded hnew hgood
          rw [herror err hrun]
          exact ⟨h, hplaced⟩

end

/-! ## Moving a partition -/

section
variable {cfg : Config} {w : World} (h : ShardInv cfg w)

include h

/-- The state after a move: the target has what the source had, the source has nothing, and the
placement names the target. -/
lemma ShardInv.move {placement : ShardPlacement} {source target : StorxLogStore}
    {source' target' : StorxLogStore} {records : List Record} {next : Nat}
    (hname : placement.topic ≠ "") (hmem : placement.shardID ∈ cfg.shardIDs)
    (hsource : w.shards[w.storedShard cfg placement.topicPartition]? = some source)
    (htarget : w.shards[placement.shardID]? = some target)
    (hsource' : PartitionRestored source source' placement.topicPartition [] 0)
    (htarget' : PartitionRestored target target' placement.topicPartition records next)
    (hcache : CacheAgrees cache ((w.withPlacement placement).storedShard cfg)) (env : Env) :
    ShardInv cfg { w.withPlacement placement with
      shards := (w.shards.insert placement.shardID target').insert
        (w.storedShard cfg placement.topicPartition) source'
      placementCache := cache, env := env } := by
  have hget : ∀ (id : UInt32) (found : StorxLogStore),
      ((w.shards.insert placement.shardID target').insert
        (w.storedShard cfg placement.topicPartition) source')[id]? = some found →
      (id = w.storedShard cfg placement.topicPartition ∧ found = source') ∨
      (id = placement.shardID ∧ found = target') ∨
      (id ≠ w.storedShard cfg placement.topicPartition ∧ w.shards[id]? = some found) := by
    intro id found hfound
    rcases Map.get_insert_eq_some hfound with ⟨heq, rfl⟩ | ⟨hdiff, hfound⟩
    · exact .inl ⟨heq.symm, rfl⟩
    · rcases Map.get_insert_eq_some hfound with ⟨heq, rfl⟩ | ⟨-, hfound⟩
      · exact .inr (.inl ⟨heq.symm, rfl⟩)
      · exact .inr (.inr ⟨Ne.symm hdiff, hfound⟩)
  have hstored : ∀ a, (w.withPlacement placement).storedShard cfg a = _ :=
    storedShard_withPlacement placement
  refine ⟨⟨h.inv.metadata.saveShardPlacement (saveShardPlacement_ok hname), h.inv.log,
    fun id found hfound => ?_⟩, fun id => ?_, fun id found hfound name => ?_,
    fun a found hfound => ?_, hcache, fun a id found hfound hdiff => ?_⟩
  · rcases hget id found hfound with ⟨_, rfl⟩ | ⟨_, rfl⟩ | ⟨_, hold⟩
    · exact hsource'.inv
    · exact htarget'.inv
    · exact h.inv.shards id found hold
  · rw [← h.shards_iff id]
    change (((w.shards.insert placement.shardID target').insert _ source')[id]?).isSome = true ↔ _
    rw [Map.get_insert, Map.get_insert]
    split
    · next heq => rw [← heq, hsource, Option.isSome_some, Option.isSome_some]
    · split
      · next heq => rw [← heq, htarget, Option.isSome_some, Option.isSome_some]
      · rfl
  · change found.topics[name]? = w.metadata.loadTopicConfig name
    rcases hget id found hfound with ⟨_, rfl⟩ | ⟨_, rfl⟩ | ⟨_, hold⟩
    · rw [hsource'.topics, h.topics_eq _ source hsource]
    · rw [htarget'.topics, h.topics_eq _ target htarget]
    · exact h.topics_eq id found hold name
  · rcases Map.get_insert_eq_some hfound with ⟨-, rfl⟩ | ⟨-, hold⟩
    · exact hmem
    · exact h.placement a found hold
  · have hdiff' : id ≠ if placement.topicPartition = a then placement.shardID
        else w.storedShard cfg a := fun heq => hdiff (heq.trans (hstored a).symm)
    rcases hget id found hfound with ⟨rfl, rfl⟩ | ⟨rfl, rfl⟩ | ⟨hnot, hold⟩
    · rw [hsource'.records, hsource'.next]
      split
      · exact ⟨rfl, rfl⟩
      · next hother =>
        rw [if_neg hother] at hdiff'
        exact h.owned a _ source hsource hdiff'
    · have hother : placement.topicPartition ≠ a := fun heq => hdiff' (if_pos heq).symm
      rw [htarget'.records, htarget'.next, if_neg hother, if_neg hother]
      rw [if_neg hother] at hdiff'
      exact h.owned a _ target htarget hdiff'
    · by_cases hsame : placement.topicPartition = a
      · exact h.owned a id found hold (hsame ▸ hnot)
      · rw [if_neg hsame] at hdiff'
        exact h.owned a id found hold hdiff'

/-- The check of a reassignment only reads. -/
lemma exec_validatePartitionReassignment (req : ReassignPartitionCommand) : ∃ result,
    exec step (validatePartitionReassignment cfg req.topic req.partition req.shardID) w
        = (result, w) ∧ (result = .ok () → req.shardID ∈ cfg.shardIDs ∧
        w.HasTopicPartition ⟨req.topic, req.partition⟩ ∧ req.topic ≠ "") := by
  unfold validatePartitionReassignment
  by_cases hshard : req.shardID ≥ cfg.shardCount
  · rw [if_pos hshard]
    exact ⟨_, rfl, nofun⟩
  · rw [if_neg hshard]
    have hload := exec_loadTopicConfig req.topic w
    cases hget : w.metadata.loadTopicConfig req.topic with
    | none =>
      rw [hget] at hload
      exact ⟨_, exec_bind_error step hload, nofun⟩
    | some topic =>
      rw [hget] at hload
      rw [exec_bind_ok step hload]
      by_cases hpart : req.partition ≥ topic.partitions
      · rw [if_pos hpart]
        exact ⟨_, rfl, nofun⟩
      · rw [if_neg hpart]
        refine ⟨_, rfl, fun _ => ⟨(mem_shardIDs cfg _).mpr (UInt32.not_le.mp hshard),
          ⟨topic, hget, UInt32.not_le.mp hpart⟩, ?_⟩⟩
        exact (h.inv.metadata.topics _ ((OrderedMap.mem_entries_iff _ _ _).mpr hget)).2.1

omit h in
/-- The commit of a move: the placement is saved and remembered. -/
lemma exec_saveReassignedPartitionPlacement {req : ReassignPartitionCommand}
    (hname : req.topic ≠ "") (w : World) :
    let placement : ShardPlacement := ⟨req.topic, req.partition, req.shardID⟩
    exec step (wrapBroker "commit partition reassignment"
        (saveReassignedPartitionPlacement req)) w
      = (.ok placement, { w.withPlacement placement with
          placementCache := w.placementCache.insert placement.topicPartition placement }) := by
  intro placement
  have hsave : exec step (wrapBroker "save reassigned shard placement"
      (onMeta (.saveShardPlacement placement))) w = (.ok (), w.withPlacement placement) :=
    exec_saveShardPlacement _ hname w
  exact exec_wrapBroker_ok ((exec_bind_ok step hsave).trans rfl) _

/-- A shard hands out a partition as it has it. -/
lemma exec_snapshotPartition (hpart : w.HasTopicPartition tp) (hlog : w.shards[id]? = some log)
    (context : String) : ∃ topic : TopicConfig, topic.name = tp.topic ∧
      exec step (wrapBroker context (onLog (.shard id) (.snapshotPartition tp))) w
        = (.ok ⟨topic, tp, log.recordsAt tp, log.nextOffset tp⟩, w) := by
  obtain ⟨topic, htopic, hsnapshot⟩ := snapshotPartition_of_hasPartition (h.inv.shards id log hlog)
    ((h.hasPartition_iff hlog tp).mpr hpart)
  refine ⟨topic, htopic, exec_wrapBroker_ok ?_ _⟩
  rw [exec_onShard hlog rfl]
  simp only [LogOp.run]
  rw [hsnapshot, Map.insert_eq_self _ _ _ hlog]

/-- The target of a move has what the source has. -/
lemma exec_movePartitionSnapshot (hpart : w.HasTopicPartition tp) {source target : UInt32}
    {sourceLog targetLog : StorxLogStore} (hsource : w.shards[source]? = some sourceLog)
    (htarget : w.shards[target]? = some targetLog) :
    ∃ targetLog', exec step (MessageRuntime.movePartitionSnapshot source target tp) w
        = (.ok (), { w with shards := w.shards.insert target targetLog' }) ∧
      PartitionRestored targetLog targetLog' tp (sourceLog.recordsAt tp)
        (sourceLog.nextOffset tp) := by
  have hsourceInv := h.inv.shards source sourceLog hsource
  obtain ⟨topic, htopic, hsnapshot⟩ := exec_snapshotPartition h hpart hsource
    "snapshot source partition for reassignment"
  let snapshot : PartitionSnapshot :=
    ⟨topic, tp, sourceLog.recordsAt tp, sourceLog.nextOffset tp⟩
  have hhas : targetLog.HasPartition snapshot.topicPartition :=
    (h.hasPartition_iff htarget tp).mpr hpart
  obtain ⟨targetLog', hreplace, hrestored⟩ := replacePartition_spec
    (h.inv.shards target targetLog htarget) hhas htopic (hsourceInv.ordered tp)
    (hsourceInv.below tp)
  refine ⟨targetLog', (exec_bind_ok step hsnapshot).trans (exec_wrapBroker_ok ?_ _), hrestored⟩
  rw [exec_onShard htarget rfl]
  simp only [LogOp.run]
  rw [hreplace]

/-- **A move of a partition** to a shard. -/
theorem ShardInv.reassignPartitionData {req : ReassignPartitionCommand}
    (hmem : req.shardID ∈ cfg.shardIDs) (hpart : w.HasTopicPartition ⟨req.topic, req.partition⟩)
    (hname : req.topic ≠ "") : ∃ result w',
    exec step (MessageRuntime.reassignPartitionData cfg ⟨req.topic, req.partition⟩ req.shardID
        (saveReassignedPartitionPlacement req)) w = (result, w') ∧
      ShardInv cfg w' ∧ w'.metadata.topics = w.metadata.topics ∧
      ∀ tp, (w.metadata.loadShardPlacement tp).isSome = true →
        (w'.metadata.loadShardPlacement tp).isSome = true := by
  let placement : ShardPlacement := ⟨req.topic, req.partition, req.shardID⟩
  obtain ⟨found, cache, hresolve, hshard, hinv⟩ := h.exec_resolve ⟨req.topic, req.partition⟩
  have hkept : ∀ tp, (w.metadata.loadShardPlacement tp).isSome = true →
      ((w.withPlacement placement).metadata.loadShardPlacement tp).isSome = true :=
    fun tp htp => (isSome_withPlacement placement tp).mpr (Or.inr htp)
  -- the cache after the commit agrees with the placements after it
  have hcache : CacheAgrees (cache.insert placement.topicPartition placement)
      ((w.withPlacement placement).storedShard cfg) := by
    intro a p hget
    rw [storedShard_withPlacement]
    rcases Map.get_insert_eq_some hget with ⟨heq, rfl⟩ | ⟨hne, hold⟩
    · rw [if_pos heq]
    · rw [if_neg hne]
      exact hinv.cache a p hold
  unfold MessageRuntime.reassignPartitionData
  rw [exec_bind_ok step hresolve]
  by_cases hsame : found.shardID = req.shardID
  · rw [if_pos hsame, exec_saveReassignedPartitionPlacement hname]
    have hplace : placement.shardID = w.storedShard cfg placement.topicPartition :=
      hsame.symm.trans hshard
    refine ⟨_, _, rfl, hinv.savePlacement hname hplace fun a p hget => ?_, rfl, hkept⟩
    rw [hcache a p hget, storedShard_withPlacement]
    split
    · next heq =>
      rw [hplace, heq]
      rfl
    · rfl
  · rw [if_neg hsame]
    obtain ⟨source, hsource⟩ := h.ownerLog placement.topicPartition
    obtain ⟨target, htarget⟩ := Option.isSome_iff_exists.mp ((h.shards_iff _).mpr hmem)
    rw [hshard] at hsame ⊢
    have hsourceInv := h.inv.shards _ source hsource
    have hsourceHas := (h.hasPartition_iff hsource _).mpr hpart
    let w1 : World := { w with placementCache := cache }
    have hregistered : ∀ {id : UInt32} {log : StorxLogStore}, w.shards[id]? = some log →
        exec step (ask (.shardByID id)) w1
          = (.ok (), w1) := by
      intro id log hlog
      change ((w1.logAt (.shard id)).map fun _ => (), _) = _
      rw [logAt, show w1.shards[id]? = some log from hlog]
      rfl
    obtain ⟨target', hmove, htarget'⟩ := exec_movePartitionSnapshot hinv hpart hsource htarget
    let sourceID := w.storedShard cfg placement.topicPartition
    let w2 : World := { w1 with shards := w.shards.insert req.shardID target' }
    let w3 : World := { w2.withPlacement placement with
      placementCache := cache.insert placement.topicPartition placement }
    have hcommit : exec step (wrapBroker "commit partition reassignment"
        (saveReassignedPartitionPlacement req)) w2 = (.ok placement, w3) :=
      exec_saveReassignedPartitionPlacement hname w2
    have hsource3 : w3.shards[sourceID]? = some source :=
      (Map.get_insert_of_ne _ _ (Ne.symm hsame)).trans hsource
    let source' := source.clearPartitionLocked placement.topicPartition
    have hclear : source.clearPartition placement.topicPartition = .ok source' :=
      clearPartition_of_hasPartition hsourceHas
    have hcleared : exec step (Prog.attempt
        (onLog (.shard sourceID) (.clearPartition placement.topicPartition))) w3
        = (.ok (.ok ()), { w3 with shards := w3.shards.insert sourceID source' }) := by
      rw [exec_attempt, exec_onShard hsource3 rfl]
      simp only [LogOp.run]
      rw [hclear]
      rfl
    refine ⟨_, _, (exec_bind_ok step (hregistered hsource)).trans
      ((exec_bind_ok step (hregistered htarget)).trans
        ((exec_bind_ok step hmove).trans ((exec_bind_ok step hcommit).trans
          ((exec_bind_ok step hcleared).trans rfl)))), ?_, rfl, hkept⟩
    exact h.move hname hmem hsource htarget (clearPartitionLocked_spec hsourceInv hsourceHas)
      htarget' hcache w.env

/-- **A reassignment command** moves the partition or leaves everything as it was. -/
theorem ShardInv.applyReassignPartition (hplaced : AllPlaced w) (hsharded : cfg.sharded = true)
    (req : ReassignPartitionCommand) :
    ShardInv cfg ((Broker.applyReassignPartition cfg req).run w).2 ∧
      AllPlaced ((Broker.applyReassignPartition cfg req).run w).2 := by
  obtain ⟨result, hvalidate, hvalid⟩ := exec_validatePartitionReassignment h req
  unfold Broker.applyReassignPartition Handling.run
  cases result with
  | error err =>
    rw [exec_bind_error step hvalidate]
    exact ⟨h, hplaced⟩
  | ok _ =>
    obtain ⟨hmem, hpart, hname⟩ := hvalid rfl
    obtain ⟨result, w', hrun, h', htopics, hkept⟩ := h.reassignPartitionData hmem hpart hname
    rw [exec_bind_ok step hvalidate, if_pos hsharded]
    rw [exec_wrapBroker, hrun]
    refine ⟨h', fun tp htp => hkept tp (hplaced tp ?_)⟩
    obtain ⟨topic, htopic, hlt⟩ := htp
    refine ⟨topic, ?_, hlt⟩
    rw [← htopic, MemoryStore.loadTopicConfig, MemoryStore.loadTopicConfig, htopics]

end

/-! ## Cleaning -/

section
variable {cfg : Config} {w : World}

lemma ShardInv.cleanLogs (h : ShardInv cfg w) (hsharded : cfg.sharded = true)
    {clean : StorxLogStore → StorxLogStore} (hclean : ∀ log, LogInv log → Trimmed log (clean log)) :
    ShardInv cfg (cleanLogs cfg clean w) := by
  have hinv := h.inv.cleanLogs cfg fun log hlog => (hclean log hlog).inv
  unfold MessageRuntime.cleanLogs at hinv ⊢
  rw [if_pos hsharded] at hinv ⊢
  have hget : ∀ (id : UInt32) (found : StorxLogStore),
      (w.shards.map fun _ log => clean log)[id]? = some found →
      ∃ log : StorxLogStore, w.shards[id]? = some log ∧ Trimmed log found := by
    intro id found hfound
    rw [Std.ExtTreeMap.getElem?_map] at hfound
    obtain ⟨log, hlog, rfl⟩ := Option.map_eq_some_iff.mp hfound
    exact ⟨log, hlog, hclean log (h.inv.shards id log hlog)⟩
  refine h.of_shards hinv rfl h.cache (fun id => ?_) fun id found hfound => ?_
  · dsimp only
    rw [Std.ExtTreeMap.getElem?_map, Option.isSome_map]
  · obtain ⟨log, hlog, htrim⟩ := hget id found hfound
    refine ⟨log, hlog, htrim.topics, fun a _ hempty => ⟨sublist_nil.mp (hempty.1 ▸ htrim.records a), ?_⟩⟩
    rw [htrim.next, hempty.2]

end

/-! ## Runs -/

section
variable {cfg : Config} (hsharded : cfg.sharded = true)

include hsharded

lemma ShardInv.fresh (env : Env) : ShardInv cfg (World.fresh cfg env) := by
  have hget : ∀ (id : UInt32) (log : StorxLogStore), (World.fresh cfg env).shards[id]? = some log →
      log = {} := by
    intro id log hlog
    rw [World.get_fresh_shards] at hlog
    split at hlog
    · cases hlog
      rfl
    · cases hlog
  refine ⟨WorldInv.fresh cfg env, fun id => ?_, fun id log hlog name => ?_, fun tp placement hget => ?_,
    fun tp placement hget => ?_, fun tp id log hlog _ => ?_⟩
  · rw [World.get_fresh_shards]
    simp [hsharded]
  · rw [hget id log hlog]
    simp [World.fresh, MemoryStore.loadTopicConfig, OrderedMap.empty, OrderedMap.get?]
  · simp [World.fresh, MemoryStore.loadShardPlacement] at hget
  · simp [World.fresh] at hget
  · rw [hget id log hlog]
    simp [recordsAt, nextOffset]

omit hsharded in
lemma AllPlaced.congr {w w' : World} (hplaced : AllPlaced w) (hsame : w'.metadata = w.metadata) :
    AllPlaced w' := by
  intro tp htp
  rw [hsame]
  refine hplaced tp ?_
  rw [World.HasTopicPartition, ← hsame]
  exact htp

/-- **One operation** of a runtime keeps the shards alike and every partition placed. -/
theorem ShardInv.op {w : World} (h : ShardInv cfg w) (hplaced : AllPlaced w) (op : RuntimeOp) :
    ShardInv cfg (op.run cfg w) ∧ AllPlaced (op.run cfg w) := by
  cases op with
  | createTopic topic => exact h.applyCreateTopic hplaced hsharded topic
  | publish tp record =>
    obtain ⟨h', hsame⟩ := h.publish hsharded tp record
    exact ⟨h', hplaced.congr hsame⟩
  | publishBatch tp records =>
    obtain ⟨h', hsame⟩ := h.publishBatch hsharded tp records
    exact ⟨h', hplaced.congr hsame⟩
  | fetch consumer tp offset maxRecords =>
    obtain ⟨h', hsame⟩ := h.fetch hsharded consumer tp offset maxRecords
    exact ⟨h', hplaced.congr hsame⟩
  | reassign req => exact h.applyReassignPartition hplaced hsharded req
  | enforceRetention nowMS =>
    exact ⟨h.cleanLogs hsharded fun log hlog => trimmed_enforceRetention hlog nowMS,
      hplaced.congr (MessageRuntime.metadata_cleanLogs cfg _ w)⟩
  | compact nowMS =>
    exact ⟨h.cleanLogs hsharded fun log hlog => trimmed_compact hlog nowMS,
      hplaced.congr (MessageRuntime.metadata_cleanLogs cfg _ w)⟩

/-- **In every state of a run** the shards are alike and every partition is placed. -/
theorem shardInv_runtimeRun (env : Env) (ops : List RuntimeOp) :
    ShardInv cfg (runtimeRun cfg env ops) ∧ AllPlaced (runtimeRun cfg env ops) := by
  refine @foldlRecOn _ _ (fun w => ShardInv cfg w ∧ AllPlaced w) ops _ _
    ⟨.fresh hsharded env, fun tp htp => ?_⟩ fun w h op _ => h.1.op hsharded h.2 op
  obtain ⟨topic, htopic, _⟩ := htp
  simp [fresh, MemoryStore.loadTopicConfig, OrderedMap.empty, OrderedMap.get?] at htopic

end

def twoShards : Config := { dataShardCount := 2 }

/-- A topic of two partitions, and a record in the first. -/
def oneRecord : World :=
  runtimeRun twoShards { clock := fun _ => 1, jitter := fun _ => 0 }
    [.createTopic { newTopicConfig "orders" with partitions := 2 },
     .publish ⟨"orders", 0⟩ { timestampMS := some 5, payload := [1] }]

end Ech0.Broker
