/-
  The two caches in front of the metadata (`brokerShardResolver`, `Broker.topicConfig`).

  A placement is cached together with every save of it, so the shard resolver answers with what is
  stored as long as the placements are written one by one (`PlacementsAgree`). The configuration of a
  topic is cached as it was handed to the store, which fills in what is missing; and the restoration of
  a snapshot replaces both tables behind the caches. Between these, both lookups give what is stored.
-/
import Ech0.Broker.ShardedRuntime
import Ech0.Broker.Fetch

set_option autoImplicit false

namespace Ech0.Broker

open Ech0.Lib Ech0.Store StorxLogStore Prog ShardResolver List

variable {w w1 : World} {placement : ShardPlacement} (cfg : Config)

/-! ## The broker with its topic cache (`topic_cache.go`, `service_apply.go`, `retry_delay.go`) -/

/-- A broker, and the topics it has cached. -/
abbrev CachedWorld := World × Map String TopicConfig

/-- `Broker.topicConfig`: the cached configuration, or the stored one. -/
def CachedWorld.topicConfig (s : CachedWorld) (name : String) : Option TopicConfig :=
  s.2[name]?.or (s.1.metadata.loadTopicConfig name)

/-- What a lookup leaves in the cache: a stored configuration that was not in it. -/
def CachedWorld.lookup (s : CachedWorld) (name : String) : CachedWorld :=
  match s.topicConfig name with
  | some topic => (s.1, s.2.insert name topic)
  | none => s

/-- What touches the caches or the tables behind them. Of the handlers that only look a partition up,
`fetchScoped` stands for all: they reach the cache of placements by the same `resolve`. -/
inductive CacheStep where
  | create (topic : TopicConfig)
  | ensureAux (source : TopicConfig) (auxTopic : String)
  | fetch (raftRead : Except Error Unit) (consumer : String) (tp : TopicPartition)
      (offset : Option Nat) (maxRecords : Nat)
  | reassign (req : ReassignPartitionCommand)
  | restore (snapshot : Snapshot)
  /-- A topic is looked up, as many handlers do before they act. -/
  | lookup (name : String)
  /-- The cache drops an entry. -/
  | evict (name : String)

/-- What an operation does to the broker and to the cache: `applyCreateTopic` and `ensureAuxTopic` cache
the configuration they have written, and a restoration writes neither cache. -/
def CacheStep.run (cfg : Config) : CacheStep → CachedWorld → CachedWorld
  | create topic, s =>
    match Prog.exec step (applyCreateTopic cfg topic) s.1 with
    | (.ok topic, w) => (w, s.2.insert topic.name topic)
    | (.error _, w) => (w, s.2)
  | ensureAux source auxTopic, s =>
    match Prog.exec step (ensureAuxTopic cfg source auxTopic) s.1 with
    | (.ok (), w) => (w, s.2.insert auxTopic (auxTopicConfig source auxTopic))
    | (.error _, w) => (w, s.2)
  | fetch raftRead consumer tp offset maxRecords, s =>
    ((Prog.exec step (fetchScoped cfg raftRead consumer tp offset maxRecords) s.1).2, s.2)
  | reassign req, s => ((Prog.exec step (applyReassignPartition cfg req) s.1).2, s.2)
  | restore snapshot, s => ((s.1.restore cfg snapshot).2, s.2)
  | lookup name, s => s.lookup name
  | evict name, s => (s.1, s.2.erase name)

/-! ## Programs that write neither table -/

/-- A call that writes no table and caches no placement. -/
def Op.plain : Op → Prop
  | .cacheShardPlacement _ => False
  | op => op.writes = none

lemma Op.plain.writes {op : Op} (h : op.plain) : op.writes = none := by
  cases op with
  | cacheShardPlacement placement => exact h.elim
  | metadata op => exact h
  | _ => rfl

section Plain

variable {C : (α : Type) → Handling α → Prop} (hC : Prog.Closed C) {cfg : Config}
  (hop : ∀ op : Op, op.plain → C _ (ask op))
  (hresolve : ∀ tp, C _ (resolve cfg tp))

include hC hop

lemma plain_topicExists (topic : String) : C _ (MessageRuntime.topicExists cfg topic) :=
  Parts.topicExists hC (hop (.metadata (.loadTopicConfig topic)) rfl) fun ref =>
    hop (.log ref (.topicExists topic)) rfl

lemma plain_createTopicLogs (topic : TopicConfig) : C _ (MessageRuntime.createTopicLogs cfg topic) := by
  refine hC.bind (hC.collect _ fun id _ => ?_) fun errors => ?_
  · refine hC.bind (hC.attempt (hop (.log (.shard id) (.createTopic topic)) rfl)) fun result => ?_
    cases result <;> exact hC.pure _
  · split
    · exact hC.pure _
    · exact hC.fail _

include hresolve

lemma plain_logFor (tp : TopicPartition) : C _ (MessageRuntime.logFor cfg tp) :=
  Parts.logFor hC tp fun _ => hC.bind (hresolve tp) fun placement =>
    hC.bind (hop (.shardByID placement.shardID) rfl) fun _ => hC.pure _

lemma plain_fetchScoped (raftRead : Except Error Unit) (consumer : String) (tp : TopicPartition)
    (offset : Option Nat) (maxRecords : Nat) :
    C _ (fetchScoped cfg raftRead consumer tp offset maxRecords) := by
  have hmeta : ∀ op : MetaOp, op.writes = none → C _ (onMeta op) := fun op h => hop (.metadata op) h
  have hoffsets : C _ (MessageRuntime.partitionOffsets cfg tp) :=
    Parts.partitionOffsets hC (plain_logFor hC hop hresolve tp) fun ref =>
      hop (.log ref (.partitionOffsets tp)) rfl
  have hstart : C _ (fetchStartOffset cfg consumer tp offset) := by
    refine hC.bind (hC.mapError _ hoffsets) fun offsets => ?_
    cases offset with
    | some offset => exact hC.pure _
    | none =>
      refine hC.bind (hC.mapError _ (hmeta (.loadConsumerOffset consumer tp) rfl)) fun committed => ?_
      cases committed <;> exact hC.pure _
  refine hC.bind (hC.ofExcept _) fun _ => hC.bind (hC.bind (hC.bind
    (hC.mapError _ (hmeta (.loadConsumerPause consumer tp) rfl)) fun _ => hC.pure _) fun paused => ?_)
    fun poll => ?_
  · exact hC.ite (hC.bind hstart fun _ => hC.bind (hC.mapError _ hoffsets) fun _ => hC.pure _) (hC.pure _)
  · cases poll with
    | some poll => exact hC.pure _
    | none =>
      refine hC.bind (hC.mapError _ (Parts.fetch hC (plain_logFor hC hop hresolve tp)
        (fun ref => hop (.log ref (.partitionOffsets tp)) rfl) (hmeta (.loadConsumerOffset consumer tp) rfl)
        fun ref start => hop (.log ref (.readFrom tp start _)) rfl)) fun poll => hC.bind
          (hC.bind ?_ fun records => ?_) fun _ => hC.pure _
      · refine hC.ite (hC.pure _) (hC.bind
          (hC.mapError _ (hmeta (.loadConsumerOffsetState consumer tp) rfl)) fun state => ?_)
        cases state with
        | none => exact hC.pure _
        | some state => exact hC.ite (hC.pure _) (hC.pure _)
      · exact hC.ite (hC.pure _) (hC.bind
          (Parts.loadTopicConfig hC (hmeta (.loadTopicConfig tp.topic) rfl)) fun topic =>
            hC.ite (hC.ofExcept _) (hC.pure _))

lemma plain_applyReassignPartition {req : ReassignPartitionCommand}
    (hcommit : C _ (saveReassignedPartitionPlacement req)) :
    C _ (applyReassignPartition cfg req) := by
  refine Parts.applyReassignPartition hC (hop (.metadata (.loadTopicConfig req.topic)) rfl)
    (fun _ => hC.bind (hresolve _) fun source => hC.ite (hC.mapError _ hcommit) ?_) hcommit
  exact hC.bind (hop (.shardByID _) rfl) fun _ => hC.bind (hop (.shardByID _) rfl) fun _ => hC.bind
    (hC.bind (hC.mapError _ (hop (.log _ (.snapshotPartition _)) rfl)) fun snapshot =>
      hC.mapError _ (hop (.log _ (.replacePartition snapshot)) rfl)) fun _ =>
    hC.bind (hC.mapError _ hcommit) fun _ =>
    hC.bind (hC.attempt (hop (.log _ (.clearPartition _)) rfl)) fun _ => hC.pure _

end Plain

/-! ## Placements -/

/-- Every placement stands under its partition, and the cache holds no other one. -/
structure PlacementsAgree (w : World) : Prop where
  keyed : ∀ tp placement, w.metadata.loadShardPlacement tp = some placement →
    placement.topicPartition = tp
  cached : ∀ (tp : TopicPartition) (found placement : ShardPlacement), w.placementCache[tp]? = some found →
    w.metadata.loadShardPlacement tp = some placement → found = placement

section Placements

variable {w : World}

lemma PlacementsAgree.congr {w' : World} (h : PlacementsAgree w)
    (hplacements : w'.metadata.placements = w.metadata.placements)
    (hcache : w'.placementCache = w.placementCache) : PlacementsAgree w' := by
  have hload : ∀ tp, w'.metadata.loadShardPlacement tp = w.metadata.loadShardPlacement tp := by
    intro tp
    unfold MemoryStore.loadShardPlacement
    rw [hplacements]
  refine ⟨fun tp placement hstored => ?_, fun tp found placement hfound hstored => ?_⟩
  · exact h.keyed tp placement (hload tp ▸ hstored)
  · exact h.cached tp found placement (hcache ▸ hfound) (hload tp ▸ hstored)

/-- A placement is cached that is the one stored, if one is. -/
lemma PlacementsAgree.cache (h : PlacementsAgree w)
    (hsame : ∀ stored, w.metadata.loadShardPlacement placement.topicPartition = some stored →
      placement = stored) :
    PlacementsAgree { w with placementCache :=
      w.placementCache.insert placement.topicPartition placement } := by
  refine ⟨h.keyed, fun tp found stored hfound hstored => ?_⟩
  rcases Map.get_insert_eq_some hfound with ⟨rfl, rfl⟩ | ⟨-, hold⟩
  · exact hsame stored hstored
  · exact h.cached tp found stored hold hstored

/-- A placement is saved, and cached after it. -/
lemma PlacementsAgree.save (h : PlacementsAgree w) (placement : ShardPlacement) :
    PlacementsAgree (step (.cacheShardPlacement placement) (w.withPlacement placement)).2 := by
  refine ⟨fun tp stored hstored => ?_, fun tp found stored hfound hstored => ?_⟩
  · rcases Map.get_insert_eq_some hstored with ⟨rfl, rfl⟩ | ⟨-, hold⟩
    · rfl
    · exact h.keyed tp stored hold
  · rcases Map.get_insert_eq_some hfound with ⟨rfl, rfl⟩ | ⟨hne, hold⟩
    · exact Option.some.inj ((Map.get_insert_self _ _ _).symm.trans hstored)
    · exact h.cached tp found stored hold ((Map.get_insert_of_ne _ _ hne).symm.trans hstored)

/-- The programs that keep the placements and their cache in agreement. -/
abbrev KeepsPlacements := Prog.Keeps (I := calls) (ε := Error) step PlacementsAgree

lemma keepsPlacements_closed : Closed KeepsPlacements := keeps_closed step PlacementsAgree

lemma keepsPlacements_op (op : Op) (h : op.writes ≠ some .placements)
    (hcache : ∀ placement, op ≠ .cacheShardPlacement placement) : KeepsPlacements _ (ask op) := by
  intro w hw
  refine hw.congr (keepsTable_step op h w) ?_
  cases op with
  | cacheShardPlacement placement => exact absurd rfl (hcache placement)
  | log ref op =>
    change (step (.log ref op) w).2.placementCache = _
    simp only [step]
    cases hlog : w.logAt ref with
    | error err => rfl
    | ok log => cases ref <;> rfl
  | _ => rfl

lemma keepsPlacements_plain (op : Op) (h : op.plain) : KeepsPlacements _ (ask op) := by
  refine keepsPlacements_op op (by simp [h.writes]) ?_
  rintro placement rfl
  exact h

/-- A stored placement is the one that the shard resolver finds. -/
lemma PlacementsAgree.placementOf (h : PlacementsAgree w) {tp : TopicPartition}
    (hstored : w.metadata.loadShardPlacement tp = some placement) :
    w.placementOf cfg tp = placement := by
  unfold World.placementOf
  rw [hstored]
  cases hcached : w.placementCache[tp]? with
  | some found => exact h.cached tp found placement hcached hstored
  | none => rfl

lemma keepsPlacements_resolve (tp : TopicPartition) : KeepsPlacements _ (resolve cfg tp) := by
  intro w hw
  rw [exec_resolve_eq cfg (hw.keyed tp)]
  refine ⟨hw.keyed, fun a found stored hfound hstored => ?_⟩
  rcases Map.get_insert_eq_some hfound with ⟨rfl, rfl⟩ | ⟨-, hold⟩
  · exact hw.placementOf cfg hstored
  · exact hw.cached a found stored hold hstored

lemma keepsPlacements_save (context : String) (placement : ShardPlacement) :
    KeepsPlacements _ (do
      wrapBroker context (onMeta (.saveShardPlacement placement))
      cacheShardPlacement placement) := by
  intro w hw
  by_cases hname : placement.topic = ""
  · have hrun : exec step (wrapBroker context (onMeta (.saveShardPlacement placement))) w
        = (.error (Error.wrap context (E .invalidArgument "shard placement topic is required")), w) := by
      change ((MetaOp.save w.metadata (w.metadata.saveShardPlacement placement)).1.mapError _,
        { w with metadata := (MetaOp.save w.metadata (w.metadata.saveShardPlacement placement)).2 }) = _
      rw [MemoryStore.saveShardPlacement, MemoryStore.validateShardPlacement, if_pos hname]
      rfl
    rw [exec_bind_error step hrun]
    exact hw
  · rw [exec_bind_ok step (exec_saveShardPlacement context hname w)]
    exact hw.save placement

lemma keepsPlacements_ensureTopic (topic : TopicConfig) :
    KeepsPlacements _ (ensureTopic cfg topic) := by
  refine Parts.ensureTopic keepsPlacements_closed fun placement _ w hw => ?_
  unfold ensurePlacement
  rw [exec_bind_ok step (exec_loadShardPlacement _ w)]
  cases hget : w.metadata.loadShardPlacement placement.topicPartition with
  | some existing =>
    refine hw.cache fun stored hstored => ?_
    rw [hw.keyed _ existing hget, hget] at hstored
    exact Option.some.inj hstored
  | none => exact keepsPlacements_save "save shard placement" placement w hw

lemma keepsPlacements_commit (req : ReassignPartitionCommand) :
    KeepsPlacements _ (saveReassignedPartitionPlacement req) := by
  have hsave := keepsPlacements_save "save reassigned shard placement" ⟨req.topic, req.partition, req.shardID⟩
  intro w hw
  have hafter := hsave w hw
  unfold saveReassignedPartitionPlacement
  rw [exec_bind] at hafter ⊢
  split at hafter
  · exact hafter
  · exact hafter

/-- The shard resolver answers with a placement that is stored. -/
lemma PlacementsAgree.resolve (h : PlacementsAgree w) (cfg : Config) {tp : TopicPartition}
    (hstored : w.metadata.loadShardPlacement tp = some placement) :
    (exec step (resolve cfg tp) w).1 = .ok placement := by
  rw [exec_resolve_eq cfg (h.keyed tp), h.placementOf cfg hstored]

end Placements

/-! ## Topics -/

abbrev KeepsTopics := Prog.Advances (I := calls) (ε := Error) step (KeepsTable .topics)

lemma keepsTopics_plain (op : Op) (h : op.plain) : KeepsTopics _ (ask op) := by
  exact keepsTable_step op (by simp [h.writes])

lemma keepsTopics_resolve (tp : TopicPartition) : KeepsTopics _ (resolve cfg tp) := by
  have hC := keepsTable_closed .topics
  refine hC.bind (keepsTopics_plain (.cachedPlacement tp) rfl) fun cached => ?_
  cases cached with
  | some placement => exact hC.pure _
  | none =>
    exact hC.bind (hC.mapError _ (keepsTopics_plain (.metadata (.loadShardPlacement tp)) rfl))
      fun stored => hC.bind (fun w => rfl) fun _ => hC.pure _

lemma keepsTopics_commit (req : ReassignPartitionCommand) :
    KeepsTopics _ (saveReassignedPartitionPlacement req) := by
  have hC := keepsTable_closed .topics
  have hwrites : Op.writes (.metadata (.saveShardPlacement ⟨req.topic, req.partition, req.shardID⟩))
      ≠ some .topics := by
    show some Table.placements ≠ some .topics
    decide
  exact hC.bind (hC.mapError _ fun w => keepsTable_step _ hwrites w)
    fun _ => hC.bind (fun w => rfl) fun _ => hC.pure _

/-- The placements of a topic with a name can all be written. -/
lemma exec_ensureTopic {topic : TopicConfig} (hname : topic.name ≠ "") (w : World) :
    ∃ w', exec step (ensureTopic cfg topic) w = (.ok (), w') ∧
      w'.metadata.topics = w.metadata.topics := by
  have hplan : ∀ placement ∈ planTopic cfg topic, placement.topic ≠ "" := by
    intro placement hmem
    obtain ⟨tp, -, rfl⟩ := mem_map.mp hmem
    exact hname
  unfold ensureTopic
  generalize planTopic cfg topic = placements at hplan
  induction placements generalizing w with
  | nil => exact ⟨w, rfl, rfl⟩
  | cons placement rest ih =>
    have hone : ∃ w1, exec step (ensurePlacement placement) w = (.ok (), w1) ∧
        w1.metadata.topics = w.metadata.topics := by
      unfold ensurePlacement
      rw [exec_bind_ok step (exec_loadShardPlacement _ w)]
      cases w.metadata.loadShardPlacement placement.topicPartition with
      | some existing => exact ⟨_, rfl, rfl⟩
      | none =>
        have hsave := exec_saveShardPlacement "save shard placement" (hplan placement mem_cons_self) w
        exact ⟨_, (exec_bind_ok step hsave).trans rfl, rfl⟩
    obtain ⟨w1, hrun1, htopics1⟩ := hone
    obtain ⟨w2, hrun2, htopics2⟩ := ih w1 fun p hp => hplan p (mem_cons_of_mem _ hp)
    exact ⟨w2, (exec_bind_ok step hrun1).trans hrun2, htopics2.trans htopics1⟩

/-- The program writes the topic, or fails and leaves the topics as they are. -/
structure Saves {α : Type} (topic : TopicConfig) (p : Handling α) (w : World) : Prop where
  ok : ∀ a w', Prog.exec step p w = (.ok a, w') → topic.name ≠ "" ∧
    w'.metadata.topics = w.metadata.topics.set topic.name (normalizeTopic topic)
  error : ∀ err w', Prog.exec step p w = (.error err, w') → w'.metadata.topics = w.metadata.topics

section Saves

variable {α β : Type} {topic : TopicConfig} {w : World}

lemma Saves.of_ok {p : Handling α} {a : α} (hrun : exec step p w = (.ok a, w1))
    (hname : topic.name ≠ "")
    (htopics : w1.metadata.topics = w.metadata.topics.set topic.name (normalizeTopic topic)) :
    Saves topic p w := by
  refine ⟨fun b w' h => ?_, fun err w' h => ?_⟩
  · cases hrun.symm.trans h
    exact ⟨hname, htopics⟩
  · cases hrun.symm.trans h

lemma Saves.of_error {p : Handling α} {err : Error} (hrun : exec step p w = (.error err, w1))
    (hkept : w1.metadata.topics = w.metadata.topics) : Saves topic p w := by
  refine ⟨fun b w' h => ?_, fun err w' h => ?_⟩
  · cases hrun.symm.trans h
  · cases hrun.symm.trans h
    exact hkept

lemma saves_fail (err : Error) : Saves topic (Prog.fail err : Handling α) w := .of_error rfl rfl

lemma saves_save (context : String) : Saves topic (wrapBroker context (onMeta (.saveTopicConfig topic))) w := by
  have hrun : exec step (wrapBroker context (onMeta (.saveTopicConfig topic))) w
      = ((MetaOp.save w.metadata (w.metadata.saveTopicConfig topic)).1.mapError (Error.wrap context),
        { w with metadata := (MetaOp.save w.metadata (w.metadata.saveTopicConfig topic)).2 }) := rfl
  unfold MemoryStore.saveTopicConfig at hrun
  by_cases hname : topic.name = ""
  · rw [if_pos hname] at hrun
    exact .of_error hrun rfl
  · rw [if_neg hname] at hrun
    exact .of_ok hrun hname rfl

lemma Saves.mapError {p : Handling α} (h : Saves topic p w) (f : Error → Error) :
    Saves topic (p.mapError f) w := by
  refine ⟨fun a w' hrun => h.ok a w' (exec_mapError_eq_ok step hrun), fun err w' hrun => ?_⟩
  rw [exec_mapError] at hrun
  rcases hp : exec step p w with ⟨e | a, w1⟩
  · rw [hp] at hrun
    cases hrun
    exact h.error e w1 hp
  · rw [hp] at hrun
    cases hrun

lemma saves_after {p : Handling α} {f : α → Handling β} (hp : KeepsTopics _ p)
    (hf : ∀ a w', exec step p w = (.ok a, w') → Saves topic (f a) w') : Saves topic (p >>= f) w := by
  have hkept : (exec step p w).2.metadata.topics = w.metadata.topics := hp w
  rcases hrun : exec step p w with ⟨e | a, w1⟩
  · rw [hrun] at hkept
    exact .of_error (exec_bind_error step hrun) hkept
  · rw [hrun] at hkept
    have hnext := hf a w1 hrun
    refine ⟨fun b w' h => ?_, fun err w' h => ?_⟩
    · rw [exec_bind_ok step hrun] at h
      exact hkept ▸ hnext.ok b w' h
    · rw [exec_bind_ok step hrun] at h
      exact hkept ▸ hnext.error err w' h

/-- Once the topic is written, nothing fails that comes after it. -/
lemma Saves.next {p : Handling α} {q : α → Handling β} (h : Saves topic p w)
    (hq : topic.name ≠ "" → ∀ a w1, ∃ b w2, exec step (q a) w1 = (.ok b, w2) ∧
      w2.metadata.topics = w1.metadata.topics) : Saves topic (p >>= q) w := by
  rcases hrun : exec step p w with ⟨e | a, w1⟩
  · exact .of_error (exec_bind_error step hrun) (h.error e w1 hrun)
  · obtain ⟨hname, htopics⟩ := h.ok a w1 hrun
    obtain ⟨b, w2, hnext, hkept⟩ := hq hname a w1
    exact .of_ok ((exec_bind_ok step hrun).trans hnext) hname (hkept.trans htopics)

lemma exec_wrap_ensureTopic (context : String) (hname : topic.name ≠ "") (w : World) :
    ∃ w', exec step (wrapBroker context (ensureTopic cfg topic)) w = (.ok (), w') ∧
      w'.metadata.topics = w.metadata.topics := by
  obtain ⟨w', hensure, hkept⟩ := exec_ensureTopic cfg hname w
  refine ⟨w', ?_, hkept⟩
  rw [exec_wrapBroker, hensure]
  rfl

variable (cfg : Config)

lemma saves_createTopic (w : World) : Saves topic (MessageRuntime.createTopic cfg topic) w := by
  unfold MessageRuntime.createTopic
  split
  · refine saves_after (plain_topicExists (keepsTable_closed .topics) keepsTopics_plain _) fun found w1 _ => ?_
    cases found with
    | true => exact saves_fail _
    | false =>
      exact saves_after (plain_createTopicLogs (keepsTable_closed .topics) keepsTopics_plain _)
        fun _ w2 _ => saves_save _
  · exact (saves_after ((keepsTable_closed .topics).mapError _
      (keepsTopics_plain (.log .main (.createTopic topic)) rfl)) fun _ w1 _ => saves_save _).mapError _

lemma saves_applyCreateTopic (topic : TopicConfig) (w : World) :
    Saves (normalizeTopicPolicies topic) (applyCreateTopic cfg topic) w := by
  refine saves_after ((keepsTable_closed .topics).ofExcept _) fun _ w1 _ => ?_
  split
  · exact saves_fail _
  · refine ((saves_createTopic cfg w1).mapError _).next fun hname _ w2 => ?_
    obtain ⟨w3, hensure, hkept⟩ := exec_wrap_ensureTopic cfg "ensure topic shard placement" hname w2
    exact ⟨_, w3, exec_bind_ok step hensure, hkept⟩

omit cfg in
lemma returns_applyCreateTopic {cfg : Config} {topic saved : TopicConfig} {w w' : World}
    (h : exec step (applyCreateTopic cfg topic) w = (.ok saved, w')) :
    saved = normalizeTopicPolicies topic := by
  obtain ⟨_, _, -, h⟩ := exec_bind_eq_ok step h
  split at h
  · cases h
  · obtain ⟨_, _, -, h⟩ := exec_bind_eq_ok step h
    obtain ⟨_, _, -, h⟩ := exec_bind_eq_ok step h
    cases h
    rfl

/-! ## A topic that no log has -/

omit cfg in
/-- A shard that was asked and does not have the topic. -/
lemma exec_existsOnShard {ids : List UInt32} {w w' : World} {name : String}
    (h : exec step (MessageRuntime.existsOnShard name ids) w = (.ok false, w')) :
    w' = w ∧ ∀ id ∈ ids, ∀ log : StorxLogStore, w.shards[id]? = some log → log.topicExists name = false := by
  induction ids with
  | nil =>
    cases h
    exact ⟨rfl, fun id hid => absurd hid not_mem_nil⟩
  | cons id rest ih =>
    obtain ⟨found, w1, hask, hrest⟩ := exec_bind_eq_ok step h
    have hask := exec_mapError_eq_ok step hask
    have hsame : w1 = w := by
      have hread : (step (.log (.shard id) (.topicExists name)) w).2 = w := step_log_read rfl (fun _ _ => rfl) w
      exact (congrArg Prod.snd hask).symm.trans hread
    subst hsame
    cases found with
    | true => cases hrest
    | false =>
      obtain ⟨rfl, hothers⟩ := ih hrest
      refine ⟨rfl, fun other hother log hlog => ?_⟩
      rcases mem_cons.mp hother with rfl | hother
      · have hanswer : (step (.log (.shard other) (.topicExists name)) w').1 = .ok false :=
          congrArg Prod.fst hask
        simp only [step, World.logAt, hlog] at hanswer
        exact Except.ok.inj hanswer
      · exact hothers other hother log hlog

omit cfg in
lemma code_of_wrap {α : Type} {p : Handling α} {context : String} {w w' : World} {err : Error}
    (h : exec step (wrapBroker context p) w = (.error err, w')) :
    ∃ inner, exec step p w = (.error inner, w') ∧ err.code = inner.code := by
  rw [exec_wrapBroker] at h
  rcases hp : exec step p w with ⟨e | a, w1⟩
  · rw [hp] at h
    cases h
    exact ⟨e, rfl, rfl⟩
  · rw [hp] at h
    cases h

omit cfg in
lemma code_saveTopicConfig {context : String} {w w' : World} {err : Error}
    (h : exec step (wrapBroker context (onMeta (.saveTopicConfig topic))) w = (.error err, w')) :
    err.code ≠ .topicExists := by
  obtain ⟨inner, hrun, hcode⟩ := code_of_wrap h
  have hsave : (MetaOp.save w.metadata (w.metadata.saveTopicConfig topic)).1 = .error inner :=
    congrArg Prod.fst hrun
  unfold MemoryStore.saveTopicConfig at hsave
  rw [hcode]
  split at hsave
  · cases hsave
    decide
  · cases hsave

/-- A topic that was just found missing is not refused for being there. -/
lemma code_createTopic_absent {w2 : World} {err : Error}
    (habsent : exec step (MessageRuntime.topicExists cfg topic.name) w = (.ok false, w1))
    (h : exec step (MessageRuntime.createTopic cfg topic) w1 = (.error err, w2)) :
    err.code ≠ .topicExists := by
  have hask := habsent
  unfold MessageRuntime.topicExists at habsent
  unfold MessageRuntime.createTopic at h
  by_cases hsharded : cfg.sharded = true
  · rw [if_pos hsharded] at habsent h
    have hload : exec step
        (wrapBroker "load sharded topic config" (onMeta (.loadTopicConfig topic.name))) w
          = (.ok (w.metadata.loadTopicConfig topic.name), w) := rfl
    rw [exec_bind_ok step hload] at habsent
    cases hget : w.metadata.loadTopicConfig topic.name with
    | some found =>
      rw [hget] at habsent
      cases habsent
    | none =>
      rw [hget] at habsent
      obtain ⟨rfl, hshards⟩ := exec_existsOnShard habsent
      rw [exec_bind_ok step hask] at h
      simp only [Bool.false_eq_true, if_false] at h
      rcases hlogs : exec step (MessageRuntime.createTopicLogs cfg topic) w1 with ⟨e | _, w3⟩
      · rw [exec_bind_error step hlogs] at h
        cases h
        unfold MessageRuntime.createTopicLogs at hlogs
        obtain ⟨errors, shards', hloop, -, -, hcodes⟩ :=
          exec_createTopicLog_loop topic cfg.shardIDs (nodup_shardIDs cfg) w1
        have hcodes := hcodes hshards
        rw [exec_bind_ok step hloop] at hlogs
        cases hflat : errors.flatten with
        | nil =>
          rw [hflat] at hlogs
          cases hlogs
        | cons first rest =>
          rw [hflat] at hlogs hcodes
          cases hlogs
          exact hcodes first mem_cons_self
      · rw [exec_bind_ok step hlogs] at h
        exact code_saveTopicConfig h
  · rw [if_neg hsharded] at habsent h
    have hmain := exec_mapError_eq_ok step habsent
    have hlacks : w.log.topicExists topic.name = false := Except.ok.inj (congrArg Prod.fst hmain)
    have hsame : w1.log = w.log := congrArg (fun found => found.2.log) hmain.symm
    obtain ⟨inner, hrun, hcode⟩ := code_of_wrap h
    rw [hcode]
    unfold QueueRuntime.createTopic at hrun
    rcases hlog : exec step (wrapBroker "create log topic" (onLog .main (.createTopic topic))) w1
      with ⟨e | _, w3⟩
    · rw [exec_bind_error step hlog] at hrun
      cases hrun
      obtain ⟨reason, hcreate, hsamecode⟩ := code_of_wrap hlog
      rw [hsamecode]
      have hresult : (LogOp.save w1.log (w1.log.createTopic topic)).1 = .error reason :=
        congrArg Prod.fst hcreate
      cases hlogged : w1.log.createTopic topic with
      | ok log' =>
        rw [hlogged] at hresult
        cases hresult
      | error found =>
        rw [hlogged] at hresult
        cases hresult
        exact code_createTopic (hsame ▸ hlacks) hlogged
    · rw [exec_bind_ok step hlog] at hrun
      exact code_saveTopicConfig hrun

lemma saves_ensureAuxTopic (source : TopicConfig) (auxTopic : String) (w : World) :
    Saves (auxTopicConfig source auxTopic) (ensureAuxTopic cfg source auxTopic) w := by
  have hensure : ∀ context, (auxTopicConfig source auxTopic).name ≠ "" → ∀ w1, ∃ b w2, exec step
      (wrapBroker context (ensureTopic cfg (auxTopicConfig source auxTopic))) w1 = (.ok b, w2) ∧
      w2.metadata.topics = w1.metadata.topics := fun context hname w1 =>
    ⟨(), exec_wrap_ensureTopic cfg context hname w1⟩
  have hkeeps : KeepsTopics _ (MessageRuntime.topicExists cfg auxTopic) :=
    plain_topicExists (keepsTable_closed .topics) keepsTopics_plain _
  refine saves_after ((keepsTable_closed .topics).mapError _ hkeeps) fun found w1 hfound => ?_
  cases found with
  | true => exact (saves_save _).next fun hname _ => hensure _ hname
  | false =>
    have habsent := exec_mapError_eq_ok step hfound
    have hcreate := @saves_createTopic (auxTopicConfig source auxTopic) cfg w1
    rcases hrun : exec step (MessageRuntime.createTopic cfg (auxTopicConfig source auxTopic)) w1
      with ⟨err | _, w2⟩
    · have hcode : err.code ≠ .topicExists := code_createTopic_absent cfg habsent hrun
      refine .of_error (show _ = (Except.error (Error.wrap "create auxiliary topic" err), w2) from ?_)
        (hcreate.error err w2 hrun)
      simp only [Bool.false_eq_true, if_false, exec_bind, exec_attempt, hrun, if_neg hcode]
      rfl
    · obtain ⟨hname, htopics⟩ := hcreate.ok () w2 hrun
      obtain ⟨b, w3, hplaced, hkept⟩ := hensure "ensure auxiliary topic shard placement" hname w2
      refine .of_ok (show _ = (Except.ok b, w3) from ?_) hname (hkept.trans htopics)
      simp only [Bool.false_eq_true, if_false, exec_bind, exec_attempt, hrun]
      exact hplaced

end Saves

/-! ## Both caches -/

/-- What is cached agrees with what is stored. -/
structure CachesAgree (s : CachedWorld) : Prop where
  placements : PlacementsAgree s.1
  topics : ∀ (name : String) (topic : TopicConfig), s.2[name]? = some topic →
    s.1.metadata.loadTopicConfig name = some topic

/-- Both lookups give what is stored. -/
def Coherent (cfg : Config) (s : CachedWorld) : Prop :=
  (∀ tp placement, s.1.metadata.loadShardPlacement tp = some placement →
    (Prog.exec step (resolve cfg tp) s.1).1 = .ok placement) ∧
  ∀ name, s.topicConfig name = s.1.metadata.loadTopicConfig name

lemma CachesAgree.topicConfig {s : CachedWorld} (h : CachesAgree s) (name : String) :
    s.topicConfig name = s.1.metadata.loadTopicConfig name := by
  unfold CachedWorld.topicConfig
  cases hcached : s.2[name]? with
  | none => rfl
  | some topic =>
    rw [h.topics name topic hcached]
    rfl

lemma CachesAgree.coherent {s : CachedWorld} (h : CachesAgree s) (cfg : Config) : Coherent cfg s :=
  ⟨fun _ _ hstored => h.placements.resolve cfg hstored, h.topicConfig⟩

/-- What is written passes through the store unchanged, and what is restored agrees with the caches. -/
def CacheStep.Fits : CacheStep → CachedWorld → Prop
  | create topic, _ => normalizeTopic (normalizeTopicPolicies topic) = normalizeTopicPolicies topic
  | ensureAux source auxTopic, _ =>
    normalizeTopic (auxTopicConfig source auxTopic) = auxTopicConfig source auxTopic
  | restore snapshot, s => ∀ metadata, s.1.metadata.restore snapshot = .ok metadata →
    (∀ (tp : TopicPartition) (found placement : ShardPlacement), s.1.placementCache[tp]? = some found →
      metadata.loadShardPlacement tp = some placement → found = placement) ∧
    ∀ (name : String) (topic : TopicConfig), s.2[name]? = some topic →
      metadata.loadTopicConfig name = some topic
  | _, _ => True

section Agree

variable {cfg : Config} {s : CachedWorld}

lemma CachesAgree.of_topics (h : CachesAgree s) (hplacements : PlacementsAgree w)
    (htopics : w.metadata.topics = s.1.metadata.topics) : CachesAgree (w, s.2) := by
  refine ⟨hplacements, fun name topic hcached => ?_⟩
  change w.metadata.topics.get? name = _
  rw [htopics]
  exact h.topics name topic hcached

/-- A topic is cached as it is stored. -/
lemma CachesAgree.of_saved (h : CachesAgree s) (hplacements : PlacementsAgree w)
    {topic : TopicConfig} (hfits : normalizeTopic topic = topic)
    (htopics : w.metadata.topics = s.1.metadata.topics.set topic.name (normalizeTopic topic)) :
    CachesAgree (w, s.2.insert topic.name topic) := by
  refine ⟨hplacements, fun name found hcached => ?_⟩
  change w.metadata.topics.get? name = _
  rw [htopics, OrderedMap.get_set, hfits]
  rcases Map.get_insert_eq_some hcached with ⟨rfl, rfl⟩ | ⟨hne, hold⟩
  · exact if_pos rfl
  · rw [if_neg hne]
    exact h.topics name found hold

lemma restoreTable_keyed {K V : Type} [DecidableEq K] [Ord K] [Std.TransOrd K] [Std.LawfulEqOrd K] (key : V → K)
    (keep : V → Bool) (values : List V) (k : K) (v : V)
    (h : (MemoryStore.restoreTable key keep values)[k]? = some v) : key v = k := by
  unfold MemoryStore.restoreTable at h
  suffices hfold : ∀ table : Map K V, (∀ (k : K) (v : V), table[k]? = some v → key v = k) →
      ∀ (k : K) (v : V), (values.foldl (fun table value =>
        if keep value then table.insert (key value) value else table) table)[k]? = some v → key v = k by
    exact hfold ∅ (fun k v hv => by simp at hv) k v h
  clear h
  induction values with
  | nil => exact fun table htable => htable
  | cons value rest ih =>
    intro table htable
    refine ih _ fun k v hv => ?_
    dsimp only at hv
    split at hv
    · rcases Map.get_insert_eq_some hv with ⟨rfl, rfl⟩ | ⟨-, hold⟩
      · rfl
      · exact htable k v hold
    · exact htable k v hv

/-- The messages are restored apart from the metadata and the cache of placements. -/
lemma restore_apart (cfg : Config) (snapshot : Snapshot) (w : World) :
    (MessageRuntime.restore cfg snapshot w).2.metadata = w.metadata ∧
      (MessageRuntime.restore cfg snapshot w).2.placementCache = w.placementCache := by
  unfold MessageRuntime.restore
  split
  · split
    · exact ⟨rfl, rfl⟩
    · dsimp only
      split <;> exact ⟨rfl, rfl⟩
  · exact ⟨rfl, rfl⟩

lemma CachesAgree.restore (h : CachesAgree s) {snapshot : Snapshot}
    (hfits : (CacheStep.restore snapshot).Fits s) :
    CachesAgree ((s.1.restore cfg snapshot).2, s.2) := by
  obtain ⟨hmetadata, hcache⟩ := restore_apart cfg snapshot s.1
  unfold World.restore
  rcases hmessages : MessageRuntime.restore cfg snapshot s.1 with ⟨err | _, w⟩
  · rw [hmessages] at hmetadata hcache
    exact h.of_topics (h.placements.congr (congrArg _ hmetadata) hcache) (congrArg _ hmetadata)
  · rw [hmessages] at hmetadata hcache
    change w.metadata = s.1.metadata at hmetadata
    change w.placementCache = s.1.placementCache at hcache
    dsimp only
    rw [hmetadata]
    cases hrestored : s.1.metadata.restore snapshot with
    | error err => exact h.of_topics (h.placements.congr (congrArg _ hmetadata) hcache) (congrArg _ hmetadata)
    | ok metadata =>
      obtain ⟨hplacements, htopics⟩ := hfits metadata hrestored
      refine ⟨⟨fun tp placement hstored => ?_, fun tp found placement hfound hstored => ?_⟩, htopics⟩
      · obtain ⟨-, rfl⟩ := MemInv.check_ok hrestored
        exact restoreTable_keyed _ _ _ tp placement hstored
      · exact hplacements tp found placement (hcache ▸ hfound) hstored

/-- One operation keeps the caches in agreement, if it fits. -/
lemma CachesAgree.run (h : CachesAgree s) (operation : CacheStep) (hfits : operation.Fits s) :
    CachesAgree (operation.run cfg s) := by
  have hC := keepsPlacements_closed
  have hcreate : ∀ topic, KeepsPlacements _ (MessageRuntime.createTopic cfg topic) := fun topic =>
    Parts.createTopic hC (plain_topicExists hC keepsPlacements_plain _)
      (fun ref => keepsPlacements_plain (.log ref (.createTopic topic)) rfl)
      (keepsPlacements_op (.metadata (.saveTopicConfig topic)) nofun fun _ => nofun)
  cases operation with
  | create topic =>
    have hplacements := Parts.applyCreateTopic hC (hcreate (normalizeTopicPolicies topic))
      (keepsPlacements_ensureTopic cfg (normalizeTopicPolicies topic)) s.1 h.placements
    have hsaves := saves_applyCreateTopic cfg topic s.1
    simp only [CacheStep.run]
    rcases hrun : exec step (applyCreateTopic cfg topic) s.1 with ⟨err | saved, w⟩
    · rw [hrun] at hplacements
      exact h.of_topics hplacements (hsaves.error err w hrun)
    · rw [hrun] at hplacements
      obtain ⟨-, htopics⟩ := hsaves.ok saved w hrun
      obtain rfl := returns_applyCreateTopic hrun
      exact h.of_saved hplacements hfits htopics
  | ensureAux source auxTopic =>
    have hplacements := Parts.ensureAuxTopic hC (plain_topicExists hC keepsPlacements_plain _)
      (keepsPlacements_op (.metadata (.saveTopicConfig (auxTopicConfig source auxTopic))) nofun fun _ => nofun)
      (hcreate _) (keepsPlacements_ensureTopic cfg (auxTopicConfig source auxTopic)) s.1 h.placements
    have hsaves := saves_ensureAuxTopic cfg source auxTopic s.1
    simp only [CacheStep.run]
    rcases hrun : exec step (ensureAuxTopic cfg source auxTopic) s.1 with ⟨err | _, w⟩
    · rw [hrun] at hplacements
      exact h.of_topics hplacements (hsaves.error err w hrun)
    · rw [hrun] at hplacements
      exact h.of_saved hplacements hfits (hsaves.ok () w hrun).2
  | fetch raftRead consumer tp offset maxRecords =>
    exact h.of_topics (plain_fetchScoped hC keepsPlacements_plain (keepsPlacements_resolve cfg) raftRead
        consumer tp offset maxRecords s.1 h.placements)
      (plain_fetchScoped (keepsTable_closed .topics) keepsTopics_plain (keepsTopics_resolve cfg) raftRead
        consumer tp offset maxRecords s.1)
  | reassign req =>
    exact h.of_topics (plain_applyReassignPartition hC keepsPlacements_plain (keepsPlacements_resolve cfg)
        (keepsPlacements_commit req) s.1 h.placements)
      (plain_applyReassignPartition (keepsTable_closed .topics) keepsTopics_plain (keepsTopics_resolve cfg)
        (keepsTopics_commit req) s.1)
  | restore snapshot => exact h.restore hfits
  | lookup name =>
    have hlookup := h.topicConfig name
    simp only [CacheStep.run, CachedWorld.lookup]
    cases hfound : s.topicConfig name with
    | none => exact h
    | some topic =>
      rw [hfound] at hlookup
      refine ⟨h.placements, fun other found hcached => ?_⟩
      rcases Map.get_insert_eq_some hcached with ⟨rfl, rfl⟩ | ⟨-, hold⟩
      · exact hlookup.symm
      · exact h.topics other found hold
  | evict name =>
    refine ⟨h.placements, fun other found hcached => ?_⟩
    change (s.2.erase name)[other]? = some found at hcached
    rw [Map.get_erase] at hcached
    split at hcached
    · cases hcached
    · exact h.topics other found hcached

end Agree

def cacheRun (cfg : Config) (operations : List CacheStep) (s : CachedWorld) : CachedWorld :=
  operations.foldl (fun s operation => operation.run cfg s) s

/-- Every operation of a run fits where it comes. -/
def FitsAlong (cfg : Config) : List CacheStep → CachedWorld → Prop
  | [], _ => True
  | operation :: rest, s => operation.Fits s ∧ FitsAlong cfg rest (operation.run cfg s)

/-- **The caches.** At every point of a run, the shard resolver answers with the placement that is
stored and a topic is looked up as it is stored, if each topic is written as the store keeps it and each
restoration brings back what is cached. -/
theorem caches_coherent {cfg : Config} {operations : List CacheStep} {s : CachedWorld}
    (hagree : CachesAgree s) (hfits : FitsAlong cfg operations s) (n : Nat) :
    Coherent cfg (cacheRun cfg (operations.take n) s) := by
  suffices h : CachesAgree (cacheRun cfg (operations.take n) s) from h.coherent cfg
  induction operations generalizing s n with
  | nil =>
    rw [List.take_nil]
    exact hagree
  | cons operation rest ih =>
    cases n with
    | zero => exact hagree
    | succ n => exact ih (hagree.run operation hfits.1) hfits.2 n

/-- A broker that has just been opened. -/
def freshCached : CachedWorld := (World.fresh {} stillEnv, ∅)

lemma agree_fresh (cfg : Config) (env : Env) : CachesAgree (World.fresh cfg env, ∅) := by
  have hcache : ∀ tp : TopicPartition, (∅ : Map TopicPartition ShardPlacement)[tp]? = none := by simp
  have htopics : ∀ name : String, (∅ : Map String TopicConfig)[name]? = none := by simp
  exact ⟨⟨fun tp _ h => absurd ((hcache tp).symm.trans h) nofun,
    fun tp _ _ h => absurd ((hcache tp).symm.trans h) nofun⟩,
    fun name _ h => absurd ((htopics name).symm.trans h) nofun⟩

/-- It is enough to look at the entries of the caches. -/
lemma fits_restore {s : CachedWorld} {snapshot : Snapshot}
    (hplacements : ∀ e ∈ s.1.placementCache.toList,
      (s.1.metadata.restore snapshot).toOption.bind (·.loadShardPlacement e.1) = some e.2)
    (htopics : ∀ e ∈ s.2.toList,
      (s.1.metadata.restore snapshot).toOption.bind (·.loadTopicConfig e.1) = some e.2) :
    (CacheStep.restore snapshot).Fits s := by
  intro metadata hrestored
  rw [hrestored] at hplacements htopics
  refine ⟨fun tp found placement hfound hstored => ?_, fun name topic hcached => ?_⟩
  · have hload := hplacements (tp, found) ((Map.mem_toList _ _ _).mpr hfound)
    exact Option.some.inj (hload.symm.trans hstored)
  · exact htopics (name, topic) ((Map.mem_toList _ _ _).mpr hcached)

/-- On two shards: a topic with its expiry action and its retry topic, a fetch, and partition 0 moved to
the other shard. -/
def movedOrders : List CacheStep :=
  [.create { newTopicConfig "orders" with partitions := 2, messageExpiryAction := .delete },
   .ensureAux (newTopicConfig "orders") "__retry.orders",
   .fetch (.ok ()) "billing" ⟨"orders", 0⟩ none 10,
   .reassign ⟨"orders", 0, 1⟩]

/-- The broker restores its own snapshot, and the topic is dropped from the cache and looked up. -/
def restoredOrders : List CacheStep :=
  [.restore ((cacheRun twoShards movedOrders (World.fresh twoShards stillEnv, ∅)).1.snapshot twoShards [0, 1]),
   .evict "orders", .lookup "orders"]

theorem caches_coherent_orders :
    Coherent twoShards
      (cacheRun twoShards (movedOrders ++ restoredOrders) (World.fresh twoShards stillEnv, ∅)) ∧
    (cacheRun twoShards (movedOrders ++ restoredOrders)
      (World.fresh twoShards stillEnv, ∅)).1.metadata.loadShardPlacement ⟨"orders", 0⟩
        = some ⟨"orders", 0, 1⟩ := by
  have hfits : FitsAlong twoShards (movedOrders ++ restoredOrders)
      (World.fresh twoShards stillEnv, ∅) :=
    ⟨by unfold CacheStep.Fits; decide +kernel, by unfold CacheStep.Fits; decide +kernel, trivial, trivial,
      fits_restore (by decide +kernel) (by decide +kernel), trivial, trivial, trivial⟩
  exact ⟨caches_coherent (agree_fresh twoShards stillEnv) hfits 7, by decide +kernel⟩

/-- A topic without an expiry action is looked up without one, and is stored with one; and a broker
that has restored a snapshot without the topic still looks it up. -/
theorem cached_topic_differs :
    (cacheRun {} [.create (newTopicConfig "orders")] freshCached).topicConfig "orders"
        = some (newTopicConfig "orders") ∧
      (cacheRun {} [.create (newTopicConfig "orders")] freshCached).1.metadata.loadTopicConfig "orders"
        = some { newTopicConfig "orders" with messageExpiryAction := .delete } ∧
      (cacheRun {} [.create (newTopicConfig "orders"), .restore {}] freshCached).topicConfig "orders"
        = some (newTopicConfig "orders") ∧
      (cacheRun {} [.create (newTopicConfig "orders"), .restore {}] freshCached).1.metadata.loadTopicConfig
        "orders" = none := by
  decide +kernel

end Ech0.Broker
