/-
  What holds of a broker in every state it reaches.

  The stores stay well formed (`WorldInv`), and the log the broker was opened with only grows
  while commands are applied (`Extends`). Both are shown for one call and then hold of every
  command, since a command is made of regular calls (`Command.mem_of_regular`).
-/
import Ech0.Broker.CommandParts
import Ech0.Broker.Maintenance
import Ech0.Broker.Snapshot
import Ech0.Store.LogRestore
import Ech0.Store.MemoryInvariant

set_option autoImplicit false

namespace Ech0.Broker

open Ech0.Lib Ech0.Store Ech0.Store.StorxLogStore Prog MessageRuntime World

variable {w : World} (cfg : Config)

/-- Every store of the broker is well formed. -/
structure WorldInv (w : World) : Prop where
  metadata : MemInv w.metadata
  log : LogInv w.log
  shards : ∀ (id : UInt32) (log : StorxLogStore), w.shards[id]? = some log → LogInv log

/-! ## The placement of a partition -/

lemma exec_loadShardPlacement (tp : TopicPartition) (w : World) :
    exec step (wrapBroker "load shard placement" (onMeta (.loadShardPlacement tp))) w
      = (.ok (w.metadata.loadShardPlacement tp), w) := rfl

/-- The placement that `Resolve` finds: the cached one, the stored one, or the default. -/
def World.placementOf (cfg : Config) (w : World) (tp : TopicPartition) : ShardPlacement :=
  (w.placementCache[tp]?).getD ((w.metadata.loadShardPlacement tp).getD
    ⟨tp.topic, tp.partition, ShardResolver.shardForPartition cfg tp.partition⟩)

lemma exec_resolve_eq {tp : TopicPartition} (hkeyed : ∀ placement,
    w.metadata.loadShardPlacement tp = some placement → placement.topicPartition = tp) :
    exec step (ShardResolver.resolve cfg tp) w = (.ok (w.placementOf cfg tp),
      { w with placementCache := w.placementCache.insert tp (w.placementOf cfg tp) }) := by
  have hlook : exec step (ask (.cachedPlacement tp)) w
      = (.ok w.placementCache[tp]?, w) := rfl
  unfold placementOf
  cases hcached : w.placementCache[tp]? with
  | some placement =>
    rw [hcached] at hlook
    refine (exec_bind_ok step hlook).trans ?_
    rw [Option.getD_some, Map.insert_eq_self _ _ _ hcached]
    rfl
  | none =>
    rw [hcached] at hlook
    refine (exec_bind_ok step hlook).trans
      ((exec_bind_ok step (exec_loadShardPlacement tp w)).trans ?_)
    rw [Option.getD_none]
    generalize hplacement : (w.metadata.loadShardPlacement tp).getD
      ⟨tp.topic, tp.partition, ShardResolver.shardForPartition cfg tp.partition⟩ = placement
    have hkey : placement.topicPartition = tp := by
      rw [← hplacement]
      cases hload : w.metadata.loadShardPlacement tp with
      | none => rfl
      | some found => exact hkeyed found hload
    change (Except.ok placement,
      { w with placementCache := w.placementCache.insert placement.topicPartition placement }) = _
    rw [hkey]

/-! ## One call -/

lemma exec_loadTopicConfig (topic : String) (w : World) :
    exec step (loadTopicConfig topic) w
      = ((match w.metadata.loadTopicConfig topic with
        | some cfg => .ok cfg
        | none => .error (topicNotFound topic)), w) := by
  have hload : exec step (topicConfig topic) w = (.ok (w.metadata.loadTopicConfig topic), w) := rfl
  unfold loadTopicConfig
  refine (exec_bind_ok step hload).trans ?_
  cases w.metadata.loadTopicConfig topic <;> rfl

lemma MetaOp.inv_save {s : MemoryStore} {result : Except Error MemoryStore} (hinv : MemInv s)
    (h : ∀ s', result = .ok s' → MemInv s') : MemInv (save s result).2 := by
  cases result with
  | error err => exact hinv
  | ok s' => exact h s' rfl

lemma MetaOp.inv_run {s : MemoryStore} (hinv : MemInv s) (op : MetaOp) (hop : op.regular) :
    MemInv (op.run s).2 := by
  cases op with
  | saveTopicConfig topic => exact inv_save hinv fun _ h => hinv.saveTopicConfig h
  | saveConsumerOffsetState state => exact inv_save hinv fun _ h => hinv.saveConsumerOffsetState h
  | deleteConsumerOffsetState consumer tp => exact hinv.deleteConsumerOffsetState consumer tp
  | saveConsumerPause state => exact inv_save hinv fun _ h => hinv.saveConsumerPause hop h
  | deleteConsumerPause consumer tp => exact hinv.deleteConsumerPause consumer tp
  | saveShardPlacement placement => exact inv_save hinv fun _ h => hinv.saveShardPlacement h
  | saveGroupMember member => exact inv_save hinv fun _ h => hinv.saveGroupMember h
  | deleteExpiredGroupMembers nowMS => exact hinv.deleteExpiredGroupMembers nowMS
  | saveGroupAssignment assignment => exact inv_save hinv fun _ h => hinv.saveGroupAssignment h
  | allocateTransactionID => exact hinv.allocateTransactionID
  | saveTransaction state => exact inv_save hinv fun _ h => hinv.saveTransaction h
  | saveProducerBatch batch => exact inv_save hinv fun _ h => hinv.saveProducerBatch h
  | deleteProducerBatch batch => exact hinv.deleteProducerBatch batch
  | saveACLPolicy policy => exact inv_save hinv fun _ h => hinv.saveACLPolicy h
  | deleteACLPolicy policyID => exact inv_save hinv fun _ h => hinv.deleteACLPolicy h
  | saveDLQIndex entry => exact inv_save hinv fun _ h => hinv.saveDLQIndex h
  | _ => exact hinv

lemma LogOp.inv_run {s : StorxLogStore} (hinv : LogInv s) (clock : Nat → Nat) (op : LogOp) :
    LogInv (op.run clock s).2 := by
  cases op with
  | createTopic topic =>
    simp only [run]
    cases h : s.createTopic topic with
    | error err => exact hinv
    | ok s' => exact hinv.createTopic h
  | appendRecordsBatch tp records =>
    simp only [run]
    split
    · next stored s' h => exact (appendRecordsBatch_spec hinv h).1.inv
    · exact hinv
  | replacePartition snapshot => exact inv_replacePartition hinv snapshot
  | clearPartition tp =>
    simp only [run]
    cases h : s.clearPartition tp with
    | error err => exact hinv
    | ok s' =>
      obtain ⟨hpart, rfl⟩ := clearPartition_ok h
      exact (clearPartitionLocked_spec hinv hpart).inv
  | _ => exact hinv

namespace World

/-- A fresh broker has the logs of its shards, all empty. -/
lemma get_fresh_shards (env : Env) (id : UInt32) :
    (fresh cfg env).shards[id]? = if cfg.sharded = true ∧ id ∈ cfg.shardIDs then some {} else none := by
  have hfold : ∀ (ids : List UInt32) (shards : Map UInt32 StorxLogStore),
      (ids.foldl (fun shards id => shards.insert id {}) shards)[id]?
        = if id ∈ ids then some {} else shards[id]? := by
    intro ids
    induction ids with
    | nil => intro shards; rfl
    | cons a rest ih =>
      intro shards
      rw [List.foldl_cons, ih, Map.get_insert]
      by_cases hrest : id ∈ rest
      · simp [hrest]
      · by_cases ha : a = id
        · simp [ha]
        · simp [hrest, ha, Ne.symm ha]
  unfold fresh
  by_cases hsharded : cfg.sharded = true
  · simp only [hsharded, if_true, true_and]
    rw [hfold]
    rfl
  · simp only [hsharded]
    rfl

end World

/-! ## What a broker does, and what one call does -/

section

variable {C : (α : Type) → Handling α → Prop} (cfg : Config) (hC : Prog.Closed C)
  (hop : ∀ op : Op, op.Within { tables := [.offsets, .dlqIndexes] } →
    C _ (ask op))

include hC hop

lemma Within.isolatePoisonMessage (topic : String) (partition : UInt32) (offset : Nat)
    (reason : String) : C _ (isolatePoisonMessage cfg topic partition offset reason) := by
  have hretry : Parts.Retries C cfg := Within.retries hop hC (by decide) (by decide)
  exact hC.bind (Parts.readRecordAtOffset hC hretry _ _)
    fun _ => Parts.isolatePoisonRecord hC hretry _ _ _ _

lemma Within.deadLetterExpiredMessages (fuel nowMS : Nat) :
    C _ (deadLetterExpiredMessages cfg fuel nowMS) :=
  Parts.deadLetterExpiredMessages hC (Within.retries hop hC (by decide) (by decide))
    (Within.reads hop .listTopics trivial rfl) fuel nowMS

end

/-- A relation between a state and a later one that holds across every regular call, across the
passage of time and across the cleaning of the logs. -/
structure Advance (cfg : Config) (R : World → World → Prop) : Prop where
  refl : ∀ w, R w w
  trans : ∀ w1 w2 w3, R w1 w2 → R w2 w3 → R w1 w3
  call : ∀ w op, op.regular → R w (step op w).2
  clock : ∀ w env, R w { w with env := env }
  retention : ∀ w nowMS, R w (MessageRuntime.enforceRetention cfg nowMS w)
  compaction : ∀ w nowMS, R w (MessageRuntime.compact cfg nowMS w)

namespace Advance

variable {cfg : Config} {R : World → World → Prop} (h : Advance cfg R)

include h

lemma closed : Closed (Advances (I := calls) (ε := Error) step R) :=
  advances_closed step h.refl h.trans

lemma perform (op : Op) (hop : op.regular) : Advances step R _ (ask op) :=
  fun w => h.call w op hop

lemma applyCommand (cmd : Command) (w : World) : R w (applyCommand cfg cmd w).2 :=
  Command.mem_of_regular h.closed h.perform cmd w

lemma isolatePoisonMessage (topic : String) (partition : UInt32) (offset : Nat)
    (reason : String) (w : World) :
    R w ((isolatePoisonMessage cfg topic partition offset reason).run w).2 :=
  Within.isolatePoisonMessage cfg h.closed (fun op hop => h.perform op hop.regular) _ _ _ _ w

lemma enforceRetentionOnce (fuel : Nat) (w : World) : R w (enforceRetentionOnce cfg fuel w).2 := by
  have hletters := Within.deadLetterExpiredMessages cfg h.closed
    (fun op hop => h.perform op hop.regular) fuel (w.env.clock 0)
    { w with env := w.env.dropClock 1 }
  have hstart := h.trans _ _ _ (h.clock w (w.env.dropClock 1)) hletters
  unfold Broker.enforceRetentionOnce
  dsimp only
  unfold Handling.run
  split
  · next heq =>
    rw [heq] at hstart
    exact hstart
  · next heq =>
    rw [heq] at hstart
    exact h.trans _ _ _ hstart (h.retention _ _)

/-- **One call to all of them**: the relation holds across whatever a broker does. -/
theorem activity (activity : Activity) (w : World) : R w (activity.run cfg w) := by
  cases activity with
  | command cmd => exact h.applyCommand cmd w
  | isolatePoisonMessage topic partition offset reason =>
    exact h.isolatePoisonMessage topic partition offset reason w
  | enforceRetentionOnce fuel => exact h.enforceRetentionOnce fuel w
  | compactOnce => exact h.trans _ _ _ (h.clock w _) (h.compaction _ _)

end Advance

namespace WorldInv

variable {w : World}

lemma setLog (h : WorldInv w) {log : StorxLogStore} (hlog : LogInv log) (ref : LogRef) :
    WorldInv (w.setLog log ref) := by
  cases ref with
  | main => exact ⟨h.metadata, hlog, h.shards⟩
  | shard id =>
    refine ⟨h.metadata, h.log, fun a found hget => ?_⟩
    simp only [World.setLog, Map.get_insert] at hget
    split at hget
    · cases hget
      exact hlog
    · exact h.shards a found hget

lemma logAt (h : WorldInv w) {ref : LogRef} {log : StorxLogStore} (hlog : w.logAt ref = .ok log) :
    LogInv log := by
  cases ref with
  | main =>
    cases hlog
    exact h.log
  | shard id => exact h.shards id log (logAt_shard.mp hlog)

lemma of_logAt (hmetadata : MemInv w.metadata)
    (hlogs : ∀ ref log, w.logAt ref = .ok log → LogInv log) : WorldInv w :=
  ⟨hmetadata, hlogs .main w.log rfl, fun id log hget => hlogs (.shard id) log (logAt_shard.mpr hget)⟩

lemma step (h : WorldInv w) (op : Op) (hop : op.regular) : WorldInv (step op w).2 := by
  cases op with
  | metadata op =>
    exact ⟨MetaOp.inv_run h.metadata op hop, h.log, h.shards⟩
  | log ref op =>
    simp only [Broker.step]
    split
    · exact h
    · next log hlog =>
      have hset := h.setLog (LogOp.inv_run (h.logAt hlog) w.env.clock op) ref
      exact ⟨hset.metadata, hset.log, hset.shards⟩
  | _ => exact ⟨h.metadata, h.log, h.shards⟩

/-! ## Whole runs -/

theorem applyCommand (h : WorldInv w) (cfg : Config) (cmd : Command) :
    WorldInv (applyCommand cfg cmd w).2 :=
  Command.mem_of_regular (keeps_closed Broker.step WorldInv)
    (fun op hop _ hw => hw.step op hop) cmd w h

lemma applyCommands (h : WorldInv w) (cfg : Config) (cmds : List Command) :
    WorldInv (applyCommands cfg cmds w) := by
  unfold Broker.applyCommands
  induction cmds generalizing w with
  | nil => exact h
  | cons cmd rest ih => exact ih (h.applyCommand cfg cmd)

lemma cleanLogs (h : WorldInv w) (cfg : Config) {clean : StorxLogStore → StorxLogStore}
    (hclean : ∀ log, LogInv log → LogInv (clean log)) : WorldInv (cleanLogs cfg clean w) := by
  refine .of_logAt (metadata_cleanLogs cfg clean w ▸ h.metadata) fun ref log hlog => ?_
  obtain ⟨found, hfound, rfl | rfl⟩ := logAt_cleanLogs hlog
  · exact h.logAt hfound
  · exact hclean found (h.logAt hfound)

/-- **Whatever a broker does**, its stores stay well formed. -/
theorem activity (h : WorldInv w) (cfg : Config) (activity : Activity) :
    WorldInv (activity.run cfg w) := by
  have hadvance : Advance cfg fun w w' => WorldInv w → WorldInv w' :=
    { refl := fun _ h => h
      trans := fun _ _ _ h1 h2 h => h2 (h1 h)
      call := fun w op hop h => h.step op hop
      clock := fun w env h => ⟨h.metadata, h.log, h.shards⟩
      retention := fun w nowMS h => h.cleanLogs cfg fun log hlog =>
        (trimmed_enforceRetention hlog nowMS).inv
      compaction := fun w nowMS h => h.cleanLogs cfg fun log hlog =>
        (trimmed_compact hlog nowMS).inv }
  exact hadvance.activity activity w h

lemma fresh (env : Env) : WorldInv (fresh cfg env) := by
  refine ⟨MemInv.empty, LogInv.empty, fun id log hget => ?_⟩
  rw [get_fresh_shards] at hget
  split at hget
  · cases hget
    exact LogInv.empty
  · cases hget

/-- The key indexes are not read back, and play no part. -/
lemma restart (h : WorldInv w) (env : Env) : WorldInv (w.restart env) := by
  refine ⟨MemInv.empty, h.log.congr rfl rfl rfl, fun id log hget => ?_⟩
  rw [World.restart, Std.ExtTreeMap.getElem?_map] at hget
  obtain ⟨old, hold, rfl⟩ := Option.map_eq_some_iff.mp hget
  exact (h.shards id old hold).congr rfl rfl rfl

end WorldInv

/-! ## Reachable states -/

/-- A clock that shows one second after the epoch, and stays there. -/
def stillEnv : Env := { clock := fun _ => 1000, jitter := fun _ => 0 }

/-- The states a broker of this configuration can be in: it starts with empty directories, does
what a broker does, and is restarted now and then. -/
inductive Reachable (cfg : Config) : World → Prop where
  | fresh (env : Env) : Reachable cfg (World.fresh cfg env)
  | activity {w : World} (h : Reachable cfg w) (activity : Activity) :
    Reachable cfg (activity.run cfg w)
  | restart {w : World} (h : Reachable cfg w) (env : Env) : Reachable cfg (w.restart env)

lemma Reachable.inv {cfg : Config} (h : Reachable cfg w) : WorldInv w := by
  induction h with
  | fresh env => exact WorldInv.fresh cfg env
  | activity _ activity ih => exact ih.activity cfg activity
  | restart _ env ih => exact ih.restart env

/-! ## The shards of a broker -/

/-- No shard comes and none goes. -/
lemma sameShards_activity (activity : Activity) (w : World) (id : UInt32) :
    ((activity.run cfg w).shards[id]?).isSome = (w.shards[id]?).isSome := by
  have hclean : ∀ (clean : StorxLogStore → StorxLogStore) (w : World) (id : UInt32),
      ((cleanLogs cfg clean w).shards[id]?).isSome = (w.shards[id]?).isSome := by
    intro clean w id
    unfold cleanLogs
    split
    · dsimp only
      rw [Std.ExtTreeMap.getElem?_map, Option.isSome_map]
    · rfl
  have hadvance : Advance cfg fun w w' => ∀ id : UInt32,
      (w'.shards[id]?).isSome = (w.shards[id]?).isSome :=
    { refl := fun _ _ => rfl
      trans := fun _ _ _ h1 h2 id => (h2 id).trans (h1 id)
      call := fun w op _ id => by
        cases op with
        | log ref op =>
          cases ref with
          | main => rfl
          | shard a =>
            simp only [step, logAt]
            cases hget : w.shards[a]? with
            | none => rfl
            | some log =>
              simp only [setLog, Map.get_insert]
              split
              · next heq => rw [← heq, hget, Option.isSome_some, Option.isSome_some]
              · rfl
        | _ => rfl
      clock := fun _ _ _ => rfl
      retention := fun w nowMS => hclean _ w
      compaction := fun w nowMS => hclean _ w }
  exact hadvance.activity activity w id

lemma Reachable.shards_isSome {cfg : Config} (h : Reachable cfg w) (id : UInt32) :
    (w.shards[id]?).isSome = true ↔ cfg.sharded = true ∧ id ∈ cfg.shardIDs := by
  induction h with
  | fresh env =>
    rw [get_fresh_shards]
    split
    · next hand => exact ⟨fun _ => hand, fun _ => rfl⟩
    · next hnot => exact ⟨nofun, fun hand => absurd hand hnot⟩
  | activity _ activity ih => rw [sameShards_activity, ih]
  | restart _ env ih =>
    rw [World.restart, Std.ExtTreeMap.getElem?_map, Option.isSome_map, ih]

end Ech0.Broker
