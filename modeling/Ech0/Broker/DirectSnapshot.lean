/-
  Direct messages across a snapshot.

  The direct runtime keeps the inboxes in the log the broker was opened with. A broker over one
  log puts that log into its snapshots, so the inboxes come back with everything else. The
  snapshot of a sharded broker is made of the shards' logs only, and the inboxes are lost.
-/
import Ech0.Broker.SnapshotRestore

set_option autoImplicit false

namespace Ech0.Broker

open Ech0.Lib Ech0.Store Ech0.Store.StorxLogStore Prog World

variable (consumer : String) (tp : TopicPartition)

/-! ## Calls that only read -/

lemma exec_partitionOffsets (w : World) :
    exec step (onLog .main (.partitionOffsets tp)) w = (w.log.partitionOffsets tp, w) :=
  Prod.ext rfl (step_log_read rfl (fun _ _ => rfl) w)

lemma exec_readFrom (offset maxRecords : Nat) (w : World) :
    exec step (onLog .main (.readFrom tp offset maxRecords)) w
      = (w.log.readFrom tp offset maxRecords, w) :=
  Prod.ext rfl (step_log_read rfl (fun _ _ => rfl) w)

lemma exec_loadConsumerOffset (w : World) : exec step (onMeta (.loadConsumerOffset consumer tp)) w
      = (.ok (w.metadata.loadConsumerOffset consumer tp), w) := rfl

namespace Direct

/-! ## What a fetch returns -/

/-- The messages that a fetch from an inbox returns. -/
def inboxMessages (recipient : String) (maxRecords : Nat) (w : World) :
    Except Error (List InboxRecord) :=
  ((fetchInbox recipient maxRecords).run w).1.map FetchInboxResult.records

/-- The records from the committed offset on. -/
def unreadRecords (records : List Record) (committed : Option Nat) (maxRecords : Nat) :
    List Record :=
  let start := max (committed.getD 0) ((records.head?.map Record.offset).getD 0)
  (records.dropWhile fun record => record.offset < start).take maxRecords

variable {w : World} {recipient : String}

/-- An inbox whose topic is not there: the error that `fetchInboxForConsumer` makes nothing of. -/
lemma exec_fetch_missing {tp : TopicPartition} (maxRecords : Nat)
    (h : w.log.topics[tp.topic]? = none) : ∃ err : Error, err.code = .topicNotFound ∧
      exec step (QueueRuntime.fetch .main consumer tp none maxRecords) w = (.error err, w) := by
  have hload : w.log.partitionOffsets tp
      = .error (E .topicNotFound ("topic " ++ tp.topic ++ " not found")) := by
    simp only [partitionOffsets, loadTopicForPartition, checkPartition, h, bind, Except.bind]
  refine ⟨(E .topicNotFound ("topic " ++ tp.topic ++ " not found")).wrap "load partition offsets",
    rfl, exec_bind_error step ?_⟩
  rw [exec_wrapBroker, exec_partitionOffsets, hload]
  rfl

/-- An inbox that is there: the records from the committed offset on. -/
lemma exec_fetch_ok {tp : TopicPartition} (maxRecords : Nat) (h : w.log.HasPartition tp) :
    ∃ poll : PollResult, poll.records = unreadRecords (w.log.recordsAt tp)
        (w.metadata.loadConsumerOffset consumer tp) maxRecords ∧
      (∀ last, poll.records.getLast? = some last → poll.nextOffset = last.offset + 1) ∧
      exec step (QueueRuntime.fetch .main consumer tp none maxRecords) w = (.ok poll, w) := by
  obtain ⟨topic, htopic⟩ := h
  have hload := (loadTopicForPartition_ok_iff w.log tp topic).mpr htopic
  -- the log starts at the first record, whatever its next offset
  obtain ⟨offsets, hoffsets, hlow⟩ : ∃ offsets, w.log.partitionOffsets tp = .ok offsets ∧
      ∀ first rest, w.log.recordsAt tp = first :: rest → offsets.logStartOffset = first.offset := by
    rw [partitionOffsets, hload]
    refine ⟨_, rfl, fun first rest hrecords => ?_⟩
    rw [hrecords]
    rfl
  have hread : ∀ start, w.log.readFrom tp start maxRecords
      = .ok (w.log.recordPointersFrom tp start maxRecords) := by
    intro start
    unfold readFrom
    split
    · next hzero => rw [recordPointersFrom, hzero, List.take_zero]
    · rw [hload]
      rfl
  have hstart : exec step (QueueRuntime.fetchStart consumer tp none offsets.logStartOffset) w
      = (.ok (max ((w.metadata.loadConsumerOffset consumer tp).getD 0) offsets.logStartOffset), w) := by
    refine (exec_bind_ok step (exec_wrapBroker_ok (exec_loadConsumerOffset consumer tp w) _)).trans ?_
    cases w.metadata.loadConsumerOffset consumer tp with
    | none =>
      rw [Option.getD_none, Nat.zero_max]
      rfl
    | some committed => rfl
  refine ⟨_, ?_, fun last hlast => ?_,
    (exec_bind_ok step (exec_wrapBroker_ok ((exec_partitionOffsets tp w).trans (by rw [hoffsets])) _)).trans
      ((exec_bind_ok step hstart).trans ((exec_bind_ok step (exec_wrapBroker_ok
        ((exec_readFrom tp _ maxRecords w).trans (by rw [hread])) _)).trans rfl))⟩
  · change w.log.recordPointersFrom tp _ maxRecords = _
    unfold unreadRecords recordPointersFrom
    cases hrecords : w.log.recordsAt tp with
    | nil => rfl
    | cons first rest =>
      rw [hlow first rest hrecords]
      rfl
  · dsimp only at hlast ⊢
    rw [hlast]
    rfl

/-- A consumer of an inbox is given the messages of the records from its committed offset on, and told
to go on behind the last of them. -/
lemma exec_fetchInboxForConsumer (maxRecords : Nat)
    (hpart : w.log.recordsAt (inboxPartition recipient) ≠ [] →
      w.log.HasPartition (inboxPartition recipient))
    (htopic : ∀ topic, w.log.topics[inboxTopic recipient]? = some topic → topic.partitions ≠ 0)
    {unread : List Record}
    (hunread : unread = unreadRecords (w.log.recordsAt (inboxPartition recipient))
      (w.metadata.loadConsumerOffset consumer (inboxPartition recipient)) maxRecords) :
    ∃ result, exec step (fetchInboxForConsumer consumer recipient maxRecords) w = (result, w) ∧
      result.map FetchInboxResult.records
        = (unread.mapM decodeRecord).mapError (Error.wrap "decode inbox record") ∧
      ∀ inbox, result = .ok inbox → ∀ last, unread.getLast? = some last →
        inbox.nextOffset = last.offset + 1 := by
  unfold fetchInboxForConsumer
  rw [exec_bind, exec_attempt]
  cases hget : w.log.topics[inboxTopic recipient]? with
  | none =>
    have habsent : w.log.topics[(inboxPartition recipient).topic]? = none := hget
    obtain ⟨err, hcode, hrun⟩ := exec_fetch_missing consumer maxRecords habsent
    have hnone : w.log.recordsAt (inboxPartition recipient) = [] := by
      by_contra hne
      obtain ⟨topic, hfound, _⟩ := hpart hne
      rw [habsent] at hfound
      cases hfound
    have hempty : unread = [] := by
      rw [hunread, hnone]
      exact List.take_nil
    rw [hrun, hempty]
    dsimp only
    rw [if_pos hcode]
    exact ⟨_, rfl, rfl, fun _ _ last hlast => nomatch hlast⟩
  | some topic =>
    have hhas : w.log.HasPartition (inboxPartition recipient) := by
      refine ⟨topic, hget, ?_⟩
      exact UInt32.lt_iff_toNat_lt.mpr
        (Nat.pos_of_ne_zero fun hzero => htopic topic hget (UInt32.toNat_inj.mp hzero))
    obtain ⟨poll, hrecords, hnext, hrun⟩ := exec_fetch_ok consumer maxRecords hhas
    rw [hrun, hunread, ← hrecords]
    dsimp only
    rw [exec_bind]
    rw [exec_wrapBroker, exec_ofExcept]
    cases poll.records.mapM decodeRecord with
    | error err => exact ⟨_, rfl, rfl, fun _ hok => nomatch hok⟩
    | ok records =>
      refine ⟨_, rfl, rfl, fun inbox hok last hlast => ?_⟩
      rw [← Except.ok.inj hok]
      exact hnext last hlast

/-- **The messages of an inbox** are those of its records from the committed offset on. -/
theorem inboxMessages_eq (maxRecords : Nat) (hpart : w.log.recordsAt (inboxPartition recipient) ≠ [] →
      w.log.HasPartition (inboxPartition recipient))
    (htopic : ∀ topic, w.log.topics[inboxTopic recipient]? = some topic → topic.partitions ≠ 0) :
    inboxMessages recipient maxRecords w
      = ((unreadRecords (w.log.recordsAt (inboxPartition recipient))
          (w.metadata.loadConsumerOffset (consumerName recipient) (inboxPartition recipient))
          maxRecords).mapM decodeRecord).mapError (Error.wrap "decode inbox record") := by
  obtain ⟨result, hrun, hrecords, -⟩ :=
    exec_fetchInboxForConsumer (consumerName recipient) maxRecords hpart htopic rfl
  unfold inboxMessages fetchInbox Handling.run
  rw [hrun]
  exact hrecords

/-- The log is such that a fetch from an inbox finds what the inbox holds. -/
def InboxesFound (log : StorxLogStore) : Prop :=
  ∀ recipient, (log.recordsAt (inboxPartition recipient) ≠ [] →
      log.HasPartition (inboxPartition recipient)) ∧
    ∀ topic, log.topics[inboxTopic recipient]? = some topic → topic.partitions ≠ 0

lemma inboxesFound_of_inv {log : StorxLogStore} (h : LogInv log) : InboxesFound log := by
  intro recipient
  exact ⟨h.hasPartition_of_ne_nil, fun topic hget => (h.topic _ _ hget).partitions_ne⟩

lemma inboxesFound_of_restored {log : StorxLogStore} {topics : List TopicConfig}
    {records : TopicPartition → List Record} {next : TopicPartition → Option Nat}
    (h : RestoredLog log topics records next) (ht : TopicList topics)
    (hin : ∀ tp, records tp ≠ [] → InTopics topics tp) : InboxesFound log := by
  intro recipient
  refine ⟨fun hne => ?_, fun topic hget => ?_⟩
  · rw [h.records_eq] at hne
    obtain ⟨topic, hmem, hname, hlt⟩ := hin _ hne
    exact ⟨topic, (h.topics_iff _ _).mpr ⟨hmem, hname⟩, hlt⟩
  · exact (ht.registered topic ((h.topics_iff _ _).mp hget).1).partitions_ne

/-! ## Snapshot and restore -/

/-- The inboxes of the second broker hold what those of the first hold, and a fetch from any of
them returns the same messages. -/
def InboxesPreserved (w w' : World) : Prop :=
  ∀ recipient,
    w'.log.recordsAt (inboxPartition recipient) = w.log.recordsAt (inboxPartition recipient) ∧
      ∀ maxRecords,
        inboxMessages recipient maxRecords w' = inboxMessages recipient maxRecords w

lemma inboxesPreserved_of_records {w w' : World} (hw : InboxesFound w.log)
    (hw' : InboxesFound w'.log) (hrecords : ∀ recipient, w'.log.recordsAt (inboxPartition recipient)
      = w.log.recordsAt (inboxPartition recipient))
    (hoffsets : ∀ consumer tp, w'.metadata.loadConsumerOffset consumer tp
      = w.metadata.loadConsumerOffset consumer tp) : InboxesPreserved w w' := by
  intro recipient
  refine ⟨hrecords recipient, fun maxRecords => ?_⟩
  rw [inboxMessages_eq maxRecords (hw' recipient).1 (hw' recipient).2,
    inboxMessages_eq maxRecords (hw recipient).1 (hw recipient).2, hrecords, hoffsets]

/-- The broker's snapshot, the shards taken in this order, goes into a fresh broker of the same
configuration, and the inboxes are there again. -/
def InboxesSurvive (cfg : Config) (order : List UInt32) (env : Env) (w : World) : Prop :=
  ∃ w', (World.fresh cfg env).restore cfg (w.snapshot cfg order) = (.ok (), w') ∧
    InboxesPreserved w w'

/-- Over one log: the partitions with records have names that parse and belong to listed topics.
With shards: the same of the shards' partitions, these have placements on existing shards, and
no inbox holds a record. -/
def InboxesRestorable (cfg : Config) (w : World) : Prop :=
  if cfg.sharded then
    (∀ tp, (∃ (id : UInt32) (log : StorxLogStore),
        w.shards[id]? = some log ∧ log.HasPartition tp) →
      NulFree tp.topic ∧ ∃ placement : ShardPlacement,
        w.metadata.placements[tp]? = some placement ∧ placement.shardID ∈ cfg.shardIDs) ∧
    (∀ tp, (∃ (id : UInt32) (log : StorxLogStore),
        w.shards[id]? = some log ∧ log.recordsAt tp ≠ []) → InTopics (w.listedTopics cfg) tp) ∧
    ∀ recipient, w.log.recordsAt (inboxPartition recipient) = []
  else w.LogRestorable (w.listedTopics cfg)

end Direct

open Direct

variable {cfg : Config} {w : World}

lemma inboxesSurvive_single_iff (hinv : WorldInv w) (hsingle : cfg.sharded = false)
    (order : List UInt32) (env : Env) :
    InboxesSurvive cfg order env w ↔ w.LogRestorable (w.listedTopics cfg) := by
  obtain ⟨hok, hspec⟩ := restore_single hinv hsingle order (w.snapshot cfg order).dlqIndexes
    (fresh cfg env)
  constructor
  · rintro ⟨w', hrun, _⟩
    exact hok.mp (congrArg Prod.fst hrun)
  · intro hload
    obtain ⟨log', hworld, hlog⟩ := hspec (hok.mpr hload)
    refine ⟨_, Prod.ext (hok.mpr hload) hworld, ?_⟩
    refine inboxesPreserved_of_records (inboxesFound_of_inv hinv.log)
      (inboxesFound_of_restored hlog (topicList_listedTopics hinv cfg)
        fun tp hne => (hload tp hne).2)
      (fun recipient => hlog.records_eq _) fun consumer tp => rfl

/-- The log the broker was opened with stays empty when shards are restored. -/
lemma inboxesSurvive_sharded_iff (h : Reachable cfg w) (hsharded : cfg.sharded = true)
    (order : List UInt32) (env : Env) : InboxesSurvive cfg order env w ↔
      w.ShardsRestorable order (w.listedTopics cfg) (fresh cfg env).shards ∧
        ∀ recipient, w.log.recordsAt (inboxPartition recipient) = [] := by
  obtain ⟨hok, hspec⟩ := restore_sharded h.inv hsharded order
    (w.snapshot cfg order).dlqIndexes (fresh cfg env)
  have hempty : ∀ tp, (fresh cfg env).log.recordsAt tp = [] := fun tp => by
    simp [fresh, recordsAt]
  constructor
  · rintro ⟨w', hrun, hpreserved⟩
    have hrestorable := hok.mp (congrArg Prod.fst hrun)
    obtain ⟨shards', hworld, _⟩ := hspec (congrArg Prod.fst hrun)
    have hsnd : ((fresh cfg env).restore cfg (w.snapshot cfg order)).2 = w' :=
      congrArg Prod.snd hrun
    have hkept := congrArg log hworld
    have hlog : w'.log = (fresh cfg env).log := by
      rw [← hsnd]
      exact hkept
    refine ⟨hrestorable, fun recipient => ?_⟩
    rw [← (hpreserved recipient).1, hlog, hempty]
  · rintro ⟨hrestorable, hnone⟩
    obtain ⟨shards', hworld, _⟩ := hspec (hok.mpr hrestorable)
    refine ⟨_, Prod.ext (hok.mpr hrestorable) hworld, ?_⟩
    refine inboxesPreserved_of_records (inboxesFound_of_inv h.inv.log)
      (inboxesFound_of_inv LogInv.empty) (fun recipient => ?_) fun consumer tp => rfl
    rw [hnone]
    exact hempty _

/-- **Direct messages survive a snapshot** just when the broker's state is restorable. A broker
over one log then has all its inboxes back. A sharded broker never has: its snapshot does not
hold the log that the inboxes are in, so there must be nothing in them. -/
theorem inboxes_survive_snapshot_iff (h : Reachable cfg w) {order : List UInt32}
    (horder : order.Perm cfg.shardIDs) (env : Env) :
    InboxesSurvive cfg order env w ↔ InboxesRestorable cfg w := by
  unfold InboxesRestorable
  split
  · next hsharded =>
    rw [inboxesSurvive_sharded_iff h hsharded order env, World.ShardsRestorable, and_assoc]
    refine and_congr (forall_congr' fun tp => ?_) (and_congr (forall_congr' fun tp => ?_) Iff.rfl)
    · rw [h.hasLog_iff hsharded horder, h.placeable_fresh_iff hsharded]
    · rw [h.hasRecords_iff hsharded horder]
  · next hsingle =>
    exact inboxesSurvive_single_iff h.inv (Bool.eq_false_iff.mpr hsingle) order env

/-! ## One message to one recipient -/

/-- A broker that has delivered a single direct message. -/
def afterDirectSend (cfg : Config) : World :=
  (Activity.command (.directSend { sender := "alice", recipient := "bob", payload := [104, 105] })).run
    cfg (World.fresh cfg stillEnv)

/-- The partitions that have records are listed with them. -/
lemma logRestorable_of_entries {topics : List TopicConfig}
    (h : ∀ e ∈ w.log.records.toList, NulFree e.1.topic ∧ InTopics topics e.1) :
    w.LogRestorable topics := by
  intro tp hne
  cases hget : w.log.records[tp]? with
  | none =>
    rw [recordsAt, hget] at hne
    exact absurd rfl hne
  | some records => exact h (tp, records) ((Map.mem_toList _ _ _).mpr hget)

/-- Over one log the message comes back. -/
theorem inbox_survives_snapshot_single :
    InboxesSurvive {} [0] stillEnv (afterDirectSend {}) := by
  refine (inboxes_survive_snapshot_iff (.activity (.fresh stillEnv) _) (by decide) stillEnv).mpr ?_
  refine logRestorable_of_entries ?_
  unfold InTopics
  decide +kernel

/-- With two shards the message is in the inbox before, and the inbox is empty afterwards. -/
theorem inbox_lost_by_snapshot_sharded :
    Reachable { dataShardCount := 2 } (afterDirectSend { dataShardCount := 2 }) ∧
      ¬ InboxesSurvive { dataShardCount := 2 } [0, 1] stillEnv
        (afterDirectSend { dataShardCount := 2 }) := by
  have hreach : Reachable { dataShardCount := 2 } (afterDirectSend { dataShardCount := 2 }) :=
    .activity (.fresh stillEnv) _
  refine ⟨hreach, fun hsurvive => ?_⟩
  have hempty := ((inboxesSurvive_sharded_iff hreach rfl [0, 1] stillEnv).mp hsurvive).2 "bob"
  have hsent : (afterDirectSend { dataShardCount := 2 }).log.recordsAt (inboxPartition "bob") ≠ [] := by
    decide +kernel
  exact hsent hempty

end Ech0.Broker
