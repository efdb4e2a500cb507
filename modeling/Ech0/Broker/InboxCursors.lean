/-
  The cursors of an inbox (`applyDirectAck`).

  An inbox has one cursor for each consumer that reads it: the recipient's own, and one for each
  request whose replies are waited for. An acknowledgement for a named consumer saves the recipient's
  own cursor first and the named one after it, so waiting for replies moves what the recipient fetches
  next, unless its cursor stands there already.
-/
import Ech0.Broker.DirectSnapshot
import Ech0.Broker.ConsumerOffsets

set_option autoImplicit false

namespace Ech0.Broker

open Ech0.Lib Ech0.Store StorxLogStore Prog Direct

/-- The offset a consumer goes on with in a partition. -/
def World.cursor (w : World) (consumer : String) (tp : TopicPartition) : Option Nat :=
  w.metadata.loadConsumerOffset consumer tp

section Cursors

variable {w : World}

lemma cursor_withOffset (w : World) (state : ConsumerOffsetState) (consumer : String)
    (tp : TopicPartition) :
    (w.withOffset state).cursor consumer tp =
      if offsetKey state.consumer state.topicPartition = offsetKey consumer tp then some state.nextOffset
      else w.cursor consumer tp := by
  unfold World.withOffset World.cursor MemoryStore.loadConsumerOffset
  dsimp only
  rw [Map.get_insert, Map.get_insert]
  split_ifs <;> rfl

/-- In one partition, consumers have cursors of their own. -/
lemma offsetKey_inj {consumer other : String} {tp : TopicPartition}
    (h : offsetKey consumer tp = offsetKey other tp) : consumer = other := by
  have hlist := congrArg String.toList h
  simp only [offsetKey, String.toList_append, List.append_assoc] at hlist
  exact String.toList_inj.mp (List.append_cancel_right hlist)

lemma exec_saveConsumerOffset {consumer : String} {tp : TopicPartition} (hconsumer : consumer ≠ "")
    (htopic : tp.topic ≠ "") (nextOffset : Nat) (w : World) :
    ∃ state : ConsumerOffsetState, state.consumer = consumer ∧ state.topicPartition = tp ∧
      state.nextOffset = nextOffset ∧
      exec step (saveConsumerOffset consumer tp nextOffset) w = (.ok (), w.tick.withOffset state) := by
  let state : ConsumerOffsetState :=
    { consumer := consumer, topic := tp.topic, partition := tp.partition,
      nextOffset := nextOffset, updatedAtMS := w.env.clock 0 }
  obtain ⟨hname, -, htp⟩ := key_normalize state
  refine ⟨MemoryStore.normalizeConsumerOffsetState state, hname, htp, nextOffset_normalize state, ?_⟩
  have hclock : exec step nowMS w = (.ok (w.env.clock 0), w.tick) := rfl
  unfold saveConsumerOffset
  refine (exec_bind_ok step hclock).trans ?_
  change (MetaOp.save w.tick.metadata (w.tick.metadata.saveConsumerOffsetState state)).map id
    (fun metadata => { w.tick with metadata := metadata }) = _
  rw [saveConsumerOffsetState_eq, MemoryStore.validateConsumerState, if_neg hconsumer, if_neg htopic]
  rfl

lemma append_ne_empty {a : String} (h : a ≠ "") (b : String) : a ++ b ≠ "" := by
  intro hempty
  have hlist : a.toList ++ b.toList = [] := by
    rw [← String.toList_append, hempty]
    rfl
  exact h (String.toList_inj.mp (List.append_eq_nil_iff.mp hlist).1)

lemma inboxTopic_ne (recipient : String) : inboxTopic recipient ≠ "" := by
  have hfirst : internalInboxTopicPrefix ≠ "" := by decide
  exact append_ne_empty (append_ne_empty (append_ne_empty (append_ne_empty hfirst _) _) _) _

lemma consumerName_ne (recipient : String) : consumerName recipient ≠ "" :=
  append_ne_empty (by decide) recipient

/-- An acknowledgement for a named consumer saves two cursors. -/
lemma exec_applyDirectAck {req : AckDirectCommand} (hnamed : req.consumer ≠ "") (w : World) :
    ∃ own named : ConsumerOffsetState,
      (own.consumer = consumerName req.recipient ∧
        own.topicPartition = inboxPartition req.recipient ∧ own.nextOffset = req.nextOffset) ∧
      (named.consumer = req.consumer ∧
        named.topicPartition = inboxPartition req.recipient ∧ named.nextOffset = req.nextOffset) ∧
      exec step (applyDirectAck req) w
        = (.ok (), (w.tick.withOffset own).tick.withOffset named) := by
  have htopic : (inboxPartition req.recipient).topic ≠ "" := inboxTopic_ne req.recipient
  obtain ⟨own, hown1, hown2, hown3, hfirst⟩ :=
    exec_saveConsumerOffset (consumerName_ne req.recipient) htopic req.nextOffset w
  obtain ⟨named, hnamed1, hnamed2, hnamed3, hsecond⟩ :=
    exec_saveConsumerOffset hnamed htopic req.nextOffset (w.tick.withOffset own)
  refine ⟨own, named, ⟨hown1, hown2, hown3⟩, ⟨hnamed1, hnamed2, hnamed3⟩, ?_⟩
  have hack : ∀ {consumer : String} {v v' : World},
      exec step (saveConsumerOffset consumer (inboxPartition req.recipient) req.nextOffset) v
        = (.ok (), v') →
      exec step (ackInboxForConsumer consumer req.recipient req.nextOffset).attempt v
        = (.ok (.ok ()), v') := by
    intro consumer v v' h
    unfold ackInboxForConsumer QueueRuntime.ack wrapBroker
    rw [exec_attempt, exec_mapError, exec_mapError, h]
    rfl
  unfold applyDirectAck
  refine (exec_bind_ok step (hack hfirst)).trans ?_
  rw [if_pos hnamed]
  exact exec_bind_ok step (hack hsecond)

end Cursors

/-! ## What an acknowledgement changes -/

/-- Nothing has changed but the cursor of the consumer on the inbox and the time. -/
structure AckedOnly (consumer recipient : String) (w w' : World) : Prop where
  cursors : ∀ other tp, offsetKey other tp ≠ offsetKey consumer (Direct.inboxPartition recipient) →
    w'.cursor other tp = w.cursor other tp
  metadata : ∃ offsets states,
    w'.metadata = { w.metadata with offsets := offsets, offsetStates := states }
  logs : w'.log = w.log ∧ w'.shards = w.shards
  inbox : consumer ≠ Direct.consumerName recipient → ∀ maxRecords,
    (Prog.exec step (Direct.fetchInbox recipient maxRecords) w').1
      = (Prog.exec step (Direct.fetchInbox recipient maxRecords) w).1

/-- What an inbox gives its recipient is a matter of the log and of its own cursor. -/
lemma fetchInbox_congr {w v : World} {recipient : String} (hlog : v.log = w.log)
    (hcursor : v.cursor (consumerName recipient) (inboxPartition recipient)
      = w.cursor (consumerName recipient) (inboxPartition recipient)) (maxRecords : Nat) :
    (exec step (fetchInbox recipient maxRecords) v).1
      = (exec step (fetchInbox recipient maxRecords) w).1 := by
  let R : World → World → Prop := fun v w => v.log = w.log ∧
    v.cursor (consumerName recipient) (inboxPartition recipient)
      = w.cursor (consumerName recipient) (inboxPartition recipient)
  have hC : Closed (Respects (I := calls) (ε := Error) step R) := respects_closed step R
  have hfetch : Respects (I := calls) (ε := Error) step R _ (fetchInbox recipient maxRecords) := by
    refine hC.bind (hC.attempt (Parts.queueFetch hC (fun v w h => ?_) (fun v w h => ?_)
      fun start v w h => ?_)) fun result => ?_
    · rw [exec_partitionOffsets, exec_partitionOffsets, h.1]
      exact ⟨rfl, h⟩
    · exact ⟨congrArg Except.ok h.2, h⟩
    · rw [exec_readFrom, exec_readFrom, h.1]
      exact ⟨rfl, h⟩
    · cases result with
      | error err =>
        dsimp only
        split
        · exact hC.pure _
        · exact hC.ofExcept _
      | ok poll => exact hC.bind (hC.mapError _ (hC.ofExcept _)) fun _ => hC.pure _
  exact (hfetch v w ⟨hlog, hcursor⟩).1

/-- **An acknowledgement for a named consumer** changes the cursor of this consumer alone exactly when
the recipient's own cursor is the one that was named, or stands at the offset already. -/
theorem ackDirect_changes_only_iff {req : AckDirectCommand} (hnamed : req.consumer ≠ "") (w : World) :
    AckedOnly req.consumer req.recipient w (Prog.exec step (applyDirectAck req) w).2 ↔
      req.consumer = Direct.consumerName req.recipient ∨
        w.cursor (Direct.consumerName req.recipient) (Direct.inboxPartition req.recipient)
          = some req.nextOffset := by
  obtain ⟨own, named, ⟨hown1, hown2, hown3⟩, ⟨hnamed1, hnamed2, hnamed3⟩, hrun⟩ :=
    exec_applyDirectAck hnamed w
  rw [hrun]
  have hcursor (other : String) (tp : TopicPartition) :
      ((w.tick.withOffset own).tick.withOffset named).cursor other tp
        = if offsetKey req.consumer (inboxPartition req.recipient) = offsetKey other tp then
            some req.nextOffset
          else if offsetKey (consumerName req.recipient) (inboxPartition req.recipient)
            = offsetKey other tp then some req.nextOffset
          else w.cursor other tp := by
    rw [cursor_withOffset, hnamed1, hnamed2, hnamed3]
    congr 1
    have hinner := cursor_withOffset w.tick own other tp
    rw [hown1, hown2, hown3] at hinner
    exact hinner
  constructor
  · intro h
    by_cases hsame : req.consumer = consumerName req.recipient
    · exact Or.inl hsame
    · -- the recipient's own cursor is another one, and has been moved
      right
      have hkey : offsetKey req.consumer (inboxPartition req.recipient)
          ≠ offsetKey (consumerName req.recipient) (inboxPartition req.recipient) :=
        fun heq => hsame (offsetKey_inj heq)
      have hkept := h.cursors (consumerName req.recipient) _ hkey.symm
      rw [hcursor, if_neg hkey, if_pos rfl] at hkept
      exact hkept.symm
  · intro h
    have hcursors : ∀ other tp,
        offsetKey other tp ≠ offsetKey req.consumer (inboxPartition req.recipient) →
        ((w.tick.withOffset own).tick.withOffset named).cursor other tp = w.cursor other tp := by
      intro other tp hother
      rw [hcursor, if_neg hother.symm]
      split
      · rename_i heq
        rcases h with hsame | hthere
        · exact absurd heq.symm (hsame ▸ hother)
        · rw [← hthere]
          unfold World.cursor MemoryStore.loadConsumerOffset
          rw [heq]
      · rfl
    refine ⟨hcursors, ⟨_, _, rfl⟩, ⟨rfl, rfl⟩, fun hother maxRecords => ?_⟩
    have hlog : ((w.tick.withOffset own).tick.withOffset named).log = w.log := rfl
    exact fetchInbox_congr hlog (hcursors _ _ fun heq => hother (offsetKey_inj heq).symm) maxRecords

/-- A broker that has a message for ann. -/
def annWorld : World :=
  applyCommands {} [.directSend { sender := "bob", recipient := "ann", payload := [1] }]
    (World.fresh {} stillEnv)

/-- A wait for replies that has gone over the message. -/
def annAck : AckDirectCommand := { recipient := "ann", consumer := "__direct_reply/ann/c1", nextOffset := 1 }

/-- Ann has acknowledged the message herself before. -/
theorem ackDirect_changes_only_ann :
    AckedOnly "__direct_reply/ann/c1" "ann"
      (applyCommands {} [.directAck { recipient := "ann", nextOffset := 1 }] annWorld)
      (Prog.exec step (applyDirectAck annAck)
        (applyCommands {} [.directAck { recipient := "ann", nextOffset := 1 }] annWorld)).2 :=
  (@ackDirect_changes_only_iff annAck (by decide) _).mpr (.inr (by decide +kernel))

/-- The message that ann has not fetched yet is not given to her any more. -/
theorem ackDirect_takes_message :
    ((Prog.exec step (Direct.fetchInbox "ann" 10) annWorld).1.map fun r => r.records.length) = .ok 1 ∧
      ((Prog.exec step (Direct.fetchInbox "ann" 10)
        (Prog.exec step (applyDirectAck annAck) annWorld).2).1.map fun r => r.records.length) = .ok 0 := by
  decide +kernel

end Ech0.Broker
