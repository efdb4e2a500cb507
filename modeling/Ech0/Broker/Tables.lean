/-
  What the tables of the metadata store hold, and what keeps a table as it is.

  Every call writes at most one table, so a program keeps a table as soon as none of its calls is one
  that writes it (`keepsTable_closed`), and an activity keeps those it is not known to write
  (`keepsTable_activity`).
-/
import Ech0.Lib.Hoare
import Ech0.Broker.Invariants

set_option autoImplicit false

namespace Ech0.Broker

open Ech0.Lib Ech0.Store Prog

/-! ## The clock -/

/-- The world after one look at the clock. -/
def World.tick (w : World) : World := { w with env := w.env.dropClock 1 }

lemma WorldInv.tick {w : World} (h : WorldInv w) : WorldInv w.tick :=
  ⟨h.metadata, h.log, h.shards⟩

lemma exec_nowMS (w : World) : exec step nowMS w = (.ok (w.env.clock 0), w.tick) := rfl

lemma exec_onMeta (op : MetaOp) (w : World) : exec step (onMeta op) w
    = ((op.run w.metadata).1, { w with metadata := (op.run w.metadata).2 }) := rfl

/-! ## Tables -/

/-- What a table holds. The offsets are kept twice, and the table of transactions comes with the next
id. -/
abbrev Table.Contents : Table → Type
  | topics => OrderedMap String TopicConfig
  | offsets => Map String Nat × Map String ConsumerOffsetState
  | consumerPauses => Map String ConsumerPauseState
  | placements => Map TopicPartition ShardPlacement
  | members => Map String ConsumerGroupMember
  | assignments => Map String ConsumerGroupAssignment
  | transactions => Map Nat TransactionState × Nat
  | producerBatches => Map String ProducerPublishedBatch
  | aclPolicies => Map String ACLPolicy
  | dlqIndexes => Map String DLQIndexEntry

def table (s : MemoryStore) : (t : Table) → t.Contents
  | .topics => s.topics
  | .offsets => (s.offsets, s.offsetStates)
  | .consumerPauses => s.consumerPauses
  | .placements => s.placements
  | .members => s.members
  | .assignments => s.assignments
  | .transactions => (s.transactions, s.nextTxID)
  | .producerBatches => s.producerBatches
  | .aclPolicies => s.aclPolicies
  | .dlqIndexes => s.dlqIndexes

/-! ## One call -/

variable {t : Table}

/-- Another table is not written by a save that passes its check, nor by one that does not. -/
lemma MetaOp.table_checked {s result : MemoryStore} {check : Except Error Unit}
    (h : table result t = table s t) :
    table (save s (check >>= fun _ => Except.ok result)).2 t = table s t := by
  cases check with
  | error err => rfl
  | ok _ => exact h

lemma MetaOp.table_ite {s result : MemoryStore} {c : Prop} [Decidable c] {err : Error}
    (h : table result t = table s t) :
    table (save s (if c then .error err else .ok result)).2 t = table s t := by
  split
  · rfl
  · exact h

lemma MetaOp.table_run (op : MetaOp) (h : op.writes ≠ some t) (s : MemoryStore) :
    table (op.run s).2 t = table s t := by
  cases op with
  | saveTopicConfig _ | saveGroupMember _ | saveGroupAssignment _ | saveTransaction _
  | deleteACLPolicy _ => exact table_ite (by cases t <;> first | rfl | exact absurd rfl h)
  | saveConsumerOffsetState _ | saveConsumerPause _ | saveShardPlacement _ | saveProducerBatch _
  | saveACLPolicy _ | saveDLQIndex _ =>
    exact table_checked (by cases t <;> first | rfl | exact absurd rfl h)
  | deleteConsumerOffsetState _ _ | deleteConsumerPause _ _ | deleteExpiredGroupMembers _
  | allocateTransactionID | deleteProducerBatch _ => cases t <;> first | rfl | exact absurd rfl h
  | _ => rfl

lemma metadata_step_log (ref : LogRef) (op : LogOp) (w : World) :
    (step (.log ref op) w).2.metadata = w.metadata := by
  simp only [step]
  cases ref with
  | main => rfl
  | shard id =>
    cases w.logAt (.shard id) with
    | error err => rfl
    | ok log => rfl

/-- The table `t` is as it was. -/
def KeepsTable (t : Table) (w w' : World) : Prop := table w'.metadata t = table w.metadata t

lemma keepsTable_step (op : Op) (h : op.writes ≠ some t) (w : World) :
    KeepsTable t w (step op w).2 := by
  cases op with
  | metadata op => exact op.table_run h w.metadata
  | log ref op =>
    unfold KeepsTable
    rw [metadata_step_log]
  | _ => rfl

/-! ## Programs -/

lemma keepsTable_closed (t : Table) :
    Closed (Advances (I := calls) (ε := Error) step (KeepsTable t)) :=
  advances_closed step (fun _ => rfl) fun _ _ _ h1 h2 => h2.trans h1

lemma keepsTable_perform (op : Op) (h : op.writes ≠ some t) :
    Advances step (KeepsTable t) _ (ask op) :=
  fun w => keepsTable_step op h w

/-- A program whose calls write other tables keeps this one. -/
lemma keepsTable_within {footprint : Footprint} (htopics : t ≠ .topics)
    (hplacements : t ≠ .placements) (ht : t ∉ footprint.tables) (op : Op)
    (hop : op.Within footprint) : Advances step (KeepsTable t) _ (ask op) := by
  apply keepsTable_perform
  intro hwrites
  rcases hop.table t hwrites with h | h | h
  · exact htopics h
  · exact hplacements h
  · exact ht h

/-- The runtime writes topics and placements only. -/
lemma keepsTable_runtime (htopics : t ≠ .topics) (hplacements : t ≠ .placements) (op : Op)
    (hop : op.runtime) : Advances step (KeepsTable t) _ (ask op) := by
  have hnone : t ∉ (⟨[], false⟩ : Footprint).tables := List.not_mem_nil
  exact keepsTable_within htopics hplacements hnone op (Op.within_of_runtime hop)

def Activity.footprint : Activity → Footprint
  | command cmd => cmd.footprint
  | isolatePoisonMessage _ _ _ _ => { tables := [.offsets, .dlqIndexes] }
  | enforceRetentionOnce _ => { tables := [.offsets, .dlqIndexes] }
  | compactOnce => { tables := [] }

lemma keepsTable_cleanLogs (t : Table) (cfg : Config) (clean : StorxLogStore → StorxLogStore)
    (w : World) : KeepsTable t w (MessageRuntime.cleanLogs cfg clean w) :=
  congrArg (table · t) (MessageRuntime.metadata_cleanLogs cfg clean w)

lemma keepsTable_activity (htopics : t ≠ .topics) (hplacements : t ≠ .placements)
    {activity : Activity} (ht : t ∉ activity.footprint.tables) (cfg : Config) (w : World) :
    KeepsTable t w (activity.run cfg w) := by
  have hC : Closed (Advances (I := calls) (ε := Error) step (KeepsTable t)) :=
    keepsTable_closed t
  have hop : ∀ op : Op, op.Within activity.footprint →
      Advances step (KeepsTable t) _ (ask op) :=
    keepsTable_within htopics hplacements ht
  cases activity with
  | command cmd => exact cmd.mem_of_within hC hop w
  | isolatePoisonMessage topic partition offset reason =>
    exact Within.isolatePoisonMessage cfg hC hop topic partition offset reason w
  | enforceRetentionOnce fuel =>
    have hletters : KeepsTable t w _ := Within.deadLetterExpiredMessages cfg hC hop fuel
      (w.env.clock 0) { w with env := w.env.dropClock 1 }
    simp only [Activity.run, Broker.enforceRetentionOnce]
    unfold Handling.run
    split
    · next heq =>
      rw [heq] at hletters
      exact hletters
    · next heq =>
      rw [heq] at hletters
      exact (keepsTable_cleanLogs t cfg _ _).trans hletters
  | compactOnce => exact keepsTable_cleanLogs t cfg _ _

end Ech0.Broker
