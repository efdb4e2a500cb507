/-
  What changes a broker outside of a command: the passes of the maintenance scheduler, and the
  isolation of a poison message (`maintenance.go`, `sharded_message_maintenance.go`, `poison.go`).
-/
import Ech0.Broker.Command

set_option autoImplicit false

namespace Ech0.Broker

open Ech0.Lib Ech0.Store

namespace MessageRuntime

/-- Every log of the runtime put through a cleaner. The direct runtime's log is among them only
when it is the one log. -/
def cleanLogs (cfg : Config) (clean : StorxLogStore → StorxLogStore) (w : World) : World :=
  if cfg.sharded then { w with shards := w.shards.map fun _ log => clean log }
  else { w with log := clean w.log }

lemma metadata_cleanLogs (cfg : Config) (clean : StorxLogStore → StorxLogStore) (w : World) :
    (cleanLogs cfg clean w).metadata = w.metadata := by
  unfold cleanLogs
  split <;> rfl

/-- A log is the one that was there, or that one cleaned. -/
lemma logAt_cleanLogs {cfg : Config} {clean : StorxLogStore → StorxLogStore} {w : World} {ref : LogRef}
    {log : StorxLogStore} (h : (cleanLogs cfg clean w).logAt ref = .ok log) :
    ∃ found, w.logAt ref = .ok found ∧ (log = found ∨ log = clean found) := by
  unfold cleanLogs at h
  split at h
  · cases ref with
    | main => exact ⟨log, h, .inl rfl⟩
    | shard id =>
      have hget := World.logAt_shard.mp h
      rw [Std.ExtTreeMap.getElem?_map] at hget
      obtain ⟨found, hfound, rfl⟩ := Option.map_eq_some_iff.mp hget
      exact ⟨found, World.logAt_shard.mpr hfound, .inr rfl⟩
  · cases ref with
    | main =>
      cases h
      exact ⟨w.log, rfl, .inr rfl⟩
    | shard id => exact ⟨log, h, .inl rfl⟩

/-- `EnforceRetention`, of both runtimes. -/
def enforceRetention (cfg : Config) (nowMS : Nat) : World → World :=
  cleanLogs cfg fun log => log.enforceRetention nowMS

/-- `Compact`, of both runtimes. -/
def compact (cfg : Config) (nowMS : Nat) : World → World :=
  cleanLogs cfg fun log => log.compact nowMS

end MessageRuntime

/-- `EnforceRetentionOnce`: expired messages go to their dead-letter topics, and then, if that
went through, the logs are cleaned. The number is that of the dead-lettered records. -/
def enforceRetentionOnce (cfg : Config) (fuel : Nat) (w : World) : Except Error Nat × World :=
  let nowMS := w.env.clock 0
  match (deadLetterExpiredMessages cfg fuel nowMS).run { w with env := w.env.dropClock 1 } with
  | (.error err, w) => (.error err, w)
  | (.ok moved, w) => (.ok moved, MessageRuntime.enforceRetention cfg nowMS w)

def compactOnce (cfg : Config) (w : World) : World :=
  MessageRuntime.compact cfg (w.env.clock 0) { w with env := w.env.dropClock 1 }

/-- `IsolatePoisonMessage`, up to the commit of the consumer's offset, which is a command. -/
def isolatePoisonMessage (cfg : Config) (scopedTopic : String) (partition : UInt32) (offset : Nat)
    (reason : String) : Handling DLQIndexEntry := do
  let record ← readRecordAtOffset cfg ⟨scopedTopic, partition⟩ offset
  isolatePoisonRecord cfg scopedTopic partition record reason

/-- One thing a broker does that can change its state. -/
inductive Activity where
  /-- A command is applied, whether it came through a group or was routed locally. -/
  | command (cmd : Command)
  | isolatePoisonMessage (topic : String) (partition : UInt32) (offset : Nat) (reason : String)
  | enforceRetentionOnce (fuel : Nat)
  | compactOnce

def Activity.run (cfg : Config) : Activity → World → World
  | command cmd, w => (applyCommand cfg cmd w).2
  | isolatePoisonMessage topic partition offset reason, w =>
    ((Broker.isolatePoisonMessage cfg topic partition offset reason).run w).2
  | enforceRetentionOnce fuel, w => (Broker.enforceRetentionOnce cfg fuel w).2
  | compactOnce, w => Broker.compactOnce cfg w

end Ech0.Broker
