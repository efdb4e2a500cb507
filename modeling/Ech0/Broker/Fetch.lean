/-
  Fetching: what a consumer is given from the log of a partition.

  A fetch starts at the committed offset of the consumer, reads a page, leaves out the records that
  were acknowledged one by one and puts the rest in the order of their priority. A fetch of committed
  records reads page after page instead, passes over the records of aborted transactions and the
  control records, and stops at the first record of a transaction that is open. Neither changes
  anything but the placement cache (`Peeks`).
-/
import Ech0.Broker.ProducerDedupe
import Ech0.Broker.ConsumerOffsets

set_option autoImplicit false

namespace Ech0.Broker

open Ech0.Lib Ech0.Store StorxLogStore Prog

/-! ## The order of priority (`priority.go`) -/

def recordPriority (policy : TopicPriorityPolicy) (record : Record) : Except Error Nat := do
  match ← priorityFromHeaders record.headers with
  | none => .ok policy.default
  | some priority =>
    if priority < policy.min ∨ policy.max < priority then
      .error (brokerStoreError .codec ("record offset " ++ showNat record.offset ++ " priority "
        ++ showNat priority ++ " is outside topic range " ++ showNat policy.min ++ ".."
        ++ showNat policy.max))
    else .ok priority

structure PrioritizedRecord where
  record : Record
  priority : Nat

/-- `comparePrioritizedRecord`: the higher priority first, then the lower offset. -/
def prioritizedRecordLE (left right : PrioritizedRecord) : Bool :=
  if left.priority ≠ right.priority then right.priority ≤ left.priority
  else left.record.offset ≤ right.record.offset

def orderRecordsByPriorityPolicy (policy : TopicPriorityPolicy) (records : List Record) :
    Except Error (List Record) := do
  let items ← records.mapM fun record => do
    let priority ← recordPriority policy record
    .ok (PrioritizedRecord.mk record priority)
  .ok ((items.insertionSort fun left right => prioritizedRecordLE left right).map
    PrioritizedRecord.record)

def orderRecordsByPriority (topicName : String) (records : List Record) : Handling (List Record) :=
  if records.length < 2 then pure records
  else do
    let topic ← loadTopicConfig topicName
    let policy := normalizeTopicPriorityPolicy topic.priorityPolicy
    if policy.enabled then Prog.ofExcept (orderRecordsByPriorityPolicy policy records)
    else pure records

/-! ## A page of a partition (`ack_offsets.go`, `transaction_fetch.go`, `pause_fetch.go`) -/

def recordsWithoutPendingOffsets (records : List Record) (pendingOffsets : List Nat) : List Record :=
  records.filter fun record => record.offset ∉ pendingOffsets

def removePendingAckedRecords (consumer : String) (tp : TopicPartition) (records : List Record) :
    Handling (List Record) :=
  if records = [] then pure records
  else do
    match ← wrapBroker "load pending acked offsets"
        (onMeta (.loadConsumerOffsetState consumer tp)) with
    | none => pure records
    | some state =>
      if state.pendingOffsets = [] then pure records
      else pure (recordsWithoutPendingOffsets records state.pendingOffsets)

def prepareFetchedRecords (consumer : String) (tp : TopicPartition) (records : List Record) :
    Handling (List Record) := do
  let records ← removePendingAckedRecords consumer tp records
  orderRecordsByPriority tp.topic records

def isConsumerPaused (consumer : String) (tp : TopicPartition) : Handling Bool := do
  let state ← wrapBroker "load consumer pause" (onMeta (.loadConsumerPause consumer tp))
  pure (state.any ConsumerPauseState.paused)

def fetchStartOffset (cfg : Config) (consumer : String) (tp : TopicPartition) (offset : Option Nat) :
    Handling Nat := do
  let offsets ← wrapBroker "load message partition offsets" (MessageRuntime.partitionOffsets cfg tp)
  match offset with
  | some offset => pure (max offset offsets.logStartOffset)
  | none =>
    match ← wrapBroker "load consumer offset" (onMeta (.loadConsumerOffset consumer tp)) with
    | none => pure offsets.logStartOffset
    | some committed => pure (max committed offsets.logStartOffset)

/-- `pausedPollResult`: a paused consumer is told where it stands and gets no records. -/
def pausedPollResult (cfg : Config) (consumer : String) (tp : TopicPartition) (offset : Option Nat) :
    Handling (Option PollResult) := do
  if ← isConsumerPaused consumer tp then
    let nextOffset ← fetchStartOffset cfg consumer tp offset
    let offsets ← wrapBroker "load paused fetch partition offsets"
      (MessageRuntime.partitionOffsets cfg tp)
    pure (some
      { records := []
        nextOffset := nextOffset
        highWatermark := offsets.highWatermark
        lowWatermark := offsets.lowWatermark
        logStartOffset := offsets.logStartOffset })
  else pure none

/-- The number of records a fetch may return. -/
def clampFetch (cfg : Config) (maxRecords : Nat) : Nat :=
  if maxRecords = 0 ∨ cfg.maxFetchRecords < maxRecords then cfg.maxFetchRecords else maxRecords

/-- `fetchScoped`. What `waitForRaftRead` answers is an input. -/
def fetchScoped (cfg : Config) (raftRead : Except Error Unit) (consumer : String)
    (tp : TopicPartition) (offset : Option Nat) (maxRecords : Nat) : Handling PollResult := do
  Prog.ofExcept raftRead
  match ← pausedPollResult cfg consumer tp offset with
  | some poll => pure poll
  | none =>
    let poll ← wrapBroker "fetch records"
      (MessageRuntime.fetch cfg consumer tp offset (clampFetch cfg maxRecords))
    let records ← prepareFetchedRecords consumer tp poll.records
    pure { poll with records := records }

/-! ## Committed records (`transaction_fetch.go`) -/

inductive TransactionRecordVisibility where
  | visible
  | hidden
  | «open»
  deriving DecidableEq

def transactionRecordVisibility (record : Record) : Handling TransactionRecordVisibility :=
  match record.transaction with
  | none => pure .visible
  | some transaction =>
    if transaction.controlType ≠ .none then pure .hidden
    else do
      match ← wrapBroker "load transaction visibility"
          (onMeta (.loadTransaction transaction.txID)) with
      | none => pure .open
      | some state =>
        if state.status = .open then pure .open
        else if state.status = .committed then pure .visible
        else pure .hidden

/-- The loop of `collectCommittedRecords`: whether to stop, the next cursor and what is visible. The
cursor is a `uint64` and comes round to 0 behind the last offset. -/
def collectCommittedRecords (maxRecords : Nat) :
    List Record → Nat → List Record → Handling (Bool × Nat × List Record)
  | [], nextCursor, visible => pure (false, nextCursor, visible)
  | record :: rest, _, visible => do
    match ← transactionRecordVisibility record with
    | .open => pure (true, record.offset, visible)
    | .hidden =>
      if maxRecords ≤ visible.length then pure (true, addUint64 record.offset 1, visible)
      else collectCommittedRecords maxRecords rest (addUint64 record.offset 1) visible
    | .visible =>
      let visible := visible ++ [record]
      if maxRecords ≤ visible.length then pure (true, addUint64 record.offset 1, visible)
      else collectCommittedRecords maxRecords rest (addUint64 record.offset 1) visible

/-- The loop of `readCommittedRecords`, for so many rounds; `none` if they do not suffice. -/
def readCommittedLoop (cfg : Config) (tp : TopicPartition) (maxRecords : Nat) :
    Nat → Nat → List Record → Handling (Option (List Record × Nat))
  | 0, _, _ => pure none
  | rounds + 1, cursor, visible =>
    if visible.length < maxRecords then do
      let records ← wrapBroker "read committed messages"
        (MessageRuntime.readFrom cfg tp cursor (maxRecords - visible.length))
      if records = [] then pure (some (visible, cursor))
      else do
        let (stop, nextCursor, visible) ← collectCommittedRecords maxRecords records 0 visible
        if stop then pure (some (visible, nextCursor))
        else readCommittedLoop cfg tp maxRecords rounds nextCursor visible
    else pure (some (visible, cursor))

def readCommittedRecords (cfg : Config) (tp : TopicPartition) (offset maxRecords rounds : Nat) :
    Handling (Option (List Record × Nat)) :=
  readCommittedLoop cfg tp maxRecords rounds offset []

/-! ## Reading without a trace -/

/-- Only the placement cache is another, and it says what it said. -/
structure Peeked (cfg : Config) (w w' : World) : Prop where
  looked : Looked cfg w w'
  cached : ∃ cache, w' = { w with placementCache := cache }

lemma Peeked.refl (cfg : Config) (w : World) : Peeked cfg w w := ⟨.refl cfg w, _, rfl⟩

lemma Peeked.trans {cfg : Config} {w1 w2 w3 : World} (h : Peeked cfg w1 w2)
    (h' : Peeked cfg w2 w3) : Peeked cfg w1 w3 := by
  obtain ⟨cache, rfl⟩ := h.cached
  obtain ⟨cache', rfl⟩ := h'.cached
  exact ⟨⟨rfl, fun _ => rfl, fun tp => (h'.looked.resolved tp).trans (h.looked.resolved tp), h.looked.clock⟩,
    cache', rfl⟩

lemma Peeked.inv {cfg : Config} {w w' : World} (h : Peeked cfg w w') (hinv : WorldInv w) :
    WorldInv w' := by
  obtain ⟨cache, rfl⟩ := h.cached
  exact ⟨hinv.metadata, hinv.log, hinv.shards⟩

/-- The program gives this result and leaves the world as it is, whatever was looked up before. -/
def Peeks (cfg : Config) (w : World) {α : Type} (p : Handling α) (r : Except Error α) : Prop :=
  ∀ w1, Peeked cfg w w1 → ∃ w2, Peeked cfg w w2 ∧ Prog.exec step p w1 = (r, w2)

section
variable {cfg : Config} {w : World} {α β : Type}

lemma peeks_done (r : Except Error α) : Peeks cfg w (Prog.ofExcept r) r :=
  fun w1 h => ⟨w1, h, rfl⟩

lemma peeks_pure (a : α) : Peeks cfg w (pure a) (.ok a) := fun w1 h => ⟨w1, h, rfl⟩

lemma Peeks.bind {p : Handling α} {f : α → Handling β} {a : α} {r : Except Error β}
    (hp : Peeks cfg w p (.ok a)) (hf : Peeks cfg w (f a) r) : Peeks cfg w (p >>= f) r := by
  intro w1 h1
  obtain ⟨w2, h2, hrun⟩ := hp w1 h1
  obtain ⟨w3, h3, hnext⟩ := hf w2 h2
  exact ⟨w3, h3, (exec_bind_ok step hrun).trans hnext⟩

lemma Peeks.bind_error {p : Handling α} {f : α → Handling β} {err : Error}
    (hp : Peeks cfg w p (.error err)) : Peeks cfg w (p >>= f) (.error err) := by
  intro w1 h1
  obtain ⟨w2, h2, hrun⟩ := hp w1 h1
  exact ⟨w2, h2, exec_bind_error step hrun⟩

lemma Peeks.bind_map {p : Handling α} {f : α → Handling β} {g : α → β} {r : Except Error α}
    (hp : Peeks cfg w p r) (hf : ∀ a, Peeks cfg w (f a) (.ok (g a))) :
    Peeks cfg w (p >>= f) (r.map g) := by
  cases r with
  | error err => exact hp.bind_error
  | ok a => exact hp.bind (hf a)

lemma Peeks.wrapBroker {p : Handling α} {r : Except Error α} (hp : Peeks cfg w p r)
    (context : String) : Peeks cfg w (wrapBroker context p) (r.mapError (Error.wrap context)) := by
  intro w1 h1
  obtain ⟨w2, h2, hrun⟩ := hp w1 h1
  refine ⟨w2, h2, ?_⟩
  rw [exec_wrapBroker, hrun]

lemma peeks_onMeta {op : MetaOp} (hsame : ∀ s : MemoryStore, (op.run s).2 = s) :
    Peeks cfg w (onMeta op) (op.run w.metadata).1 := by
  intro w1 h1
  refine ⟨w1, h1, ?_⟩
  rw [← h1.looked.metadata]
  exact Prod.ext rfl (congrArg (fun m => ({ w1 with metadata := m } : World)) (hsame w1.metadata))

/-- The result of a program that only looks is the only one. -/
lemma Peeks.unique {p : Handling α} {r r' : Except Error α} {w' : World} (hp : Peeks cfg w p r)
    (hrun : exec step p w = (r', w')) : r' = r := by
  obtain ⟨w2, -, hrun'⟩ := hp w (.refl cfg w)
  rw [hrun] at hrun'
  exact congrArg Prod.fst hrun'

lemma peeks_logFor_map (cfg : Config) (hinv : WorldInv w) (tp : TopicPartition) :
    Peeks cfg w (MessageRuntime.logFor cfg tp)
      ((w.logAt (w.holder cfg tp)).map fun _ => w.holder cfg tp) := by
  intro w1 h1
  obtain ⟨cache, hlooked, hrun⟩ := exec_logFor cfg (h1.inv hinv) tp
  rw [h1.looked.holder, h1.looked.logAt] at hrun
  exact ⟨_, h1.trans ⟨hlooked, cache, rfl⟩, hrun⟩

lemma peeks_logFor (hinv : WorldInv w) {tp : TopicPartition} {log : StorxLogStore}
    (hlog : w.logAt (w.holder cfg tp) = .ok log) :
    Peeks cfg w (MessageRuntime.logFor cfg tp) (.ok (w.holder cfg tp)) := by
  have hpeeks := peeks_logFor_map cfg hinv tp
  rwa [hlog] at hpeeks

lemma peeks_onLog {ref : LogRef} {log : StorxLogStore} (hlog : w.logAt ref = .ok log) {op : LogOp}
    (hreadings : op.readings = 0)
    (hsame : ∀ (clock : Nat → Nat) (s : StorxLogStore), (op.run clock s).2 = s) :
    Peeks cfg w (onLog ref op) (op.run w.env.clock log).1 := by
  intro w1 h1
  refine ⟨w1, h1, Prod.ext ?_ (step_log_read hreadings hsame w1)⟩
  obtain ⟨cache, rfl⟩ := id h1.cached
  have hat : ({ w with placementCache := cache } : World).logAt ref = .ok log := hlog
  change (step (.log ref op) { w with placementCache := cache }).1 = _
  simp only [step, hat]
  rfl

variable {tp : TopicPartition} {log : StorxLogStore}

/-- The records from an offset on. -/
def recordsFrom (records : List Record) (offset : Nat) : List Record :=
  records.filter fun record => offset ≤ record.offset

lemma readFrom_eq (hinv : LogInv log) (hpart : log.HasPartition tp) (offset maxRecords : Nat) :
    log.readFrom tp offset maxRecords = .ok ((recordsFrom (log.recordsAt tp) offset).take maxRecords) := by
  obtain ⟨topic, htopic⟩ := hpart
  unfold readFrom recordPointersFrom
  by_cases hzero : maxRecords = 0
  · rw [if_pos hzero, hzero, List.take_zero]
  · rw [if_neg hzero, (loadTopicForPartition_ok_iff log tp topic).mpr htopic,
      (hinv.ordered tp).dropWhile_eq_filter]
    rfl

lemma peeks_readFrom (hinv : WorldInv w) (hlog : w.logAt (w.holder cfg tp) = .ok log)
    (hpart : log.HasPartition tp) (offset maxRecords : Nat) :
    Peeks cfg w (MessageRuntime.readFrom cfg tp offset maxRecords)
      (.ok ((recordsFrom (log.recordsAt tp) offset).take maxRecords)) := by
  have hread : Peeks cfg w (onLog (w.holder cfg tp) (.readFrom tp offset maxRecords))
      (log.readFrom tp offset maxRecords) := peeks_onLog hlog rfl (fun _ _ => rfl)
  rw [readFrom_eq (hinv.logAt hlog) hpart] at hread
  exact (peeks_logFor hinv hlog).bind (hread.wrapBroker _)

end

end Ech0.Broker
