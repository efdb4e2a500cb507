/-
  Passes over a retry or a delay topic (`applyProcessRetryBatch`, `applyProcessDelayPartition`).

  A pass reads the records its worker has not processed, moves them one by one to where they are due,
  up to the first that is not due, and saves the worker's offset behind the last. A record that is due
  is left behind when one in front of it is not, so a pass moves what is due exactly when the records
  come due in their order.
-/
import Ech0.Store.JoinedAppends
import Ech0.Broker.InboxCursors
import Ech0.Broker.Delivery

set_option autoImplicit false

namespace Ech0.Broker

open Ech0.Lib Ech0.Store StorxLogStore Prog List

variable (cfg : Config) {records : List Record}

/-! ## Workers (`delay.go`, `retry_apply.go`) -/

/-- A worker, with the partition that it goes through. -/
inductive Mover where
  | retry (consumer sourceTopic : String) (partition : UInt32)
  | delay (consumer delayTopic defaultTargetTopic : String) (partition : UInt32)

/-- What the command for a pass says besides; zero stands for the default and for the time there is. -/
structure PassInput where
  maxRecords : Nat := 0
  nowMS : Nat := 0

/-- `processRetryNowMS` and `processDelayNowMS`. -/
def PassInput.time (input : PassInput) (w : World) : Nat :=
  if input.nowMS = 0 then w.env.clock 0 else input.nowMS

namespace Mover

def consumer : Mover → String
  | retry consumer _ _ => consumer
  | delay consumer _ _ _ => consumer

def tp : Mover → TopicPartition
  | retry _ sourceTopic partition => ⟨retryTopicName sourceTopic, partition⟩
  | delay _ delayTopic _ partition => ⟨delayTopic, partition⟩

/-- `processRetryMaxRecords` and `processDelayMaxRecords`. -/
def limit (cfg : Config) : Mover → PassInput → Nat
  | retry _ _ _, input => if input.maxRecords = 0 then cfg.retryWorkerMaxRecords else input.maxRecords
  | delay _ _ _ _, input => if input.maxRecords = 0 then cfg.delaySchedulerMaxRecords else input.maxRecords

def ready : Mover → Nat → Record → Except Error Bool
  | retry _ _ _, now, record => retryRecordReady record now
  | delay _ _ _ _, now, record => delayedRecordReady record now

def move (cfg : Config) : Mover → Record → Handling Unit
  | retry _ sourceTopic partition, record => do
    let _ ← processDueRetryRecord cfg record sourceTopic partition
    pure ()
  | delay consumer delayTopic defaultTargetTopic partition, record =>
    forwardDelayedRecord cfg ⟨consumer, delayTopic, defaultTargetTopic, partition, 0, 0⟩ record

def commit (cfg : Config) : Mover → Nat → Handling Unit
  | mover@(retry consumer _ _), nextOffset =>
    wrapBroker "ack retry records" (MessageRuntime.ack cfg consumer mover.tp nextOffset)
  | mover@(delay consumer _ _ _), nextOffset =>
    wrapBroker "save delay consumer offset" (saveConsumerOffset consumer mover.tp nextOffset)

/-- The pass, as the command for it runs; what it reports is left out. -/
def pass (cfg : Config) : Mover → PassInput → Handling Unit
  | retry consumer sourceTopic partition, input => do
    let _ ← applyProcessRetryBatch cfg
      ⟨consumer, sourceTopic, partition, input.maxRecords, input.nowMS⟩
    pure ()
  | delay consumer delayTopic defaultTargetTopic partition, input => do
    let _ ← applyProcessDelayPartition cfg
      ⟨consumer, delayTopic, defaultTargetTopic, partition, input.maxRecords, input.nowMS⟩
    pure ()

/-- What a pass begins with: the records that it has read, and the time. -/
def fetched (cfg : Config) : Mover → PassInput → Handling (List Record × Nat)
  | mover@(retry consumer _ _), input => do
    if consumer = "" then Prog.fail (brokerStoreError .invalidArgument "consumer is required")
    else
      let poll ← wrapBroker "fetch retry records"
        (MessageRuntime.fetch cfg consumer mover.tp none (mover.limit cfg input))
      let now ← orNowMS input.nowMS
      pure (poll.records, now)
  | mover@(delay consumer _ _ _), input => do
    let committed ← wrapBroker "load delay consumer offset"
      (onMeta (.loadConsumerOffset consumer mover.tp))
    let records ← wrapBroker "read delayed records"
      (MessageRuntime.readFrom cfg mover.tp (committed.getD 0) (mover.limit cfg input))
    let now ← orNowMS input.nowMS
    pure (records, now)

/-- The loop of a pass: the records it moves, and the error that it ends with, if it fails. -/
def walk {α : Type} (ready : Record → Except Error Bool) (move : Record → Handling α) :
    List Record → World → List Record × Option Error × World
  | [], w => ([], none, w)
  | record :: rest, w =>
    match ready record with
    | .error e => ([], some e, w)
    | .ok false => ([], none, w)
    | .ok true =>
      match Prog.exec step (move record) w with
      | (.error e, w') => ([], some e, w')
      | (.ok _, w') => (record :: (walk ready move rest w').1, (walk ready move rest w').2)

/-- The pass up to the offset. -/
def walked (cfg : Config) (mover : Mover) (input : PassInput) (w : World) :
    List Record × Option Error × World :=
  match Prog.exec step (mover.fetched cfg input) w with
  | (.error e, w') => ([], some e, w')
  | (.ok (records, now), w') => walk (mover.ready now) (mover.move cfg) records w'

/-- The records that a pass moves. -/
def moved (cfg : Config) (mover : Mover) (input : PassInput) (w : World) : List Record :=
  (mover.walked cfg input w).1

/-! ## The two loops (`delay.go`, `retry_apply.go`) -/

/-- What `processFetchedRetryRecords` and `forwardDueDelayedRecords` have in common. -/
def dueLoop {σ α : Type} (ready : Record → Except Error Bool) (move : Record → Handling α)
    (add : σ → Record → α → σ) : σ → List Record → Handling σ
  | state, [] => pure state
  | state, record :: rest => do
    if ← Prog.ofExcept (ready record) then
      let a ← move record
      dueLoop ready move add (add state record a) rest
    else pure state

lemma processFetchedRetryRecords_eq (req : ProcessRetryCommand) (now : Nat)
    (result : ProcessRetryResult) (records : List Record) :
    processFetchedRetryRecords cfg req now result records
      = dueLoop (fun record => retryRecordReady record now)
          (fun record => processDueRetryRecord cfg record req.sourceTopic req.partition)
          (fun result record deadLettered => { recordRetryMove result deadLettered with
            committedNextOffset := some (addUint64 record.offset 1) }) result records := by
  induction records generalizing result with
  | nil => rfl
  | cons record rest ih => simp only [processFetchedRetryRecords, dueLoop, ih]

lemma forwardDueDelayedRecords_eq (req : ProcessDelayCommand) (now moved : Nat)
    (commitNext : Option Nat) (records : List Record) :
    forwardDueDelayedRecords cfg req now moved commitNext records
      = dueLoop (fun record => delayedRecordReady record now) (forwardDelayedRecord cfg req)
          (fun state record _ => (state.1 + 1, some (addUint64 record.offset 1))) (moved, commitNext)
          records := by
  induction records generalizing moved commitNext with
  | nil => rfl
  | cons record rest ih => simp only [forwardDueDelayedRecords, dueLoop, ih]

/-- The offset behind the last of the records, as a pass computes it. -/
def pastLast (moved : List Record) : Option Nat :=
  moved.getLast?.map fun record => addUint64 record.offset 1

/-- How a pass ends: with the error of its loop, or with the save of the offset behind what it moved. -/
def ended (cfg : Config) (mover : Mover) : List Record × Option Error × World → Except Error Unit × World
  | (_, some e, w) => (.error e, w)
  | (moved, none, w) =>
    match pastLast moved with
    | none => (.ok (), w)
    | some nextOffset => Prog.exec step (mover.commit cfg nextOffset) w

lemma pastLast_cons (record : Record) (moved : List Record) (before : Option Nat) :
    (pastLast (record :: moved)).or before = (pastLast moved).or (some (addUint64 record.offset 1)) := by
  unfold pastLast
  rw [getLast?_cons]
  cases moved.getLast? with
  | none => rfl
  | some last => rfl

lemma exec_dueLoop {σ α : Type} (ready : Record → Except Error Bool) (move : Record → Handling α)
    (add : σ → Record → α → σ) (past : σ → Option Nat)
    (hpast : ∀ state record a, past (add state record a) = some (addUint64 record.offset 1))
    (state : σ) (records : List Record) (w : World) :
    match walk ready move records w with
    | (_, some e, w') => exec step (dueLoop ready move add state records) w = (.error e, w')
    | (moved, none, w') => ∃ state',
        exec step (dueLoop ready move add state records) w = (.ok state', w') ∧
          past state' = (pastLast moved).or (past state) := by
  induction records generalizing state w with
  | nil => exact ⟨state, rfl, rfl⟩
  | cons record rest ih =>
    rw [dueLoop, exec_bind, exec_ofExcept, walk]
    cases ready record with
    | error e => rfl
    | ok due =>
      cases due with
      | false => exact ⟨state, rfl, rfl⟩
      | true =>
        dsimp only
        rw [if_pos rfl, exec_bind]
        rcases exec step (move record) w with ⟨_ | a, w'⟩
        · rfl
        · have hrest := ih (add state record a) w'
          rcases hwalk : walk ready move rest w' with ⟨moved, _ | e, v⟩
          · simp only [hwalk, hpast] at hrest ⊢
            rwa [pastLast_cons]
          · simpa only [hwalk] using hrest

/-- What a move gives back does not matter to the loop. -/
lemma walk_map {α β : Type} (ready : Record → Except Error Bool) (move : Record → Handling α)
    (f : α → β) (records : List Record) (w : World) :
    walk ready (fun record => do let a ← move record; pure (f a)) records w
      = walk ready move records w := by
  induction records generalizing w with
  | nil => rfl
  | cons record rest ih =>
    rw [walk, walk, exec_bind]
    rcases exec step (move record) w with ⟨_ | a, w'⟩
    · rfl
    · simp only [exec_pure, ih]

/-- A pass that goes on from its loop to save the offset, where the loop has one. -/
lemma exec_pass_of {cfg : Config} {mover : Mover} {input : PassInput} {σ α : Type}
    {move : Record → Handling α} (add : σ → Record → α → σ) (state : σ) (past : σ → Option Nat)
    (hpass : mover.pass cfg input = mover.fetched cfg input >>= fun found =>
      dueLoop (mover.ready found.2) move add state found.1 >>= fun state =>
        match past state with
        | none => pure ()
        | some nextOffset => mover.commit cfg nextOffset)
    (hwalk : ∀ ready records w, walk ready (mover.move cfg) records w = walk ready move records w)
    (hpast : ∀ state record a, past (add state record a) = some (addUint64 record.offset 1))
    (hstate : past state = none) (w : World) :
    exec step (mover.pass cfg input) w = mover.ended cfg (mover.walked cfg input w) := by
  rw [hpass, exec_bind, walked]
  rcases exec step (mover.fetched cfg input) w with ⟨_ | ⟨records, now⟩, w1⟩
  · rfl
  · have hloop := exec_dueLoop (mover.ready now) move add past hpast state records w1
    simp only [hwalk, exec_bind]
    rcases hcase : walk (mover.ready now) move records w1 with ⟨moved, _ | e, v⟩
    · simp only [hcase] at hloop ⊢
      obtain ⟨state', hrun, hstate'⟩ := hloop
      rw [hrun]
      dsimp only
      rw [hstate', hstate, Option.or_none, ended]
      cases pastLast moved <;> rfl
    · simp only [hcase] at hloop ⊢
      rw [hloop, ended]

/-- **A pass** moves what its loop moves, and saves the offset behind that unless the loop fails. -/
theorem exec_pass (mover : Mover) (input : PassInput) (w : World) :
    exec step (mover.pass cfg input) w = mover.ended cfg (mover.walked cfg input w) := by
  cases mover with
  | retry consumer sourceTopic partition =>
    refine exec_pass_of (fun result record deadLettered => { recordRetryMove result deadLettered with
        committedNextOffset := some (addUint64 record.offset 1) })
      ⟨retryTopicName sourceTopic, partition, 0, 0, none⟩
      ProcessRetryResult.committedNextOffset ?_ (fun ready => walk_map ready _ _) (fun _ _ _ => rfl) rfl w
    unfold pass fetched applyProcessRetryBatch
    by_cases hconsumer : consumer = ""
    · simp only [if_pos hconsumer]
      rfl
    · simp only [if_neg hconsumer, processFetchedRetryRecords_eq, bind_assoc, pure_bind]
      refine bind_congr fun poll => bind_congr fun now => bind_congr fun result => ?_
      cases result.committedNextOffset with
      | none => rfl
      | some nextOffset => exact (bind_assoc _ _ _).trans bind_pure_unit
  | delay consumer delayTopic defaultTargetTopic partition =>
    refine exec_pass_of
      (fun (state : Nat × Option Nat) record _ => (state.1 + 1, some (addUint64 record.offset 1)))
      (0, none) Prod.snd ?_ (fun _ _ _ => rfl) (fun _ _ _ => rfl) rfl w
    unfold pass fetched applyProcessDelayPartition
    simp only [forwardDueDelayedRecords_eq, bind_assoc, pure_bind]
    refine bind_congr fun committed => bind_congr fun records => bind_congr fun now => bind_congr fun state => ?_
    cases state.2 with
    | none => rfl
    | some nextOffset => exact (bind_assoc _ _ _).trans bind_pure_unit

/-! ## What a pass reads -/

variable {cfg : Config} {mover : Mover} {input : PassInput} {now : Nat} {w : World}

/-- The records that the worker has not processed. -/
def unprocessed (cfg : Config) (mover : Mover) (w : World) : List Record :=
  match w.logAt (w.holder cfg mover.tp) with
  | .error _ => []
  | .ok log => recordsFrom (log.recordsAt mover.tp) ((w.cursor mover.consumer mover.tp).getD 0)

/-- Those of them that a pass reads. -/
def window (cfg : Config) (mover : Mover) (input : PassInput) (w : World) : List Record :=
  (mover.unprocessed cfg w).take (mover.limit cfg input)

lemma unprocessed_eq {log : StorxLogStore} (hlog : w.logAt (w.holder cfg mover.tp) = .ok log) :
    mover.unprocessed cfg w
      = recordsFrom (log.recordsAt mover.tp) ((w.cursor mover.consumer mover.tp).getD 0) := by
  simp only [unprocessed, hlog]

lemma ordered_unprocessed (hinv : WorldInv w) : OffsetOrdered (mover.unprocessed cfg w) := by
  unfold unprocessed
  split
  · exact List.Pairwise.nil
  · next log hlog => exact ((hinv.logAt hlog).ordered _).filter _

lemma logStart_of_fetch {w w1 : World} {consumer : String} {tp : TopicPartition} {maxRecords : Nat}
    {poll : PollResult} (hinv : WorldInv w)
    (h : exec step (MessageRuntime.fetch cfg consumer tp none maxRecords) w = (.ok poll, w1)) :
    ∃ start, w.logStart cfg tp = some start := by
  obtain ⟨cache, hlooked, hfor⟩ := exec_logFor cfg hinv tp
  obtain ⟨ref, w', href, hfetch⟩ := exec_bind_eq_ok step h
  rw [hfor] at href
  unfold World.logStart
  cases hlog : w.logAt (w.holder cfg tp) with
  | error e =>
    rw [hlog] at href
    cases href
  | ok log =>
    rw [hlog] at href
    cases href
    obtain ⟨offsets, w2, hload, -⟩ :=
      exec_bind_eq_ok step (exec_mapError_eq_ok step hfetch)
    have hoffsets : (step (.log (w.holder cfg tp) (.partitionOffsets tp))
        { w with placementCache := cache }).1 = .ok offsets :=
      congrArg Prod.fst (exec_mapError_eq_ok step hload)
    have hat : ({ w with placementCache := cache } : World).logAt (w.holder cfg tp) = .ok log := hlog
    simp only [step, hat] at hoffsets
    have hrun : log.partitionOffsets tp = .ok offsets := hoffsets
    exact ⟨offsets.logStartOffset, by simp only [hrun]; rfl⟩

lemma peeks_fetch_unprocessed (hinv : WorldInv w) {start : Nat}
    (hstart : w.logStart cfg mover.tp = some start) (maxRecords : Nat) :
    ∃ poll : PollResult, poll.records = (mover.unprocessed cfg w).take maxRecords ∧
      Peeks cfg w (MessageRuntime.fetch cfg mover.consumer mover.tp none maxRecords) (.ok poll) := by
  obtain ⟨log, offsets, hlog, hpart, -, -⟩ := exists_log_of_logStart hstart
  obtain ⟨poll, hrecords, hpeeks⟩ := peeks_fetch hinv hlog hstart mover.consumer maxRecords
  refine ⟨poll, ?_, hpeeks⟩
  rw [hrecords, unprocessed_eq hlog]
  congr 1
  refine filter_congr fun record hrecord => ?_
  -- the log has nothing in front of its start
  have hfirst := logStart_le hinv hlog hstart hrecord
  have hsame : w.cursor mover.consumer mover.tp
      = (w.offsetState mover.consumer mover.tp).map ConsumerOffsetState.nextOffset :=
    Except.ok.inj ((@peeks_loadConsumerOffset mover.consumer cfg w mover.tp "").unique rfl)
  rw [hsame]
  cases w.offsetState mover.consumer mover.tp with
  | none => simp [position, hfirst]
  | some state => simp [position, hfirst]

lemma records_of_readFrom {log : StorxLogStore} (hinv : LogInv log) {tp : TopicPartition}
    {offset maxRecords : Nat} (h : log.readFrom tp offset maxRecords = .ok records) :
    records = (recordsFrom (log.recordsAt tp) offset).take maxRecords := by
  by_cases hzero : maxRecords = 0
  · rw [readFrom, if_pos hzero] at h
    rw [hzero, take_zero]
    exact (Except.ok.inj h).symm
  · cases hload : log.loadTopicForPartition tp with
    | error e => simp [readFrom, hzero, hload, bind, Except.bind] at h
    | ok topic =>
      rw [readFrom_eq hinv ⟨topic, (loadTopicForPartition_ok_iff log tp topic).mp hload⟩] at h
      exact (Except.ok.inj h).symm

lemma fetched_ok {w w1 : World} (hinv : WorldInv w)
    (h : exec step (mover.fetched cfg input) w = (.ok (records, now), w1)) :
    records = mover.window cfg input w ∧ now = input.time w := by
  unfold window
  have hclock : ∀ {cache : Map TopicPartition ShardPlacement},
      exec step (orNowMS input.nowMS) { w with placementCache := cache } = (.ok now, w1) →
      now = input.time w := by
    intro cache hnow
    unfold orNowMS at hnow
    unfold PassInput.time
    by_cases hzero : input.nowMS = 0
    · rw [if_pos hzero] at hnow ⊢
      cases hnow
      rfl
    · rw [if_neg hzero] at hnow ⊢
      cases hnow
      rfl
  cases mover with
  | retry consumer sourceTopic partition =>
    rw [fetched] at h
    by_cases hconsumer : consumer = ""
    · rw [if_pos hconsumer] at h
      cases h
    · rw [if_neg hconsumer] at h
      obtain ⟨poll, w', hpoll, hrest⟩ := exec_bind_eq_ok step h
      obtain ⟨now', w'', hnow, hpure⟩ := exec_bind_eq_ok step hrest
      cases hpure
      have hfetch := exec_mapError_eq_ok step hpoll
      obtain ⟨start, hstart⟩ := logStart_of_fetch hinv hfetch
      obtain ⟨poll', hrecords, hpeeks⟩ := peeks_fetch_unprocessed hinv hstart
        (limit cfg (.retry consumer sourceTopic partition) input)
      obtain ⟨w2, hpeeked, hrun⟩ := hpeeks w (.refl cfg w)
      cases hfetch.symm.trans hrun
      obtain ⟨cache, rfl⟩ := hpeeked.cached
      exact ⟨hrecords, hclock hnow⟩
  | delay consumer delayTopic defaultTargetTopic partition =>
    rw [fetched] at h
    obtain ⟨committed, w', hload, hrest⟩ := exec_bind_eq_ok step h
    cases hload
    obtain ⟨found, w'', hread, hrest⟩ := exec_bind_eq_ok step hrest
    obtain ⟨now', w3, hnow, hpure⟩ := exec_bind_eq_ok step hrest
    cases hpure
    obtain ⟨r, cache, hlooked, hrun, hr⟩ := exec_read cfg hinv ⟨delayTopic, partition⟩
      (.readFrom ⟨delayTopic, partition⟩ _ _) rfl (fun _ _ => rfl) _
    cases (exec_mapError_eq_ok step hread).symm.trans hrun
    refine ⟨?_, hclock hnow⟩
    cases hlog : w.logAt (w.holder cfg ⟨delayTopic, partition⟩) with
    | error e => simp [hlog, Except.toOption] at hr
    | ok log =>
      rw [hlog] at hr
      rw [unprocessed_eq hlog]
      exact records_of_readFrom (hinv.logAt hlog) (Except.toOption_eq_some.mp hr.symm)

/-! ## What a pass moves -/

/-- The record is due, and its time can be read. -/
def Due (mover : Mover) (now : Nat) (record : Record) : Prop := mover.ready now record = .ok true

instance (mover : Mover) (now : Nat) (record : Record) : Decidable (mover.Due now record) :=
  inferInstanceAs (Decidable (_ = _))

/-- The loop ends well when it comes to a record that is not due, or to the end. -/
lemma walk_takeWhile {moved : List Record} {w v : World}
    (h : walk (mover.ready now) (mover.move cfg) records w = (moved, none, v)) :
    moved = records.takeWhile fun record => mover.Due now record := by
  induction records generalizing moved w with
  | nil =>
    cases h
    rfl
  | cons record rest ih =>
    rw [walk] at h
    cases hready : mover.ready now record with
    | error e => simp [hready] at h
    | ok due =>
      cases due with
      | false =>
        simp only [hready, Prod.mk.injEq] at h
        rw [takeWhile_cons_of_neg (by simp [Due, hready]), ← h.1]
      | true =>
        rw [takeWhile_cons_of_pos (by simp [Due, hready])]
        rcases hmove : exec step (mover.move cfg record) w with ⟨_ | _, w'⟩
        · simp [hready, hmove] at h
        · simp only [hready, hmove, Prod.mk.injEq] at h
          rw [← h.1, ← ih (Prod.ext rfl h.2)]

lemma takeWhile_eq_filter {α : Type} {p : α → Bool} {l : List α}
    (h : l.Pairwise fun a b => p b → p a) : l.takeWhile p = l.filter p := by
  induction l with
  | nil => rfl
  | cons a l ih =>
    obtain ⟨hfirst, hrest⟩ := pairwise_cons.mp h
    by_cases ha : p a = true
    · rw [takeWhile_cons_of_pos ha, filter_cons_of_pos ha, ih hrest]
    · rw [takeWhile_cons_of_neg ha, filter_cons_of_neg ha, eq_comm, filter_eq_nil_iff]
      exact fun b hb hp => ha (hfirst b hb hp)

/-- A list that is taken while something holds has all of what it holds of exactly when this does not
come back. -/
lemma mem_takeWhile_iff_pairwise {α : Type} {p : α → Bool} {l : List α} (hl : l.Nodup) :
    (∀ a ∈ l, a ∈ l.takeWhile p ↔ p a) ↔ l.Pairwise fun a b => p b → p a := by
  constructor
  · intro h
    have hsplit : l.takeWhile p ++ l.dropWhile p = l := takeWhile_append_dropWhile
    have hrest : ∀ b ∈ l.dropWhile p, ¬ p b := by
      intro b hb hp
      rw [← hsplit] at hl
      exact disjoint_of_nodup_append hl ((h b ((dropWhile_sublist _).subset hb)).mpr hp) hb
    rw [← hsplit]
    refine pairwise_append.mpr ⟨?_, ?_, fun a ha b _ _ => mem_takeWhile_imp ha⟩
    · exact (hl.sublist (takeWhile_sublist _)).pairwise_of_forall_ne fun a ha _ _ _ _ => mem_takeWhile_imp ha
    · exact (hl.sublist (dropWhile_sublist _)).pairwise_of_forall_ne fun _ _ b hb _ hp =>
        absurd hp (hrest b hb)
  · intro h a ha
    rw [takeWhile_eq_filter h, mem_filter]
    exact ⟨fun hmem => hmem.2, fun hp => ⟨ha, hp⟩⟩

/-- What the loop of a pass starts from. -/
lemma walked_eq (cfg : Config) (mover : Mover) (input : PassInput) (hinv : WorldInv w) :
    (∃ e w', mover.walked cfg input w = ([], some e, w')) ∨
    ∃ w1, mover.walked cfg input w
      = walk (mover.ready (input.time w)) (mover.move cfg) (mover.window cfg input w) w1 := by
  unfold walked
  rcases hrun : exec step (mover.fetched cfg input) w with ⟨e | ⟨records, now⟩, w1⟩
  · exact .inl ⟨e, w1, rfl⟩
  · obtain ⟨rfl, rfl⟩ := fetched_ok hinv hrun
    exact .inr ⟨w1, rfl⟩

/-- A pass moves the records that are due, and no others. -/
def MovesDue (cfg : Config) (mover : Mover) (input : PassInput) (w : World) : Prop :=
  ∀ record ∈ mover.unprocessed cfg w,
    record ∈ mover.moved cfg input w ↔ mover.Due (input.time w) record

/-- **A pass that ends well** has moved what is due, and nothing else, exactly when no record that is
due stands behind one that is not. -/
theorem pass_moves_due_iff {w w' : World} (hinv : WorldInv w)
    (hlimit : (mover.unprocessed cfg w).length ≤ mover.limit cfg input)
    (hok : Prog.exec step (mover.pass cfg input) w = (.ok (), w')) :
    mover.MovesDue cfg input w ↔ (mover.unprocessed cfg w).Pairwise fun a b =>
      mover.Due (input.time w) b → mover.Due (input.time w) a := by
  unfold MovesDue
  have hpass := exec_pass cfg mover input w
  rcases walked_eq cfg mover input hinv with ⟨e, v, hwalked⟩ | ⟨w1, hwalked⟩
  · rw [hwalked, hok] at hpass
    cases hpass
  · rw [window, take_of_length_le hlimit] at hwalked
    rcases hcase : mover.walked cfg input w with ⟨moved, _ | e, v⟩
    · have hmoved := walk_takeWhile (hwalked.symm.trans hcase)
      have hnodup : (mover.unprocessed cfg w).Nodup :=
        (ordered_unprocessed hinv).imp fun hlt heq => absurd (congrArg Record.offset heq) hlt.ne
      have hiff := @mem_takeWhile_iff_pairwise _ (fun record => mover.Due (input.time w) record) _ hnodup
      rw [← hmoved] at hiff
      simpa only [Mover.moved, hcase, decide_eq_true_eq] using hiff
    · rw [hcase, hok] at hpass
      cases hpass

/-- Orders are scheduled for these times. -/
def scheduledOrders (times : List Nat) : List Command :=
  .createTopic (newTopicConfig "orders")
    :: times.map fun time => .scheduleDelay ⟨"orders", 0, [7], time⟩

def ordersMover : Mover := .delay "scheduler" "__delay.orders" "orders" 0

/-- What a broker has after these commands. -/
def dueWorld (cmds : List Command) : World := applyCommands {} cmds (World.fresh {} stillEnv)

lemma inv_dueWorld (cmds : List Command) : WorldInv (dueWorld cmds) :=
  (WorldInv.fresh {} stillEnv).applyCommands {} cmds

/-- Two orders in the order of their times, the first of them due. -/
theorem pass_moves_due_orders :
    ordersMover.MovesDue {} { nowMS := 2000 } (dueWorld (scheduledOrders [500, 5000])) :=
  (@pass_moves_due_iff {} ordersMover { nowMS := 2000 } _ _ (inv_dueWorld _) (by decide +kernel)
    (Prod.ext (by decide +kernel) rfl)).mpr (by decide +kernel)

/-- The order that is due stands behind one that is not, and is not moved. -/
theorem pass_leaves_due_order :
    ((Prog.exec step (ordersMover.pass {} { nowMS := 2000 }) (dueWorld (scheduledOrders [5000, 500]))).1
        = .ok ()) ∧
      (ordersMover.unprocessed {} (dueWorld (scheduledOrders [5000, 500]))).map
          (fun record => decide (ordersMover.Due 2000 record)) = [false, true] ∧
      ordersMover.moved {} { nowMS := 2000 } (dueWorld (scheduledOrders [5000, 500])) = [] := by
  decide +kernel

end Mover

end Ech0.Broker
