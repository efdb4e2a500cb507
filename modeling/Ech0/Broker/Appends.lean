/-
  What a broker appends.

  The records that a run of a program adds to the logs are read off the calls it makes (`appended`),
  so that they are counted even if a log drops them later. A record that a log holds at the end was
  held before or is one of them (`holds_exec`, `holds_run`).
-/
import Ech0.Lib.Steps
import Ech0.Broker.Tables

set_option autoImplicit false

namespace Ech0.Broker

open Ech0.Lib Ech0.Store StorxLogStore Prog List MessageRuntime World

variable {base : Nat} (cfg : Config) {op : Op} {stored : List Record} {α : Type}

/-! ## What an append stores -/

/-- The record has what the client gave; offset, timestamp and expiry are the log's. -/
structure StoredFrom (append : RecordAppend) (record : Record) : Prop where
  key : record.key = append.key
  headers : record.headers = append.headers
  attributes : record.attributes = append.attributes
  transaction : record.transaction = append.transaction
  payload : record.payload = append.payload

variable {record : Record}

lemma storedFrom_of_recordFromAppend {nowMS offset : Nat} {topic : TopicConfig}
    {append : RecordAppend} (h : recordFromAppend nowMS offset topic append = .ok record) :
    StoredFrom append record := by
  obtain ⟨_, -, h⟩ := Except.bind_eq_ok.mp h
  cases h
  exact ⟨rfl, rfl, rfl, rfl, rfl⟩

lemma storedFrom_prepareAppendRecords {clock : Nat → Nat} {topic : TopicConfig}
    (appends : List RecordAppend) {index : Nat}
    (h : prepareAppendRecords clock topic base index appends = .ok stored) :
    List.Forall₂ StoredFrom appends stored := by
  induction appends generalizing index stored with
  | nil =>
    cases h
    exact .nil
  | cons append rest ih =>
    obtain ⟨-, -, record, others, hrecord, hothers, rfl⟩ := prepareAppendRecords_taken h
    exact .cons (storedFrom_of_recordFromAppend hrecord) (ih hothers)

variable {tp : TopicPartition}

lemma storedFrom_appendRecordsBatch {s s' : StorxLogStore} {clock : Nat → Nat}
    {appends : List RecordAppend} (h : s.appendRecordsBatch clock tp appends = .ok (stored, s')) :
    List.Forall₂ StoredFrom appends stored := by
  obtain ⟨rfl, rfl, -⟩ | ⟨_, -, hprep, -⟩ := appendRecordsBatch_ok h
  · exact .nil
  · exact storedFrom_prepareAppendRecords appends hprep

lemma exists_of_storedFrom {appends : List RecordAppend}
    (h : List.Forall₂ StoredFrom appends stored) (hrecord : record ∈ stored) :
    ∃ append ∈ appends, StoredFrom append record := by
  induction h with
  | nil => cases hrecord
  | cons hfirst _ ih =>
    rcases mem_cons.mp hrecord with rfl | hrecord
    · exact ⟨_, mem_cons_self, hfirst⟩
    · obtain ⟨append, hmem, hstored⟩ := ih hrecord
      exact ⟨append, mem_cons_of_mem _ hmem, hstored⟩

lemma validateContiguousOffsets_ok (overflow gap : String) (records : List Record) {index : Nat}
    (hoffsets : records.map Record.offset = List.range' (base + index) records.length)
    (hfits : base + index + records.length ≤ maxUint64) :
    validateContiguousOffsets overflow gap base index records = .ok () := by
  induction records generalizing index with
  | nil => rfl
  | cons record rest ih =>
    rw [length_cons] at hfits
    rw [length_cons, List.range'_succ, map_cons, List.cons.injEq] at hoffsets
    unfold validateContiguousOffsets
    rw [if_neg (by omega), if_neg (by simp [hoffsets.1])]
    exact ih hoffsets.2 (by omega)

/-- The first and the last of some records at consecutive offsets. -/
lemma first_last_of_offsets {records : List Record} (hne : records ≠ [])
    (hoffsets : records.map Record.offset = List.range' base records.length) :
    ∃ first last, records.head? = some first ∧ records.getLast? = some last ∧
      first.offset = base ∧ last.offset + 1 = base + records.length := by
  have hlength : 0 < records.length := length_pos_iff.mpr hne
  obtain ⟨first, hfirst⟩ : ∃ first, records.head? = some first := by
    cases records with
    | nil => exact absurd rfl hne
    | cons first rest => exact ⟨first, rfl⟩
  have hlast := getLast?_eq_some_getLast hne
  refine ⟨first, records.getLast hne, hfirst, hlast, ?_, ?_⟩
  · have hhead := congrArg List.head? hoffsets
    rw [head?_map, hfirst, head?_range', if_neg (by omega)] at hhead
    exact Option.some.inj hhead
  · have htail := congrArg List.getLast? hoffsets
    rw [getLast?_map, hlast, getLast?_range', if_neg (by omega)] at htail
    have heq : (records.getLast hne).offset = base + records.length - 1 := by simpa using htail
    omega

/-! ## The appends of a run -/

/-- A call of a broker, with its reply. -/
abbrev Call : Type := Prog.Called calls Error

/-- The records a call added to a log, each with its partition. -/
def appendsOf : Call → List (TopicPartition × Record)
  | ⟨.log _ (.appendRecordsBatch tp _), .ok stored⟩ =>
    (show List Record from stored).map fun record => (tp, record)
  | _ => []

def appended (trace : List Call) : List (TopicPartition × Record) := trace.flatMap appendsOf

lemma appended_append (l m : List Call) : appended (l ++ m) = appended l ++ appended m :=
  flatMap_append

/-- The calls that can add records. -/
def Op.adds : Op → Bool
  | .log _ (.appendRecordsBatch _ _) => true
  | _ => false

lemma appendsOf_of_adds (h : op.adds = false) (r : Except Error (calls.Out op)) :
    appendsOf ⟨op, r⟩ = [] := by
  cases op with
  | log ref op =>
    cases op with
    | appendRecordsBatch tp records => cases h
    | _ => rfl
  | _ => rfl

/-! ## Logs -/

variable {w : World}

lemma World.logAt_setLog {ref : LogRef} {log : StorxLogStore} (h : w.logAt ref = .ok log)
    (log' : StorxLogStore) (other : LogRef) :
    (w.setLog log' ref).logAt other = if other = ref then .ok log' else w.logAt other := by
  cases ref with
  | main =>
    cases other with
    | main => rfl
    | shard id => rfl
  | shard id =>
    cases other with
    | main => rfl
    | shard id' =>
      simp only [logAt, setLog, Map.get_insert, LogRef.shard.injEq]
      by_cases hid : id = id'
      · rw [if_pos hid, if_pos hid.symm]
      · rw [if_neg hid, if_neg (Ne.symm hid)]

/-- An append that is refused changes no log; one that is not leaves the log that it made. -/
lemma step_append (ref : LogRef) (tp : TopicPartition) (records : List RecordAppend) (w : World) :
    (∃ err n, step (.log ref (.appendRecordsBatch tp records)) w
          = (.error err, { w with env := w.env.dropClock n }) ∧
        ∀ log, w.logAt ref = .ok log →
          ∃ err, log.appendRecordsBatch w.env.clock tp records = .error err) ∨
      ∃ log stored log', w.logAt ref = .ok log ∧
        log.appendRecordsBatch w.env.clock tp records = .ok (stored, log') ∧
        step (.log ref (.appendRecordsBatch tp records)) w
          = (.ok stored, { w.setLog log' ref with env := w.env.dropClock records.length }) := by
  cases hlog : w.logAt ref with
  | error err =>
    refine .inl ⟨err, 0, ?_, fun log h => by cases h⟩
    simp only [step, hlog, Env.dropClock_zero]
  | ok log =>
    cases happend : log.appendRecordsBatch w.env.clock tp records with
    | error err =>
      refine .inl ⟨err, records.length, ?_, fun found h => ?_⟩
      · simp only [step, hlog, LogOp.run, happend, setLog_self hlog]
        rfl
      · cases h
        exact ⟨err, happend⟩
    | ok result =>
      refine .inr ⟨log, result.1, result.2, rfl, happend, ?_⟩
      simp only [step, hlog, LogOp.run, happend]
      rfl

/-! ## Classes of programs by what they append -/

/-- Every record the call added satisfies `P`. -/
def AppendsOnly (P : TopicPartition → Record → Prop) (call : Call) : Prop :=
  ∀ e ∈ appendsOf call, P e.1 e.2

lemma appendsOnly_closed (P : TopicPartition → Record → Prop) :
    Closed (Makes step (AppendsOnly P)) :=
  makes_closed step _

variable {P : TopicPartition → Record → Prop}

lemma appendsOnly_perform (h : op.adds = false) : Makes step (AppendsOnly P) _ (ask op) := by
  apply makes_perform
  intro r e he
  rw [appendsOf_of_adds h r] at he
  cases he

lemma appendsOnly_quiet (op : Op) (hop : op.quiet) : Makes step (AppendsOnly P) _ (ask op) := by
  apply appendsOnly_perform
  cases op with
  | log ref op =>
    cases op with
    | appendRecordsBatch tp records => exact hop.elim
    | _ => rfl
  | _ => rfl

variable {records : List RecordAppend}

lemma appendsOnly_append
    (hP : ∀ append ∈ records, ∀ record, StoredFrom append record → P tp record) (ref : LogRef) :
    Makes step (AppendsOnly P) _ (onLog ref (.appendRecordsBatch tp records)) := by
  intro w call hcall e he
  rw [mem_singleton.mp hcall] at he
  rcases step_append ref tp records w with ⟨err, n, hstep, -⟩ | ⟨log, stored, log', -, happend, hstep⟩
  · rw [hstep] at he
    cases he
  · rw [hstep] at he
    obtain ⟨record, hrecord, rfl⟩ := mem_map.mp he
    obtain ⟨append, hmem, hstored⟩ :=
      exists_of_storedFrom (storedFrom_appendRecordsBatch happend) hrecord
    exact hP append hmem record hstored

lemma appendsOnly_publishRecord {append : RecordAppend}
    (hP : ∀ record, StoredFrom append record → P tp record) :
    Makes step (AppendsOnly P) _ (publishRecord cfg tp append) :=
  Runtime.publishRecord appendsOnly_quiet (appendsOnly_closed P) fun ref =>
    appendsOnly_append (fun a ha => by rw [mem_singleton.mp ha]; exact hP) ref

lemma appendsOnly_publishBatchRecords
    (hP : ∀ append ∈ records, ∀ record, StoredFrom append record → P tp record) :
    Makes step (AppendsOnly P) _ (publishBatchRecords cfg tp records) :=
  Runtime.publishBatchRecords appendsOnly_quiet (appendsOnly_closed P) (appendsOnly_append hP)

/-! ## What the logs hold -/

/-- Some log of the broker has the record in this partition. -/
def World.Holds (w : World) (tp : TopicPartition) (record : Record) : Prop :=
  ∃ ref log, w.logAt ref = .ok log ∧ record ∈ log.recordsAt tp

/-- The calls that move no records: what a log holds after one of them it held before, or it was
appended. -/
def Op.settled (op : Op) : Prop := op.regular ∧ op.moves = false

lemma Op.settled_of_within {footprint : Footprint} (hmoves : footprint.moves = false)
    (h : op.Within footprint) : op.settled := by
  refine ⟨h.regular, ?_⟩
  cases hop : op.moves with
  | false => rfl
  | true =>
    rw [h.moves hop] at hmoves
    cases hmoves

lemma LogOp.mem_recordsAt_run {s : StorxLogStore} (hinv : LogInv s) (clock : Nat → Nat)
    (ref : LogRef) (op : LogOp) (hmoves : (Op.log ref op).moves = false)
    (h : record ∈ (op.run clock s).2.recordsAt tp) :
    record ∈ s.recordsAt tp ∨ (tp, record) ∈ appendsOf ⟨.log ref op, (op.run clock s).1⟩ := by
  cases op with
  | createTopic topic =>
    simp only [run] at h
    cases hcreate : s.createTopic topic with
    | error err =>
      rw [hcreate] at h
      exact .inl h
    | ok s' =>
      rw [hcreate] at h
      have hsame := recordsAt_createTopic hinv hcreate tp
      exact .inl (hsame ▸ h)
  | appendRecordsBatch tp' records =>
    simp only [run] at h ⊢
    cases happend : s.appendRecordsBatch clock tp' records with
    | error err =>
      rw [happend] at h
      exact .inl h
    | ok result =>
      rw [happend] at h
      have hrecords := (appendRecordsBatch_spec hinv happend).1.records tp
      rw [hrecords] at h
      split at h
      · next heq =>
        subst heq
        rcases mem_append.mp h with h | h
        · exact .inl h
        · exact .inr (mem_map_of_mem h)
      · exact .inl h
  | replacePartition _ | clearPartition _ => cases hmoves
  | _ => exact .inl h

lemma holds_step (hinv : WorldInv w) (hop : op.settled) (h : (step op w).2.Holds tp record) :
    w.Holds tp record ∨ (tp, record) ∈ appendsOf ⟨op, (step op w).1⟩ := by
  cases op with
  | log ref op =>
    cases hlog : w.logAt ref with
    | error err =>
      simp only [step, hlog] at h
      exact .inl h
    | ok log =>
      obtain ⟨other, found, hfound, hrecord⟩ := h
      simp only [step, hlog] at hfound ⊢
      have hat : (w.setLog (op.run w.env.clock log).2 ref).logAt other = .ok found := hfound
      rw [logAt_setLog hlog] at hat
      split at hat
      · next heq =>
        cases hat
        rcases op.mem_recordsAt_run (hinv.logAt hlog) _ ref hop.2 hrecord with hold | hnew
        · exact .inl ⟨ref, log, hlog, hold⟩
        · exact .inr hnew
      · exact .inl ⟨other, found, hat, hrecord⟩
  | _ => exact .inl h

/-- **Provenance.** What a log holds after a run of a program that moves no records, it held before,
or the program appended it. -/
theorem holds_exec (p : Handling α) (hinv : WorldInv w)
    (hcalls : ∀ call ∈ Prog.trace step p w, call.1.settled) (h : (exec step p w).2.Holds tp record) :
    w.Holds tp record ∨ (tp, record) ∈ appended (Prog.trace step p w) := by
  induction p generalizing w with
  | done r => exact .inl h
  | call op next ih =>
    have hop : Op.settled op := hcalls _ mem_cons_self
    have hrest := ih (step op w).1 (hinv.step op hop.1)
      (fun call hcall => hcalls call (mem_cons_of_mem _ hcall)) h
    rcases hrest with hbefore | hlater
    · rcases holds_step hinv hop hbefore with hold | hnew
      · exact .inl hold
      · exact .inr (mem_append_left _ hnew)
    · exact .inr (mem_append_right _ hlater)

lemma inv_exec (p : Handling α) (hinv : WorldInv w)
    (hcalls : ∀ call ∈ Prog.trace step p w, call.1.settled) : WorldInv (exec step p w).2 := by
  induction p generalizing w with
  | done r => exact hinv
  | call op next ih =>
    have hop : Op.settled op := hcalls _ mem_cons_self
    exact ih (step op w).1 (hinv.step op hop.1)
      fun call hcall => hcalls call (mem_cons_of_mem _ hcall)

/-! ## Activities and runs -/

/-- The calls of an activity. -/
def Activity.trace (cfg : Config) : Activity → World → List Call
  | command cmd, w => Prog.trace step (cmd.apply cfg) w
  | isolatePoisonMessage topic partition offset reason, w =>
    Prog.trace step (Broker.isolatePoisonMessage cfg topic partition offset reason) w
  | enforceRetentionOnce fuel, w =>
    Prog.trace step (deadLetterExpiredMessages cfg fuel (w.env.clock 0))
      { w with env := w.env.dropClock 1 }
  | compactOnce, _ => []

/-- What a broker does, one activity after the other. -/
def runActivities (cfg : Config) (activities : List Activity) (w : World) : World :=
  activities.foldl (fun w activity => activity.run cfg w) w

/-- The calls of a run. -/
def runTrace (cfg : Config) : List Activity → World → List Call
  | [], _ => []
  | activity :: rest, w => activity.trace cfg w ++ runTrace cfg rest (activity.run cfg w)

/-- A command as a step, and the records that it appends. -/
def Command.next (cfg : Config) (w : World) (cmd : Command) : World := (applyCommand cfg cmd w).2

def Command.entries (cfg : Config) (w : World) (cmd : Command) : List (TopicPartition × Record) :=
  appended (Prog.trace step (cmd.apply cfg) w)

lemma appended_runTrace (cmds : List Command) (w : World) :
    appended (runTrace cfg (cmds.map .command) w)
      = outputs (Command.next cfg) (Command.entries cfg) cmds w := by
  induction cmds generalizing w with
  | nil => rfl
  | cons cmd rest ih =>
    rw [map_cons, runTrace, appended_append, ih]
    rfl

variable {cfg : Config}

lemma settled_trace {activity : Activity} (hmoves : activity.footprint.moves = false) (w : World)
    : ∀ call ∈ activity.trace cfg w, call.1.settled := by
  have hC : Closed (Makes (I := calls) (ε := Error) step fun call => call.1.settled) :=
    makes_closed step _
  have hop : ∀ op : Op, op.Within activity.footprint →
      Makes step (fun call => call.1.settled) _ (ask op) :=
    fun op h => makes_perform fun _ => Op.settled_of_within hmoves h
  cases activity with
  | command cmd => exact cmd.mem_of_within hC hop w
  | isolatePoisonMessage topic partition offset reason =>
    exact Within.isolatePoisonMessage cfg hC hop topic partition offset reason w
  | enforceRetentionOnce fuel =>
    exact Within.deadLetterExpiredMessages cfg hC hop fuel
      (w.env.clock 0) { w with env := w.env.dropClock 1 }
  | compactOnce => exact fun call hcall => by cases hcall

/-- Cleaning takes records away and brings none. -/
lemma holds_cleanLogs {clean : StorxLogStore → StorxLogStore} (hinv : WorldInv w)
    (hclean : ∀ log, LogInv log → Trimmed log (clean log))
    (h : (cleanLogs cfg clean w).Holds tp record) : w.Holds tp record := by
  obtain ⟨ref, log, hlog, hrecord⟩ := h
  obtain ⟨found, hfound, rfl | rfl⟩ := logAt_cleanLogs hlog
  · exact ⟨ref, log, hfound, hrecord⟩
  · exact ⟨ref, found, hfound, ((hclean found (hinv.logAt hfound)).records tp).subset hrecord⟩

lemma holds_activity {activity : Activity} (hmoves : activity.footprint.moves = false)
    (hinv : WorldInv w) (h : (activity.run cfg w).Holds tp record) :
    w.Holds tp record ∨ (tp, record) ∈ appended (activity.trace cfg w) := by
  have hsettled : ∀ call ∈ activity.trace cfg w, call.1.settled := settled_trace hmoves w
  cases activity with
  | command cmd => exact holds_exec _ hinv hsettled h
  | isolatePoisonMessage topic partition offset reason => exact holds_exec _ hinv hsettled h
  | enforceRetentionOnce fuel =>
    have hinv' : WorldInv { w with env := w.env.dropClock 1 } := ⟨hinv.metadata, hinv.log, hinv.shards⟩
    have hletters : ∀ {tp record}, (exec step (deadLetterExpiredMessages cfg fuel (w.env.clock 0))
        { w with env := w.env.dropClock 1 }).2.Holds tp record → _ := holds_exec _ hinv' hsettled
    have hafter := inv_exec _ hinv' hsettled
    simp only [Activity.run, Broker.enforceRetentionOnce, Handling.run] at h
    cases hrun : exec step (deadLetterExpiredMessages cfg fuel (w.env.clock 0))
        { w with env := w.env.dropClock 1 } with
    | mk r w1 =>
      rw [hrun] at h hletters hafter
      cases r with
      | error err => exact hletters h
      | ok moved =>
        exact hletters (holds_cleanLogs hafter (fun log hlog => trimmed_enforceRetention hlog _) h)
  | compactOnce =>
    have hinv' : WorldInv { w with env := w.env.dropClock 1 } := ⟨hinv.metadata, hinv.log, hinv.shards⟩
    have hbefore := holds_cleanLogs hinv' (fun log hlog => trimmed_compact hlog _) h
    exact .inl hbefore

/-- **Provenance along a run.** -/
theorem holds_run {activities : List Activity}
    (hmoves : ∀ activity ∈ activities, activity.footprint.moves = false) (hinv : WorldInv w)
    (h : (runActivities cfg activities w).Holds tp record) :
    w.Holds tp record ∨ (tp, record) ∈ appended (runTrace cfg activities w) := by
  induction activities generalizing w with
  | nil => exact .inl h
  | cons activity rest ih =>
    rw [runTrace, appended_append]
    rcases ih (fun a ha => hmoves a (mem_cons_of_mem _ ha)) (hinv.activity cfg activity) h with
      hbefore | hlater
    · rcases holds_activity (hmoves activity mem_cons_self) hinv hbefore with hold | hnew
      · exact .inl hold
      · exact .inr (mem_append_left _ hnew)
    · exact .inr (mem_append_right _ hlater)

/-- What a handler ends with, the command of the handler ends with. -/
lemma ends_replyWith {p : Handling α} {reply : α → Reply}
    {Q : Except Error Reply → World → List Call → Prop}
    (hp : Ends step p w fun r w' trace => Q (r.map reply) w' trace) :
    Ends step (replyWith reply p) w Q := by
  apply ends_bind
  apply hp.mono
  intro r w' trace h
  cases r with
  | error err => exact h
  | ok value =>
    apply ends_pure
    rw [append_nil]
    exact h

/-! ## What a publish does -/

/-- The log that a partition is read from and written to. -/
def World.holder (cfg : Config) (w : World) (tp : TopicPartition) : LogRef :=
  if cfg.sharded then .shard (resolvedShard cfg w tp) else .main

/-- Nothing has changed but the placement cache, which says what it said, and the time. -/
structure Looked (cfg : Config) (w w' : World) : Prop where
  metadata : w'.metadata = w.metadata
  logAt : ∀ ref, w'.logAt ref = w.logAt ref
  resolved : ∀ tp, resolvedShard cfg w' tp = resolvedShard cfg w tp
  clock : ∃ n, w'.env = w.env.dropClock n

/-- Only one log has been written. -/
structure Wrote (cfg : Config) (w : World) (ref : LogRef) (log' : StorxLogStore) (w' : World) :
    Prop where
  metadata : w'.metadata = w.metadata
  logAt : ∀ other, w'.logAt other = if other = ref then .ok log' else w.logAt other
  resolved : ∀ tp, resolvedShard cfg w' tp = resolvedShard cfg w tp
  clock : ∃ n, w'.env = w.env.dropClock n

lemma Env.dropClock_dropClock (env : Env) (m n : Nat) :
    (env.dropClock m).dropClock n = env.dropClock (m + n) := by
  simp only [Env.dropClock, Nat.add_assoc]

lemma Looked.holder {w w' : World} (h : Looked cfg w w') (tp : TopicPartition) :
    w'.holder cfg tp = w.holder cfg tp := by
  unfold World.holder
  rw [h.resolved]

lemma Wrote.inv {w w' : World} {ref : LogRef} {log' : StorxLogStore} (h : Wrote cfg w ref log' w')
    (hinv : WorldInv w) (hlog' : LogInv log') : WorldInv w' := by
  refine .of_logAt (h.metadata ▸ hinv.metadata) fun other log hlog => ?_
  rw [h.logAt] at hlog
  split at hlog
  · cases hlog
    exact hlog'
  · exact hinv.logAt hlog

lemma Looked.inv {w w' : World} (h : Looked cfg w w') (hinv : WorldInv w) : WorldInv w' :=
  .of_logAt (h.metadata ▸ hinv.metadata) fun ref _ hlog => hinv.logAt (h.logAt ref ▸ hlog)

/-- `Resolve` caches what it finds, so it finds the same again. -/
lemma exec_resolve (cfg : Config) (hinv : WorldInv w) (tp : TopicPartition) :
    ∃ placement cache, exec step (ShardResolver.resolve cfg tp) w
        = (.ok placement, { w with placementCache := cache }) ∧
      placement.shardID = resolvedShard cfg w tp ∧
      ∀ a, resolvedShard cfg { w with placementCache := cache } a = resolvedShard cfg w a := by
  have hshard : (w.placementOf cfg tp).shardID = resolvedShard cfg w tp := by
    unfold placementOf resolvedShard
    cases w.placementCache[tp]? with
    | some placement => rfl
    | none => cases w.metadata.loadShardPlacement tp <;> rfl
  refine ⟨w.placementOf cfg tp, _, exec_resolve_eq cfg fun p hp => (hinv.metadata.placements tp p hp).1, hshard,
    fun a => ?_⟩
  by_cases ha : tp = a
  · subst ha
    simp only [resolvedShard, Map.get_insert_self]
    exact hshard
  · simp only [resolvedShard, Map.get_insert_of_ne _ _ ha]

lemma exec_logFor (cfg : Config) (hinv : WorldInv w) (tp : TopicPartition) :
    ∃ cache, Looked cfg w { w with placementCache := cache } ∧
      exec step (logFor cfg tp) w
        = ((w.logAt (w.holder cfg tp)).map fun _ => w.holder cfg tp,
          { w with placementCache := cache }) := by
  have hclock : ∃ n, w.env = w.env.dropClock n := ⟨0, (Env.dropClock_zero _).symm⟩
  unfold logFor holder
  split
  · obtain ⟨placement, cache, hrun, hshard, hresolved⟩ := exec_resolve cfg hinv tp
    refine ⟨cache, ⟨rfl, fun _ => rfl, hresolved, hclock⟩, ?_⟩
    refine (exec_bind_ok step hrun).trans ?_
    rw [← hshard]
    have hregistered : exec step
        (ask (.shardByID placement.shardID))
        { w with placementCache := cache }
          = ((w.logAt (.shard placement.shardID)).map fun _ => (), { w with placementCache := cache }) :=
      rfl
    cases hlog : w.logAt (.shard placement.shardID) with
    | error err =>
      rw [hlog] at hregistered
      exact (exec_bind_error step hregistered).trans rfl
    | ok log =>
      rw [hlog] at hregistered
      exact (exec_bind_ok step hregistered).trans rfl
  · exact ⟨w.placementCache, ⟨rfl, fun _ => rfl, fun _ => rfl, hclock⟩, rfl⟩

lemma appended_eq_nil {trace : List Call}
    (h : ∀ call ∈ trace, AppendsOnly (fun _ _ => False) call) : appended trace = [] := by
  rw [eq_nil_iff_forall_not_mem]
  intro e he
  obtain ⟨call, hcall, hin⟩ := mem_flatMap.mp he
  exact h call hcall e hin

lemma logFor_ends (cfg : Config) (hinv : WorldInv w) (tp : TopicPartition) :
    Ends step (logFor cfg tp) w fun r w' trace =>
      r = (w.logAt (w.holder cfg tp)).map (fun _ => w.holder cfg tp) ∧
        (∃ cache, w' = { w with placementCache := cache }) ∧ Looked cfg w w' ∧ appended trace = [] := by
  obtain ⟨cache, hlooked, hrun⟩ := exec_logFor cfg hinv tp
  have hmakes : Makes step (AppendsOnly fun _ _ => False) _ (logFor cfg tp) :=
    Runtime.logFor appendsOnly_quiet (appendsOnly_closed _) tp
  unfold Ends
  rw [hrun]
  exact ⟨rfl, ⟨cache, rfl⟩, hlooked, appended_eq_nil (hmakes w)⟩

/-- What an append to the log of a partition ends with, from a world where the partition was looked
up. -/
def Published (cfg : Config) (w : World) (tp : TopicPartition) (records : List RecordAppend)
    (r : Except Error (List Record)) (w' : World) (trace : List Call) : Prop :=
  (∃ log stored log', w.logAt (w.holder cfg tp) = .ok log ∧
    log.appendRecordsBatch w.env.clock tp records = .ok (stored, log') ∧ r = .ok stored ∧
    appended trace = stored.map (fun record => (tp, record)) ∧
    Wrote cfg w (w.holder cfg tp) log' w') ∨
  ((∀ log, w.logAt (w.holder cfg tp) = .ok log →
      ∃ err, log.appendRecordsBatch w.env.clock tp records = .error err) ∧
    (∃ err, r = .error err) ∧ Looked cfg w w' ∧ appended trace = [])

lemma append_ends (cfg : Config) (tp : TopicPartition) (records : List RecordAppend) :
    Ends step (onLog (w.holder cfg tp) (.appendRecordsBatch tp records)) w fun r w' trace =>
      Published cfg w tp records r w' trace := by
  apply ends_perform
  rcases step_append (w.holder cfg tp) tp records w with
    ⟨err, n, hstep, hrefused⟩ | ⟨log, stored, log', hlog, happend, hstep⟩
  · rw [hstep]
    exact .inr ⟨hrefused, ⟨err, rfl⟩, ⟨rfl, fun _ => rfl, fun _ => rfl, n, rfl⟩, rfl⟩
  · rw [hstep]
    refine .inl ⟨log, stored, log', hlog, happend, rfl, ?_, ⟨?_, ?_, ?_, records.length, rfl⟩⟩
    · simp [appended, appendsOf]
    · cases w.holder cfg tp <;> rfl
    · exact logAt_setLog hlog log'
    · intro a
      cases w.holder cfg tp <;> rfl

lemma Published.mapError {w w' : World} {r : Except Error (List Record)} {trace : List Call}
    (h : Published cfg w tp records r w' trace) (f : Error → Error) :
    Published cfg w tp records (r.mapError f) w' trace := by
  rcases h with ⟨log, stored, log', hlog, happend, rfl, hrest⟩ | ⟨hrefused, ⟨err, rfl⟩, hrest⟩
  · exact .inl ⟨log, stored, log', hlog, happend, rfl, hrest⟩
  · exact .inr ⟨hrefused, ⟨f err, rfl⟩, hrest⟩

/-- The words that a caller puts around an error change nothing. -/
lemma published_mapError_ends {w w1 : World} {p : Handling α} {toList : α → List Record}
    (hp : Ends step p w1 fun r w' trace => Published cfg w tp records (r.map toList) w' trace)
    (f : Error → Error) : Ends step (p.mapError f) w1 fun r w' trace =>
      Published cfg w tp records (r.map toList) w' trace := by
  apply ends_mapError
  apply hp.mono
  intro r w' trace h
  cases r with
  | error err => exact h.mapError f
  | ok value => exact h

/-- The partition was looked up before. -/
lemma Published.after {w w1 w' : World} {r : Except Error (List Record)}
    {before trace : List Call} (h : Published cfg w1 tp records r w' trace)
    (hlooked : Looked cfg w w1) (henv : w1.env = w.env) (hbefore : appended before = []) :
    Published cfg w tp records r w' (before ++ trace) := by
  unfold Published at h ⊢
  rw [hlooked.holder, hlooked.logAt, henv] at h
  rw [appended_append, hbefore, nil_append]
  rcases h with ⟨log, stored, log', hlog, happend, hr, htrace, hwrote⟩ |
    ⟨hrefused, hr, hlook, htrace⟩
  · refine .inl ⟨log, stored, log', hlog, happend, hr, htrace, hwrote.metadata.trans hlooked.metadata,
      fun other => ?_, fun a => (hwrote.resolved a).trans (hlooked.resolved a), ?_⟩
    · rw [hwrote.logAt, hlooked.logAt]
    · rw [← henv]
      exact hwrote.clock
  · refine .inr ⟨hrefused, hr, ⟨hlook.metadata.trans hlooked.metadata,
      fun ref => (hlook.logAt ref).trans (hlooked.logAt ref),
      fun a => (hlook.resolved a).trans (hlooked.resolved a), ?_⟩, htrace⟩
    rw [← henv]
    exact hlook.clock

lemma Looked.refl (cfg : Config) (w : World) : Looked cfg w w :=
  ⟨rfl, fun _ => rfl, fun _ => rfl, 0, (Env.dropClock_zero _).symm⟩

/-- What goes to the log of a partition goes to the log that holds it. -/
lemma logFor_bind_ends (cfg : Config) (hinv : WorldInv w) (tp : TopicPartition)
    (records : List RecordAppend) {f : LogRef → Handling α} {toList : α → List Record}
    (hf : ∀ w1 : World, Ends step (f (w1.holder cfg tp)) w1 fun r w' trace =>
      Published cfg w1 tp records (r.map toList) w' trace) :
    Ends step (logFor cfg tp >>= f) w fun r w' trace =>
      Published cfg w tp records (r.map toList) w' trace := by
  apply ends_bind
  apply (logFor_ends cfg hinv tp).mono
  rintro r w1 before ⟨rfl, ⟨cache, rfl⟩, hlooked, hbefore⟩
  cases hlog : w.logAt (w.holder cfg tp) with
  | error err =>
    refine .inr ⟨fun log h => ?_, ⟨err, rfl⟩, hlooked, hbefore⟩
    rw [hlog] at h
    cases h
  | ok log =>
    have hnext := hf { w with placementCache := cache }
    rw [hlooked.holder] at hnext
    apply hnext.mono
    intro r w' trace h
    exact h.after hlooked rfl hbefore

/-- **A publish** appends to the log that holds the partition, and changes nothing else. If that log
is not there, or refuses the records, nothing is appended. -/
theorem publishBatchRecords_ends (cfg : Config) (hinv : WorldInv w) (tp : TopicPartition)
    (records : List RecordAppend) :
    Ends step (publishBatchRecords cfg tp records) w fun r w' trace =>
      Published cfg w tp records (r.map id) w' trace := by
  apply logFor_bind_ends cfg hinv tp records
  intro w1
  apply published_mapError_ends
  apply published_mapError_ends
  apply (append_ends cfg tp records).mono
  intro r w' trace h
  cases r with
  | error err => exact h
  | ok stored => exact h

lemma publishRecord_ends (cfg : Config) (hinv : WorldInv w) (tp : TopicPartition)
    (append : RecordAppend) : Ends step (publishRecord cfg tp append) w fun r w' trace =>
      Published cfg w tp [append] (r.map fun record => [record]) w' trace := by
  apply logFor_bind_ends cfg hinv tp [append]
  intro w1
  apply published_mapError_ends
  apply published_mapError_ends
  apply ends_bind
  apply (append_ends cfg tp [append]).mono
  intro r w' trace h
  cases r with
  | error err => exact h
  | ok stored =>
    rcases h with ⟨log, stored', log', hlog, happend, hr, htrace, hwrote⟩ | ⟨-, ⟨err, hr⟩, -⟩
    · cases hr
      -- one record was given, so one was stored
      have hlength := (storedFrom_appendRecordsBatch happend).length_eq
      match stored, hlength with
      | [record], _ =>
        refine .inl ⟨log, [record], log', hlog, happend, rfl, ?_, hwrote⟩
        rw [appended_append, htrace]
        rfl
    · cases hr

/-- A read goes to the log that holds the partition, and leaves the world as it was but for the
placement cache. -/
lemma exec_read (cfg : Config) (hinv : WorldInv w) (tp : TopicPartition) (op : LogOp)
    (hreadings : op.readings = 0)
    (hsame : ∀ (clock : Nat → Nat) (s : StorxLogStore), (op.run clock s).2 = s) (f : Error → Error)
    :
    ∃ r cache, Looked cfg w { w with placementCache := cache } ∧
      exec step (logFor cfg tp >>= fun ref => (onLog ref op).mapError f) w
        = (r, { w with placementCache := cache }) ∧
      r.toOption = (w.logAt (w.holder cfg tp)).toOption.bind fun log =>
        (op.run w.env.clock log).1.toOption := by
  obtain ⟨cache, hlooked, hrun⟩ := exec_logFor cfg hinv tp
  cases hlog : w.logAt (w.holder cfg tp) with
  | error err =>
    rw [hlog] at hrun
    exact ⟨.error err, cache, hlooked, exec_bind_error step hrun, rfl⟩
  | ok log =>
    rw [hlog] at hrun
    have hat : ({ w with placementCache := cache } : World).logAt (w.holder cfg tp) = .ok log := hlog
    refine ⟨((op.run w.env.clock log).1).mapError f, cache, hlooked, ?_, ?_⟩
    · refine (exec_bind_ok step hrun).trans ?_
      rw [exec_mapError]
      refine Prod.ext ?_ (step_log_read hreadings hsame _)
      change (step (.log (w.holder cfg tp) op) { w with placementCache := cache }).1.mapError f = _
      simp only [step, hat]
      rfl
    · change _ = (op.run w.env.clock log).1.toOption
      cases (op.run w.env.clock log).1 <;> rfl

/-- A read gives what the log that holds the partition has, and appends nothing. -/
lemma readFrom_ends (cfg : Config) (hinv : WorldInv w) (tp : TopicPartition)
    (offset maxRecords : Nat) : Ends step (readFrom cfg tp offset maxRecords) w fun r _ trace =>
      appended trace = [] ∧ ∀ log records, w.logAt (w.holder cfg tp) = .ok log →
        log.readFrom tp offset maxRecords = .ok records → r = .ok records := by
  have hcalls : ∀ call ∈ Prog.trace step (readFrom cfg tp offset maxRecords) w,
      AppendsOnly (fun _ _ => False) call :=
    Runtime.readFrom appendsOnly_quiet (appendsOnly_closed _) tp offset maxRecords w
  refine ⟨appended_eq_nil hcalls, fun log records hlog hread => ?_⟩
  obtain ⟨r, cache, -, hrun, hr⟩ := exec_read cfg hinv tp
    (.readFrom tp offset maxRecords) rfl (fun _ _ => rfl)
    (Error.wrap (if cfg.sharded then "read sharded messages" else "read messages"))
  have hexec : exec step (readFrom cfg tp offset maxRecords) w = _ := hrun
  rw [hlog] at hr
  rw [hexec]
  exact Except.toOption_eq_some.mp (hr.trans (Except.toOption_eq_some.mpr hread))

end Ech0.Broker
