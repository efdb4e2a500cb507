/-
  The sinks of the integrations (`ProcessMirrorSinkOnce`, `ProcessFileSinkOnce`).

  A sink fetches committed records from its offset on, hands them over one after the other and commits
  the offset behind each. The fetch returns a page of the log in the order of priority, so a record
  that is handed over first may stand behind others of the page, and its commit passes them. What a
  pass is given is known before it starts (`peeks_fetchReadCommitted`), and where it can be stopped is
  every place of the loop (`exec_deliverRecords`).
-/
import Ech0.Broker.Delivery

set_option autoImplicit false

namespace Ech0.Broker

open Ech0.Lib Ech0.Store StorxLogStore Prog List

variable {record : Record}

/-! ## The order of a fetch -/

/-- The records of a partition. -/
def World.records (cfg : Config) (w : World) (tp : TopicPartition) : List Record :=
  match w.logAt (w.holder cfg tp) with
  | .ok log => log.recordsAt tp
  | .error _ => []

/-- The priority by which a fetch orders a record. -/
def World.rank (w : World) (topic : String) (record : Record) : Nat :=
  match w.metadata.loadTopicConfig topic with
  | none => 0
  | some config =>
    let policy := normalizeTopicPriorityPolicy config.priorityPolicy
    if policy.enabled then (recordPriority policy record).toOption.getD 0 else 0

/-- The record may stand before the other one. -/
def World.Precedes (w : World) (topic : String) (left right : Record) : Prop :=
  w.rank topic right < w.rank topic left ∨
    w.rank topic right = w.rank topic left ∧ left.offset ≤ right.offset

section
variable {cfg : Config} {w : World} {tp : TopicPartition} {log : StorxLogStore}

lemma pairwise_prioritized (items : List PrioritizedRecord) :
    (items.insertionSort fun left right => prioritizedRecordLE left right).Pairwise
      fun left right => prioritizedRecordLE left right := by
  have htotal : Std.Total fun left right : PrioritizedRecord => prioritizedRecordLE left right = true := by
    constructor
    intro left right
    simp only [prioritizedRecordLE]
    grind
  have htrans : IsTrans PrioritizedRecord fun left right => prioritizedRecordLE left right = true := by
    constructor
    intro left middle right
    simp only [prioritizedRecordLE]
    grind
  exact pairwise_insertionSort _ items

/-- What a fetch returns is in order. -/
lemma pairwise_ordered {topic : String} {records out : List Record} (hrecords : OffsetOrdered records)
    (h : w.ordered topic records = .ok out) : out.Pairwise (w.Precedes topic) := by
  unfold World.ordered at h
  split at h
  · next hshort =>
    cases h
    match records, hshort with
    | [], _ => exact List.Pairwise.nil
    | [record], _ => exact pairwise_singleton _ _
  · cases hconfig : w.metadata.loadTopicConfig topic with
    | none => simp [hconfig] at h
    | some config =>
      simp only [hconfig] at h
      split at h
      · next henabled =>
        obtain ⟨items, -, hpriority, rfl⟩ := orderRecordsByPriorityPolicy_ok h
        have hrank : ∀ item ∈ items, w.rank topic item.record = item.priority := by
          intro item hitem
          simp [World.rank, hconfig, henabled, hpriority item hitem, Except.toOption]
        refine pairwise_map.mpr ((pairwise_prioritized items).imp_of_mem ?_)
        intro left right hleft hright hle
        unfold World.Precedes
        rw [hrank left ((mem_insertionSort _).mp hleft),
          hrank right ((mem_insertionSort _).mp hright)]
        simp only [prioritizedRecordLE] at hle
        grind
      · next hdisabled =>
        cases h
        refine hrecords.imp fun hlt => .inr ⟨?_, hlt.le⟩
        simp [World.rank, hconfig, hdisabled]

end

/-! ## The pass of a sink -/

/-- A sink whose names have been checked. -/
structure Sink where
  consumer : String
  tp : TopicPartition
  maxRecords : Nat
  metadata : String
  consumer_ne : consumer ≠ ""
  topic_ne : tp.topic ≠ ""

/-- What becomes of a record that the loop comes to. -/
inductive Attempt where
  | committed
  | delivered
  | refused
  deriving DecidableEq

/-- `fetchWithIsolationScoped` for committed records; `none` if the rounds do not suffice. -/
def fetchReadCommitted (cfg : Config) (raftRead : Except Error Unit) (consumer : String)
    (tp : TopicPartition) (offset : Option Nat) (maxRecords rounds : Nat) :
    Handling (Option PollResult) := do
  Prog.ofExcept raftRead
  match ← pausedPollResult cfg consumer tp offset with
  | some poll => pure (some poll)
  | none =>
    let nextOffset ← fetchStartOffset cfg consumer tp offset
    match ← readCommittedRecords cfg tp nextOffset (clampFetch cfg maxRecords) rounds with
    | none => pure none
    | some (records, committedNextOffset) =>
      let records ← prepareFetchedRecords consumer tp records
      let offsets ← wrapBroker "load message partition offsets" (MessageRuntime.partitionOffsets cfg tp)
      pure (some
        { records := records
          nextOffset := committedNextOffset
          highWatermark := offsets.highWatermark
          lowWatermark := offsets.lowWatermark
          logStartOffset := offsets.logStartOffset })

namespace Sink

/-- `CommitOffsetWithMetadata`. -/
def commit (cfg : Config) (sink : Sink) (nextOffset : Nat) : Handling Unit := do
  let updatedAtMS ← nowMS
  applyCommitOffset cfg
    { consumer := sink.consumer, topic := sink.tp.topic, partition := sink.tp.partition,
      nextOffset := nextOffset, metadata := sink.metadata, updatedAtMS := updatedAtMS }

/-- The loop over the fetched records: those handed over. Where a delivery or a commit fails is an
input, and a loop with no attempt left has been stopped. -/
def deliverRecords (cfg : Config) (sink : Sink) : List Record → List Attempt → Handling (List Record)
  | record :: rest, .committed :: attempts => do
    match ← (sink.commit cfg (record.offset + 1)).attempt with
    | .error _ => pure [record]
    | .ok () =>
      let later ← deliverRecords cfg sink rest attempts
      pure (record :: later)
  | record :: _, .delivered :: _ => pure [record]
  | _, _ => pure []

/-- `ProcessMirrorSinkOnce` and `ProcessFileSinkOnce`. -/
def processOnce (cfg : Config) (sink : Sink) (raftRead : Except Error Unit) (attempts : List Attempt)
    (rounds : Nat) : Handling (List Record) := do
  match ← fetchReadCommitted cfg raftRead sink.consumer sink.tp none sink.maxRecords rounds with
  | none => pure []
  | some poll => deliverRecords cfg sink poll.records attempts

/-! ## What a pass is given -/

variable {cfg : Config} {w : World}

/-- The committed records that a fetch looks at. -/
def page (cfg : Config) (sink : Sink) (w : World) : List Record :=
  (w.committedBefore (recordsFrom (w.records cfg sink.tp)
    (position (w.offsetState sink.consumer sink.tp) ((w.logStart cfg sink.tp).getD 0)))).take
      (clampFetch cfg sink.maxRecords)

/-- Those of them that are not acknowledged out of turn. -/
def window (cfg : Config) (sink : Sink) (w : World) : List Record :=
  recordsWithoutPendingOffsets (sink.page cfg w) (pendingOf (w.offsetState sink.consumer sink.tp))

/-- The fetch gets through to the records. -/
structure Reads (cfg : Config) (sink : Sink) (raftRead : Except Error Unit) (w : World) : Prop where
  read : raftRead = .ok ()
  started : (w.logStart cfg sink.tp).isSome
  unpaused : w.paused sink.consumer sink.tp = false
  orderable : w.Orderable sink.tp.topic (sink.window cfg w)

/-- The reader comes to an end: behind the last offset it would begin again at zero. -/
def ReadEnds (cfg : Config) (sink : Sink) (w : World) : Prop :=
  w.Passable (recordsFrom (w.records cfg sink.tp)
    (position (w.offsetState sink.consumer sink.tp) ((w.logStart cfg sink.tp).getD 0)))

/-- Rounds that suffice for the log as it is. -/
def rounds (cfg : Config) (sink : Sink) (w : World) : Nat := (w.records cfg sink.tp).length + 1

lemma peeks_partitionOffsets (hinv : WorldInv w) (tp : TopicPartition) :
    ∃ r, Peeks cfg w (MessageRuntime.partitionOffsets cfg tp) r ∧
      (w.logStart cfg tp = r.toOption.map PartitionOffsetState.logStartOffset) := by
  rcases hlog : w.logAt (w.holder cfg tp) with err | log
  · have hfails := peeks_logFor_map cfg hinv tp
    rw [hlog] at hfails
    exact ⟨.error err, hfails.bind_error, by simp [World.logStart, hlog, Except.toOption]⟩
  · refine ⟨_, (peeks_logFor hinv hlog).bind ((peeks_logOffsets hlog).wrapBroker _), ?_⟩
    simp only [World.logStart, hlog]
    cases log.partitionOffsets tp <;> rfl

/-- A fetch that comes to the records returns the window in its order, if it has one. -/
lemma peeks_fetch_window (hinv : WorldInv w) (sink : Sink) (hends : sink.ReadEnds cfg w) {start : Nat}
    (hstart : w.logStart cfg sink.tp = some start)
    (hpaused : w.paused sink.consumer sink.tp = false) :
    ∃ poll : PollResult, Peeks cfg w (fetchReadCommitted cfg (.ok ()) sink.consumer sink.tp none
        sink.maxRecords (sink.rounds cfg w))
      ((w.ordered sink.tp.topic (sink.window cfg w)).map fun records =>
        some { poll with records := records }) := by
  obtain ⟨log, -, hlog, hpart, -⟩ := exists_log_of_logStart hstart
  obtain ⟨offsets, -, hoffsets⟩ := peeks_partitionOffsets_ok hinv hstart
  have hrecords : w.records cfg sink.tp = log.recordsAt sink.tp := by simp only [World.records, hlog]
  have hrounds : (log.recordsAt sink.tp).length < sink.rounds cfg w := by
    rw [rounds, hrecords]
    omega
  rw [ReadEnds, hrecords, hstart, Option.getD_some] at hends
  obtain ⟨next, -, -, -, hread⟩ := readCommittedRecords_spec hinv hlog hpart
    (clampFetch cfg sink.maxRecords) hends hrounds
  have hpage : sink.page cfg w = (w.committedBefore (recordsFrom (log.recordsAt sink.tp)
      (position (w.offsetState sink.consumer sink.tp) start))).take (clampFetch cfg sink.maxRecords) := by
    rw [page, hrecords, hstart]
    rfl
  rw [← hpage] at hread
  have hprepare : Peeks cfg w (prepareFetchedRecords sink.consumer sink.tp (sink.page cfg w))
      (w.ordered sink.tp.topic (sink.window cfg w)) :=
    (peeks_removePendingAckedRecords sink.consumer _).bind (peeks_orderRecordsByPriority _ _)
  exact ⟨⟨[], next, offsets.highWatermark, offsets.lowWatermark, offsets.logStartOffset⟩,
    (peeks_done (.ok ())).bind ((peeks_pausedPollResult_none hpaused none).bind
      ((peeks_fetchStartOffset hinv hstart sink.consumer).bind (hread.bind
        (hprepare.bind_map fun _ => (hoffsets.wrapBroker _).bind (peeks_pure _)))))⟩

/-- A fetch that gets through returns the window in its order, and any other one no record. -/
lemma peeks_fetchReadCommitted (hinv : WorldInv w) {sink : Sink} (hends : sink.ReadEnds cfg w)
    (raftRead : Except Error Unit) :
    ∃ r, Peeks cfg w (fetchReadCommitted cfg raftRead sink.consumer sink.tp none sink.maxRecords
        (sink.rounds cfg w)) r ∧ (sink.Reads cfg raftRead w → ∃ poll, r = .ok (some poll) ∧
        w.ordered sink.tp.topic (sink.window cfg w) = .ok poll.records) ∧
      (¬ sink.Reads cfg raftRead w → ∀ poll, r = .ok (some poll) → poll.records = []) := by
  rcases raftRead with err | ⟨⟩
  · refine ⟨.error err, (peeks_done (.error err)).bind_error, fun h => ?_, fun _ _ h => ?_⟩
    · cases h.read
    · cases h
  obtain ⟨r, hoffsets, hr⟩ := @peeks_partitionOffsets cfg w hinv sink.tp
  have hpaused := @peeks_isConsumerPaused sink.consumer cfg w sink.tp
  rcases r with err | offsets
  · -- the partition is not there, and the fetch fails on its way
    have hnone : w.logStart cfg sink.tp = none := hr
    have hstart : Peeks cfg w (fetchStartOffset cfg sink.consumer sink.tp none) (.error _) :=
      (hoffsets.wrapBroker _).bind_error
    refine ⟨.error (err.wrap "load message partition offsets"), ?_, fun h => ?_, fun _ _ h => ?_⟩
    · refine (peeks_done (.ok ())).bind ?_
      cases hcase : w.paused sink.consumer sink.tp with
      | true =>
        rw [hcase] at hpaused
        exact (hpaused.bind hstart.bind_error).bind_error
      | false => exact (peeks_pausedPollResult_none hcase none).bind hstart.bind_error
    · have hstarted := h.started
      rw [hnone] at hstarted
      cases hstarted
    · cases h
  · have hstart : w.logStart cfg sink.tp = some offsets.logStartOffset := hr
    cases hcase : w.paused sink.consumer sink.tp with
    | true =>
      obtain ⟨poll, hnothing, hpoll⟩ := peeks_pausedPollResult_some hinv hstart hcase
      refine ⟨.ok (some poll), (peeks_done (.ok ())).bind (hpoll.bind (peeks_pure _)), fun h => ?_, ?_⟩
      · have hunpaused := h.unpaused
        rw [hcase] at hunpaused
        cases hunpaused
      · rintro - found ⟨⟩
        exact hnothing
    | false =>
      obtain ⟨poll, hfetch⟩ := peeks_fetch_window hinv sink hends hstart hcase
      refine ⟨_, hfetch, fun h => ?_, fun hnot found hfound => ?_⟩
      · obtain ⟨records, hrecords⟩ := (ordered_ok_iff _ _).mpr h.orderable
        exact ⟨{ poll with records := records }, by rw [hrecords]; rfl, hrecords⟩
      · have horderable : w.Orderable sink.tp.topic (sink.window cfg w) := by
          rw [← ordered_ok_iff]
          cases hordered : w.ordered sink.tp.topic (sink.window cfg w) with
          | error err =>
            rw [hordered] at hfound
            cases hfound
          | ok records => exact ⟨records, rfl⟩
        exact absurd ⟨rfl, by rw [hstart]; rfl, hcase, horderable⟩ hnot

/-! ## One pass -/

/-- The sink has been moved on, and the records are shown as before. -/
structure Kept (cfg : Config) (sink : Sink) (w w' : World) : Prop where
  records : w'.records cfg sink.tp = w.records cfg sink.tp
  committed : ∀ record, w'.isCommitted record = w.isCommitted record
  inv : WorldInv w → WorldInv w'

lemma Kept.refl (sink : Sink) (w : World) : sink.Kept cfg w w := ⟨rfl, fun _ => rfl, id⟩

variable {sink : Sink}

lemma Kept.trans {w1 w2 w3 : World} (h : sink.Kept cfg w1 w2) (h' : sink.Kept cfg w2 w3) :
    sink.Kept cfg w1 w3 :=
  ⟨h'.records.trans h.records, fun record => (h'.committed record).trans (h.committed record),
    fun hinv => h'.inv (h.inv hinv)⟩

lemma kept_of_peeked {w' : World} (h : Peeked cfg w w') : sink.Kept cfg w w' := by
  refine ⟨?_, fun record => ?_, h.inv⟩
  · unfold World.records
    rw [h.looked.holder, h.looked.logAt]
  · unfold World.isCommitted
    rw [h.looked.metadata]

/-- The offset that the sink has committed. -/
def offset (sink : Sink) (w : World) : Nat :=
  ((w.offsetState sink.consumer sink.tp).map ConsumerOffsetState.nextOffset).getD 0

lemma exec_commit (cfg : Config) (sink : Sink) (nextOffset : Nat) (w : World) :
    ∃ w', exec step (sink.commit cfg nextOffset).attempt w = (.ok (.ok ()), w') ∧
      sink.Kept cfg w w' ∧ sink.offset w' = nextOffset := by
  let req : CommitOffsetCommand :=
    { consumer := sink.consumer, topic := sink.tp.topic, partition := sink.tp.partition,
      nextOffset := nextOffset, metadata := sink.metadata, updatedAtMS := w.env.clock 0 }
  obtain ⟨time, env, htime⟩ := exec_orNowMS req.updatedAtMS w.tick
  let state : ConsumerOffsetState :=
    { consumer := sink.consumer, topic := sink.tp.topic, partition := sink.tp.partition,
      nextOffset := nextOffset, metadata := sink.metadata, updatedAtMS := time }
  have hvalid : MemoryStore.validateConsumerState state.consumer state.topic = .ok () := by
    unfold MemoryStore.validateConsumerState
    rw [if_neg sink.consumer_ne, if_neg sink.topic_ne]
  have hsave := exec_saveOffset "commit offset" state { w.tick with env := env }
  rw [hvalid] at hsave
  have happly : exec step (applyCommitOffset cfg req) w.tick
      = (.ok (), ({ w.tick with env := env } : World).withOffset
          (MemoryStore.normalizeConsumerOffsetState state)) := (exec_bind_ok step htime).trans hsave
  have hinv : WorldInv w → WorldInv (exec step (applyCommitOffset cfg req) w.tick).2 := by
    intro hinv
    have hafter := hinv.tick.applyCommand cfg (.commitOffset req)
    have hworld : (applyCommand cfg (.commitOffset req) w.tick).2
        = (exec step (applyCommitOffset cfg req) w.tick).2 := by
      change (exec step (replyWith _ (applyCommitOffset cfg req)) w.tick).2 = _
      unfold replyWith
      rw [exec_bind_ok step happly, happly]
      rfl
    rwa [hworld] at hafter
  rw [happly] at hinv
  have hcommit : exec step (sink.commit cfg nextOffset) w = _ :=
    (exec_bind_ok step (exec_nowMS w)).trans happly
  have hattempt := exec_attempt step (sink.commit cfg nextOffset) w
  rw [hcommit] at hattempt
  refine ⟨_, hattempt, ⟨rfl, fun _ => rfl, hinv⟩, ?_⟩
  obtain ⟨hname, -, htp⟩ := key_normalize state
  unfold offset
  rw [offsetState_withOffset, hname, htp]
  exact (congrArg (fun stored : Option ConsumerOffsetState =>
    (stored.map ConsumerOffsetState.nextOffset).getD 0) (if_pos rfl)).trans (nextOffset_normalize state)

/-- The offset behind the last of some records. -/
def behind (records : List Record) (offset : Nat) : Nat :=
  (records.getLast?.map fun record => record.offset + 1).getD offset

lemma behind_cons (record : Record) (records : List Record) (offset : Nat) :
    behind (record :: records) offset = behind records (record.offset + 1) := by
  cases records with
  | nil => rfl
  | cons next rest =>
    have hlast := getLast?_eq_some_getLast (cons_ne_nil next rest)
    simp only [behind, getLast?_cons_cons, hlast, Option.map_some, Option.getD_some]

/-- Wherever the loop is stopped, it has committed the offset behind a part of the records, and handed
over these and at most one more. -/
lemma exec_deliverRecords (cfg : Config) (sink : Sink) (batch : List Record) (attempts : List Attempt)
    (w : World) : ∃ pre handed w', pre <+: batch ∧ pre ⊆ handed ∧ sink.Kept cfg w w' ∧
      sink.offset w' = behind pre (sink.offset w) ∧
      exec step (sink.deliverRecords cfg batch attempts) w = (.ok handed, w') := by
  induction batch generalizing attempts w with
  | nil => exact ⟨[], [], w, nil_prefix, nil_subset _, .refl sink w, rfl, rfl⟩
  | cons record rest ih =>
    rcases attempts with - | ⟨_ | _ | _, attempts⟩
    · exact ⟨[], [], w, nil_prefix, nil_subset _, .refl sink w, rfl, rfl⟩
    · obtain ⟨w1, hcommit, hkept1, hoffset1⟩ := exec_commit cfg sink (record.offset + 1) w
      obtain ⟨pre, handed, w', hpre, hsub, hkept, hoffset, hrun⟩ := ih attempts w1
      refine ⟨record :: pre, record :: handed, w', cons_prefix_cons.mpr ⟨rfl, hpre⟩,
        cons_subset_cons _ hsub, hkept1.trans hkept, ?_, ?_⟩
      · rw [behind_cons, hoffset, hoffset1]
      · rw [deliverRecords, exec_bind_ok step hcommit]
        exact exec_bind_ok step hrun
    · exact ⟨[], [record], w, nil_prefix, nil_subset _, .refl sink w, rfl, rfl⟩
    · exact ⟨[], [], w, nil_prefix, nil_subset _, .refl sink w, rfl, rfl⟩

/-- The loop can be stopped behind any of the records. -/
lemma exec_deliverRecords_stopped (cfg : Config) (sink : Sink) (pre rest : List Record) (w : World) :
    ∃ w', sink.Kept cfg w w' ∧ sink.offset w' = behind pre (sink.offset w) ∧
      exec step (sink.deliverRecords cfg (pre ++ rest) (List.replicate pre.length .committed)) w
        = (.ok pre, w') := by
  induction pre generalizing w with
  | nil =>
    refine ⟨w, .refl sink w, rfl, ?_⟩
    cases rest <;> rfl
  | cons record pre ih =>
    obtain ⟨w1, hcommit, hkept1, hoffset1⟩ := exec_commit cfg sink (record.offset + 1) w
    obtain ⟨w', hkept, hoffset, hrun⟩ := ih w1
    refine ⟨w', hkept1.trans hkept, ?_, ?_⟩
    · rw [behind_cons, hoffset, hoffset1]
    · rw [length_cons, replicate_succ, cons_append, deliverRecords,
        exec_bind_ok step hcommit]
      exact exec_bind_ok step hrun

/-- A broker, and the offsets of the records that the sink has handed over. -/
abbrev State := World × List Nat

/-- What a pass does. -/
def after (cfg : Config) (sink : Sink) (raftRead : Except Error Unit) (attempts : List Attempt)
    (s : State) : State :=
  let result := Prog.exec step (sink.processOnce cfg raftRead attempts (sink.rounds cfg s.1)) s.1
  (result.2, s.2 ++ (result.1.toOption.getD []).map Record.offset)

/-- No committed record that stands below the offset of the sink is left to be handed over. -/
def Safe (cfg : Config) (sink : Sink) (s : State) : Prop :=
  ∀ record ∈ s.1.records cfg sink.tp, s.1.isCommitted record → record.offset < sink.offset s.1 →
    record.offset ∈ s.2

/-- No record of the page that is still to be handed over stands below one of the window that is
handed over before it, or without it: none has been acknowledged out of turn, and none is of a lower
priority. -/
def InOrder (cfg : Config) (sink : Sink) (s : State) : Prop :=
  ∀ below ∈ sink.page cfg s.1, ∀ record ∈ sink.window cfg s.1, below.offset < record.offset →
    below.offset ∉ s.2 → below ∈ sink.window cfg s.1 ∧
      s.1.rank sink.tp.topic record ≤ s.1.rank sink.tp.topic below

lemma mem_left_of_le {left right : List Record} (hord : OffsetOrdered (left ++ right))
    {other : Record} (hrecord : record ∈ left) (hother : other ∈ left ++ right)
    (hle : other.offset ≤ record.offset) : other ∈ left := by
  rcases mem_append.mp hother with hleft | hright
  · exact hleft
  · have hlt := (pairwise_append.mp hord).2.2 record hrecord other hright
    omega

lemma ordered_records (hinv : WorldInv w) (tp : TopicPartition) : OffsetOrdered (w.records cfg tp) := by
  unfold World.records
  split
  · next log hlog => exact (hinv.logAt hlog).ordered tp
  · exact List.Pairwise.nil

/-- The committed records up to one of the page are all in the page. -/
lemma mem_page_of_le (hinv : WorldInv w) {other : Record} (hrecord : record ∈ sink.page cfg w)
    (hother : other ∈ w.records cfg sink.tp) (hcommitted : w.isCommitted other)
    (hfrom : position (w.offsetState sink.consumer sink.tp) ((w.logStart cfg sink.tp).getD 0) ≤ other.offset)
    (hle : other.offset ≤ record.offset) : other ∈ sink.page cfg w := by
  unfold page at hrecord ⊢
  generalize position _ _ = start at hrecord hfrom ⊢
  have hunread : other ∈ recordsFrom (w.records cfg sink.tp) start :=
    mem_filter.mpr ⟨hother, decide_eq_true hfrom⟩
  have hord : OffsetOrdered (recordsFrom (w.records cfg sink.tp) start) :=
    (ordered_records hinv sink.tp).filter _
  generalize recordsFrom (w.records cfg sink.tp) start = unread at hrecord hunread hord ⊢
  -- it is before the first record of an open transaction, as the one of the page is
  have hseen : record ∈ w.committedBefore unread := mem_of_mem_take hrecord
  have hclosed : other ∈ unread.takeWhile fun record => !w.isOpen record := by
    rw [← @takeWhile_append_dropWhile _ (fun record => !w.isOpen record) unread] at hunread hord
    exact mem_left_of_le hord (mem_filter.mp hseen).1 hunread hle
  have hvisible : other ∈ w.committedBefore unread := mem_filter.mpr ⟨hclosed, hcommitted⟩
  have hordered : OffsetOrdered (w.committedBefore unread) :=
    (hord.sublist (takeWhile_sublist _)).filter _
  rw [← take_append_drop (clampFetch cfg sink.maxRecords) (w.committedBefore unread)]
    at hvisible hordered
  exact mem_left_of_le hordered hrecord hvisible hle

lemma mem_of_page (h : record ∈ sink.page cfg w) :
    record ∈ w.records cfg sink.tp ∧ w.isCommitted record := by
  have hseen := mem_filter.mp (mem_of_mem_take h)
  have hunread := (takeWhile_sublist _).subset hseen.1
  exact ⟨(mem_filter.mp hunread).1, hseen.2⟩

lemma mem_page_of_window (h : record ∈ sink.window cfg w) :
    record ∈ sink.page cfg w := (mem_filter.mp h).1

/-- What a fetch is asked for begins at the offset of the sink, or where the log begins. -/
lemma position_le (hinv : WorldInv w) {start : Nat} (hstart : w.logStart cfg sink.tp = some start)
    (hrecord : record ∈ w.records cfg sink.tp) (hoffset : sink.offset w ≤ record.offset) :
    position (w.offsetState sink.consumer sink.tp) ((w.logStart cfg sink.tp).getD 0) ≤ record.offset := by
  obtain ⟨log, -, hlog, -⟩ := exists_log_of_logStart hstart
  have hin : record ∈ log.recordsAt sink.tp := by simpa only [World.records, hlog] using hrecord
  have hbegin := logStart_le hinv hlog hstart hin
  unfold offset at hoffset
  rw [hstart, Option.getD_some]
  unfold position
  cases hstate : w.offsetState sink.consumer sink.tp with
  | none => exact hbegin
  | some state =>
    rw [hstate] at hoffset
    exact max_le hoffset hbegin

/-- What a pass hands over, and where it leaves the offset. -/
lemma after_spec (hinv : WorldInv w) (hends : sink.ReadEnds cfg w) (raftRead : Except Error Unit)
    (attempts : List Attempt) (delivered : List Nat) :
    ∃ pre handed w', sink.after cfg raftRead attempts (w, delivered)
        = (w', delivered ++ handed.map Record.offset) ∧
      sink.Kept cfg w w' ∧ pre ⊆ handed ∧ sink.offset w' = behind pre (sink.offset w) ∧
      (¬ sink.Reads cfg raftRead w → pre = []) ∧
      (sink.Reads cfg raftRead w → ∃ batch, pre <+: batch ∧
        w.ordered sink.tp.topic (sink.window cfg w) = .ok batch) := by
  obtain ⟨r, hfetch, hreads, hnot⟩ := peeks_fetchReadCommitted hinv hends raftRead
  obtain ⟨w1, hpeeked, hrun⟩ := hfetch w (.refl cfg w)
  have hkept : sink.Kept cfg w w1 := kept_of_peeked hpeeked
  have hoffset : sink.offset w1 = sink.offset w := by
    unfold offset World.offsetState
    rw [hpeeked.looked.metadata]
  by_cases hread : sink.Reads cfg raftRead w
  · obtain ⟨poll, rfl, hbatch⟩ := hreads hread
    obtain ⟨pre, handed, w', hpre, hsub, hkept', hoffset', hdeliver⟩ :=
      exec_deliverRecords cfg sink poll.records attempts w1
    refine ⟨pre, handed, w', ?_, hkept.trans hkept', hsub, by rw [hoffset', hoffset],
      fun h => absurd hread h, fun _ => ⟨_, hpre, hbatch⟩⟩
    unfold after processOnce
    rw [exec_bind_ok step hrun]
    simp only [hdeliver]
    rfl
  · refine ⟨[], [], w1, ?_, hkept, nil_subset _, hoffset, fun _ => rfl, fun h => absurd h hread⟩
    unfold after processOnce
    rw [exec_bind, hrun]
    rcases r with err | - | poll
    · rfl
    · rfl
    · have hnil := hnot hread poll rfl
      simp only [hnil]
      cases attempts <;> rfl

/-- A pass can be stopped behind any of the records that it is given. -/
lemma after_stopped (hinv : WorldInv w) (hends : sink.ReadEnds cfg w) {raftRead : Except Error Unit}
    (hread : sink.Reads cfg raftRead w) (delivered : List Nat) {pre rest : List Record}
    (hbatch : w.ordered sink.tp.topic (sink.window cfg w) = .ok (pre ++ rest)) :
    ∃ w', sink.after cfg raftRead (List.replicate pre.length .committed) (w, delivered)
        = (w', delivered ++ pre.map Record.offset) ∧
      sink.Kept cfg w w' ∧ sink.offset w' = behind pre (sink.offset w) := by
  obtain ⟨r, hfetch, hreads, -⟩ := peeks_fetchReadCommitted hinv hends raftRead
  obtain ⟨poll, rfl, hpoll⟩ := hreads hread
  obtain ⟨w1, hpeeked, hrun⟩ := hfetch w (.refl cfg w)
  have hrecords : poll.records = pre ++ rest := Except.ok.inj (hpoll.symm.trans hbatch)
  obtain ⟨w', hkept, hoffset, hdeliver⟩ := exec_deliverRecords_stopped cfg sink pre rest w1
  refine ⟨w', ?_, (kept_of_peeked hpeeked).trans hkept, ?_⟩
  · unfold after processOnce
    rw [exec_bind_ok step hrun]
    simp only [hrecords, hdeliver]
    rfl
  · rw [hoffset]
    unfold offset World.offsetState
    rw [hpeeked.looked.metadata]

/-- A pass keeps the records safe wherever it is stopped, exactly when it is given them in order. -/
lemma safe_after_iff (hinv : WorldInv w) (hends : sink.ReadEnds cfg w) {delivered : List Nat}
    (hsafe : sink.Safe cfg (w, delivered)) (raftRead : Except Error Unit) :
    (∀ attempts, sink.Safe cfg (sink.after cfg raftRead attempts (w, delivered))) ↔
      (sink.Reads cfg raftRead w → sink.InOrder cfg (w, delivered)) := by
  have hordered : OffsetOrdered (sink.window cfg w) := by
    have hpage : OffsetOrdered (sink.page cfg w) :=
      ((((ordered_records hinv sink.tp).filter _).sublist (takeWhile_sublist _)).filter _).sublist
        (take_sublist _ _)
    exact hpage.filter _
  constructor
  · intro h hread below hbelow record hrecord hlt hleft
    obtain ⟨batch, hbatch⟩ := (ordered_ok_iff _ _).mpr hread.orderable
    have hperm := ordered_perm hbatch
    obtain ⟨pre, rest, rfl⟩ := append_of_mem (hperm.mem_iff.mpr hrecord)
    -- the pass is stopped behind the record: what stands below has been handed over before it
    have hsplit : pre ++ record :: rest = (pre ++ [record]) ++ rest := by simp
    rw [hsplit] at hbatch
    obtain ⟨w', hafter, hkept, hoffset⟩ := after_stopped hinv hends hread delivered hbatch
    have hall := h (List.replicate (pre ++ [record]).length .committed)
    rw [hafter] at hall
    obtain ⟨hin, hcommitted⟩ := mem_of_page hbelow
    have hhanded := hall below (hkept.records ▸ hin) ((hkept.committed below).trans hcommitted) (by
      rw [hoffset]
      simp [behind]
      omega)
    rw [mem_append] at hhanded
    obtain ⟨found, hfound, hsame⟩ := mem_map.mp (hhanded.resolve_left hleft)
    have hfoundpre : found ∈ pre := by
      rcases mem_append.mp hfound with hpre | hlast
      · exact hpre
      · rw [mem_singleton.mp hlast] at hsame
        omega
    have hfoundwindow : found ∈ sink.window cfg w :=
      hperm.mem_iff.mp (mem_append_left _ hfoundpre)
    obtain rfl : found = below := (ordered_records hinv sink.tp).eq_of_offset
      (mem_of_page (mem_page_of_window hfoundwindow)).1 hin hsame
    refine ⟨hfoundwindow, ?_⟩
    have hpairs := pairwise_ordered hordered hbatch
    rw [← hsplit] at hpairs
    rcases (pairwise_append.mp hpairs).2.2 found hfoundpre record mem_cons_self with
      hrank | ⟨hrank, -⟩
    · exact hrank.le
    · exact hrank.le
  · intro h attempts
    obtain ⟨pre, handed, w', hafter, hkept, hsub, hoffset, hnot, hreads⟩ :=
      after_spec hinv hends raftRead attempts delivered
    rw [hafter]
    intro record hrecord hcommitted hlt
    change record.offset ∈ delivered ++ handed.map Record.offset
    change record ∈ w'.records cfg sink.tp at hrecord
    change record.offset < sink.offset w' at hlt
    rw [hkept.records] at hrecord
    have hcommitted : w.isCommitted record := (hkept.committed record).symm.trans hcommitted
    rw [mem_append]
    by_cases hbefore : record.offset < sink.offset w
    · exact .inl (hsafe record hrecord hcommitted hbefore)
    rw [hoffset] at hlt
    -- an offset has been committed, behind a record that was handed over
    cases hlast : pre.getLast? with
    | none =>
      simp only [behind, hlast] at hlt
      exact absurd hlt hbefore
    | some last =>
      simp only [behind, hlast, Option.map_some, Option.getD_some] at hlt
      have hpresplit := dropLast_append_getLast? last hlast
      have hlastmem : last ∈ pre := mem_of_getLast? hlast
      by_cases hread : sink.Reads cfg raftRead w
      · obtain ⟨batch, hpre, hbatch⟩ := hreads hread
        have hperm := ordered_perm hbatch
        have hlastwindow : last ∈ sink.window cfg w := hperm.mem_iff.mp (hpre.subset hlastmem)
        obtain ⟨start, hstart⟩ := Option.isSome_iff_exists.mp hread.started
        have hfrom := position_le hinv hstart hrecord (Nat.le_of_not_lt hbefore)
        have hpage := mem_page_of_le hinv (mem_page_of_window hlastwindow) hrecord hcommitted hfrom
          (Nat.le_of_lt_succ hlt)
        by_cases hdelivered : record.offset ∈ delivered
        · exact .inl hdelivered
        · right
          rcases Nat.lt_or_eq_of_le (Nat.le_of_lt_succ hlt) with hless | hsame
          · obtain ⟨hwindow, hrank⟩ := h hread record hpage last hlastwindow hless hdelivered
            obtain ⟨rest, rfl⟩ := hpre
            have hpairs := pairwise_ordered hordered hbatch
            rcases mem_append.mp (hperm.mem_iff.mpr hwindow) with hin | hlater
            · exact mem_map_of_mem (hsub hin)
            · rcases (pairwise_append.mp hpairs).2.2 last hlastmem record hlater with
                hhigher | ⟨-, hle⟩
              · exact absurd hrank (Nat.not_le_of_lt hhigher)
              · exact absurd hle (Nat.not_le_of_lt hless)
          · exact hsame ▸ mem_map_of_mem (hsub hlastmem)
      · rw [hnot hread] at hlastmem
        cases hlastmem

/-! ## Passes, and what else happens -/

/-- A step of the broker: a pass of the sink, or whatever others do. -/
inductive Step where
  | pass (raftRead : Except Error Unit) (attempts : List Attempt)
  | other (act : World → World)

def Step.run (cfg : Config) (sink : Sink) : Step → State → State
  | pass raftRead attempts, s => sink.after cfg raftRead attempts s
  | other act, s => (act s.1, s.2)

/-- At each step of a run. -/
def Along (cfg : Config) (sink : Sink) (P : Step → State → Prop) : List Step → State → Prop
  | [], _ => True
  | action :: rest, s => P action s ∧ Along cfg sink P rest (action.run cfg sink s)

/-- The reader of a pass comes to an end. Others leave the offset of the sink as it is, and show no
record below it that was not shown. -/
def Step.Apart (cfg : Config) (sink : Sink) : Step → State → Prop
  | pass _ _, s => sink.ReadEnds cfg s.1
  | other act, s => WorldInv (act s.1) ∧ sink.offset (act s.1) = sink.offset s.1 ∧
      ∀ record ∈ (act s.1).records cfg sink.tp, (act s.1).isCommitted record →
        record.offset < sink.offset s.1 → record ∈ s.1.records cfg sink.tp ∧ s.1.isCommitted record

/-- Wherever a pass is stopped, and after what others do, the records are safe. -/
def Step.Safely (cfg : Config) (sink : Sink) : Step → State → Prop
  | pass raftRead _, s => ∀ attempts, sink.Safe cfg (sink.after cfg raftRead attempts s)
  | other act, s => sink.Safe cfg (act s.1, s.2)

/-- A pass is given its records in order. -/
def Step.Ordered (cfg : Config) (sink : Sink) : Step → State → Prop
  | pass raftRead _, s => sink.Reads cfg raftRead s.1 → sink.InOrder cfg s
  | other _, _ => True

/-- **At least once.** Over the passes of a sink, wherever each is stopped and whatever others do in
between, no committed record below the offset of the sink is left to be handed over, exactly when each
pass is given its records in the order of the log, but for those handed over before. -/
theorem never_ahead_iff {cfg : Config} {sink : Sink} {steps : List Step} {s : State}
    (hinv : WorldInv s.1) (hsafe : sink.Safe cfg s)
    (hapart : Along cfg sink (Step.Apart cfg sink) steps s) :
    Along cfg sink (Step.Safely cfg sink) steps s ↔ Along cfg sink (Step.Ordered cfg sink) steps s := by
  induction steps generalizing s with
  | nil => exact Iff.rfl
  | cons action rest ih =>
    obtain ⟨hfirst, hrest⟩ := hapart
    -- one step: it is safe exactly when it is in order, and then the run goes on from a safe state
    have hstep : (action.Safely cfg sink s ↔ action.Ordered cfg sink s) ∧
        (action.Safely cfg sink s → sink.Safe cfg (action.run cfg sink s)) ∧
        WorldInv (action.run cfg sink s).1 := by
      cases action with
      | pass raftRead attempts =>
        obtain ⟨pre, handed, w', hafter, hkept, -⟩ :=
          after_spec hinv hfirst raftRead attempts s.2
        refine ⟨safe_after_iff hinv hfirst hsafe raftRead, fun h => h attempts, ?_⟩
        have hworld : (Step.run cfg sink (.pass raftRead attempts) s).1 = w' := congrArg Prod.fst hafter
        rw [hworld]
        exact hkept.inv hinv
      | other act =>
        obtain ⟨hinv', hoffset, hshown⟩ := hfirst
        have hkept : sink.Safe cfg (act s.1, s.2) := by
          intro record hrecord hcommitted hlt
          change record.offset < sink.offset (act s.1) at hlt
          rw [hoffset] at hlt
          obtain ⟨hin, hcommitted'⟩ := hshown record hrecord hcommitted hlt
          exact hsafe record hin hcommitted' hlt
        exact ⟨⟨fun _ => trivial, fun _ => hkept⟩, id, hinv'⟩
    obtain ⟨hiff, hon, hinv'⟩ := hstep
    constructor
    · rintro ⟨hsafely, hlater⟩
      exact ⟨hiff.mp hsafely, (ih hinv' (hon hsafely) hrest).mp hlater⟩
    · rintro ⟨hordered, hlater⟩
      exact ⟨hiff.mpr hordered, (ih hinv' (hon (hiff.mpr hordered)) hrest).mpr hlater⟩

/-- Orders of these priorities. -/
def prioritizedOrders (priorities : List Nat) : List Command :=
  .createTopic { newTopicConfig "orders" with priorityPolicy := ⟨true, 0, 9, 0⟩ } ::
    priorities.map fun priority => .produce ⟨"orders", ⟨.explicit, 0, ""⟩,
      { payload := [9], headers := [header priorityHeader (showNat priority)] }, none⟩

def ordersSink : Sink := ⟨"ech0-mirror.orders.0", ⟨"orders", 0⟩, 10, "mirror:orders.0", by decide, by decide⟩

/-- A broker with these orders, of which the sink has handed over none. -/
def sinkState (priorities : List Nat) : State :=
  (applyCommands {} (prioritizedOrders priorities) (World.fresh {} stillEnv), [])

lemma inv_sinkState (priorities : List Nat) : WorldInv (sinkState priorities).1 :=
  (WorldInv.fresh {} stillEnv).applyCommands {} (prioritizedOrders priorities)

/-- The more urgent order came first. One pass is stopped behind it, and the next hands over the other. -/
theorem never_ahead_urgent_first :
    Along {} ordersSink (Step.Safely {} ordersSink)
        [.pass (.ok ()) [.committed, .refused], .pass (.ok ()) [.committed]] (sinkState [9, 1]) ∧
      (Step.run {} ordersSink (.pass (.ok ()) [.committed])
        (Step.run {} ordersSink (.pass (.ok ()) [.committed, .refused]) (sinkState [9, 1]))).2 = [0, 1] :=
  ⟨(@never_ahead_iff {} ordersSink [.pass _ _, .pass _ _] (sinkState [9, 1]) (inv_sinkState _)
    (by unfold Safe; decide +kernel)
    ⟨by unfold Step.Apart ReadEnds World.Passable; decide +kernel,
      by unfold Step.Apart ReadEnds World.Passable; decide +kernel, trivial⟩).mpr
    ⟨fun _ => by unfold InOrder; decide +kernel, fun _ => by unfold InOrder; decide +kernel, trivial⟩,
    by decide +kernel⟩

/-- The more urgent order came last, and is handed over first. The pass is stopped there, and the one
below is never handed over. -/
theorem urgent_order_skips :
    (Step.run {} ordersSink (.pass (.ok ()) [.committed, .refused]) (sinkState [1, 9])).2 = [1] ∧
      ordersSink.offset (Step.run {} ordersSink (.pass (.ok ()) [.committed, .refused])
        (sinkState [1, 9])).1 = 2 ∧
      (Step.run {} ordersSink (.pass (.ok ()) [.committed, .committed])
        (Step.run {} ordersSink (.pass (.ok ()) [.committed, .refused]) (sinkState [1, 9]))).2 = [1] := by
  decide +kernel

end Sink

end Ech0.Broker
