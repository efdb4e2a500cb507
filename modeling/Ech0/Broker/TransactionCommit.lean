/-
  A commit writes a marker to every partition of the transaction, then its offsets one by one, then
  its status. Nothing is taken back when one of these writes is refused, so a commit leaves all or
  nothing only if no write after the first can be refused.

  The one that a client can have refused is that of an offset: staging asks for a consumer or a group
  and not for a topic, which the offsets' table does ask for.
-/
import Ech0.Broker.ConsumerOffsets
import Ech0.Broker.TransactionRuns

set_option autoImplicit false

namespace Ech0.Broker

open Ech0.Lib Ech0.Store StorxLogStore Prog World List

variable {w : World} (cfg : Config)

/-! ## Runs without a commit -/

/-- The record that says a transaction was committed. -/
def CommitMarker (txID : Nat) (record : Record) : Prop :=
  ∃ m, record.transaction = some m ∧ m.txID = txID ∧ m.controlType = .commit

def NoCommitMarker (_ : TopicPartition) (record : Record) : Prop :=
  ∀ txID, ¬ CommitMarker txID record

variable {tp : TopicPartition}

lemma noCommitMarker_of_storedFrom {append : RecordAppend} {record : Record}
    {identity : TransactionIdentity} {sequence : Nat} {controlType : TransactionControlType}
    (hne : controlType ≠ .commit) (h : StoredFrom append record)
    (happend : append.transaction = some (transactionRecordMetadata identity sequence controlType))
    : NoCommitMarker tp record := by
  rintro txID ⟨m, hm, -, hcommit⟩
  rw [h.transaction, happend] at hm
  cases hm
  exact hne hcommit

/-- The commands that make a transaction and end it in some other way than by a commit. -/
def Command.uncommitting : Command → Bool
  | createTopic _ => true
  | txBegin _ => true
  | txPublish _ => true
  | txPublishBatch _ => true
  | txCommitOffset _ => true
  | txAbort _ => true
  | txExpire _ => true
  | _ => false

lemma noCommitMarker_parts :
    Parts.Transactions (Makes step (AppendsOnly NoCommitMarker)) cfg where
  now := appendsOnly_perform rfl
  allocate := appendsOnly_perform rfl
  list := appendsOnly_perform rfl
  load _ := appendsOnly_perform rfl
  save _ := appendsOnly_perform rfl
  abort _ _ _ := appendsOnly_publishRecord cfg fun _ h =>
    noCommitMarker_of_storedFrom (by decide) h rfl

lemma noCommitMarker_data :
    Parts.TransactionData (Makes step (AppendsOnly NoCommitMarker)) cfg where
  topic _ := appendsOnly_perform rfl
  data _ _ _ _ := appendsOnly_publishRecord cfg fun _ h =>
    noCommitMarker_of_storedFrom (by decide) h rfl
  batch _ records hdata := appendsOnly_publishBatchRecords cfg fun append happend _ h => by
    obtain ⟨identity, sequence, htransaction⟩ := hdata append happend
    exact noCommitMarker_of_storedFrom (by decide) h htransaction
  read := Runtime.readFrom appendsOnly_quiet (appendsOnly_closed _)

lemma uncommitting_appends {cmd : Command} (h : cmd.uncommitting = true) :
    Makes step (AppendsOnly NoCommitMarker) _ (cmd.apply cfg) := by
  apply Command.transactional_appends (noCommitMarker_parts cfg)
  · cases cmd <;> first | rfl | cases h
  · exact fun _ => noCommitMarker_data cfg
  · rintro identity rfl
    cases h

/-! ## A commit that goes through -/

/-- The log that holds the partition takes `n` more records without payload, at any time to come. -/
def Accepts (cfg : Config) (w : World) (tp : TopicPartition) (n : Nat) : Prop :=
  ∃ log topic, w.logAt (w.holder cfg tp) = .ok log ∧ log.loadTopicForPartition tp = .ok topic ∧
    log.nextOffset tp + n ≤ maxUint64 + 1 ∧
    ∀ ttl, topic.messageTTLMS = some ttl → ∀ i, w.env.clock i + ttl ≤ maxUint64

/-- Every write of the commit is accepted. -/
structure CommitReady (cfg : Config) (w : World) (state : TransactionState) : Prop where
  offsets : ∀ offset ∈ state.offsetCommits, offset.topic ≠ ""
  sequence : state.nextSequence + state.partitions.length ≤ maxUint64
  partitions : ∀ tp ∈ state.partitions, Accepts cfg w tp state.partitions.length

lemma appendRecordsBatch_of_accepts {log : StorxLogStore} {clock : Nat → Nat}
    {topic : TopicConfig} (hload : log.loadTopicForPartition tp = .ok topic)
    (hnext : log.nextOffset tp ≤ maxUint64)
    (hclock : ∀ ttl, topic.messageTTLMS = some ttl → clock 0 + ttl ≤ maxUint64)
    (metadata : Option TransactionRecordMetadata) :
    ∃ result, log.appendRecordsBatch clock tp
      [{ transaction := metadata, payload := [] }] = .ok result := by
  have hoffset : offsetForBatchRecord (log.nextOffset tp) 0 = .ok (log.nextOffset tp) := by
    unfold offsetForBatchRecord
    rw [if_neg (by omega)]
    rfl
  have hexpires : ∃ expires, appendRecordExpiresAt (clock 0) topic
      { transaction := metadata, payload := [] } = .ok expires := by
    unfold appendRecordExpiresAt
    dsimp only
    cases httl : topic.messageTTLMS with
    | none => exact ⟨none, rfl⟩
    | some ttl =>
      have hfits := hclock ttl httl
      dsimp only
      rw [if_neg (by omega)]
      exact ⟨_, rfl⟩
  obtain ⟨expires, hexpires⟩ := hexpires
  unfold appendRecordsBatch
  rw [if_neg (by simp)]
  simp only [hload, prepareAppendRecords, recordFromAppend, Option.getD_none, hoffset, hexpires,
    bind, Except.bind, pure, Except.pure, length_nil, Nat.not_lt_zero, gt_iff_lt, if_false]
  exact ⟨_, rfl⟩

/-- A marker goes to a log that accepts it. -/
lemma marker_ends (hinv : WorldInv w) {n : Nat} (h : Accepts cfg w tp (n + 1))
    (identity : TransactionIdentity) (sequence : Nat) (controlType : TransactionControlType) :
    Ends step (appendTransactionControlMarker cfg identity tp sequence controlType) w
      fun r w' _ => (∃ record, r = .ok record) ∧ WorldInv w' ∧ w'.metadata = w.metadata ∧
        ∀ tp' m, Accepts cfg w tp' (m + 1) → Accepts cfg w' tp' m := by
  obtain ⟨log, topic, hlog, hload, hnext, hclock⟩ := h
  obtain ⟨⟨stored, log'⟩, happend⟩ := appendRecordsBatch_of_accepts hload (by omega)
    (fun ttl httl => hclock ttl httl 0) (some (transactionRecordMetadata identity sequence controlType))
  apply ends_mapError
  apply (publishRecord_ends cfg hinv tp _).mono
  rintro r w' trace (⟨log1, stored1, log1', hlog1, happend1, hr, -, hwrote⟩ | ⟨hrefused, -⟩)
  · rw [hlog] at hlog1
    cases hlog1
    rw [happend] at happend1
    cases happend1
    obtain ⟨hspec, hlength⟩ := appendRecordsBatch_spec (hinv.logAt hlog) happend
    refine ⟨?_, hwrote.inv hinv hspec.inv, hwrote.metadata, ?_⟩
    · cases r with
      | error err => cases hr
      | ok record => exact ⟨record, rfl⟩
    · rintro tp' m ⟨found, topic', hfound, hload', hnext', hclock'⟩
      obtain ⟨k, henv⟩ := hwrote.clock
      have hholder : w'.holder cfg tp' = w.holder cfg tp' := by
        unfold holder
        rw [hwrote.resolved]
      have hlater : ∀ ttl, topic'.messageTTLMS = some ttl → ∀ i, w'.env.clock i + ttl ≤ maxUint64 := by
        intro ttl httl i
        rw [henv]
        exact hclock' ttl httl (k + i)
      by_cases hsame : w.holder cfg tp' = w.holder cfg tp
      · -- the same log, which has grown by a record
        rw [hsame, hlog] at hfound
        cases hfound
        refine ⟨log', topic', ?_, ?_, ?_, hlater⟩
        · rw [hholder, hwrote.logAt, if_pos hsame]
        · unfold loadTopicForPartition at hload' ⊢
          rw [hspec.topics]
          exact hload'
        · rw [hspec.next, hlength]
          split
          · simp only [length_singleton]
            omega
          · omega
      · refine ⟨found, topic', ?_, hload', by omega, hlater⟩
        rw [hholder, hwrote.logAt, if_neg hsame]
        exact hfound
  · obtain ⟨err, herr⟩ := hrefused log hlog
    rw [happend] at herr
    cases herr

lemma appendControlMarkers_ends (identity : TransactionIdentity)
    (controlType : TransactionControlType) (tps : List TopicPartition) (hinv : WorldInv w)
    {sequence : Nat} (hsequence : sequence + tps.length ≤ maxUint64)
    (haccepts : ∀ tp ∈ tps, Accepts cfg w tp tps.length) :
    Ends step (appendControlMarkers cfg identity controlType sequence tps) w fun r w' _ =>
      (∃ next, r = .ok next) ∧ w'.metadata = w.metadata := by
  induction tps generalizing w sequence with
  | nil => exact ⟨⟨sequence, rfl⟩, rfl⟩
  | cons tp rest ih =>
    rw [length_cons] at hsequence
    apply ends_bind
    apply (marker_ends cfg hinv (haccepts tp mem_cons_self) identity sequence controlType).mono
    rintro r w1 - ⟨⟨record, rfl⟩, hinv1, hmeta, hkeeps⟩
    apply ends_bind_ofExcept
    · intro err herr
      unfold incrementTransactionSequence at herr
      rw [if_neg (by omega)] at herr
      cases herr
    · intro next hnext
      unfold incrementTransactionSequence at hnext
      rw [if_neg (by omega)] at hnext
      cases hnext
      have hrest : ∀ tp ∈ rest, Accepts cfg w1 tp rest.length := fun tp' htp' =>
        hkeeps tp' _ (haccepts tp' (mem_cons_of_mem tp htp'))
      apply (ih hinv1 (by omega) hrest).mono
      rintro r w2 - ⟨hr, hmeta2⟩
      exact ⟨hr, hmeta2.trans hmeta⟩

lemma exec_commitTransactionOffset {offset : TransactionOffsetCommit}
    (hconsumer : transactionOffsetConsumer offset ≠ "") (htopic : offset.topic ≠ "") (w : World) :
    ∃ w', exec step (commitTransactionOffset offset) w = (.ok (), w') := by
  have hvalid : MemoryStore.validateConsumerState (transactionOffsetConsumer offset) offset.topic = .ok () := by
    unfold MemoryStore.validateConsumerState
    rw [if_neg hconsumer, if_neg htopic]
  unfold commitTransactionOffset
  rw [exec_bind_ok step (exec_nowMS w), exec_saveOffset, hvalid]
  exact ⟨_, rfl⟩

lemma commitOffsets_ends (offsets : List TransactionOffsetCommit)
    (h : ∀ offset ∈ offsets, transactionOffsetConsumer offset ≠ "" ∧ offset.topic ≠ "") (w : World) :
    Ends step (Prog.forEach commitTransactionOffset offsets) w fun r w' _ =>
      r = .ok () ∧ SameTransactions w w' := by
  induction offsets generalizing w with
  | nil => exact ⟨rfl, rfl⟩
  | cons offset rest ih =>
    obtain ⟨hconsumer, htopic⟩ := h offset mem_cons_self
    obtain ⟨w1, hrun⟩ := exec_commitTransactionOffset hconsumer htopic w
    have hsame : SameTransactions w w1 := by
      have hkeeps := sameTransactions_commitTransactionOffset offset w
      rw [hrun] at hkeeps
      exact hkeeps
    apply ends_bind_ok hrun
    apply (ih (fun o ho => h o (mem_cons_of_mem offset ho)) w1).mono
    rintro r w2 - ⟨hr, hsame2⟩
    exact ⟨hr, hsame.trans hsame2⟩

/-- A commit of which every write is accepted goes through. -/
lemma commit_ready_ends (hinv : WorldInv w) {identity : TransactionIdentity}
    {state : TransactionState} (hopen : OpenFor w identity state)
    (hconsumers : ∀ offset ∈ state.offsetCommits, transactionOffsetConsumer offset ≠ "")
    (hready : CommitReady cfg w state) :
    Ends step (closeTransaction cfg .commit .committed "commit transaction"
      (fun after => Prog.forEach commitTransactionOffset after.offsetCommits) state) w.tick
      fun r _ _ => ∃ result, r = .ok result := by
  have haccepts : ∀ tp ∈ state.partitions, Accepts cfg w.tick tp state.partitions.length := by
    intro tp htp
    obtain ⟨log, topic, hlog, hload, hnext, hclock⟩ := hready.partitions tp htp
    exact ⟨log, topic, hlog, hload, hnext, fun ttl httl i => hclock ttl httl (1 + i)⟩
  have hinv' : WorldInv w.tick := hinv.tick
  unfold closeTransaction appendTransactionControlMarkers
  rw [if_neg (by decide)]
  apply ends_bind
  apply ends_bind
  apply (appendControlMarkers_ends cfg _ .commit state.partitions hinv' hready.sequence
    haccepts).mono
  rintro r w1 - ⟨⟨next, rfl⟩, hmeta⟩
  have hsame1 : SameTransactions w w1 := congrArg (fun s => table s .transactions) hmeta
  apply ends_pure
  apply ends_bind
  apply (commitOffsets_ends state.offsetCommits
    (fun offset ho => ⟨hconsumers offset ho, hready.offsets offset ho⟩) w1).mono
  rintro r w2 - ⟨rfl, hsame2⟩
  apply ends_bind_ok (exec_nowMS w2)
  have hsame : SameTransactions w w2.tick :=
    (hsame1.trans hsame2).trans w2.sameTransactions_tick
  obtain ⟨-, hid, hnext, hstored⟩ := hopen.after hinv.keyed hsame
  apply ends_bind
  have hcommitted : TransactionStatus.committed ≠ .open := by decide
  apply (close_ends .nothing hid hnext hstored hopen.isOpen hcommitted "commit transaction").mono
  rintro r w3 - ⟨rfl, -⟩
  exact ⟨_, rfl⟩

/-! ## Commits in a run -/

lemma keepsOffsets_parts : Parts.Transactions (Advances step (KeepsTable .offsets)) cfg := by
  have hnot : Table.offsets ∉ (⟨[.transactions], false⟩ : Footprint).tables := by decide
  exact Within.transactions (keepsTable_within (by decide) (by decide) hnot) (keepsTable_closed _)
    (by decide)

/-- A commit finds a live transaction and goes through, or it moves no offset and writes no commit
marker. -/
lemma applyTxCommit_ends (hinv : WorldInv w) (identity : TransactionIdentity)
    (hconsumers : ∀ state, OpenFor w identity state →
      ∀ offset ∈ state.offsetCommits, transactionOffsetConsumer offset ≠ "")
    (hready : ∀ state, Live w identity state → CommitReady cfg w state) :
    Ends step (applyTxCommit cfg identity) w fun r w' trace =>
      ((∃ state, Live w identity state) ∧ ∃ result, r = .ok result) ∨
        (KeepsTable .offsets w w' ∧ ∀ call ∈ trace, AppendsOnly NoCommitMarker call) := by
  have hkeeps := Parts.loadOpenTransaction (keepsTable_closed _) (keepsOffsets_parts cfg) identity
  have hmakes := Parts.loadOpenTransaction (appendsOnly_closed _) (noCommitMarker_parts cfg) identity
  apply ends_bind
  apply ((loadOpenTransaction_ends .nothing cfg hinv.keyed identity).and
    ((ends_of_advances hkeeps w).and (ends_of_makes hmakes w))).mono
  rintro (err | state) w1 trace ⟨hload, hoffsets, hcalls⟩
  · exact .inr ⟨hoffsets, hcalls⟩
  · obtain ⟨hopen, hfresh, rfl⟩ := hload
    apply (commit_ready_ends cfg hinv hopen (hconsumers state hopen)
      (hready state ⟨hopen, hfresh⟩)).mono
    intro r w' _ hr
    exact .inl ⟨⟨state, hopen, hfresh⟩, hr⟩

/-- No consumer's offset has moved. -/
def SameOffsets (w w' : World) : Prop :=
  ∀ consumer tp, w'.metadata.loadConsumerOffset consumer tp = w.metadata.loadConsumerOffset consumer tp

lemma sameOffsets_of_keeps {w' : World} (h : KeepsTable .offsets w w') : SameOffsets w w' := by
  have hoffsets : w'.metadata.offsets = w.metadata.offsets := congrArg Prod.fst h
  have hstates : w'.metadata.offsetStates = w.metadata.offsetStates := congrArg Prod.snd h
  intro consumer tp
  unfold MemoryStore.loadConsumerOffset
  rw [hoffsets, hstates]

/-- What a client may expect of a transaction that is not committed. -/
structure CommitSafe (cfg : Config) (w : World) (identity : TransactionIdentity) : Prop where
  /-- A commit that fails has moved no offset, and no log has a commit marker. -/
  failed : ∀ err, (applyCommand cfg (.txCommit identity) w).1 = .error err →
    SameOffsets w (applyCommand cfg (.txCommit identity) w).2 ∧
      ∀ tp record, (applyCommand cfg (.txCommit identity) w).2.Holds tp record →
        ¬ CommitMarker identity.txID record
  /-- Nothing but a commit moves an offset. -/
  ended : ∀ cmd : Command, cmd.uncommitting = true → SameOffsets w (applyCommand cfg cmd w).2
  /-- A transaction that was aborted, or whose time is up, is not committed any more. -/
  refused : ∀ state, w.transaction identity.txID = some state →
    state.status = .aborted ∨ transactionExpired state (w.env.clock 0) = true →
    SameOffsets w (applyCommand cfg (.txCommit identity) w).2

lemma runActivities_command (cmds : List Command) (w : World) :
    runActivities cfg (cmds.map .command) w = applyCommands cfg cmds w :=
  foldl_map

lemma not_holds_fresh (env : Env) (tp : TopicPartition) (record : Record) :
    ¬ (fresh cfg env).Holds tp record := by
  rintro ⟨ref, log, hlog, hrecord⟩
  have hempty : log = {} := by
    cases ref with
    | main =>
      cases hlog
      rfl
    | shard id =>
      have hget := logAt_shard.mp hlog
      rw [get_fresh_shards] at hget
      split at hget
      · exact (Option.some.inj hget).symm
      · cases hget
  rw [hempty] at hrecord
  simp [recordsAt] at hrecord

/-- A run without commits writes no commit marker. -/
lemma noCommitMarker_run (env : Env) {cmds : List Command}
    (hcmds : ∀ cmd ∈ cmds, cmd.uncommitting = true) {record : Record}
    (h : (applyCommands cfg cmds (fresh cfg env)).Holds tp record) : NoCommitMarker tp record := by
  have htrace : ∀ (cmds : List Command) (w : World), (∀ cmd ∈ cmds, cmd.uncommitting = true) →
      ∀ call ∈ runTrace cfg (cmds.map .command) w, AppendsOnly NoCommitMarker call := by
    intro cmds
    induction cmds with
    | nil => exact fun w _ call hcall => by cases hcall
    | cons cmd rest ih =>
      intro w hall call hcall
      rcases mem_append.mp hcall with hcall | hcall
      · exact uncommitting_appends cfg (hall cmd mem_cons_self) w call hcall
      · exact ih _ (fun c hc => hall c (mem_cons_of_mem cmd hc)) call hcall
  have hmoves : ∀ activity ∈ cmds.map Activity.command, activity.footprint.moves = false := by
    intro activity hactivity
    obtain ⟨cmd, hcmd, rfl⟩ := mem_map.mp hactivity
    have hun := hcmds cmd hcmd
    cases cmd with
    | reassignPartition req => cases hun
    | _ => rfl
  rw [← runActivities_command] at h
  rcases holds_run hmoves (WorldInv.fresh cfg env) h with hfresh | happended
  · exact absurd hfresh (not_holds_fresh cfg env tp record)
  · obtain ⟨call, hcall, hin⟩ := mem_flatMap.mp happended
    exact htrace cmds _ hcmds call hcall _ hin

lemma consumer_of_staged {cfg : Config} {env : Env} {cmds : List Command} {txID : Nat}
    {state : TransactionState}
    (h : (applyCommands cfg cmds (fresh cfg env)).transaction txID = some state) :
    ∀ offset ∈ state.offsetCommits, transactionOffsetConsumer offset ≠ "" := by
  rw [← runActivities_command] at h
  refine stored_of_run (P := fun state => ∀ offset ∈ state.offsetCommits,
    transactionOffsetConsumer offset ≠ "") ?_ ?_ cfg env _ h
  · intro w w' b hb offset hoffset
    rw [hb.offsets] at hoffset
    cases hoffset
  · intro adds a b hstep ha
    cases hstep with
    | same | closed _ _ _ _ _ | published _ _ _ _ _ _ => exact ha
    | staged offset hadds updatedAtMS hopen hconsumer =>
      intro o ho
      rcases mem_append.mp (Parts.mem_compacted _ _ _ o ho) with ho | ho
      · exact ha o ho
      · rw [mem_singleton.mp ho]
        exact hconsumer

/-- **All or nothing.** In every state that begins, publishes, staged offsets, aborts and expiries
lead to, a commit of which every write is accepted leaves nothing behind if it fails; and aborts,
expiries and commits that come too late move no offset. -/
theorem commit_all_or_nothing (cfg : Config) (env : Env) (cmds : List Command)
    (hcmds : ∀ cmd ∈ cmds, cmd.uncommitting = true) (identity : TransactionIdentity)
    (hready : ∀ state, Live (applyCommands cfg cmds (World.fresh cfg env)) identity state →
      CommitReady cfg (applyCommands cfg cmds (World.fresh cfg env)) state) :
    CommitSafe cfg (applyCommands cfg cmds (World.fresh cfg env)) identity := by
  have hinv : WorldInv (applyCommands cfg cmds (fresh cfg env)) :=
    (WorldInv.fresh cfg env).applyCommands cfg cmds
  have hbefore : ∀ {tp record}, (applyCommands cfg cmds (fresh cfg env)).Holds tp record →
      NoCommitMarker tp record := noCommitMarker_run cfg env hcmds
  have hcommit := applyTxCommit_ends cfg hinv identity
    (fun state hopen => consumer_of_staged hopen.stored) hready
  generalize applyCommands cfg cmds (fresh cfg env) = w at hinv hbefore hcommit ⊢
  have hends : Ends step ((Command.txCommit identity).apply cfg) w fun r w' trace =>
      ((∃ state, Live w identity state) ∧ ∃ result, r = .ok result) ∨
        (KeepsTable .offsets w w' ∧ ∀ call ∈ trace, AppendsOnly NoCommitMarker call) := by
    apply ends_replyWith
    apply hcommit.mono
    rintro r w' trace (⟨hlive, result, rfl⟩ | h)
    · exact .inl ⟨hlive, _, rfl⟩
    · exact .inr h
  refine ⟨fun err herr => ?_, fun cmd hcmd => ?_, fun state hstate hover => ?_⟩
  · rcases hends with ⟨-, result, hok⟩ | ⟨hoffsets, hcalls⟩
    · rw [show (exec step ((Command.txCommit identity).apply cfg) w).1 = .error err from herr] at hok
      cases hok
    · refine ⟨sameOffsets_of_keeps hoffsets, fun tp record hrecord => ?_⟩
      have hsettled : ∀ call ∈ (Activity.command (.txCommit identity)).trace cfg w, call.1.settled :=
        settled_trace rfl w
      rcases holds_exec _ hinv hsettled hrecord with hold | hnew
      · exact hbefore hold identity.txID
      · obtain ⟨call, hcall, hin⟩ := List.mem_flatMap.mp hnew
        exact hcalls call hcall _ hin identity.txID
  · have hkeeps : KeepsTable .offsets w ((Activity.command cmd).run cfg w) := by
      refine keepsTable_activity (by decide) (by decide) ?_ cfg w
      cases cmd with
      | createTopic _ | txBegin _ | txPublish _ | txPublishBatch _ | txCommitOffset _ | txAbort _
      | txExpire _ => simp [Activity.footprint, Command.footprint]
      | _ => cases hcmd
    exact sameOffsets_of_keeps hkeeps
  · rcases hends with ⟨⟨found, hopen, hfresh⟩, -⟩ | ⟨hoffsets, -⟩
    · -- a live transaction is neither aborted nor expired
      rw [hopen.stored] at hstate
      cases hstate
      rcases hover with haborted | hexpired
      · rw [hopen.isOpen] at haborted
        cases haborted
      · rw [hfresh] at hexpired
        cases hexpired
    · exact sameOffsets_of_keeps hoffsets

/-- A transaction with one record and one staged offset. -/
def orderTransaction : List Command :=
  [.createTopic (newTopicConfig "orders"), .txBegin ⟨"billing", 0⟩,
    .txPublish ⟨⟨1, 1, 0⟩, 0, "orders", 0, { payload := [1] }⟩,
    .txCommitOffset ⟨⟨1, 1, 0⟩,
      { consumer := "billing", topic := "orders", partition := 0, nextOffset := 1 }⟩]

/-- A transaction of one record and one offset on a topic that is there: its commit does all or nothing. -/
theorem commit_all_or_nothing_order :
    CommitSafe {} (applyCommands {} orderTransaction (World.fresh {} stillEnv)) ⟨1, 1, 0⟩ := by
  apply commit_all_or_nothing {} stillEnv orderTransaction (by decide) ⟨1, 1, 0⟩
  rintro state ⟨hopen, -⟩
  have hstored : ((applyCommands {} orderTransaction (fresh {} stillEnv)).transaction 1).map
      (fun state => (state.offsetCommits.map TransactionOffsetCommit.topic, state.nextSequence,
        state.partitions)) = some (["orders"], 1, [⟨"orders", 0⟩]) := by decide +kernel
  have hload : ((applyCommands {} orderTransaction
      (fresh {} stillEnv)).log.loadTopicForPartition ⟨"orders", 0⟩).toOption.map
      TopicConfig.messageTTLMS = some none := by decide +kernel
  have hnext : (applyCommands {} orderTransaction (fresh {} stillEnv)).log.nextOffset
      ⟨"orders", 0⟩ + 1 ≤ maxUint64 + 1 := by decide +kernel
  rw [show (applyCommands {} orderTransaction (fresh {} stillEnv)).transaction 1 = some state
    from hopen.stored, Option.map_some, Option.some_inj, Prod.mk.injEq, Prod.mk.injEq] at hstored
  obtain ⟨htopics, hsequence, hpartitions⟩ := hstored
  refine ⟨fun offset hoffset => ?_, by rw [hsequence, hpartitions]; decide, fun tp htp => ?_⟩
  · have hmem : offset.topic ∈ ["orders"] := htopics ▸ List.mem_map_of_mem hoffset
    rw [List.mem_singleton.mp hmem]
    decide
  · rw [hpartitions] at htp
    rw [List.mem_singleton.mp htp, hpartitions]
    obtain ⟨topic, htopic, hnone⟩ := Option.map_eq_some_iff.mp hload
    refine ⟨_, topic, rfl, Except.toOption_eq_some.mp htopic, hnext, fun ttl httl => ?_⟩
    rw [hnone] at httl
    cases httl

/-- Staging takes an offset without a topic, and the commit then stops at it: the record is marked as
committed and one offset has moved, but the transaction is still open. -/
theorem commit_stops_halfway :
    let cmds := orderTransaction ++ [.txCommitOffset ⟨⟨1, 1, 0⟩,
      { consumer := "billing", topic := "", partition := 0, nextOffset := 1 }⟩]
    (∀ cmd ∈ cmds, cmd.uncommitting = true) ∧
      ¬ CommitSafe {} (applyCommands {} cmds (World.fresh {} stillEnv)) ⟨1, 1, 0⟩ := by
  intro cmds
  refine ⟨by decide, fun hsafe => ?_⟩
  have hfails : (applyCommand {} (.txCommit ⟨1, 1, 0⟩)
      (applyCommands {} cmds (fresh {} stillEnv))).1.isOk = false := by decide +kernel
  have hmoved : (applyCommand {} (.txCommit ⟨1, 1, 0⟩)
      (applyCommands {} cmds (fresh {} stillEnv))).2.metadata.loadConsumerOffset "billing"
        ⟨"orders", 0⟩ ≠ (applyCommands {} cmds (fresh {} stillEnv)).metadata.loadConsumerOffset
        "billing" ⟨"orders", 0⟩ := by decide +kernel
  cases hr : (applyCommand {} (.txCommit ⟨1, 1, 0⟩)
      (applyCommands {} cmds (fresh {} stillEnv))).1 with
  | ok reply =>
    rw [hr] at hfails
    cases hfails
  | error err => exact hmoved ((hsafe.failed err hr).1 "billing" ⟨"orders", 0⟩)

end Ech0.Broker
