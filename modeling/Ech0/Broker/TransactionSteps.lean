/-
  What the transaction commands do to the table of transactions.

  A command that carries an identity can change the transaction of that identity and no other, and
  only while it is open: it gets a batch or a staged offset more, or it is closed for good
  (`TransactionStep`). A begin adds one transaction after it has closed those of the same
  transactional id, and an expiry closes some. Everything else a broker does leaves the table as it
  is.
-/
import Ech0.Broker.Tables

set_option autoImplicit false

namespace Ech0.Broker

open Ech0.Lib Ech0.Store Prog

variable {w w' : World} {tp : TopicPartition} {identity : TransactionIdentity} (cfg : Config)

def World.transaction (w : World) (txID : Nat) : Option TransactionState :=
  w.metadata.transactions[txID]?

/-- The table of transactions is as it was. -/
abbrev SameTransactions : World → World → Prop := KeepsTable .transactions

lemma SameTransactions.transaction (h : SameTransactions w w') (txID : Nat) :
    w'.transaction txID = w.transaction txID := by
  unfold World.transaction
  rw [show w'.metadata.transactions = w.metadata.transactions from congrArg Prod.fst h]

lemma SameTransactions.next (h : SameTransactions w w') :
    w'.metadata.nextTxID = w.metadata.nextTxID :=
  congrArg Prod.snd h

lemma SameTransactions.trans {w1 w2 w3 : World} (h1 : SameTransactions w1 w2)
    (h2 : SameTransactions w2 w3) : SameTransactions w1 w3 :=
  Eq.trans h2 h1

/-- A call of the message runtime, which leaves the transactions alone. -/
lemma sameTransactions_runtime (op : Op) (hop : op.runtime) :
    Advances step SameTransactions _ (ask op) :=
  keepsTable_runtime (by decide) (by decide) op hop

/-! ## Steps of one transaction -/

/-- What a command adds to a transaction: nothing, a batch, or an offset to be committed with it. -/
inductive Adds where
  | nothing
  | batch
  | offset (offset : TransactionOffsetCommit)

variable {adds : Adds}

/-- The transaction that `advanceTransactionAfterPublish` saves. -/
def publishedState (state : TransactionState) (batch : TransactionPublishedBatch) (updatedAtMS : Nat) :
    TransactionState :=
  { state with
    nextSequence := batch.baseSequence + batch.recordCount
    partitions := appendTransactionPartition state.partitions ⟨batch.topic, batch.partition⟩
    publishedBatches := state.publishedBatches ++ [batch]
    updatedAtMS := updatedAtMS }

/-- What one command can make of a transaction, by what the command adds. -/
inductive TransactionStep (adds : Adds) (a : TransactionState) : TransactionState → Prop
  | same : TransactionStep adds a a
  | closed (status : TransactionStatus) (nextSequence updatedAtMS : Nat) (hopen : a.status = .open)
      (hstatus : status ≠ .open) :
      TransactionStep adds a
        { a with status := status, nextSequence := nextSequence, updatedAtMS := updatedAtMS }
  | published (hadds : adds = .batch) (batch : TransactionPublishedBatch) (updatedAtMS : Nat)
      (hopen : a.status = .open) (hbase : batch.baseSequence = a.nextSequence)
      (hcount : 0 < batch.recordCount) : TransactionStep adds a (publishedState a batch updatedAtMS)
  | staged (offset : TransactionOffsetCommit) (hadds : adds = .offset offset) (updatedAtMS : Nat)
      (hopen : a.status = .open) (hconsumer : transactionOffsetConsumer offset ≠ "") :
      TransactionStep adds a
        { a with
          offsetCommits := compactTransactionOffsetCommits (a.offsetCommits ++ [offset])
          updatedAtMS := updatedAtMS }

/-- What never changes of a transaction. -/
structure SameIdentity (a b : TransactionState) : Prop where
  txID : b.txID = a.txID
  transactionalID : b.transactionalID = a.transactionalID
  producerID : b.producerID = a.producerID
  producerEpoch : b.producerEpoch = a.producerEpoch

lemma SameIdentity.refl (a : TransactionState) : SameIdentity a a := ⟨rfl, rfl, rfl, rfl⟩

lemma TransactionStep.sameIdentity {a b : TransactionState} (h : TransactionStep adds a b) :
    SameIdentity a b := by
  cases h <;> exact ⟨rfl, rfl, rfl, rfl⟩

/-- A transaction that is not open stays as it is. -/
lemma TransactionStep.eq_of_not_open {a b : TransactionState} (h : TransactionStep adds a b)
    (hclosed : a.status ≠ .open) : b = a := by
  cases h with
  | same => rfl
  | closed _ _ _ hopen | published _ _ _ hopen | staged _ _ _ hopen => exact absurd hopen hclosed

/-! ## Saving a transaction -/

/-- The world with a transaction put into its table. -/
def World.withTransaction (w : World) (state : TransactionState) : World :=
  { w with metadata :=
      { w.metadata with transactions := w.metadata.transactions.insert state.txID state } }

@[simp] lemma World.transaction_withTransaction (w : World) (state : TransactionState) (txID : Nat) :
    (w.withTransaction state).transaction txID
      = if state.txID = txID then some state else w.transaction txID :=
  Map.get_insert _ _ _ _

variable {w : World} {state : TransactionState}

/-- A save under an id that was given out before. -/
lemma exec_saveTransaction (hid : state.txID ≠ 0) (hnext : state.txID < w.metadata.nextTxID) :
    exec step (onMeta (.saveTransaction state)) w = (.ok (), w.withTransaction state) := by
  have hsave : w.metadata.saveTransaction state
      = .ok { w.metadata with transactions := w.metadata.transactions.insert state.txID state } := by
    unfold MemoryStore.saveTransaction
    rw [if_neg hid, if_neg (Nat.not_le.mpr hnext)]
  change (((MetaOp.saveTransaction state).run w.metadata).1,
    { w with metadata := ((MetaOp.saveTransaction state).run w.metadata).2 }) = _
  simp only [MetaOp.run, hsave]
  rfl

/-- One transaction may have made a step; the others are as they were. -/
structure OneStep (adds : Adds) (txID : Nat) (w w' : World) : Prop where
  next : w'.metadata.nextTxID = w.metadata.nextTxID
  others : ∀ other, other ≠ txID → w'.transaction other = w.transaction other
  absent : w.transaction txID = none → w'.transaction txID = none
  present : ∀ a, w.transaction txID = some a →
    ∃ b, w'.transaction txID = some b ∧ TransactionStep adds a b

lemma OneStep.of_same (h : SameTransactions w w') (txID : Nat) : OneStep adds txID w w' where
  next := h.next
  others other _ := h.transaction other
  absent hnone := (h.transaction txID).trans hnone
  present a ha := ⟨a, (h.transaction txID).trans ha, .same⟩

/-- Some program that leaves the table alone, and then a save. -/
lemma OneStep.save {w1 : World} {a b : TransactionState} (hsame : SameTransactions w w1)
    (ha : w.transaction a.txID = some a) (hstep : TransactionStep adds a b) :
    OneStep adds a.txID w (w1.withTransaction b) := by
  have hid : b.txID = a.txID := hstep.sameIdentity.txID
  constructor
  · exact hsame.next
  · intro other hne
    rw [World.transaction_withTransaction, hid, if_neg (Ne.symm hne)]
    exact hsame.transaction other
  · intro hnone
    rw [hnone] at ha
    cases ha
  · intro a' ha'
    rw [ha] at ha'
    cases ha'
    exact ⟨b, by rw [World.transaction_withTransaction, if_pos hid], hstep⟩

lemma OneStep.after {w1 w2 : World} {txID : Nat} (hsame : SameTransactions w w1)
    (h : OneStep adds txID w1 w2) : OneStep adds txID w w2 where
  next := h.next.trans hsame.next
  others other hne := (h.others other hne).trans (hsame.transaction other)
  absent hnone := h.absent ((hsame.transaction txID).trans hnone)
  present a ha := h.present a ((hsame.transaction txID).trans ha)

/-- The transactions are stored under their ids, and the ids come from the counter. -/
structure Keyed (w : World) : Prop where
  next : w.metadata.nextTxID ≠ 0
  key : ∀ txID a, w.transaction txID = some a →
    a.txID = txID ∧ a.txID ≠ 0 ∧ a.txID < w.metadata.nextTxID

lemma WorldInv.keyed (h : WorldInv w) : Keyed w := by
  refine ⟨h.metadata.nextTxID.1, fun txID a ha => ?_⟩
  obtain ⟨hkey, hid⟩ := h.metadata.transactions txID a ha
  have hlt := h.metadata.nextTxID.2 txID a ha
  rw [← hkey] at hlt
  exact ⟨hkey, hid, hlt⟩

/-! ## Closing a transaction -/

lemma sameTransactions_nowMS : Advances step SameTransactions _ nowMS :=
  keepsTable_perform .nowMS (by simp [Op.writes])

lemma sameTransactions_quiet (op : Op) (hop : op.quiet) :
    Advances step SameTransactions _ (ask op) :=
  sameTransactions_runtime op (Op.runtime_of_quiet hop)

lemma sameTransactions_publishRecord (tp : TopicPartition) (record : RecordAppend) :
    Advances step SameTransactions _ (MessageRuntime.publishRecord cfg tp record) :=
  Runtime.publishRecord sameTransactions_quiet (keepsTable_closed _) fun ref =>
    sameTransactions_runtime (.log ref _) trivial

lemma sameTransactions_markers (state : TransactionState) (controlType : TransactionControlType) :
    Advances step SameTransactions _ (appendTransactionControlMarkers cfg state controlType) :=
  Parts.appendTransactionControlMarkers (keepsTable_closed _) fun _ _ _ =>
    sameTransactions_publishRecord cfg _ _

/-- The markers move the sequence of the transaction on and change nothing else of it. -/
lemma appendTransactionControlMarkers_returns {cfg : Config} {state after : TransactionState}
    {controlType : TransactionControlType}
    (h : (appendTransactionControlMarkers cfg state controlType).Returns after) :
    ∃ nextSequence, after = { state with nextSequence := nextSequence } := by
  unfold appendTransactionControlMarkers at h
  split at h
  · exact h.elim
  · obtain ⟨nextSequence, -, h⟩ := returns_bind h
    exact ⟨nextSequence, (returns_pure h).symm⟩

/-- Markers and then a save that closes the transaction: what commit, abort and expiry share. -/
lemma close_ends (adds : Adds) (hid : state.txID ≠ 0) (hnext : state.txID < w.metadata.nextTxID)
    (hstored : w.transaction state.txID = some state) (hopen : state.status = .open)
    {status : TransactionStatus} (hstatus : status ≠ .open) {nextSequence updatedAtMS : Nat}
    (context : String) :
    Ends step (wrapBroker context (onMeta (.saveTransaction
        { state with
          status := status, nextSequence := nextSequence, updatedAtMS := updatedAtMS }))) w
      fun r w' _ => r = .ok () ∧ OneStep adds state.txID w w' ∧
        ∃ b, w'.transaction state.txID = some b ∧ b.status = status := by
  apply ends_mapError
  have hstep : TransactionStep adds state
      { state with status := status, nextSequence := nextSequence, updatedAtMS := updatedAtMS } :=
    .closed status nextSequence updatedAtMS hopen hstatus
  unfold Ends
  rw [exec_saveTransaction (by exact hid) (by exact hnext)]
  refine ⟨rfl, OneStep.save rfl hstored hstep,
    { state with status := status, nextSequence := nextSequence, updatedAtMS := updatedAtMS }, ?_, rfl⟩
  rw [World.transaction_withTransaction, if_pos rfl]

/-- An abort closes the transaction if it ends well, and otherwise leaves it as it was. -/
lemma abortTransactionState_ends (adds : Adds) (cfg : Config) (hinv : Keyed w)
    (hstored : w.transaction state.txID = some state) (nowMS : Nat) (operation : String) :
    Ends step (abortTransactionState cfg state nowMS operation) w fun r w' _ =>
      OneStep adds state.txID w w' ∧
        (r = .ok () → ∃ b, w'.transaction state.txID = some b ∧ b.status ≠ .open) := by
  obtain ⟨-, hid, hnext⟩ := hinv.key _ _ hstored
  unfold abortTransactionState
  split
  · next hclosed => exact ⟨OneStep.of_same rfl _, fun _ => ⟨state, hstored, hclosed⟩⟩
  · next hopen =>
    rw [not_not] at hopen
    apply ends_bind_advances (sameTransactions_markers cfg state .abort)
    · intro err w' hsame
      exact ⟨OneStep.of_same hsame _, nofun⟩
    · intro after w1 hreturns hsame
      obtain ⟨nextSequence, rfl⟩ := appendTransactionControlMarkers_returns hreturns
      rw [← hsame.next] at hnext
      rw [← hsame.transaction] at hstored
      have haborted : TransactionStatus.aborted ≠ .open := by decide
      apply (close_ends adds hid hnext hstored hopen haborted operation).mono
      rintro r w2 - ⟨-, hstep, b, hb, hstatus⟩
      refine ⟨hstep.after hsame, fun _ => ⟨b, hb, ?_⟩⟩
      rw [hstatus]
      decide

/-! ## Finding the transaction of an identity -/

/-- The transaction that the identity names, while it is open. -/
structure OpenFor (w : World) (identity : TransactionIdentity) (state : TransactionState) : Prop where
  stored : w.transaction identity.txID = some state
  producerID : state.producerID = identity.producerID
  producerEpoch : state.producerEpoch = identity.producerEpoch
  isOpen : state.status = .open

/-- The transaction of the identity, if it is open and its time is not up. -/
def Live (w : World) (identity : TransactionIdentity) (state : TransactionState) : Prop :=
  OpenFor w identity state ∧ transactionExpired state (w.env.clock 0) = false

lemma World.sameTransactions_tick (w : World) : SameTransactions w w.tick := rfl

lemma Keyed.tick (h : Keyed w) : Keyed w.tick := ⟨h.next, h.key⟩

lemma exec_loadTransaction (w : World) (txID : Nat) :
    exec step (wrapBroker "load transaction" (onMeta (.loadTransaction txID))) w
      = (.ok (w.transaction txID), w) := rfl

/-- An identity finds its transaction if that is open and has not expired. If it is open but has
expired it is aborted, and in the other cases nothing happens. -/
lemma loadOpenTransaction_ends (adds : Adds) (cfg : Config) (hinv : Keyed w)
    (identity : TransactionIdentity) :
    Ends step (loadOpenTransaction cfg identity) w fun r w' _ =>
      match r with
      | .ok state => OpenFor w identity state ∧ transactionExpired state (w.env.clock 0) = false ∧
          w' = w.tick
      | .error _ => OneStep adds identity.txID w w' ∧ ((∀ state, ¬ OpenFor w identity state) → w' = w) := by
  have hrefused : OneStep adds identity.txID w w ∧ ((∀ state, ¬ OpenFor w identity state) → w = w) :=
    ⟨OneStep.of_same rfl _, fun _ => rfl⟩
  unfold loadOpenTransaction
  apply ends_bind_ok (exec_loadTransaction w identity.txID)
  cases hstored : w.transaction identity.txID with
  | none => exact hrefused
  | some state =>
    dsimp only
    split
    · exact hrefused
    · next hmatch =>
      rw [not_or, not_not, not_not] at hmatch
      split
      · exact hrefused
      · next hopen =>
        rw [not_not] at hopen
        have hfor : OpenFor w identity state := ⟨hstored, hmatch.1, hmatch.2, hopen⟩
        apply ends_bind_ok (exec_nowMS w)
        split
        · next hexpired =>
          obtain ⟨hkey, -, -⟩ := hinv.key _ _ hstored
          have habort := abortTransactionState_ends adds cfg hinv.tick
            (by rw [hkey]; exact hstored) (w.env.clock 0) "expire transaction"
          apply ends_bind
          apply habort.mono
          rintro r w' calls ⟨hstep, -⟩
          rw [hkey] at hstep
          have hafter := hstep.after w.sameTransactions_tick
          cases r with
          | error err | ok done => exact ⟨hafter, fun hno => absurd hfor (hno state)⟩
        · next hfresh =>
          rw [Bool.not_eq_true] at hfresh
          exact ⟨hfor, hfresh, rfl⟩

/-! ## Publishing and staging -/

lemma transactionRecordCount_eq_ok {records count : Nat} :
    transactionRecordCount records = .ok count ↔ records ≠ 0 ∧ records = count := by
  unfold transactionRecordCount
  split <;> simp [*]

/-- A transaction is ready for a publish if it is the identity's, and the publish either repeats one
of its batches or comes next. -/
lemma loadWritableTransaction_ends (adds : Adds) (cfg : Config) (hinv : Keyed w)
    (identity : TransactionIdentity) (tp : TopicPartition) (sequence records : Nat) :
    Ends step (loadWritableTransaction cfg identity tp sequence records) w fun r w' _ =>
      match r with
      | .ok (state, duplicate) => OpenFor w identity state ∧ w' = w.tick ∧
          findPublishedBatch tp sequence records state.publishedBatches = .ok duplicate ∧
          (duplicate = none → sequence = state.nextSequence)
      | .error _ => OneStep adds identity.txID w w' ∧ ((∀ state, ¬ OpenFor w identity state) → w' = w) := by
  unfold loadWritableTransaction
  apply ends_bind
  apply (loadOpenTransaction_ends adds cfg hinv identity).mono
  intro r w1 calls hload
  cases r with
  | error err => exact hload
  | ok state =>
    obtain ⟨hopen, -, rfl⟩ := hload
    have hrefused : OneStep adds identity.txID w w.tick ∧
        ((∀ state, ¬ OpenFor w identity state) → w.tick = w) :=
      ⟨OneStep.of_same w.sameTransactions_tick _, fun hno => absurd hopen (hno state)⟩
    apply ends_bind_ofExcept fun err _ => hrefused
    intro count hcount
    obtain ⟨-, rfl⟩ := transactionRecordCount_eq_ok.mp hcount
    apply ends_bind_ofExcept fun err _ => hrefused
    intro duplicate hfind
    cases duplicate with
    | some batch => exact ⟨hopen, rfl, hfind, nofun⟩
    | none =>
      dsimp only
      split
      · exact hrefused
      · next hsequence =>
        rw [not_not] at hsequence
        exact ⟨hopen, rfl, hfind, fun _ => hsequence⟩

/-- What a batch says of the records it was made from. -/
lemma newPublishedBatch_ok {baseSequence : Nat} {records : List Record}
    {batch : TransactionPublishedBatch} (h : newPublishedBatch tp baseSequence records = .ok batch) :
    (⟨batch.topic, batch.partition⟩ : TopicPartition) = tp ∧ batch.baseSequence = baseSequence ∧
      batch.recordCount = records.length ∧ 0 < records.length ∧
      records.head?.map Record.offset = some batch.baseOffset ∧
      records.getLast?.map Record.offset = some batch.lastOffset := by
  unfold newPublishedBatch at h
  split at h
  · next first last hfirst hlast =>
    obtain ⟨_, -, h⟩ := Except.bind_eq_ok.mp h
    obtain ⟨count, hcount, h⟩ := Except.bind_eq_ok.mp h
    obtain ⟨hne, rfl⟩ := transactionRecordCount_eq_ok.mp hcount
    split at h
    · cases h
    · cases h
      exact ⟨rfl, rfl, rfl, Nat.pos_of_ne_zero hne, by rw [hfirst]; rfl, by rw [hlast]; rfl⟩
  · cases h

lemma sequenceAfterCount_ok {base count next : Nat} (h : sequenceAfterCount base count = .ok next) :
    next = base + count := by
  unfold sequenceAfterCount at h
  split at h
  · cases h
  · exact (Except.ok.inj h).symm

/-- The transaction gets the batch, and its sequence moves on behind it. -/
lemma advanceTransactionAfterPublish_ends (hid : state.txID ≠ 0)
    (hnext : state.txID < w.metadata.nextTxID) (hstored : w.transaction state.txID = some state)
    (hopen : state.status = .open) {batch : TransactionPublishedBatch}
    (hbase : batch.baseSequence = state.nextSequence) (hcount : 0 < batch.recordCount) :
    Ends step (advanceTransactionAfterPublish state batch) w fun _ w' _ =>
      OneStep .batch state.txID w w' := by
  unfold advanceTransactionAfterPublish
  apply ends_bind_ofExcept
  · intro err _
    exact OneStep.of_same rfl _
  · intro nextSequence hsequence
    obtain rfl := sequenceAfterCount_ok hsequence
    apply ends_bind_ok (exec_nowMS w)
    apply ends_mapError
    have hstep := TransactionStep.published rfl batch (w.env.clock 0) hopen hbase hcount
    unfold Ends
    rw [exec_saveTransaction (by exact hid) (by exact hnext)]
    exact OneStep.save w.sameTransactions_tick hstored hstep

/-- What follows the load of a transaction and leaves the table alone. -/
lemma OpenFor.after {w1 : World} (h : OpenFor w identity state) (hinv : Keyed w)
    (hsame : SameTransactions w w1) :
    state.txID = identity.txID ∧ state.txID ≠ 0 ∧ state.txID < w1.metadata.nextTxID ∧
      w1.transaction state.txID = some state := by
  obtain ⟨hkey, hid, hlt⟩ := hinv.key _ _ h.stored
  refine ⟨hkey, hid, by rw [hsame.next]; exact hlt, ?_⟩
  rw [hsame.transaction, hkey]
  exact h.stored

/-! ## The commands that carry an identity -/

/-- What a command does that carries an identity: at most one step of that transaction, and nothing
at all without an open transaction of that identity. -/
structure Served {α : Type} (adds : Adds) (identity : TransactionIdentity) (w : World) (r : Except Error α)
    (w' : World) : Prop where
  step : OneStep adds identity.txID w w'
  refused : (∀ state, ¬ OpenFor w identity state) → w' = w ∧ ∃ err, r = .error err

section
variable {α : Type} {w : World} {identity : TransactionIdentity} {state : TransactionState}

lemma OpenFor.served (h : OpenFor w identity state) {r : Except Error α}
    (hstep : OneStep adds identity.txID w w') : Served adds identity w r w' :=
  ⟨hstep, fun hno => absurd h (hno state)⟩

/-- As long as the table was left alone. -/
lemma OpenFor.served_same (h : OpenFor w identity state) {r : Except Error α}
    (hsame : SameTransactions w.tick w') : Served adds identity w r w' :=
  h.served (OneStep.of_same (w.sameTransactions_tick.trans hsame) _)

lemma Served.of_error {β : Type} {err : Error} (hstep : OneStep adds identity.txID w w')
    (hnone : (∀ state, ¬ OpenFor w identity state) → w' = w) :
    Served adds identity w (.error err : Except Error β) w' :=
  ⟨hstep, fun hno => ⟨hnone hno, err, rfl⟩⟩

/-- After the transaction was loaded: programs that leave the table alone, and at the end one that
makes a step. -/
lemma OpenFor.served_after (h : OpenFor w identity state) (hinv : Keyed w) {w1 w2 : World}
    (hsame : SameTransactions w w1) (hstep : OneStep adds state.txID w1 w2) {r : Except Error α} :
    Served adds identity w r w2 := by
  obtain ⟨hkey, -, -, -⟩ := h.after hinv hsame
  rw [hkey] at hstep
  exact h.served (hstep.after hsame)

end

lemma sameTransactions_loadTopicConfig (name : String) :
    Advances step SameTransactions _ (onMeta (.loadTopicConfig name)) :=
  keepsTable_perform _ (by simp [Op.writes, MetaOp.writes])

/-- What a publish does with a transaction that is ready for it: the records are appended, and the
transaction gets their batch. -/
lemma OpenFor.publish_served {α β : Type} {w1 : World} (hopen : OpenFor w identity state)
    (hinv : Keyed w) (h1 : SameTransactions w w1) {sequence : Nat}
    (hsequence : sequence = state.nextSequence) {p : Handling α}
    (hp : Advances step SameTransactions α p) (records : α → List Record)
    (result : α → Except Error β) : Ends step (do
        let appended ← p
        let batch ← Prog.ofExcept (newPublishedBatch tp sequence (records appended))
        advanceTransactionAfterPublish state batch
        Prog.ofExcept (result appended) : Handling β) w1 fun r w' _ => Served .batch identity w r w' := by
  apply ends_bind_advances hp
  · intro err w' h
    exact hopen.served (OneStep.of_same (h1.trans h) _)
  · intro appended w2 _ h2
    have h12 : SameTransactions w w2 := h1.trans h2
    apply ends_bind_ofExcept
    · intro err _
      exact hopen.served (OneStep.of_same h12 _)
    · intro batch hbatch
      obtain ⟨-, hbase, hcount, hpos, -⟩ := newPublishedBatch_ok hbatch
      obtain ⟨-, hid, hnext, hstored⟩ := hopen.after hinv h12
      apply ends_bind
      apply (advanceTransactionAfterPublish_ends hid hnext hstored hopen.isOpen
        (hbase.trans hsequence) (by rw [hcount]; exact hpos)).mono
      intro r w3 _ hstep
      cases r with
      | error err => exact hopen.served_after hinv h12 hstep
      | ok done => exact hopen.served_after hinv h12 hstep

lemma sameTransactions_readPublishedBatch (identity : TransactionIdentity)
    (batch : TransactionPublishedBatch) :
    Advances step SameTransactions _ (readPublishedBatch cfg identity batch) := by
  have hC : Closed (Advances (I := calls) (ε := Error) step SameTransactions) :=
    keepsTable_closed _
  exact hC.bind (hC.mapError _ (Runtime.readFrom sameTransactions_quiet hC _ _ _)) fun _ =>
    hC.bind (hC.ofExcept _) fun _ => hC.pure _

/-- What both publishes do: a batch that is known is read back, another is published. -/
lemma writable_served {β : Type} (cfg : Config) (hinv : Keyed w) (identity : TransactionIdentity)
    {sequence count : Nat} {f : TransactionState × Option TransactionPublishedBatch → Handling β}
    (hknown : ∀ state batch, ∃ answer, f (state, some batch) = readPublishedBatch cfg identity batch >>= answer ∧
      ∀ records w', (exec step (answer records) w').2 = w')
    (hfresh : ∀ state, OpenFor w identity state → sequence = state.nextSequence →
      Ends step (f (state, none)) w.tick fun r w' _ => Served .batch identity w r w') :
    Ends step (loadWritableTransaction cfg identity tp sequence count >>= f) w fun r w' _ =>
      Served .batch identity w r w' := by
  apply ends_bind
  apply (loadWritableTransaction_ends .batch cfg hinv identity tp sequence count).mono
  rintro (err | ⟨state, duplicate⟩) w1 - hload
  · exact Served.of_error hload.1 hload.2
  · obtain ⟨hopen, rfl, -, hsequence⟩ := hload
    cases duplicate with
    | some batch =>
      obtain ⟨answer, heq, hanswer⟩ := hknown state batch
      show Ends step (f (state, some batch)) _ _
      rw [heq]
      apply ends_bind_advances (sameTransactions_readPublishedBatch cfg identity batch)
      · intro err w' h
        exact hopen.served_same h
      · intro records w' _ h
        exact hopen.served_same ((hanswer records w').symm ▸ h)
    | none => exact hfresh state hopen (hsequence rfl)

lemma applyTxPublish_served (hinv : Keyed w) (req : TxPublishCommand) :
    Ends step (applyTxPublish cfg req) w fun r w' _ => Served .batch req.identity w r w' := by
  refine writable_served cfg hinv req.identity (fun state batch => ⟨_, rfl, fun records w' => ?_⟩)
    fun state hopen hsequence => ?_
  · cases records <;> rfl
  · apply ends_bind_advances (R := SameTransactions)
      (Parts.normalizeRecordPriorityForTopic (keepsTable_closed _) (sameTransactions_loadTopicConfig _))
    · intro err w' h
      exact hopen.served_same h
    · intro record w1 _ h1
      exact hopen.publish_served hinv (w.sameTransactions_tick.trans h1) hsequence
        ((keepsTable_closed _).mapError _ (sameTransactions_publishRecord cfg _ _))
        (fun appended => [appended])
        fun appended => .ok (transactionPublishResult req.identity.txID req.partition appended)

lemma applyTxPublishBatch_served (hinv : Keyed w) (req : TxPublishBatchCommand) :
    Ends step (applyTxPublishBatch cfg req) w fun r w' _ => Served .batch req.identity w r w' := by
  have hfail : ∀ {err : Error}, Served .batch req.identity w
      (.error err : Except Error TransactionPublishBatchResult) w :=
    Served.of_error (OneStep.of_same rfl _) fun _ => rfl
  unfold applyTxPublishBatch
  split
  · exact hfail
  · apply ends_bind_ofExcept fun err _ => hfail
    intro _ _
    refine writable_served cfg hinv req.identity (fun state batch => ⟨_, rfl, fun _ _ => rfl⟩)
      fun state hopen hsequence => ?_
    apply ends_bind_advances (R := SameTransactions)
      (Parts.normalizeRecordsPriorityForTopic (keepsTable_closed _) (sameTransactions_loadTopicConfig _))
    · intro err w' h
      exact hopen.served_same h
    · intro normalized w1 _ h1
      apply ends_bind_ofExcept
      · intro err _
        exact hopen.served_same h1
      · intro records _
        exact hopen.publish_served hinv (w.sameTransactions_tick.trans h1) hsequence
          ((keepsTable_closed _).mapError _
            (Runtime.publishBatchRecords sameTransactions_quiet (keepsTable_closed _) fun ref =>
              sameTransactions_runtime (.log ref _) trivial))
          (fun appended => appended)
          fun appended => transactionPublishBatchResult req.identity.txID req.partition appended

/-- A handler that loads the open transaction first. -/
lemma ends_loadOpenTransaction {α : Type} {f : TransactionState → Handling α} (cfg : Config)
    (hinv : Keyed w) (hopen : ∀ state, OpenFor w identity state →
      Ends step (f state) w.tick fun r w' _ => Served adds identity w r w') :
    Ends step (loadOpenTransaction cfg identity >>= f) w fun r w' _ =>
      Served adds identity w r w' := by
  apply ends_bind
  apply (loadOpenTransaction_ends adds cfg hinv identity).mono
  rintro (err | state) w1 - hload
  · exact Served.of_error hload.1 hload.2
  · obtain ⟨hstate, -, rfl⟩ := hload
    exact hopen state hstate

lemma applyTxCommitOffset_served (hinv : Keyed w) (req : TxCommitOffsetCommand) :
    Ends step (applyTxCommitOffset cfg req) w fun r w' _ =>
      Served (.offset req.offset) req.identity w r w' := by
  refine ends_loadOpenTransaction cfg hinv fun state hopen => ?_
  split
  · exact hopen.served_same rfl
  · next hconsumer =>
    apply ends_bind_ok (exec_nowMS w.tick)
    have htick : SameTransactions w w.tick.tick :=
      w.sameTransactions_tick.trans w.tick.sameTransactions_tick
    obtain ⟨-, hid, hnext, hstored⟩ := hopen.after hinv htick
    have hsave := exec_mapError step (Error.wrap "save transaction offset commit")
      (onMeta (.saveTransaction
        { state with
          offsetCommits := compactTransactionOffsetCommits (state.offsetCommits ++ [req.offset])
          updatedAtMS := w.tick.env.clock 0 })) w.tick.tick
    rw [exec_saveTransaction (by exact hid) (by exact hnext)] at hsave
    apply ends_bind_ok hsave
    exact hopen.served_after hinv htick
      (OneStep.save rfl hstored (.staged req.offset rfl _ hopen.isOpen hconsumer))

lemma OpenFor.close_served {cfg : Config} (hopen : OpenFor w identity state) (hinv : Keyed w)
    (controlType : TransactionControlType) {between : TransactionState → Handling Unit}
    (hbetween : ∀ after, Advances step SameTransactions _ (between after))
    {status : TransactionStatus} (hstatus : status ≠ .open) (context : String) :
    Ends step (closeTransaction cfg controlType status context between state) w.tick fun r w' _ =>
      Served adds identity w r w' := by
  apply ends_bind_advances (sameTransactions_markers cfg state controlType)
  · intro err w' h
    exact hopen.served_same h
  · intro after w1 hreturns h1
    obtain ⟨nextSequence, rfl⟩ := appendTransactionControlMarkers_returns hreturns
    apply ends_bind_advances (hbetween _)
    · intro err w' h
      exact hopen.served_same (h1.trans h)
    · intro _ w2 _ h2
      apply ends_bind_ok (exec_nowMS w2)
      have h12 : SameTransactions w w2.tick := w.sameTransactions_tick.trans (h1.trans h2)
      obtain ⟨-, hid, hnext, hstored⟩ := hopen.after hinv h12
      apply ends_bind
      apply (close_ends adds hid hnext hstored hopen.isOpen hstatus context).mono
      rintro r w3 - ⟨rfl, hstep, -⟩
      exact hopen.served_after hinv h12 hstep

lemma sameTransactions_commitTransactionOffset (offset : TransactionOffsetCommit) :
    Advances step SameTransactions _ (commitTransactionOffset offset) := by
  have hC : Closed (Advances (I := calls) (ε := Error) step SameTransactions) :=
    keepsTable_closed _
  exact hC.bind sameTransactions_nowMS fun now => hC.mapError _
    (keepsTable_perform (.metadata (.saveConsumerOffsetState _)) (by simp [Op.writes, MetaOp.writes]))

lemma applyTxCommit_served (hinv : Keyed w) (identity : TransactionIdentity) :
    Ends step (applyTxCommit cfg identity) w fun r w' _ => Served adds identity w r w' := by
  refine ends_loadOpenTransaction cfg hinv fun state hopen => ?_
  exact hopen.close_served hinv .commit
    (fun after => (keepsTable_closed _).forEach after.offsetCommits fun offset _ =>
      sameTransactions_commitTransactionOffset offset) (by decide) "commit transaction"

lemma applyTxAbort_served (hinv : Keyed w) (identity : TransactionIdentity) :
    Ends step (applyTxAbort cfg identity) w fun r w' _ => Served adds identity w r w' := by
  refine ends_loadOpenTransaction cfg hinv fun state hopen => ?_
  exact hopen.close_served hinv .abort (fun _ => (keepsTable_closed _).pure ()) (by decide)
    "abort transaction"

end Ech0.Broker
