/-
  Transactions over whole runs.

  Whatever a broker does moves the table of transactions in one way (`Moved`): each transaction makes
  at most one step, and a begin adds one, after it has closed those of the same transactional id. The
  invariant `TransactionsInv` is kept by such a move, so it holds along every run from an empty table:
  of the transactions of one transactional id only the last can be open, their epochs go up, and they
  have one producer, which no other transactional id has.
-/
import Ech0.Broker.Appends
import Ech0.Broker.TransactionSteps

set_option autoImplicit false

namespace Ech0.Broker

open Ech0.Lib Ech0.Store Prog List World

variable (cfg : Config) {cmd : Command} {txID : Nat}

/-! ## Moves of the table -/

variable {adds : Adds}

/-- A transaction that a later one of the same transactional id has fenced. -/
structure Precedes (a b : TransactionState) : Prop where
  closed : a.status ≠ .open
  epoch : a.producerEpoch < b.producerEpoch
  producer : a.producerID = b.producerID

/-- The transaction that a begin adds. -/
structure Born (w w' : World) (b : TransactionState) : Prop where
  stored : w'.transaction b.txID = some b
  fresh : w.metadata.nextTxID ≤ b.txID
  bound : b.txID < w'.metadata.nextTxID
  isOpen : b.status = .open
  deadline : b.expiresAtMS = addUint64 b.createdAtMS b.timeoutMS
  sequence : b.nextSequence = 0
  partitions : b.partitions = []
  batches : b.publishedBatches = []
  offsets : b.offsetCommits = []
  history : ∀ txID a, w'.transaction txID = some a → a.transactionalID = b.transactionalID →
    txID ≠ b.txID → Precedes a b
  producer : b.producerID = b.txID ∨ ∃ txID a, w'.transaction txID = some a ∧ txID ≠ b.txID ∧
    a.transactionalID = b.transactionalID

/-- What an activity does to the table: each transaction makes at most one step, and a transaction
that was not there is the one that was begun. -/
structure Moved (adds : Adds) (w w' : World) (born : Option TransactionState) : Prop where
  next : w.metadata.nextTxID ≤ w'.metadata.nextTxID
  kept : ∀ txID a, w.transaction txID = some a →
    ∃ b, w'.transaction txID = some b ∧ TransactionStep adds a b
  absent : ∀ txID b, w.transaction txID = none → w'.transaction txID = some b → born = some b
  born : ∀ b, born = some b → Born w w' b

variable {w w' : World}

lemma OneStep.moved (h : OneStep adds txID w w') : Moved adds w w' none where
  next := h.next.ge
  kept other a ha := by
    by_cases hother : other = txID
    · subst hother
      exact h.present a ha
    · exact ⟨a, (h.others other hother).trans ha, .same⟩
  absent other b hnone hb := by
    by_cases hother : other = txID
    · subst hother
      rw [h.absent hnone] at hb
      cases hb
    · rw [h.others other hother, hnone] at hb
      cases hb
  born b hb := by cases hb

lemma SameTransactions.moved (h : SameTransactions w w') : Moved adds w w' none :=
  (OneStep.of_same h 0).moved

/-- In front of a move, the transactions as they were and perhaps some ids taken. -/
lemma Moved.after {w w1 w' : World} (h : Moved adds w1 w' none)
    (hsame : ∀ txID, w1.transaction txID = w.transaction txID)
    (hnext : w.metadata.nextTxID ≤ w1.metadata.nextTxID) : Moved adds w w' none where
  next := hnext.trans h.next
  kept txID a ha := h.kept txID a ((hsame txID).trans ha)
  absent txID b hnone := h.absent txID b ((hsame txID).trans hnone)
  born b hb := by cases hb

/-! ## The invariant -/

structure TransactionsInv (w : World) : Prop where
  keyed : Keyed w
  order : ∀ a b, w.transaction a.txID = some a → w.transaction b.txID = some b →
    a.transactionalID = b.transactionalID → a.txID < b.txID → Precedes a b
  producer : ∀ txID a, w.transaction txID = some a →
    ∃ b, w.transaction a.producerID = some b ∧ b.transactionalID = a.transactionalID

variable {born : Option TransactionState}

/-- A transaction of the new table was there before, or it is the one begun. -/
lemma Moved.before (h : Moved adds w w' born) {b : TransactionState}
    (hb : w'.transaction txID = some b) :
    (∃ a, w.transaction txID = some a ∧ TransactionStep adds a b) ∨
      (w.transaction txID = none ∧ Born w w' b) := by
  cases hbefore : w.transaction txID with
  | none => exact .inr ⟨rfl, h.born b (h.absent txID b hbefore hb)⟩
  | some a =>
    obtain ⟨b', hb', hstep⟩ := h.kept txID a hbefore
    rw [hb] at hb'
    cases hb'
    exact .inl ⟨a, rfl, hstep⟩

lemma Moved.keyed (h : Moved adds w w' born) (hinv : Keyed w) : Keyed w' := by
  constructor
  · have hnext := h.next
    have hpos := hinv.next
    omega
  · intro txID b hb
    rcases h.before hb with ⟨a, ha, hstep⟩ | ⟨hnone, hborn⟩
    · obtain ⟨hkey, hid, hlt⟩ := hinv.key txID a ha
      rw [hstep.sameIdentity.txID]
      exact ⟨hkey, hid, lt_of_lt_of_le hlt h.next⟩
    · -- the transaction begun is stored under its own id and nowhere else
      have hpos := hinv.next
      have hfresh := hborn.fresh
      refine ⟨?_, by omega, hborn.bound⟩
      by_contra hne
      rcases h.before hborn.stored with ⟨a, ha, -⟩ | ⟨hnone', -⟩
      · obtain ⟨hkey, -, hlt⟩ := hinv.key _ a ha
        omega
      · have hsame := hborn.history txID b hb rfl (Ne.symm hne)
        exact hsame.closed hborn.isOpen

lemma Moved.inv (h : Moved adds w w' born) (hinv : TransactionsInv w) : TransactionsInv w' where
  keyed := h.keyed hinv.keyed
  order a' b' ha' hb' hid hlt := by
    rcases h.before ha' with ⟨a, ha, hstepA⟩ | ⟨-, hborn⟩
    · rcases h.before hb' with ⟨b, hb, hstepB⟩ | ⟨-, hborn⟩
      · have hA := hstepA.sameIdentity
        have hB := hstepB.sameIdentity
        rw [hA.txID] at ha hlt
        rw [hB.txID] at hb hlt
        have hprecedes := hinv.order a b ha hb
          (by rw [← hA.transactionalID, ← hB.transactionalID]; exact hid) hlt
        -- the earlier one is closed, so it made no step
        rw [hstepA.eq_of_not_open hprecedes.closed]
        exact ⟨hprecedes.closed, by rw [hB.producerEpoch]; exact hprecedes.epoch,
          by rw [hB.producerID]; exact hprecedes.producer⟩
      · exact hborn.history a'.txID a' ha' hid (Nat.ne_of_lt hlt)
    · rcases h.before hb' with ⟨b, hb, -⟩ | ⟨-, hborn'⟩
      · have hold := (hinv.keyed.key _ b hb)
        have hfresh := hborn.fresh
        omega
      · have hsame := hborn'.history a'.txID a' ha' hid (Nat.ne_of_lt hlt)
        exact absurd hborn.isOpen hsame.closed
  producer txID a' ha' := by
    have hold : ∀ txID a, w.transaction txID = some a →
        ∃ b, w'.transaction a.producerID = some b ∧ b.transactionalID = a.transactionalID := by
      intro txID a ha
      obtain ⟨b, hb, hid⟩ := hinv.producer txID a ha
      obtain ⟨b', hb', hstep⟩ := h.kept _ b hb
      exact ⟨b', hb', hstep.sameIdentity.transactionalID.trans hid⟩
    rcases h.before ha' with ⟨a, ha, hstep⟩ | ⟨-, hborn⟩
    · rw [hstep.sameIdentity.producerID, hstep.sameIdentity.transactionalID]
      exact hold txID a ha
    · rcases hborn.producer with hself | ⟨other, a, ha, hne, hid⟩
      · rw [hself]
        exact ⟨a', hborn.stored, rfl⟩
      · -- the history has the producer already
        have hprecedes := hborn.history other a ha hid hne
        rcases h.before ha with ⟨a0, ha0, hstep⟩ | ⟨-, hborn'⟩
        · obtain ⟨b, hb, hbid⟩ := hold other a0 ha0
          rw [← hprecedes.producer, hstep.sameIdentity.producerID]
          refine ⟨b, hb, ?_⟩
          rw [hbid, ← hstep.sameIdentity.transactionalID, hid]
        · exact absurd hborn'.isOpen hprecedes.closed

namespace TransactionsInv

variable {w : World} (hinv : TransactionsInv w) {i j : Nat} {a b : TransactionState}
  (ha : w.transaction i = some a) (hb : w.transaction j = some b)

include hinv ha

lemma self : w.transaction a.txID = some a := by
  rw [(hinv.keyed.key i a ha).1]
  exact ha

lemma producer_ne_zero : a.producerID ≠ 0 := by
  obtain ⟨b, hb, -⟩ := hinv.producer i a ha
  obtain ⟨hkey, hid, -⟩ := hinv.keyed.key _ b hb
  rw [← hkey]
  exact hid

include hb

/-- Of two transactions of one transactional id, one is the other or precedes it. -/
lemma compare (hid : a.transactionalID = b.transactionalID) :
    a = b ∨ Precedes a b ∨ Precedes b a := by
  have hself := hinv.self ha
  have hselfb := hinv.self hb
  rcases Nat.lt_trichotomy a.txID b.txID with hlt | heq | hgt
  · exact .inr (.inl (hinv.order a b hself hselfb hid hlt))
  · rw [heq, hselfb] at hself
    exact .inl (Option.some.inj hself).symm
  · exact .inr (.inr (hinv.order b a hselfb hself hid.symm hgt))

lemma producer_eq (hid : a.transactionalID = b.transactionalID) : a.producerID = b.producerID := by
  rcases hinv.compare ha hb hid with heq | h | h
  · rw [heq]
  · exact h.producer
  · exact h.producer.symm

/-- A producer is the producer of one transactional id. -/
lemma transactionalID_eq (hproducer : a.producerID = b.producerID) :
    a.transactionalID = b.transactionalID := by
  obtain ⟨c, hc, hca⟩ := hinv.producer i a ha
  obtain ⟨d, hd, hdb⟩ := hinv.producer j b hb
  rw [hproducer, hd] at hc
  cases hc
  exact hca.symm.trans hdb

end TransactionsInv

/-! ## Closing several transactions -/

variable {w : World} {a : TransactionState}

lemma transaction_of_listed (hinv : Keyed w) (ha : a ∈ w.metadata.listTransactions) :
    w.transaction a.txID = some a := by
  obtain ⟨⟨txID, a'⟩, hmem, rfl⟩ := mem_map.mp ha
  have hstored : w.transaction txID = some a' := (Map.mem_toList _ _ _).mp hmem
  rw [(hinv.key txID a' hstored).1]
  exact hstored

lemma listed_of_transaction (ha : w.transaction txID = some a) : a ∈ w.metadata.listTransactions :=
  mem_map.mpr ⟨(txID, a), (Map.mem_toList _ _ _).mpr ha, rfl⟩

lemma nodup_listed (hinv : Keyed w) :
    (w.metadata.listTransactions.map TransactionState.txID).Nodup := by
  have hkeyed : Map.KeyedBy TransactionState.txID (fun _ => True) w.metadata.transactions :=
    fun txID a ha => ⟨(hinv.key txID a ha).1, trivial⟩
  exact hkeyed.nodup_of_perm (List.Perm.refl _)

/-- A loop that aborts transactions of the table: each makes at most one step, the others none. After
a loop that ended well they are all closed. -/
lemma abortEach_ends (adds : Adds) (cfg : Config) (nowMS : Nat) (operation : String)
    (l : List TransactionState) (hinv : Keyed w) (hstored : ∀ a ∈ l, w.transaction a.txID = some a)
    (hnodup : (l.map TransactionState.txID).Nodup) :
    Ends step (Prog.forEach (fun a => abortTransactionState cfg a nowMS operation) l) w
      fun r w' _ => Moved adds w w' none ∧ w'.metadata.nextTxID = w.metadata.nextTxID ∧
        (∀ txID, txID ∉ l.map TransactionState.txID → w'.transaction txID = w.transaction txID) ∧
        (r = .ok () → ∀ a ∈ l, ∃ b, w'.transaction a.txID = some b ∧ b.status ≠ .open) := by
  induction l generalizing w with
  | nil =>
    exact ⟨SameTransactions.moved rfl, rfl, fun _ _ => rfl, fun _ a ha => by cases ha⟩
  | cons a rest ih =>
    rw [map_cons, nodup_cons] at hnodup
    obtain ⟨hnot, hrest⟩ := hnodup
    apply ends_bind
    apply (abortTransactionState_ends adds cfg hinv (hstored a mem_cons_self) nowMS operation).mono
    rintro r w1 - ⟨hstep, hclosed⟩
    have houtside : ∀ txID, txID ∉ (a :: rest).map TransactionState.txID →
        w1.transaction txID = w.transaction txID := by
      intro txID hout
      apply hstep.others
      rintro rfl
      exact hout mem_cons_self
    cases r with
    | error err => exact ⟨hstep.moved, hstep.next, houtside, nofun⟩
    | ok done =>
      obtain ⟨b, hb, hbclosed⟩ := hclosed rfl
      have hstored1 : ∀ c ∈ rest, w1.transaction c.txID = some c := by
        intro c hc
        rw [hstep.others c.txID]
        · exact hstored c (mem_cons_of_mem a hc)
        · intro heq
          exact hnot (heq ▸ mem_map_of_mem hc)
      apply (ih (hstep.moved.keyed hinv) hstored1 hrest).mono
      rintro r w2 - ⟨hmoved, hnext, hothers, hall⟩
      refine ⟨⟨?_, ?_, ?_, fun b hb => by cases hb⟩, hnext.trans hstep.next, ?_, ?_⟩
      · rw [hnext, hstep.next]
      · intro txID c hc
        by_cases htx : txID = a.txID
        · -- the head has made its step, and the rest of the loop does not touch it
          subst htx
          rw [hothers _ hnot]
          exact hstep.present c hc
        · exact hmoved.kept txID c ((hstep.others txID htx).trans hc)
      · intro txID c hnone hc
        refine hmoved.absent txID c ?_ hc
        by_cases htx : txID = a.txID
        · subst htx
          exact hstep.absent hnone
        · exact (hstep.others txID htx).trans hnone
      · intro txID hout
        rw [hothers txID fun h => hout (mem_cons_of_mem _ h)]
        exact houtside txID hout
      · intro hok c hc
        rcases mem_cons.mp hc with rfl | hc
        · exact ⟨b, (hothers _ hnot).trans hb, hbclosed⟩
        · exact hall hok c hc

lemma applyTxExpire_moved (hinv : Keyed w) (nowMS : Nat) :
    Ends step (applyTxExpire cfg nowMS) w fun _ w' _ => Moved adds w w' none := by
  have hloop : ∀ now (w1 : World), w1.metadata = w.metadata → Ends step (do
      let transactions ← wrapBroker "list transactions" (onMeta .listTransactions)
      let expired := transactions.filter fun state => transactionExpired state now
      Prog.forEach (fun state => abortTransactionState cfg state now "expire transaction") expired
      pure expired.length : Handling Nat) w1 fun _ w' _ => Moved adds w w' none := by
    intro now w1 hmeta
    have htable : SameTransactions w w1 := congrArg (fun s => table s .transactions) hmeta
    have hmoved1 : Moved .nothing w w1 none := htable.moved
    have hkeyed : Keyed w1 := hmoved1.keyed hinv
    have hlist : exec step (wrapBroker "list transactions" (onMeta .listTransactions)) w1
        = (.ok w1.metadata.listTransactions, w1) := rfl
    apply ends_bind_ok hlist
    apply ends_bind
    apply (abortEach_ends adds cfg now "expire transaction" _ hkeyed
      (fun a ha => transaction_of_listed hkeyed (mem_of_mem_filter ha))
      ((nodup_listed hkeyed).sublist (filter_sublist.map _))).mono
    rintro r w' - ⟨hmoved, -⟩
    have hsame : Moved adds w w' none := hmoved.after (fun txID => htable.transaction txID) htable.next.ge
    cases r with
    | error err => exact hsame
    | ok done => exact hsame
  unfold applyTxExpire orNowMS
  by_cases hzero : nowMS = 0
  · rw [if_pos hzero]
    apply ends_bind_ok (exec_nowMS w)
    exact hloop _ _ rfl
  · rw [if_neg hzero]
    exact hloop _ _ rfl

/-! ## Begin -/

/-- A new transaction gets an epoch above its history's, and the producer of the history. -/
lemma nextTransactionProducerIdentity_ok {producerID producerEpoch : Nat}
    {history : List TransactionState} (hne : ∀ a ∈ history, a.producerID ≠ 0)
    (h : nextTransactionProducerIdentity txID history = .ok (producerID, producerEpoch)) :
    (∀ a ∈ history, a.producerEpoch < producerEpoch) ∧
      (history = [] ∧ producerID = txID ∨ ∃ a ∈ history, a.producerID = producerID) := by
  unfold nextTransactionProducerIdentity at h
  split at h
  · next hempty =>
    cases h
    rw [hempty]
    exact ⟨fun a ha => (by cases ha), .inl ⟨rfl, rfl⟩⟩
  · next hfull =>
    dsimp only at h
    split at h
    · cases h
    · cases h
      constructor
      · intro a ha
        have hle : a.producerEpoch ≤ (history.map TransactionState.producerEpoch).foldr max 0 :=
          le_max_of_le (mem_map_of_mem ha) le_rfl
        rw [foldl_eq_foldr]
        omega
      · refine .inr ?_
        cases hfind : (history.map TransactionState.producerID).find? (· ≠ 0) with
        | some found =>
          obtain ⟨a, ha, hproducer⟩ := mem_map.mp (mem_of_find?_eq_some hfind)
          exact ⟨a, ha, hproducer⟩
        | none =>
          -- the history is not empty, and its producers are not zero
          obtain ⟨a, rest, rfl⟩ := exists_cons_of_ne_nil hfull
          have hzero := find?_eq_none.mp hfind a.producerID mem_cons_self
          exact absurd (by simpa using hzero) (hne a mem_cons_self)

/-- The table with the next id taken, at a look at the clock. -/
def World.withNextTxID (w : World) : World :=
  { w.tick with metadata := { w.metadata with nextTxID := w.metadata.nextTxID + 1 } }

lemma exec_allocateTransactionID (hinv : Keyed w) :
    exec step (wrapBroker "allocate transaction id" (onMeta .allocateTransactionID)) w
      = (.ok w.metadata.nextTxID,
        { w with metadata := { w.metadata with nextTxID := w.metadata.nextTxID + 1 } }) := by
  have hallocate : w.metadata.allocateTransactionID = (w.metadata.nextTxID,
      { w.metadata with nextTxID := w.metadata.nextTxID + 1 }) := by
    unfold MemoryStore.allocateTransactionID
    rw [if_neg hinv.next]
  change (((MetaOp.allocateTransactionID).run w.metadata).1.mapError _,
    { w with metadata := ((MetaOp.allocateTransactionID).run w.metadata).2 }) = _
  simp only [MetaOp.run, hallocate]
  rfl

/-- A new transaction is saved after its history was closed. -/
lemma Moved.begin {w w1 : World} (h : Moved adds w w1 none) (hinv : TransactionsInv w)
    {state : TransactionState} (hid : state.txID = w.metadata.nextTxID)
    (hlt : state.txID < w1.metadata.nextTxID) (hopen : state.status = .open)
    (hdeadline : state.expiresAtMS = addUint64 state.createdAtMS state.timeoutMS)
    (hnew : state.nextSequence = 0 ∧ state.partitions = [] ∧ state.publishedBatches = [] ∧
      state.offsetCommits = [])
    (hhistory : ∀ a, w.transaction a.txID = some a → a.transactionalID = state.transactionalID →
      (∃ b, w1.transaction a.txID = some b ∧ b.status ≠ .open) ∧
        a.producerEpoch < state.producerEpoch)
    (hproducer : (state.producerID = state.txID ∧
        ∀ a, w.transaction a.txID = some a → a.transactionalID ≠ state.transactionalID) ∨
      ∃ a, w.transaction a.txID = some a ∧ a.transactionalID = state.transactionalID ∧
        a.producerID = state.producerID) :
    Moved adds w (w1.withTransaction state) (some state) := by
  have hother : ∀ {txID a}, w.transaction txID = some a → state.txID ≠ txID := by
    intro txID a ha heq
    have hlt := (hinv.keyed.key txID a ha)
    omega
  -- what stands beside the new transaction was there before
  have hbeside : ∀ {txID a}, (w1.withTransaction state).transaction txID = some a →
      txID ≠ state.txID → w1.transaction txID = some a ∧
        ∃ a0, w.transaction txID = some a0 ∧ TransactionStep adds a0 a := by
    intro txID a ha hne
    rw [transaction_withTransaction, if_neg (Ne.symm hne)] at ha
    rcases h.before ha with hold | ⟨hnone, -⟩
    · exact ⟨ha, hold⟩
    · cases h.absent txID a hnone ha
  constructor
  · exact h.next
  · intro txID a ha
    rw [transaction_withTransaction, if_neg (hother ha)]
    exact h.kept txID a ha
  · intro txID b hnone hb
    by_cases htx : txID = state.txID
    · rw [transaction_withTransaction, if_pos htx.symm] at hb
      exact hb
    · obtain ⟨-, a0, ha0, -⟩ := hbeside hb htx
      rw [ha0] at hnone
      cases hnone
  · rintro b ⟨rfl⟩
    refine
      { stored := by rw [transaction_withTransaction, if_pos rfl]
        fresh := hid.ge
        bound := hlt
        isOpen := hopen
        deadline := hdeadline
        sequence := hnew.1
        partitions := hnew.2.1
        batches := hnew.2.2.1
        offsets := hnew.2.2.2
        history := ?_
        producer := ?_ }
    · intro txID a ha htransactional hne
      obtain ⟨ha1, a0, ha0, hstep⟩ := hbeside ha hne
      have hsame := hstep.sameIdentity
      have hself := hinv.self ha0
      rw [hsame.transactionalID] at htransactional
      obtain ⟨⟨b, hb, hclosed⟩, hepoch⟩ := hhistory a0 hself htransactional
      rw [(hinv.keyed.key txID a0 ha0).1, ha1] at hb
      cases hb
      refine ⟨hclosed, by rw [hsame.producerEpoch]; exact hepoch, ?_⟩
      rw [hsame.producerID]
      rcases hproducer with ⟨-, hnone⟩ | ⟨c, hc, hcid, hcproducer⟩
      · exact absurd htransactional (hnone a0 hself)
      · rw [← hcproducer]
        exact hinv.producer_eq ha0 hc (htransactional.trans hcid.symm)
    · rcases hproducer with ⟨hself, -⟩ | ⟨c, hc, hcid, -⟩
      · exact .inl hself
      · obtain ⟨c', hc', hstep⟩ := h.kept _ c hc
        refine .inr ⟨c.txID, c', ?_, (hother hc).symm, hstep.sameIdentity.transactionalID.trans hcid⟩
        rw [transaction_withTransaction, if_neg (hother hc)]
        exact hc'

lemma applyTxBegin_moved (hinv : TransactionsInv w) (req : TxBeginCommand) :
    Ends step (applyTxBegin cfg req) w fun r w' _ =>
      match r with
      | .ok result => ∃ b, Moved adds w w' (some b) ∧ b.transactionalID = req.transactionalID ∧
          result.identity = transactionIdentityFromState b
      | .error _ => Moved adds w w' none := by
  unfold applyTxBegin
  split
  · exact SameTransactions.moved rfl
  · have hlist : exec step (transactionsForID req.transactionalID) w
        = (.ok (w.metadata.listTransactions.filter fun state =>
            state.transactionalID = req.transactionalID), w) := rfl
    apply ends_bind_ok hlist
    apply ends_bind_ok (exec_allocateTransactionID hinv.keyed)
    apply ends_bind_ok (exec_nowMS _)
    have hstart : Moved adds w w.withNextTxID none := by
      have hrefl : Moved adds w.withNextTxID w.withNextTxID none := SameTransactions.moved rfl
      exact hrefl.after (fun _ => rfl) (Nat.le_succ _)
    have hkeyed : Keyed w.withNextTxID := hstart.keyed hinv.keyed
    generalize hhistory : w.metadata.listTransactions.filter (fun state =>
      state.transactionalID = req.transactionalID) = history
    have hmem : ∀ a, a ∈ history ↔
        w.transaction a.txID = some a ∧ a.transactionalID = req.transactionalID := by
      intro a
      rw [← hhistory, mem_filter, decide_eq_true_eq]
      exact ⟨fun h => ⟨transaction_of_listed hinv.keyed h.1, h.2⟩,
        fun h => ⟨listed_of_transaction h.1, h.2⟩⟩
    have hnodup : (history.map TransactionState.txID).Nodup := by
      rw [← hhistory]
      exact (nodup_listed hinv.keyed).sublist (filter_sublist.map _)
    apply ends_bind_ofExcept
    · intro err _
      exact hstart
    · rintro ⟨producerID, producerEpoch⟩ hidentity
      obtain ⟨hepoch, hproducer⟩ := nextTransactionProducerIdentity_ok
        (fun a ha => hinv.producer_ne_zero ((hmem a).mp ha).1) hidentity
      apply ends_bind
      apply (abortEach_ends adds cfg _ "fence transaction" history hkeyed
        (fun a ha => ((hmem a).mp ha).1) hnodup).mono
      rintro r w1 - ⟨hmoved, hnext, -, hclosed⟩
      cases r with
      | error err => exact hmoved.after (fun _ => rfl) (Nat.le_succ _)
      | ok done =>
        have hlt : w.metadata.nextTxID < w1.metadata.nextTxID := by
          rw [hnext]
          exact Nat.lt_succ_self _
        have hbefore : Moved adds w w1 none := hmoved.after (fun _ => rfl) (Nat.le_succ _)
        apply ends_bind
        apply ends_mapError
        unfold Ends
        rw [exec_saveTransaction (by exact hinv.keyed.next) (by exact hlt)]
        refine ⟨_, hbefore.begin hinv rfl hlt rfl rfl ⟨rfl, rfl, rfl, rfl⟩ ?_ ?_, rfl, rfl⟩
        · intro a ha hid
          exact ⟨hclosed rfl a ((hmem a).mpr ⟨ha, hid⟩), hepoch a ((hmem a).mpr ⟨ha, hid⟩)⟩
        · rcases hproducer with ⟨hempty, hself⟩ | ⟨a, ha, hself⟩
          · refine .inl ⟨hself, fun a ha hid => ?_⟩
            have hin := (hmem a).mpr ⟨ha, hid⟩
            rw [hempty] at hin
            cases hin
          · exact .inr ⟨a, ((hmem a).mp ha).1, ((hmem a).mp ha).2, hself⟩

/-! ## One activity -/

/-- The identity a command carries. -/
def Command.identity : Command → Option TransactionIdentity
  | txPublish req => some req.identity
  | txPublishBatch req => some req.identity
  | txCommitOffset req => some req.identity
  | txCommit identity => some identity
  | txAbort identity => some identity
  | _ => none

/-- The commands that add batches to a transaction. -/
def Command.publishes : Command → Bool
  | txPublish _ => true
  | txPublishBatch _ => true
  | _ => false

/-- What a command adds to a transaction. -/
def Command.addition : Command → Adds
  | txPublish _ => .batch
  | txPublishBatch _ => .batch
  | txCommitOffset req => .offset req.offset
  | _ => .nothing

lemma Command.addition_ne_batch (h : cmd.publishes = false) : cmd.addition ≠ .batch := by
  cases cmd with
  | txPublish req => cases h
  | txPublishBatch req => cases h
  | _ => exact fun hadds => nomatch hadds

def Activity.addition : Activity → Adds
  | command cmd => cmd.addition
  | _ => .nothing

/-- The commands of transactions, and the one that makes the topics to publish to. -/
def Command.transactional : Command → Bool
  | createTopic _ => true
  | txBegin _ => true
  | txPublish _ => true
  | txPublishBatch _ => true
  | txCommitOffset _ => true
  | txCommit _ => true
  | txAbort _ => true
  | txExpire _ => true
  | _ => false

/-- What these commands append, by what they append as data and as commit markers. -/
lemma Command.transactional_appends {P : TopicPartition → Record → Prop} {cfg : Config}
    (htx : Parts.Transactions (Makes step (AppendsOnly P)) cfg) (hcmd : cmd.transactional = true)
    (hdata : cmd.publishes = true → Parts.TransactionData (Makes step (AppendsOnly P)) cfg)
    (hcommit : ∀ identity, cmd = .txCommit identity → ∀ tp identity sequence,
      Makes step (AppendsOnly P) _ (MessageRuntime.publishRecord cfg tp
        { transaction := some (transactionRecordMetadata identity sequence .commit), payload := [] })) :
    Makes step (AppendsOnly P) _ (cmd.apply cfg) := by
  have hC := appendsOnly_closed P
  have hreply : ∀ {α : Type} (reply : α → Reply) (p : Handling α),
      Makes step (AppendsOnly P) _ p → Makes step (AppendsOnly P) _ (replyWith reply p) :=
    fun reply p hp => hC.bind hp fun _ => hC.pure _
  cases cmd with
  | createTopic topic =>
    exact hreply _ _ (Parts.applyCreateTopic hC (Runtime.createTopic appendsOnly_quiet hC _)
      (Runtime.ensureTopic appendsOnly_quiet hC _))
  | txBegin req => exact hreply _ _ (Parts.applyTxBegin hC htx req)
  | txPublish req => exact hreply _ _ (Parts.applyTxPublish hC htx (hdata rfl) req)
  | txPublishBatch req => exact hreply _ _ (Parts.applyTxPublishBatch hC htx (hdata rfl) req)
  | txCommitOffset req => exact hreply _ _ (Parts.applyTxCommitOffset hC htx req)
  | txCommit identity =>
    exact hreply _ _ (Parts.applyTxCommit hC htx (fun _ => appendsOnly_perform rfl)
      (hcommit identity rfl) identity)
  | txAbort identity => exact hreply _ _ (Parts.applyTxAbort hC htx identity)
  | txExpire nowMS => exact hreply _ _ (Parts.applyTxExpire hC htx nowMS)
  | _ => cases hcmd

variable {identity : TransactionIdentity}

lemma Served.map {α β : Type} {r : Except Error α} (h : Served adds identity w r w') (f : α → β) :
    Served adds identity w (r.map f) w' := by
  refine ⟨h.step, fun hno => ?_⟩
  obtain ⟨hsame, err, rfl⟩ := h.refused hno
  exact ⟨hsame, err, rfl⟩

lemma served_replyWith {α : Type} {p : Handling α} {reply : α → Reply}
    (hp : Ends step p w fun r w' _ => Served adds identity w r w') :
    Ends step (replyWith reply p) w fun r w' _ => Served adds identity w r w' :=
  ends_replyWith (hp.mono fun _ _ _ h => h.map reply)

/-- Every command with an identity serves the transaction of that identity. -/
lemma applyCommand_served (hinv : Keyed w) (hcmd : cmd.identity = some identity) :
    Served cmd.addition identity w (applyCommand cfg cmd w).1 (applyCommand cfg cmd w).2 := by
  cases cmd with
  | txPublish req =>
    cases hcmd
    exact served_replyWith (applyTxPublish_served cfg hinv req)
  | txPublishBatch req =>
    cases hcmd
    exact served_replyWith (applyTxPublishBatch_served cfg hinv req)
  | txCommitOffset req =>
    cases hcmd
    exact served_replyWith (applyTxCommitOffset_served cfg hinv req)
  | txCommit req =>
    cases hcmd
    exact served_replyWith (applyTxCommit_served cfg hinv _)
  | txAbort req =>
    cases hcmd
    exact served_replyWith (applyTxAbort_served cfg hinv _)
  | _ => cases hcmd

/-- A begin as its client sees it. -/
structure Begun where
  transactionalID : String
  identity : TransactionIdentity
  deriving DecidableEq

def begunOf (state : TransactionState) : Begun :=
  ⟨state.transactionalID, transactionIdentityFromState state⟩

/-- The transaction that an activity begins, by the reply of the begin. -/
def begunBy (cfg : Config) (w : World) : Activity → Option Begun
  | .command (.txBegin req) =>
    match (applyCommand cfg (.txBegin req) w).1 with
    | .ok (.begun result) => some ⟨req.transactionalID, result.identity⟩
    | _ => none
  | _ => none

lemma activity_moved (hinv : TransactionsInv w) (activity : Activity) :
    ∃ born, Moved activity.addition w (activity.run cfg w) born ∧ begunBy cfg w activity = born.map begunOf := by
  have hserved : ∀ {cmd : Command} {identity : TransactionIdentity}, cmd.identity = some identity →
      Moved (Activity.command cmd).addition w ((Activity.command cmd).run cfg w) none :=
    fun hcmd => (applyCommand_served cfg hinv.keyed hcmd).step.moved
  have hkeeps : .transactions ∉ activity.footprint.tables → Moved activity.addition w (activity.run cfg w) none := fun h =>
    SameTransactions.moved (keepsTable_activity (by decide) (by decide) h cfg w)
  cases activity with
  | isolatePoisonMessage _ _ _ _ | enforceRetentionOnce _ | compactOnce =>
    exact ⟨none, hkeeps (by simp [Activity.footprint]), rfl⟩
  | command cmd =>
    cases cmd with
    | txPublish _ | txPublishBatch _ | txCommitOffset _ | txCommit _ | txAbort _ =>
      exact ⟨none, hserved rfl, rfl⟩
    | txExpire nowMS =>
      have hexpire : Ends step ((Command.txExpire nowMS).apply cfg) w fun _ w' _ =>
          Moved .nothing w w' none :=
        ends_replyWith (Q := fun _ w' _ => Moved .nothing w w' none)
          (applyTxExpire_moved cfg hinv.keyed nowMS)
      exact ⟨none, hexpire, rfl⟩
    | txBegin req =>
      have hbegin : Ends step ((Command.txBegin req).apply cfg) w fun r w' _ =>
          match r with
          | .ok reply => ∃ b result, reply = .begun result ∧ Moved .nothing w w' (some b) ∧
              b.transactionalID = req.transactionalID ∧
              result.identity = transactionIdentityFromState b
          | .error _ => Moved .nothing w w' none := by
        apply ends_replyWith
        apply (applyTxBegin_moved cfg hinv req).mono
        rintro (err | result) w' calls h
        · exact h
        · obtain ⟨b, hmoved, hid, hidentity⟩ := h
          exact ⟨b, result, rfl, hmoved, hid, hidentity⟩
      unfold Ends at hbegin
      simp only [begunBy, Activity.run, applyCommand, Handling.run]
      cases hrun : exec step ((Command.txBegin req).apply cfg) w with
      | mk r w' =>
        rw [hrun] at hbegin
        cases r with
        | error err => exact ⟨none, hbegin, rfl⟩
        | ok reply =>
          obtain ⟨b, result, rfl, hmoved, hid, hidentity⟩ := hbegin
          refine ⟨some b, hmoved, ?_⟩
          simp only [Option.map_some, begunOf, hid, hidentity]
    | _ => exact ⟨none, hkeeps (by simp [Activity.footprint, Command.footprint]), rfl⟩

/-! ## Runs -/

/-- The transactions begun along a run, in the order of their begins. -/
def begins (cfg : Config) : List Activity → World → List Begun
  | [], _ => []
  | activity :: rest, w => (begunBy cfg w activity).toList ++ begins cfg rest (activity.run cfg w)

/-- The table holds what was begun, in the order of the ids. -/
structure Recorded (w : World) (begun : List Begun) : Prop where
  inv : TransactionsInv w
  stored : ∀ x ∈ begun, ∃ a, w.transaction x.identity.txID = some a ∧ x = begunOf a
  all : ∀ txID a, w.transaction txID = some a → begunOf a ∈ begun
  order : begun.Pairwise fun x y => x.identity.txID < y.identity.txID

lemma TransactionStep.begunOf_eq {a b : TransactionState} (h : TransactionStep adds a b) :
    begunOf b = begunOf a := by
  have hsame := h.sameIdentity
  simp only [begunOf, transactionIdentityFromState, hsame.transactionalID, hsame.txID,
    hsame.producerID, hsame.producerEpoch]

lemma Recorded.moved {begun : List Begun} (h : Recorded w begun) (hmoved : Moved adds w w' born) :
    Recorded w' (begun ++ (born.map begunOf).toList) where
  inv := hmoved.inv h.inv
  stored x hx := by
    rcases mem_append.mp hx with hx | hx
    · obtain ⟨a, ha, rfl⟩ := h.stored x hx
      obtain ⟨b, hb, hstep⟩ := hmoved.kept _ a ha
      exact ⟨b, hb, hstep.begunOf_eq.symm⟩
    · cases born with
      | none => simp at hx
      | some b =>
        simp only [Option.map_some, Option.toList_some, mem_singleton] at hx
        subst hx
        exact ⟨b, (hmoved.born b rfl).stored, rfl⟩
  all txID b hb := by
    rcases hmoved.before hb with ⟨a, ha, hstep⟩ | ⟨hnone, -⟩
    · rw [hstep.begunOf_eq]
      exact mem_append_left _ (h.all txID a ha)
    · rw [hmoved.absent txID b hnone hb]
      exact mem_append_right _ (by simp)
  order := by
    rw [pairwise_append]
    refine ⟨h.order, ?_, ?_⟩
    · cases born <;> simp
    · intro x hx y hy
      cases born with
      | none => simp at hy
      | some b =>
        simp only [Option.map_some, Option.toList_some, mem_singleton] at hy
        subst hy
        obtain ⟨a, ha, rfl⟩ := h.stored x hx
        obtain ⟨-, -, hlt⟩ := h.inv.keyed.key _ a ha
        exact lt_of_lt_of_le hlt (hmoved.born b rfl).fresh

lemma Recorded.run {cfg : Config} {begun : List Begun} (h : Recorded w begun)
    (activities : List Activity) :
    Recorded (runActivities cfg activities w) (begun ++ begins cfg activities w) := by
  induction activities generalizing w begun with
  | nil =>
    rw [begins, append_nil]
    exact h
  | cons activity rest ih =>
    obtain ⟨born, hmoved, hborn⟩ := activity_moved cfg h.inv activity
    rw [begins, hborn, ← append_assoc]
    exact ih (h.moved hmoved)

lemma recorded_fresh (env : Env) : Recorded (fresh cfg env) [] := by
  have hnone : ∀ txID, (fresh cfg env).transaction txID = none := by
    intro txID
    simp [transaction, fresh]
  have hno : ∀ {txID a}, (fresh cfg env).transaction txID ≠ some a := by
    intro txID a ha
    rw [hnone] at ha
    cases ha
  exact
    { inv := ⟨(WorldInv.fresh cfg env).keyed, fun a b ha => absurd ha hno,
        fun txID a ha => absurd ha hno⟩
      stored := fun x hx => by cases hx
      all := fun txID a ha => absurd ha hno
      order := List.Pairwise.nil }

/-- What a new transaction satisfies, and every step keeps, all transactions of a run satisfy. -/
lemma stored_of_run {P : TransactionState → Prop} (hborn : ∀ {w w' b}, Born w w' b → P b)
    (hstep : ∀ {adds a b}, TransactionStep adds a b → P a → P b) (cfg : Config) (env : Env)
    (activities : List Activity)
    (ha : (runActivities cfg activities (fresh cfg env)).transaction txID = some a) : P a := by
  have hrun : ∀ (activities : List Activity) (w : World), TransactionsInv w →
      (∀ i a, w.transaction i = some a → P a) →
      ∀ i a, (runActivities cfg activities w).transaction i = some a → P a := by
    intro activities
    induction activities with
    | nil => exact fun w _ hP => hP
    | cons activity rest ih =>
      intro w hinv hP
      obtain ⟨born, hmoved, -⟩ := activity_moved cfg hinv activity
      refine ih _ (hmoved.inv hinv) fun i b hb => ?_
      rcases hmoved.before hb with ⟨a, ha, hab⟩ | ⟨-, hb⟩
      · exact hstep hab (hP i a ha)
      · exact hborn hb
  have hfresh := recorded_fresh cfg env
  refine hrun activities _ hfresh.inv (fun i a ha => ?_) txID a ha
  cases hfresh.all i a ha

/-- A closed transaction is left as it is by whatever comes. -/
lemma TransactionsInv.closed_run {cfg : Config} (hinv : TransactionsInv w)
    (ha : w.transaction txID = some a) (hclosed : a.status ≠ .open) (activities : List Activity) :
    (runActivities cfg activities w).transaction txID = some a := by
  induction activities generalizing w with
  | nil => exact ha
  | cons activity rest ih =>
    obtain ⟨born, hmoved, -⟩ := activity_moved cfg hinv activity
    obtain ⟨b, hb, hstep⟩ := hmoved.kept txID a ha
    rw [hstep.eq_of_not_open hclosed] at hb
    exact ih (hmoved.inv hinv) hb

/-- No open transaction has the identity of a producer with a later epoch. -/
lemma Recorded.fenced {begun : List Begun} (h : Recorded w begun) {later : Begun}
    (hlater : later ∈ begun) (hproducer : later.identity.producerID = identity.producerID)
    (hepoch : identity.producerEpoch < later.identity.producerEpoch) (state : TransactionState) :
    ¬ OpenFor w identity state := by
  intro hopen
  obtain ⟨b, hb, rfl⟩ := h.stored later hlater
  have hsame : state.producerID = b.producerID := hopen.producerID.trans hproducer.symm
  have hlt : state.producerEpoch < b.producerEpoch := by
    rw [hopen.producerEpoch]
    exact hepoch
  have hid := h.inv.transactionalID_eq hopen.stored hb hsame
  rcases h.inv.compare hopen.stored hb hid with heq | hbefore | hafter
  · rw [heq] at hlt
    exact absurd hlt (lt_irrefl _)
  · exact hbefore.closed hopen.isOpen
  · exact absurd hlt (Nat.not_lt.mpr hafter.epoch.le)

/-- **Fencing.** After every run of a broker: at most one transaction of a transactional id is open;
the epochs of its transactions go up in the order of their begins; two begins have the same producer
if and only if they have the same transactional id; a closed transaction stays as it is; and a
command with an identity that a later begin has fenced is refused and changes nothing. -/
theorem transactions_fenced (cfg : Config) (env : Env) (activities : List Activity) :
    let w := runActivities cfg activities (World.fresh cfg env)
    let begun := begins cfg activities (World.fresh cfg env)
    (∀ i j a b, w.transaction i = some a → w.transaction j = some b →
      a.transactionalID = b.transactionalID → a.status = .open → b.status = .open → i = j) ∧
    (∀ a, (∃ txID, w.transaction txID = some a) → begunOf a ∈ begun) ∧
    begun.Pairwise (fun x y => x.transactionalID = y.transactionalID →
      x.identity.producerEpoch < y.identity.producerEpoch) ∧
    (∀ x ∈ begun, ∀ y ∈ begun,
      x.transactionalID = y.transactionalID ↔ x.identity.producerID = y.identity.producerID) ∧
    (∀ txID a, w.transaction txID = some a → a.status ≠ .open →
      ∀ more, (runActivities cfg more w).transaction txID = some a) ∧
    (∀ identity, ∀ later ∈ begun, later.identity.producerID = identity.producerID →
      identity.producerEpoch < later.identity.producerEpoch →
      ∀ cmd : Command, cmd.identity = some identity →
        (applyCommand cfg cmd w).2 = w ∧ ∃ err, (applyCommand cfg cmd w).1 = .error err) := by
  intro w begun
  have hrecorded : Recorded w begun := (recorded_fresh cfg env).run activities
  have hinv : TransactionsInv w := hrecorded.inv
  refine ⟨?_, ?_, ?_, ?_, ?_, ?_⟩
  · intro i j a b ha hb hid hopenA hopenB
    rcases hinv.compare ha hb hid with heq | h | h
    · rw [← (hinv.keyed.key i a ha).1, ← (hinv.keyed.key j b hb).1, heq]
    · exact absurd hopenA h.closed
    · exact absurd hopenB h.closed
  · rintro a ⟨txID, ha⟩
    exact hrecorded.all txID a ha
  · apply hrecorded.order.imp_of_mem
    intro x y hx hy hlt hid
    obtain ⟨a, ha, rfl⟩ := hrecorded.stored x hx
    obtain ⟨b, hb, rfl⟩ := hrecorded.stored y hy
    exact (hinv.order a b ha hb hid hlt).epoch
  · intro x hx y hy
    obtain ⟨a, ha, rfl⟩ := hrecorded.stored x hx
    obtain ⟨b, hb, rfl⟩ := hrecorded.stored y hy
    exact ⟨hinv.producer_eq ha hb, hinv.transactionalID_eq ha hb⟩
  · intro txID a ha hclosed more
    exact hinv.closed_run ha hclosed more
  · intro identity later hlater hproducer hepoch cmd hcmd
    exact (applyCommand_served cfg hinv.keyed hcmd).refused
      (hrecorded.fenced hlater hproducer hepoch)

/-- A producer that was started twice: the first instance can no longer commit. -/
theorem transactions_fenced_twice :
    let restarted : List Activity :=
      [.command (.txBegin ⟨"orders", 0⟩), .command (.txBegin ⟨"orders", 0⟩)]
    let w := runActivities {} restarted (World.fresh {} stillEnv)
    begins {} restarted (World.fresh {} stillEnv) = [⟨"orders", ⟨1, 1, 0⟩⟩, ⟨"orders", ⟨2, 1, 1⟩⟩] ∧
      (applyCommand {} (.txCommit ⟨1, 1, 0⟩) w).2 = w := by
  intro restarted w
  have hbegun : begins {} restarted (World.fresh {} stillEnv)
      = [⟨"orders", ⟨1, 1, 0⟩⟩, ⟨"orders", ⟨2, 1, 1⟩⟩] := by decide +kernel
  obtain ⟨-, -, -, -, -, hfenced⟩ := transactions_fenced {} stillEnv restarted
  refine ⟨hbegun, (hfenced ⟨1, 1, 0⟩ ⟨"orders", ⟨2, 1, 1⟩⟩ ?_ rfl (by decide) _ rfl).1⟩
  rw [hbegun]
  simp

end Ech0.Broker
