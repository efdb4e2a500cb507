/-
  Compaction and transactions (`compactPartition`, `transactionRecordVisibility`).

  Compaction keeps the last record of a key, be it of a transaction or not. What a reader of committed
  records sees depends on how the transactions end, so a record that was removed may be the one that it
  should have seen last. It sees the same for every key, however the open transactions end, exactly when
  each record that is removed, and that it may come to see, has a later record of its key which it sees
  whenever it would see the one that was removed.
-/
import Ech0.Broker.CommittedReads
import Ech0.Broker.TransactionRuns

set_option autoImplicit false

namespace Ech0.Broker

open Ech0.Lib Ech0.Store StorxLogStore World

/-! ## What is seen in the end -/

/-- The transaction of a record. -/
def txOf (record : Record) : Option Nat := record.transaction.map fun transaction => transaction.txID

/-- A reader of committed records sees the record when the open transactions have ended like this: those
that `outcome` says are committed. -/
def World.seen (w : World) (outcome : Nat → Bool) (record : Record) : Bool :=
  w.isCommitted record || (w.isOpen record && (txOf record).any outcome)

/-- Whatever comes, a record is seen by how the run ends its transaction, if it was open. -/
lemma isCommitted_run {cfg : Config} {w : World} (hinv : TransactionsInv w) (activities : List Activity)
    (record : Record) :
    (runActivities cfg activities w).isCommitted record = w.seen (fun txID =>
      ((runActivities cfg activities w).transaction txID).any fun state => state.status = .committed) record := by
  unfold World.seen World.isCommitted World.isOpen txOf
  cases record.transaction with
  | none => rfl
  | some transaction =>
    change (_ && ((runActivities cfg activities w).transaction transaction.txID).any _) = _
    change _ = (_ && (w.transaction transaction.txID).any _ || (_ && (w.transaction transaction.txID).all _) && _)
    cases hbefore : w.transaction transaction.txID with
    | none => simp
    | some state =>
      by_cases hopen : state.status = .open
      · simp [hopen]
      · rw [hinv.closed_run hbefore hopen activities]
        simp [hopen]

/-- The last record of a key that is seen. -/
def World.latestSeen (w : World) (outcome : Nat → Bool) (records : List Record) (key : Bytes) :
    Option Record :=
  (records.filter fun record => record.key = key && w.seen outcome record).getLast?

/-- The second record is seen whenever the first is. -/
def World.Covered (w : World) (record later : Record) : Prop :=
  w.isCommitted later = true ∨
    w.isOpen later = true ∧ w.isOpen record = true ∧ txOf record = txOf later

instance (w : World) (record later : Record) : Decidable (w.Covered record later) :=
  inferInstanceAs (Decidable (_ ∨ _))

/-- A reader sees the record, or may come to see it. -/
def World.mayBeSeen (w : World) (record : Record) : Bool := w.isCommitted record || w.isOpen record

section
variable {w : World} {outcome : Nat → Bool} {record later : Record}

lemma not_open_of_isCommitted (h : w.isCommitted record = true) : w.isOpen record = false := by
  unfold isCommitted at h
  unfold isOpen
  cases htx : record.transaction with
  | none => rfl
  | some transaction =>
    simp only [htx] at h ⊢
    cases hstate : w.metadata.loadTransaction transaction.txID with
    | none => simp [hstate] at h
    | some state =>
      simp only [hstate, Option.any_some, Bool.and_eq_true, decide_eq_true_eq] at h
      simp [h.2]

lemma seen_of_covered (h : w.Covered record later) (hseen : w.seen outcome record = true) :
    w.seen outcome later = true := by
  unfold seen at hseen ⊢
  rcases h with hcommitted | ⟨hlater, hopen, hsame⟩
  · rw [hcommitted, Bool.true_or]
  · have hnot : w.isCommitted record = false := by
      by_contra hcommitted
      rw [not_open_of_isCommitted (by simpa using hcommitted)] at hopen
      cases hopen
    rw [hnot, hopen, Bool.false_or, Bool.true_and] at hseen
    rw [hlater, Bool.true_and, ← hsame, hseen, Bool.or_true]

/-- Where a record's own transaction is the only one that is committed, what is seen covers it. -/
lemma covered_of_seen
    (hseen : w.seen (fun txID => w.isOpen record && txOf record = some txID) later = true) :
    w.Covered record later := by
  unfold seen at hseen
  rcases Bool.or_eq_true_iff.mp hseen with hcommitted | hopen
  · exact .inl hcommitted
  · obtain ⟨hlater, hany⟩ := Bool.and_eq_true_iff.mp hopen
    cases htx : txOf later with
    | none => simp [htx] at hany
    | some txID =>
      rw [htx, Option.any_some] at hany
      obtain ⟨hrecord, hsame⟩ := Bool.and_eq_true_iff.mp hany
      exact .inr ⟨hlater, hrecord, (of_decide_eq_true hsame).trans htx.symm⟩

lemma seen_self (hmay : w.mayBeSeen record = true) :
    w.seen (fun txID => w.isOpen record && txOf record = some txID) record = true := by
  unfold seen
  rcases Bool.or_eq_true_iff.mp hmay with hcommitted | hopen
  · rw [hcommitted, Bool.true_or]
  · rw [hopen]
    cases htx : record.transaction with
    | none => simp [isOpen, htx] at hopen
    | some transaction => simp [txOf, htx]

lemma mayBeSeen_of_seen (h : w.seen outcome record = true) : w.mayBeSeen record = true := by
  rcases Bool.or_eq_true_iff.mp h with hcommitted | hopen
  · exact Bool.or_eq_true_iff.mpr (.inl hcommitted)
  · exact Bool.or_eq_true_iff.mpr (.inr (Bool.and_eq_true_iff.mp hopen).1)

end

/-! ## One partition -/

section
variable {s : StorxLogStore} {tp : TopicPartition}

/-- A pass over the partition takes the record for one that can go. -/
def Removable (s : StorxLogStore) (nowMS : Nat) (topic : TopicConfig) (tp : TopicPartition)
    (record : Record) : Bool :=
  compactionApplies topic &&
    compactedRecordShouldRemove topic record nowMS (s.latestOffsetsByKeyIndexOrRecords tp).1

lemma latestSeen_eq_some_iff {records : List Record} (hord : OffsetOrdered records) (w : World)
    (outcome : Nat → Bool) (key : Bytes) (last : Record) :
    w.latestSeen outcome records key = some last ↔
      last ∈ records ∧ (last.key = key ∧ w.seen outcome last = true) ∧ ∀ record ∈ records,
        record.key = key ∧ w.seen outcome record = true → record.offset ≤ last.offset := by
  unfold latestSeen
  rw [getLast?_filter_eq_some_iff hord]
  simp only [Bool.and_eq_true, decide_eq_true_eq]

lemma recordsAt_compactPartition (hord : OffsetOrdered (s.recordsAt tp)) (nowMS : Nat)
    (topic : TopicConfig) : (s.compactPartition nowMS topic tp).recordsAt tp
      = (s.recordsAt tp).filter fun record => ¬ Removable s nowMS topic tp record := by
  rw [compactPartition_eq, recordsAt_deleteRecordPointers, recordsAt_latestOffsetsByKeyIndexOrRecords]
  refine List.filter_congr fun record hrecord => ?_
  have hremove : record.offset ∈ compactionRemovableOffsetsWithLatest topic (s.recordsAt tp) nowMS
      (s.latestOffsetsByKeyIndexOrRecords tp).1 ↔ Removable s nowMS topic tp record = true := by
    unfold compactionRemovableOffsetsWithLatest Removable
    by_cases happlies : compactionApplies topic = true
    · rw [if_pos happlies, happlies, Bool.true_and, List.mem_map]
      refine ⟨?_, fun hremoved => ⟨record, List.mem_filter.mpr ⟨hrecord, hremoved⟩, rfl⟩⟩
      rintro ⟨found, hfound, hoffset⟩
      obtain ⟨hmem, hremoved⟩ := List.mem_filter.mp hfound
      rwa [hord.eq_of_offset hmem hrecord hoffset] at hremoved
    · simp [happlies]
  simp only [hremove]

/-- The last record seen of each key is the same in both lists, however the open transactions end. -/
def World.SameLatest (w : World) (left right : List Record) : Prop :=
  ∀ outcome key, w.latestSeen outcome left key = w.latestSeen outcome right key

/-- **Compaction and transactions.** Whatever becomes of the open transactions, a reader of committed
records sees the same last record of each key as without compaction, exactly when every record that is
removed and may be seen has a later one of its key that is seen whenever it is. -/
theorem compaction_keeps_latest_iff (w : World) (hord : OffsetOrdered (s.recordsAt tp)) (nowMS : Nat)
    (topic : TopicConfig) :
    w.SameLatest ((s.compactPartition nowMS topic tp).recordsAt tp) (s.recordsAt tp) ↔
      ∀ record ∈ s.recordsAt tp, Removable s nowMS topic tp record = true → w.mayBeSeen record = true →
        ∃ later ∈ s.recordsAt tp, later.key = record.key ∧ record.offset < later.offset ∧
          w.Covered record later := by
  unfold World.SameLatest
  rw [recordsAt_compactPartition hord]
  generalize Removable s nowMS topic tp = removed
  generalize s.recordsAt tp = records at hord
  have hkept : OffsetOrdered (records.filter fun record => ¬ removed record) := hord.filter _
  constructor
  · intro h record hrecord hremoved hmay
    -- the record's own transaction is committed, and no other
    have hself := seen_self hmay
    have hsame := h (fun txID => w.isOpen record && txOf record = some txID) record.key
    cases hlast : w.latestSeen (fun txID => w.isOpen record && txOf record = some txID) records
        record.key with
    | none =>
      have hnone := List.filter_eq_nil_iff.mp (List.getLast?_eq_none_iff.mp hlast) record hrecord
      simp [hself] at hnone
    | some last =>
      obtain ⟨hmem, ⟨hkey, hseen⟩, hmax⟩ := (latestSeen_eq_some_iff hord _ _ _ _).mp hlast
      have hstays := ((latestSeen_eq_some_iff hkept _ _ _ _).mp (hsame.trans hlast)).1
      refine ⟨last, hmem, hkey, lt_of_le_of_ne (hmax record hrecord ⟨rfl, hself⟩) fun heq => ?_,
        covered_of_seen hseen⟩
      rw [← hord.eq_of_offset hrecord hmem heq] at hstays
      simp [hremoved] at hstays
  · intro h outcome key
    have hstays : ∀ {last}, w.latestSeen outcome records key = some last → removed last = false := by
      intro last hlast
      obtain ⟨hmem, ⟨hkey, hseen⟩, hmax⟩ := (latestSeen_eq_some_iff hord _ _ _ _).mp hlast
      by_contra hremoved
      obtain ⟨later, hlater, hsame, hlt, hcovered⟩ :=
        h last hmem (by simpa using hremoved) (mayBeSeen_of_seen hseen)
      exact absurd (hmax later hlater ⟨hsame.trans hkey, seen_of_covered hcovered hseen⟩) (by omega)
    refine Option.ext fun last => ⟨fun hlast => ?_, fun hlast => ?_⟩
    · obtain ⟨hmem, hseen, hmax⟩ := (latestSeen_eq_some_iff hkept _ _ _ _).mp hlast
      obtain ⟨hin, -⟩ := List.mem_filter.mp hmem
      refine (latestSeen_eq_some_iff hord _ _ _ _).mpr ⟨hin, hseen, fun record hrecord hsee => ?_⟩
      cases hall : w.latestSeen outcome records key with
      | none =>
        have hnone := List.filter_eq_nil_iff.mp (List.getLast?_eq_none_iff.mp hall) record hrecord
        simp [hsee] at hnone
      | some found =>
        obtain ⟨hfound, hfseen, hfmax⟩ := (latestSeen_eq_some_iff hord _ _ _ _).mp hall
        have hfkept : found ∈ records.filter fun record => ¬ removed record :=
          List.mem_filter.mpr ⟨hfound, by simp [hstays hall]⟩
        exact (hfmax record hrecord hsee).trans (hmax found hfkept hfseen)
    · obtain ⟨hmem, hseen, hmax⟩ := (latestSeen_eq_some_iff hord _ _ _ _).mp hlast
      exact (latestSeen_eq_some_iff hkept _ _ _ _).mpr
        ⟨List.mem_filter.mpr ⟨hmem, by simp [hstays hlast]⟩, hseen,
          fun record hrecord => hmax record (List.mem_filter.mp hrecord).1⟩

end

/-- Prices are compacted. -/
def pricesTopic : TopicConfig :=
  { newTopicConfig "prices" with cleanupPolicy := .compact, compactionEnabled := true }

/-- A price is set to 10, and to 20 in a transaction that is open. -/
def repricing : World :=
  applyCommands {} [.createTopic pricesTopic,
    .produce ⟨"prices", ⟨.explicit, 0, ""⟩, { key := [1], payload := [10] }, none⟩,
    .txBegin ⟨"shop", 0⟩, .txPublish ⟨⟨1, 1, 0⟩, 0, "prices", 0, { key := [1], payload := [20] }⟩]
    (World.fresh {} stillEnv)

lemma inv_repricing : WorldInv repricing := (WorldInv.fresh {} stillEnv).applyCommands {} _

/-- Once the transaction has been committed, the old price can go. -/
theorem compaction_keeps_committed_price :
    let w := applyCommands {} [.txCommit ⟨1, 1, 0⟩] repricing
    w.SameLatest ((w.log.compactPartition 1000 pricesTopic ⟨"prices", 0⟩).recordsAt ⟨"prices", 0⟩)
      (w.log.recordsAt ⟨"prices", 0⟩) :=
  (compaction_keeps_latest_iff _ ((inv_repricing.applyCommands {} _).log.ordered _) 1000
    pricesTopic).mpr (by decide +kernel)

/-- The logs are compacted while the transaction is open. When it is aborted there is no price. -/
theorem compaction_loses_price :
    let aborted := runActivities {} [.command (.txAbort ⟨1, 1, 0⟩)] repricing
    let compacted := runActivities {} [.compactOnce, .command (.txAbort ⟨1, 1, 0⟩)] repricing
    (aborted.committedBefore (aborted.log.recordsAt ⟨"prices", 0⟩)).map Record.payload = [[10]] ∧
      (compacted.committedBefore (compacted.log.recordsAt ⟨"prices", 0⟩)).map Record.payload = [] := by
  decide +kernel

end Ech0.Broker
