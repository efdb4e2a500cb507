/-
  Seeking by a timestamp. The segment log answers from an index that is sorted by timestamp, and a log
  without one is scanned in the order of its offsets (`fallbackOffsetForTimestamp`). The index finds the
  smallest timestamp that is late enough, the scan the smallest offset that has such a one.
-/
import Ech0.Store.Pages

set_option autoImplicit false

namespace Ech0.Broker

open Ech0.Lib Ech0.Store StorxLogStore List

/-! ## The index (`store/segment_timestamp_index.go`) -/

/-- The order of the index: by timestamp, and by offset where that is the same. -/
def TimestampLE (left right : Record) : Prop :=
  left.timestampMS < right.timestampMS ∨
    left.timestampMS = right.timestampMS ∧ left.offset ≤ right.offset

instance : DecidableRel TimestampLE := fun left right =>
  inferInstanceAs (Decidable (left.timestampMS < right.timestampMS ∨
    left.timestampMS = right.timestampMS ∧ left.offset ≤ right.offset))

def sortSegmentPointersByTimestamp (pointers : List Record) : List Record :=
  pointers.insertionSort TimestampLE

/-- The search finds the first entry that is not before the new one. -/
def insertSegmentTimestampPointerSorted (pointers : List Record) (pointer : Record) : List Record :=
  let before := pointers.takeWhile fun entry => ¬ TimestampLE pointer entry
  match pointers.dropWhile fun entry => ¬ TimestampLE pointer entry with
  | [] => pointers ++ [pointer]
  | entry :: rest =>
    if entry.timestampMS = pointer.timestampMS ∧ entry.offset = pointer.offset then
      before ++ pointer :: rest
    else before ++ pointer :: entry :: rest

/-- The test of both searches. -/
def lateEnough (timestampMS : Nat) (record : Record) : Bool := timestampMS ≤ record.timestampMS

/-- What a seek returns: the record that was found, or the end of the partition. -/
def seekResult (nextOffset : Nat) : Option Record → Nat × Option Nat
  | none => (nextOffset, none)
  | some record => (record.offset, some record.timestampMS)

/-- `OffsetForTimestamp`; `timestamped` is the entry of the partition in `timestampRecords`. -/
def offsetForTimestamp (s : StorxLogStore) (timestamped : List Record) (tp : TopicPartition)
    (timestampMS : Nat) : Except Error (Nat × Option Nat) := do
  let _ ← s.loadTopicForPartition tp
  let pointers := if timestamped = [] then sortSegmentPointersByTimestamp (s.recordsAt tp)
    else timestamped
  .ok (seekResult ((s.nextOffsets[tp]?).getD (nextOffsetFromRecords (s.recordsAt tp)))
    (pointers.find? (lateEnough timestampMS)))

/-- The records of a partition and its entry in the index, as the log keeps them: records are appended
and taken out, and the index is built anew when the log is opened. -/
inductive Indexed : List Record → List Record → Prop
  | empty : Indexed [] []
  | append {records timestamped : List Record} {record : Record} : Indexed records timestamped →
      (∀ other ∈ records, other.offset < record.offset) →
      Indexed (records ++ [record]) (insertSegmentTimestampPointerSorted timestamped record)
  | remove {records timestamped : List Record} (remove : Nat → Bool) : Indexed records timestamped →
      Indexed (records.filter fun record => !remove record.offset)
        (timestamped.filter fun record => !remove record.offset)
  | open {records timestamped : List Record} : Indexed records timestamped →
      Indexed records (sortSegmentPointersByTimestamp records)

/-! ## The scan (`message_runtime.go`) -/

def minTimestampSeekScanBatch : Nat := 100

/-- What `fallbackOffsetForTimestampScan` says of a batch. -/
inductive Scanned where
  | found (record : Record)
  | done
  | next (cursor : Nat)

def fallbackOffsetForTimestampScan (s : StorxLogStore) (tp : TopicPartition) (cursor timestampMS : Nat) :
    Except Error Scanned := do
  let records ← (s.readFrom tp cursor minTimestampSeekScanBatch).mapError
    (Error.wrap "read timestamp scan records")
  if records = [] then .ok .done
  else
    match records.find? (lateEnough timestampMS) with
    | some record => .ok (.found record)
    | none => .ok (.next (offsetAfter records))

/-- The loop of `fallbackOffsetForTimestamp`, for as many rounds. -/
def fallbackLoop (s : StorxLogStore) (tp : TopicPartition) (endOffset timestampMS : Nat) :
    Nat → Nat → Except Error (Nat × Option Nat)
  | 0, _ => .ok (seekResult endOffset none)
  | rounds + 1, cursor =>
    if cursor < endOffset then do
      let scanned ← (fallbackOffsetForTimestampScan s tp cursor timestampMS).mapError
        (Error.wrap "scan message batch for timestamp seek")
      match scanned with
      | .found record => .ok (seekResult endOffset (some record))
      | .done => .ok (seekResult endOffset none)
      | .next cursor => fallbackLoop s tp endOffset timestampMS rounds cursor
    else .ok (seekResult endOffset none)

/-- `fallbackOffsetForTimestamp`; every round but the last passes a record. -/
def fallbackOffsetForTimestamp (s : StorxLogStore) (tp : TopicPartition) (timestampMS : Nat) :
    Except Error (Nat × Option Nat) := do
  let offsets ← (s.partitionOffsets tp).mapError
    (Error.wrap "load partition offsets for timestamp seek")
  fallbackLoop s tp offsets.nextOffset timestampMS (offsets.retainedRecords + 1) 0

/-! ## What the index holds -/

section
variable {records timestamped : List Record} {record : Record}

instance : Std.Total TimestampLE := ⟨fun a b => by unfold TimestampLE; omega⟩

instance : IsTrans Record TimestampLE := ⟨fun a b c hab hbc => by unfold TimestampLE at *; omega⟩

lemma insert_eq_orderedInsert (h : ∀ entry ∈ timestamped, entry.offset ≠ record.offset) :
    insertSegmentTimestampPointerSorted timestamped record
      = timestamped.orderedInsert TimestampLE record := by
  rw [orderedInsert_eq_take_drop, insertSegmentTimestampPointerSorted]
  cases hrest : timestamped.dropWhile fun entry => ¬ TimestampLE record entry with
  | nil =>
    have hall := takeWhile_append_dropWhile (p := fun entry => decide (¬ TimestampLE record entry))
      (l := timestamped)
    rw [hrest, append_nil] at hall
    rw [hall]
  | cons entry rest =>
    have hentry := h entry ((dropWhile_suffix _).subset (hrest ▸ mem_cons_self))
    dsimp only
    rw [if_neg fun hsame => hentry hsame.2]

lemma Indexed.sorted (h : Indexed records timestamped) :
    OffsetOrdered records ∧ timestamped.Perm records ∧ timestamped.Pairwise TimestampLE := by
  induction h with
  | empty => exact ⟨.nil, .nil, .nil⟩
  | @append records timestamped record _ hlast ih =>
    obtain ⟨hordered, hperm, hsorted⟩ := ih
    rw [insert_eq_orderedInsert fun entry hentry =>
      Nat.ne_of_lt (hlast entry (hperm.mem_iff.mp hentry))]
    refine ⟨pairwise_append.mpr ⟨hordered, pairwise_singleton _ _, fun a ha b hb => ?_⟩,
      ((perm_orderedInsert _ _ _).trans (hperm.cons record)).trans (perm_append_singleton _ _).symm,
      hsorted.orderedInsert _ _⟩
    exact mem_singleton.mp hb ▸ hlast a ha
  | remove remove _ ih => exact ⟨ih.1.filter _, ih.2.1.filter _, ih.2.2.filter _⟩
  | «open» _ ih =>
    exact ⟨ih.1, perm_insertionSort _ _, pairwise_insertionSort _ _⟩

/-- The first entry that is late enough in a list in some order is before all that are. -/
lemma find_first {le : Record → Record → Prop} {list : List Record} {timestampMS : Nat}
    (hrefl : ∀ record, le record record) (hsorted : list.Pairwise le)
    (h : list.find? (lateEnough timestampMS) = some record) :
    record ∈ list ∧ timestampMS ≤ record.timestampMS ∧
      ∀ other ∈ list, timestampMS ≤ other.timestampMS → le record other := by
  obtain ⟨hlate, before, after, rfl, hbefore⟩ := find?_eq_some_iff_append.mp h
  refine ⟨by simp, of_decide_eq_true hlate, fun other hother hotherLate => ?_⟩
  rw [pairwise_append, pairwise_cons] at hsorted
  rcases mem_append.mp hother with hother | hother
  · have hearly := hbefore other hother
    simp only [lateEnough, Bool.not_eq_true', decide_eq_false_iff_not] at hearly
    exact absurd hotherLate hearly
  · rcases mem_cons.mp hother with rfl | hother
    · exact hrefl _
    · exact hsorted.2.1.1 other hother

end

/-! ## What is found -/

section
variable {s : StorxLogStore} {tp : TopicPartition} {timestamped : List Record} {timestampMS : Nat}

lemma fallbackLoop_eq (hinv : LogInv s) (hpart : s.HasPartition tp) (hnext : s.nextOffset tp < 2 ^ 64)
    (timestampMS : Nat) {rounds cursor : Nat} (hrounds : (s.visibleFrom tp cursor).length < rounds) :
    fallbackLoop s tp (s.nextOffset tp) timestampMS rounds cursor = .ok (seekResult (s.nextOffset tp)
      ((s.visibleFrom tp cursor).find? (lateEnough timestampMS))) := by
  induction rounds generalizing cursor with
  | zero => cases hrounds
  | succ rounds ih =>
    have hwhole (visible : List Record) : visible.find? (lateEnough timestampMS)
        = ((visible.take minTimestampSeekScanBatch).find? (lateEnough timestampMS)).or
          ((visible.drop minTimestampSeekScanBatch).find? (lateEnough timestampMS)) := by
      rw [← find?_append, take_append_drop]
    rw [fallbackLoop, fallbackOffsetForTimestampScan, readFrom_visible hpart cursor (by decide)]
    simp only [Except.mapError, bind, Except.bind]
    by_cases hnone : s.visibleFrom tp cursor = []
    · rw [hnone]
      split
      · rfl
      · rfl
    · -- a cursor with records after it is below the end
      have hlt : cursor < s.nextOffset tp := by
        by_contra hge
        refine hnone (dropWhile_eq_nil_iff.mpr fun record hrecord => ?_)
        have := hinv.below tp record hrecord
        simp only [decide_eq_true_eq]
        omega
      rw [if_pos hlt, if_neg (by simpa [minTimestampSeekScanBatch] using hnone)]
      cases hfound : ((s.visibleFrom tp cursor).take minTimestampSeekScanBatch).find?
          (lateEnough timestampMS) with
      | some record =>
        rw [hwhole, hfound]
        rfl
      | none =>
        have hafter := visibleFrom_offsetAfter hinv hnext (by decide : 0 < minTimestampSeekScanBatch) hnone
        have hpos := length_pos_of_ne_nil hnone
        rw [hwhole, hfound, Option.none_or, ← hafter]
        exact ih (by rw [hafter, length_drop]; unfold minTimestampSeekScanBatch; omega)

lemma fallback_eq (hinv : LogInv s) (hpart : s.HasPartition tp) (hnext : s.nextOffset tp < 2 ^ 64)
    (timestampMS : Nat) :
    fallbackOffsetForTimestamp s tp timestampMS = .ok (seekResult (s.nextOffset tp)
      ((s.recordsAt tp).find? (lateEnough timestampMS))) := by
  obtain ⟨topic, hload⟩ := hpart.load
  have hall : s.visibleFrom tp 0 = s.recordsAt tp := by
    cases hrecords : s.recordsAt tp with
    | nil => rw [visibleFrom, hrecords, dropWhile_nil]
    | cons first rest => rw [visibleFrom, hrecords, dropWhile_cons_of_neg (by simp)]
  rw [fallbackOffsetForTimestamp, partitionOffsets, hload, Mirrors.next_getD hinv, ← hall]
  refine fallbackLoop_eq hinv hpart hnext timestampMS ?_
  rw [hall]
  simp [partitionOffsetsFromRecordOffsets]

lemma offsetForTimestamp_eq (hinv : LogInv s) (hpart : s.HasPartition tp)
    (hindex : Indexed (s.recordsAt tp) timestamped) (timestampMS : Nat) :
    offsetForTimestamp s timestamped tp timestampMS = .ok (seekResult (s.nextOffset tp)
      (timestamped.find? (lateEnough timestampMS))) := by
  obtain ⟨topic, hload⟩ := hpart.load
  rw [offsetForTimestamp, hload, Mirrors.next_getD hinv]
  by_cases hnil : timestamped = []
  · have hnone : s.recordsAt tp = [] := (hnil ▸ hindex.sorted.2.1).nil_eq.symm
    rw [if_pos hnil, hnone, hnil]
    rfl
  · rw [if_neg hnil]
    rfl

/-- **The index and the scan agree** exactly if, of the records that are late enough, the first one has
the smallest timestamp. -/
theorem seeks_agree_iff (hinv : LogInv s) (hpart : s.HasPartition tp) (hnext : s.nextOffset tp < 2 ^ 64)
    (hindex : Indexed (s.recordsAt tp) timestamped) :
    offsetForTimestamp s timestamped tp timestampMS = fallbackOffsetForTimestamp s tp timestampMS ↔
      ∀ first ∈ s.recordsAt tp, timestampMS ≤ first.timestampMS →
        (∀ other ∈ s.recordsAt tp, other.offset < first.offset → other.timestampMS < timestampMS) →
        ∀ later ∈ s.recordsAt tp, timestampMS ≤ later.timestampMS →
          first.timestampMS ≤ later.timestampMS := by
  obtain ⟨hordered, hperm, hsorted⟩ := hindex.sorted
  rw [offsetForTimestamp_eq hinv hpart hindex, fallback_eq hinv hpart hnext]
  have hle : (s.recordsAt tp).Pairwise fun a b => a.offset ≤ b.offset := hordered.imp Nat.le_of_lt
  cases hscan : (s.recordsAt tp).find? (lateEnough timestampMS) with
  | none =>
    have hearly := find?_eq_none.mp hscan
    have hindexed : timestamped.find? (lateEnough timestampMS) = none :=
      find?_eq_none.mpr fun record hrecord => hearly record (hperm.mem_iff.mp hrecord)
    rw [hindexed]
    refine iff_of_true rfl fun first hfirst hlate => ?_
    exact absurd (decide_eq_true hlate) (hearly first hfirst)
  | some scanned =>
    obtain ⟨hin, hlate, hfirst⟩ := find_first (fun _ => Nat.le_refl _) hle hscan
    have hsome : (timestamped.find? (lateEnough timestampMS)).isSome :=
      find?_isSome.mpr ⟨scanned, hperm.mem_iff.mpr hin, decide_eq_true hlate⟩
    obtain ⟨found, hfound⟩ := Option.isSome_iff_exists.mp hsome
    obtain ⟨hfoundIn, hfoundLate, hleast⟩ :=
      find_first (fun _ => .inr ⟨rfl, Nat.le_refl _⟩) hsorted hfound
    rw [hfound]
    simp only [seekResult, Except.ok.injEq, Prod.mk.injEq, Option.some.injEq]
    constructor
    · rintro ⟨-, hsame⟩ first hfirstIn hfirstLate hearly later hlater hlaterLate
      -- the scan finds `first`
      have hoffset : scanned.offset = first.offset := by
        refine Nat.le_antisymm (hfirst first hfirstIn hfirstLate) (Nat.le_of_not_lt fun hlt => ?_)
        exact Nat.not_lt.mpr hlate (hearly scanned hin hlt)
      have hscanned : scanned = first := hordered.eq_of_offset hin hfirstIn hoffset
      have := hleast later (hperm.mem_iff.mpr hlater) hlaterLate
      unfold TimestampLE at this
      rw [← hscanned]
      omega
    · intro hcondition
      have hearly : ∀ other ∈ s.recordsAt tp, other.offset < scanned.offset →
          other.timestampMS < timestampMS := fun other hother hlt =>
        Nat.lt_of_not_le fun hotherLate => Nat.not_le.mpr hlt (hfirst other hother hotherLate)
      have hfoundRecord := hperm.mem_iff.mp hfoundIn
      have hsmallest := hcondition scanned hin hlate hearly found hfoundRecord hfoundLate
      have hbefore := hfirst found hfoundRecord hfoundLate
      have := hleast scanned (hperm.mem_iff.mpr hin) hlate
      unfold TimestampLE at this
      omega

end

/-- The log of a partition with records of these timestamps. -/
def ordersAt (timestamps : List Nat) : StorxLogStore :=
  (ordersLog (timestamps.map fun timestampMS => { stampedAppend 1 with timestampMS := timestampMS })).2

/-- Its entry in the index. -/
def ordersIndex (timestamps : List Nat) : List Record :=
  ((ordersAt timestamps).recordsAt ⟨"orders", 0⟩).foldl insertSegmentTimestampPointerSorted []

lemma logInv_ordersAt (timestamps : List Nat) : LogInv (ordersAt timestamps) := by
  have hcreated : LogInv (ordersLog []).2 :=
    (mirrors_empty.createTopic (fun _ => 0) (fun _ => 0) (newTopicConfig "orders")).mirrors.inv
  let appends : List RecordAppend :=
    timestamps.map fun timestampMS => { stampedAppend 1 with timestampMS := timestampMS }
  change LogInv (settle (ordersLog []).2
    ((ordersLog []).2.appendRecordsBatch (fun _ => 0) ⟨"orders", 0⟩ appends)).2
  cases happend : (ordersLog []).2.appendRecordsBatch (fun _ => 0) ⟨"orders", 0⟩ appends with
  | error err => exact hcreated
  | ok done => exact (appendRecordsBatch_spec hcreated happend).1.inv

/-- The entry that appends alone have made. -/
lemma indexed_of_appends {records : List Record} (hordered : OffsetOrdered records) :
    Indexed records (records.foldl insertSegmentTimestampPointerSorted []) := by
  induction records using List.reverseRecOn with
  | nil => exact .empty
  | append_singleton before record ih =>
    obtain ⟨hbefore, -, hlast⟩ := pairwise_append.mp hordered
    rw [foldl_append]
    exact .append (ih hbefore) fun other hother => hlast other hother record (mem_singleton_self _)

/-- Timestamps in order. -/
theorem seeks_agree_orders :
    offsetForTimestamp (ordersAt [20, 30]) (ordersIndex [20, 30]) ⟨"orders", 0⟩ 15
      = fallbackOffsetForTimestamp (ordersAt [20, 30]) ⟨"orders", 0⟩ 15 := by
  have hinv := logInv_ordersAt [20, 30]
  exact (seeks_agree_iff hinv ⟨_, rfl, by decide⟩ (by decide +kernel)
    (indexed_of_appends (hinv.ordered ⟨"orders", 0⟩))).mpr (by decide +kernel)

/-- **Timestamps that go back**: the index finds the second record and the scan the first. -/
theorem seeks_differ :
    offsetForTimestamp (ordersAt [30, 20]) (ordersIndex [30, 20]) ⟨"orders", 0⟩ 15
        = .ok (1, some 20) ∧
      fallbackOffsetForTimestamp (ordersAt [30, 20]) ⟨"orders", 0⟩ 15 = .ok (0, some 30) := by
  decide +kernel

end Ech0.Broker
