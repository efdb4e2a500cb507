/-
  The pointers of one partition in memory (`segment_memory_index.go`, `segment_timestamp_index.go`).

  The log keeps two lists of them, by offset and by timestamp, and the next offset. An append sorts the
  first list anew and inserts into the second, a restore inserts into both, and a cleanup filters both.
  What is restored is taken as it comes, though: two records of one offset leave two pointers in the
  second list, and the next offset of the snapshot may be one that a record has. These, and an append
  that reaches the last offset there is, are all that can go wrong (`indexes_agree_iff`).
-/
import Ech0.Lib.Steps
import Ech0.Store.LogInvariant
import Ech0.Store.SegmentIndexCodec

set_option autoImplicit false

namespace Ech0.Store

open Ech0.Lib List

variable (pointers : List SegmentRecordPointer)

/-- What the log holds of a partition: its entries in `records`, `timestampRecords` and `nextOffsets`. -/
structure PartitionIndex where
  records : List SegmentRecordPointer := []
  timestampRecords : List SegmentRecordPointer := []
  nextOffset : Nat := 0

/-- The order of `timestampRecords`. -/
def SegmentRecordPointer.timestampKey (pointer : SegmentRecordPointer) : Nat ×ₗ Nat :=
  toLex (pointer.timestampMS, pointer.offset)

namespace PartitionIndex

open SegmentRecordPointer

def sortSegmentPointers (pointers : List SegmentRecordPointer) : List SegmentRecordPointer :=
  pointers.insertionSort fun left right => left.offset ≤ right.offset

/-- `if pointer.Offset >= next { next = pointer.Offset + 1 }`, of unsigned 64-bit integers. -/
def advance (next : Nat) (pointer : SegmentRecordPointer) : Nat :=
  if pointer.offset ≥ next then (pointer.offset + 1) % 2 ^ 64 else next

def nextOffsetFromPointers (pointers : List SegmentRecordPointer) : Nat := pointers.foldl advance 0

/-- `appendSegmentPointerSorted` and `insertSegmentTimestampPointerSorted`, which search their lists for
the first entry that is not before the new one. -/
def recordAppendedPointer (s : PartitionIndex) (pointer : SegmentRecordPointer) : PartitionIndex where
  records := insertKeyed offset pointer s.records
  timestampRecords := insertKeyed timestampKey pointer s.timestampRecords
  nextOffset := advance s.nextOffset pointer

def recordAppendedPointers (s : PartitionIndex) (pointers : List SegmentRecordPointer) : PartitionIndex :=
  if pointers = [] then s
  else
    let existing := sortSegmentPointers (s.records ++ pointers)
    { records := existing
      timestampRecords := insertAll timestampKey s.timestampRecords pointers
      nextOffset := nextOffsetFromPointers existing }

def removeRecordPointers (s : PartitionIndex) (remove : Nat → Bool) : PartitionIndex :=
  let kept := s.records.filter fun pointer => !remove pointer.offset
  { records := kept
    timestampRecords := s.timestampRecords.filter fun pointer => !remove pointer.offset
    nextOffset := max s.nextOffset (nextOffsetFromPointers kept) }

/-- The pointers with the offsets from this one on. -/
def numbered (offset : Nat) (batch : List SegmentRecordPointer) : List SegmentRecordPointer :=
  (batch.zipIdx offset).map fun entry => { entry.1 with offset := entry.2 }

/-- What happens to the partition. The pointers are those of the records written; an append numbers them,
and a restore may stop after some of them. -/
inductive Event where
  | append (batch : List SegmentRecordPointer)
  /-- `Restore`, with the partition's entry in `LogOffsets`. -/
  | restore (pointers : List SegmentRecordPointer) (logOffset : Option UInt64)
  | replacePartition (pointers : List SegmentRecordPointer) (nextOffset : UInt64)
  | cleanup (remove : Nat → Bool)

def next (s : PartitionIndex) : Event → PartitionIndex
  | .append batch =>
    -- `offsetForBatchRecord` refuses an offset that is too large
    if s.nextOffset + batch.length > 2 ^ 64 then s
    else s.recordAppendedPointers (numbered s.nextOffset batch)
  | .restore pointers logOffset =>
    let restored := pointers.foldl recordAppendedPointer {}
    { restored with nextOffset := (logOffset.map UInt64.toNat).getD restored.nextOffset }
  | .replacePartition pointers nextOffset =>
    { (sortSegmentPointers pointers).foldl recordAppendedPointer {} with
      nextOffset := max nextOffset.toNat (nextOffsetFromPointers pointers) }
  | .cleanup remove => s.removeRecordPointers remove

/-! ## What is to hold, and when it does -/

/-- Both lists are in order and hold the same pointers, all of them below the next offset. -/
structure Agree (s : PartitionIndex) : Prop where
  ordered : KeyOrdered offset s.records
  below : ∀ pointer ∈ s.records, pointer.offset < s.nextOffset
  sorted : KeyOrdered timestampKey s.timestampRecords
  same : ∀ pointer, pointer ∈ s.records ↔ pointer ∈ s.timestampRecords

/-- An event leaves the lists in agreement, and the next offset goes back only for a restore. -/
def Right (s : PartitionIndex) (event : Event) : Prop :=
  (s.next event).Agree ∧
    match event with
    | .append _ | .cleanup _ => s.nextOffset ≤ (s.next event).nextOffset
    | _ => True

/-- Pointers of one offset have one timestamp. -/
def OneTimestamp (pointers : List SegmentRecordPointer) : Prop :=
  ∀ p ∈ pointers, ∀ q ∈ pointers, p.offset = q.offset → p.timestampMS = q.timestampMS

/-- The last offset is not used, what is restored has one timestamp for each offset, and is below the
next offset that comes with it. -/
def Sound (s : PartitionIndex) : Event → Prop
  | .append batch => batch = [] ∨ s.nextOffset + batch.length ≠ 2 ^ 64
  | .restore pointers logOffset => OneTimestamp pointers ∧
      ∀ p ∈ pointers, p.offset < (logOffset.map UInt64.toNat).getD (2 ^ 64 - 1)
  | .replacePartition pointers _ => OneTimestamp pointers ∧ ∀ p ∈ pointers, p.offset < 2 ^ 64 - 1
  | .cleanup _ => True

/-! ## The next offset -/

lemma foldl_advance_lt {start : Nat} (h : start < 2 ^ 64) :
    pointers.foldl advance start < 2 ^ 64 := by
  induction pointers generalizing start with
  | nil => exact h
  | cons pointer rest ih =>
    refine ih ?_
    unfold advance
    split
    · exact Nat.mod_lt _ (by decide)
    · exact h

/-- The last offset has none after it, and so no next offset is above it. -/
lemma below_nextOffset_iff {least : Nat} (hleast : least < 2 ^ 64) :
    (∀ p ∈ pointers, p.offset < max least (nextOffsetFromPointers pointers)) ↔
      ∀ p ∈ pointers, p.offset < 2 ^ 64 - 1 := by
  constructor
  · intro h p hp
    have hlt : nextOffsetFromPointers pointers < 2 ^ 64 := foldl_advance_lt pointers (by decide)
    have := h p hp
    omega
  · intro h p hp
    have hplain : nextOffsetFromPointers pointers
        = pointers.foldl (fun next p => if p.offset ≥ next then p.offset + 1 else next) 0 := by
      refine foldl_ext _ _ _ fun next p hp => ?_
      have := h p hp
      rw [advance, Nat.mod_eq_of_lt (by omega)]
    refine lt_max_of_lt_right ?_
    rw [hplain]
    exact ((nextOffset_loop offset pointers 0 _).mp le_rfl).2 p hp

/-! ## Restores -/

lemma timestampKey_inj {p q : SegmentRecordPointer} :
    p.timestampKey = q.timestampKey ↔ p.timestampMS = q.timestampMS ∧ p.offset = q.offset := by
  simp [timestampKey]

lemma foldl_recordAppendedPointer (s : PartitionIndex) : pointers.foldl recordAppendedPointer s
      = ⟨insertAll offset s.records pointers, insertAll timestampKey s.timestampRecords pointers,
        pointers.foldl advance s.nextOffset⟩ := by
  induction pointers generalizing s with
  | nil => rfl
  | cons pointer rest ih => exact ih _

/-- The lists made of some pointers agree, below a next offset, if no offset has two timestamps: the
pointer that the second one replaces in the first list stays in the other. -/
lemma agree_restored_iff (next : Nat) :
    Agree { pointers.foldl recordAppendedPointer {} with nextOffset := next } ↔
      OneTimestamp pointers ∧ ∀ p ∈ pointers, p.offset < next := by
  rw [foldl_recordAppendedPointer]
  constructor
  · intro h
    refine ⟨fun p hp q hq heq => ?_, fun p hp => ?_⟩
    · have hnil : KeyOrdered timestampKey [] := .nil
      obtain ⟨x, hx, hxp⟩ := exists_mem_insertAll hnil (.inr hp)
      obtain ⟨y, hy, hyq⟩ := exists_mem_insertAll hnil (.inr hq)
      rw [timestampKey_inj] at hxp hyq
      have hxy := h.ordered.eq_of_key ((h.same x).mpr hx) ((h.same y).mpr hy)
        (hxp.2.trans (heq.trans hyq.2.symm))
      rw [← hxp.1, hxy, hyq.1]
    · have hnil : KeyOrdered offset [] := .nil
      obtain ⟨x, hx, hxp⟩ := exists_mem_insertAll hnil (.inr hp)
      exact hxp ▸ h.below x hx
  · rintro ⟨hone, hbelow⟩
    refine ⟨KeyOrdered.insertAll .nil _, fun p hp => ?_, KeyOrdered.insertAll .nil _, ?_⟩
    · exact hbelow p ((mem_of_mem_insertAll .nil hp).resolve_left not_mem_nil)
    · refine mem_insertAll_congr .nil .nil (fun _ => .rfl) fun x hx y hy => ?_
      rw [timestampKey_inj]
      exact ⟨fun heq => ⟨hone x hx y hy heq, heq⟩, And.right⟩

/-! ## Appends -/

lemma offset_numbered (first : Nat) (batch : List SegmentRecordPointer) :
    (numbered first batch).map offset = List.range' first batch.length := by
  rw [numbered, map_map]
  exact zipIdx_map_snd first batch

variable {s : PartitionIndex}

/-- An append of so many pointers, which are put behind those that are there. -/
lemma agree_append_iff (hs : s.Agree) {batch : List SegmentRecordPointer} (hne : batch ≠ [])
    (hfits : s.nextOffset + batch.length ≤ 2 ^ 64) :
    s.Right (.append batch) ↔ s.nextOffset + batch.length ≠ 2 ^ 64 := by
  have hlength := length_pos_of_ne_nil hne
  have hoffsets := offset_numbered s.nextOffset batch
  have hoffset : ∀ n, s.nextOffset ≤ n ∧ n < s.nextOffset + batch.length ↔
      ∃ p ∈ numbered s.nextOffset batch, p.offset = n := by
    intro n
    rw [← mem_map, hoffsets, mem_range'_1]
  have hnext : s.next (.append batch) = s.recordAppendedPointers (numbered s.nextOffset batch) :=
    if_neg (Nat.not_lt.mpr hfits)
  generalize numbered s.nextOffset batch = pointers at hoffsets hoffset hnext
  obtain ⟨first, hfirst, hat⟩ := (hoffset s.nextOffset).mp ⟨le_rfl, by omega⟩
  have hord : KeyOrdered offset (s.records ++ pointers) := by
    refine pairwise_append.mpr ⟨hs.ordered, pairwise_map.mp (hoffsets ▸ pairwise_lt_range'), ?_⟩
    exact fun p hp q hq => (hs.below p hp).trans_le ((hoffset _).mpr ⟨q, hq, rfl⟩).1
  have hsort : sortSegmentPointers (s.records ++ pointers) = s.records ++ pointers :=
    (hord.imp fun hlt => Nat.le_of_lt hlt).insertionSort_eq
  rw [recordAppendedPointers, if_neg (ne_nil_of_mem hfirst), hsort] at hnext
  unfold Right
  rw [hnext]
  have hbelow := below_nextOffset_iff (s.records ++ pointers) (by decide : 0 < 2 ^ 64)
  rw [Nat.zero_max] at hbelow
  constructor
  · rintro ⟨hagree, -⟩ hlast
    obtain ⟨last, hin, hend⟩ := (hoffset (2 ^ 64 - 1)).mp ⟨by omega, by omega⟩
    have := hbelow.mp hagree.below last (mem_append_right _ hin)
    omega
  · intro hroom
    have hall : ∀ p ∈ s.records ++ pointers, p.offset < nextOffsetFromPointers (s.records ++ pointers) := by
      refine hbelow.mpr (forall_mem_append.mpr ⟨fun p hp => ?_, fun p hp => ?_⟩)
      · have := hs.below p hp
        omega
      · have := ((hoffset _).mpr ⟨p, hp, rfl⟩).2
        omega
    refine ⟨⟨hord, hall, hs.sorted.insertAll _, ?_⟩, (hat ▸ hall first (mem_append_right _ hfirst)).le⟩
    dsimp only
    rw [← insertAll_of_ordered hord]
    refine mem_insertAll_congr hs.ordered hs.sorted hs.same fun x hx y hy => ?_
    rw [timestampKey_inj]
    refine ⟨fun heq => ?_, And.right⟩
    rw [hord.eq_of_key hx (mem_append_right _ hy) heq]
    exact ⟨rfl, rfl⟩

/-! ## The pointers and the records of the log -/

/-- What `StorxLogStore` has of a partition, record by record: both are of the same lists of the source. -/
structure Indexes (s : PartitionIndex) (log : StorxLogStore) (tp : TopicPartition) : Prop where
  offsets : s.records.map offset = (log.recordsAt tp).map Record.offset
  next : s.nextOffset = log.nextOffset tp

lemma nextOffsetFromPointers_eq {records : List Record}
    (h : pointers.map offset = records.map Record.offset) :
    nextOffsetFromPointers pointers = uint64NextOffset records := by
  let next (next offset : Nat) : Nat := if offset ≥ next then (offset + 1) % 2 ^ 64 else next
  calc nextOffsetFromPointers pointers = (pointers.map offset).foldl next 0 := by rw [foldl_map]; rfl
    _ = (records.map Record.offset).foldl next 0 := by rw [h]
    _ = uint64NextOffset records := by rw [foldl_map]; rfl

/-- `recordAppendedPointers` of the pointers follows the one of the records. -/
lemma Indexes.append {log : StorxLogStore} {tp : TopicPartition} (h : s.Indexes log tp) (hinv : LogInv log)
    {stored : List Record}
    (hoff : stored.map Record.offset = List.range' (log.nextOffset tp) stored.length)
    (hsame : pointers.map offset = stored.map Record.offset)
    (hfits : log.nextOffset tp + stored.length < 2 ^ 64) :
    (s.recordAppendedPointers pointers).Indexes (log.recordAppendedPointers tp stored) tp := by
  by_cases hne : stored = []
  · subst hne
    obtain rfl : pointers = [] := map_eq_nil_iff.mp hsame
    exact h
  have hboth : (s.records ++ pointers).map offset = (log.recordsAt tp ++ stored).map Record.offset := by
    rw [map_append, map_append, h.offsets, hsame]
  have hlog := StorxLogStore.offsetOrdered_append hinv hoff
  have hord : KeyOrdered offset (s.records ++ pointers) :=
    pairwise_map.mp (hboth ▸ pairwise_map.mpr hlog)
  have hsort : sortSegmentPointers (s.records ++ pointers) = s.records ++ pointers :=
    (hord.imp fun hlt => Nat.le_of_lt hlt).insertionSort_eq
  have hnext : uint64NextOffset (log.recordsAt tp ++ stored) = log.nextOffset tp + stored.length := by
    rw [uint64NextOffset_eq, StorxLogStore.nextOffsetFromRecords_append_range (length_pos_iff.mpr hne)
      (hinv.below tp) hoff]
    refine forall_mem_append.mpr ⟨fun r hr => ?_, fun r hr => ?_⟩
    · have := hinv.below tp r hr
      unfold maxUint64
      omega
    · have := (StorxLogStore.mem_range_of_mem hoff hr).2
      unfold maxUint64
      omega
  have hpointers : pointers ≠ [] := fun heq => hne (map_eq_nil_iff.mp (by rw [← hsame, heq]; rfl))
  rw [recordAppendedPointers, if_neg hpointers, hsort, StorxLogStore.recordAppendedPointers_eq hinv hoff hne]
  refine ⟨?_, ?_⟩
  · rw [StorxLogStore.recordsAt_of_insert rfl, if_pos rfl]
    exact hboth
  · rw [StorxLogStore.nextOffset_of_insert rfl, if_pos rfl, ← hnext]
    exact nextOffsetFromPointers_eq _ hboth

/-! ## All of them -/

lemma right_iff (hs : s.Agree) (event : Event) : s.Right event ↔ s.Sound event := by
  cases event with
  | append batch =>
    by_cases hunchanged : batch = [] ∨ s.nextOffset + batch.length > 2 ^ 64
    · have hsame : s.next (.append batch) = s := by
        rcases hunchanged with rfl | hover
        · exact ite_self _
        · exact if_pos hover
      unfold Right
      rw [hsame]
      exact iff_of_true ⟨hs, le_rfl⟩ (hunchanged.imp_right ne_of_gt)
    · rw [not_or, Nat.not_lt] at hunchanged
      exact (agree_append_iff hs hunchanged.1 hunchanged.2).trans (or_iff_right hunchanged.1).symm
  | restore pointers logOffset =>
    refine (and_iff_left trivial).trans ((agree_restored_iff _ _).trans (and_congr_right fun _ => ?_))
    cases logOffset with
    | some offset => exact .rfl
    | none =>
      have hbelow := below_nextOffset_iff pointers (by decide : 0 < 2 ^ 64)
      rw [Nat.zero_max] at hbelow
      rw [foldl_recordAppendedPointer]
      exact hbelow
  | replacePartition pointers nextOffset =>
    refine (and_iff_left trivial).trans ((agree_restored_iff _ _).trans ?_)
    unfold Sound OneTimestamp sortSegmentPointers
    simp only [mem_insertionSort]
    exact and_congr_right fun _ => below_nextOffset_iff pointers nextOffset.toNat_lt
  | cleanup remove =>
    refine iff_of_true ⟨⟨hs.ordered.filter _, fun p hp => ?_, hs.sorted.filter _, fun p => ?_⟩, le_max_left _ _⟩
      trivial
    · exact lt_max_of_lt_left (hs.below p (mem_of_mem_filter hp))
    · dsimp only [next, removeRecordPointers]
      rw [mem_filter, mem_filter, hs.same]

/-- **The two lists.** Along a run of appends, restores and cleanups the lists are in order and hold the
same pointers, all below the next offset, and appends and cleanups never take the next offset back,
exactly if each restore has one timestamp for an offset and stays below its next offset, and no append
takes the last offset. -/
theorem indexes_agree_iff (events : List Event) : Meets next Right events {} ↔ Meets next Sound events {} := by
  have hempty : Agree {} := ⟨.nil, nofun, .nil, fun _ => .rfl⟩
  constructor
  · exact meets_of_invariant (fun _ _ _ h => h.1) (fun _ event hs h => (right_iff hs event).mp h) hempty
  · exact meets_of_invariant (fun _ event hs h => ((right_iff hs event).mpr h).1)
      (fun _ event hs h => (right_iff hs event).mpr h) hempty

/-- Two records of one offset are restored: the list by offset has one pointer, the other one has two. And
a record is restored whose offset is the next one. -/
theorem restore_breaks_indexes :
    ¬ Meets next Right [.restore [⟨"orders", 0, 0, 1, 0, 38, 20, 0⟩, ⟨"orders", 0, 0, 1, 38, 38, 10, 0⟩] (some 1)] {} ∧
      ¬ Meets next Right [.restore [⟨"orders", 0, 0, 1, 0, 38, 20, 0⟩] (some 0)] {} := by
  refine ⟨fun h => ?_, fun h => ?_⟩
  · have hsame := h.1.1.same ⟨"orders", 0, 0, 1, 0, 38, 20, 0⟩
    revert hsame
    decide
  · have hbelow := h.1.1.below ⟨"orders", 0, 0, 1, 0, 38, 20, 0⟩ mem_cons_self
    revert hbelow
    decide

end PartitionIndex

end Ech0.Store
