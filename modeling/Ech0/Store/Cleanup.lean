/-
  What retention and compaction remove (`cleanup.go`).

  Retention removes the records that have expired, wherever they stand, and then the oldest of the others
  until what is left fits the limit: no more of them than it takes. Compaction leaves the newest record of
  a key or, where that is an expired tombstone, none.
-/
import Mathlib.Order.Bounds.Basic
import Ech0.Store.LogInvariant

set_option autoImplicit false

namespace Ech0.Store

open Ech0.Lib StorxLogStore List

/-! ## Retention -/

/-- The record has expired, by its own time or by that of the topic. -/
def retentionExpired (topic : TopicConfig) (nowMS : Nat) (record : Record) : Bool :=
  messageExpired record nowMS ||
    topic.retentionMS.any fun retentionMS => recordExpired record retentionMS nowMS

/-- The records that have not, in offset order. -/
def unexpiredRecords (topic : TopicConfig) (nowMS : Nat) (records : List Record) : List Record :=
  (sortedRecords records).filter fun record => !retentionExpired topic nowMS record

def storageBytes (records : List Record) : Nat := (records.map recordStorageBytes).sum

/-- How many of the oldest records have to go for the others to fit; a limit of zero is none. -/
def Overflows (limit : Nat) (records : List Record) (count : Nat) : Prop :=
  if limit = 0 then count = 0 else IsLeast {n | storageBytes (records.drop n) ≤ limit} count

section
variable {topic : TopicConfig} {nowMS limit : Nat} {records : List Record}

/-- The loop marks the oldest records that are not marked yet. -/
lemma mem_removeOldestUntilWithinLimit (hlimit : limit ≠ 0) {rest : List Record}
    (hdistinct : (rest.map Record.offset).Nodup) {remove : List Nat} {kept : List Record}
    (hkept : rest.filter (fun record => record.offset ∉ remove) = kept)
    (hover : limit < storageBytes kept) : ∃ count, Overflows limit kept count ∧ ∀ offset,
      offset ∈ removeOldestUntilWithinLimit limit (storageBytes kept) remove rest ↔
        offset ∈ remove ∨ offset ∈ (kept.take count).map Record.offset := by
  induction rest generalizing remove kept with
  | nil =>
    subst hkept
    cases hover
  | cons record rest ih =>
    rw [map_cons, nodup_cons] at hdistinct
    rw [filter_cons] at hkept
    unfold removeOldestUntilWithinLimit
    by_cases hmarked : record.offset ∈ remove
    · rw [if_neg (by simp [hmarked])] at hkept
      rw [if_pos hmarked]
      exact ih hdistinct.2 hkept hover
    · rw [if_pos (by simp [hmarked])] at hkept
      rw [if_neg hmarked]
      subst hkept
      -- the record that is marked now does not come again
      have hsame : rest.filter (fun other => other.offset ∉ record.offset :: remove)
          = rest.filter fun other => other.offset ∉ remove := by
        refine filter_congr fun other hother => ?_
        have hne : other.offset ≠ record.offset := fun heq => hdistinct.1 (heq ▸ mem_map_of_mem hother)
        simp [hne]
      generalize rest.filter (fun other => other.offset ∉ remove) = kept at hover hsame
      have hbytes : storageBytes (record :: kept) - recordStorageBytes record = storageBytes kept := by
        simp [storageBytes]
      have hfirst : ∀ count, Overflows limit (record :: kept) (count + 1) ↔
          IsLeast {n | storageBytes (kept.drop n) ≤ limit} count := by
        intro count
        rw [Overflows, if_neg hlimit]
        constructor
        · rintro ⟨hfit, hleast⟩
          exact ⟨hfit, fun n hn => Nat.succ_le_succ_iff.mp (hleast (a := n + 1) hn)⟩
        · rintro ⟨hfit, hleast⟩
          refine ⟨hfit, fun n hn => ?_⟩
          cases n with
          | zero => exact absurd hn (not_le.mpr hover)
          | succ n => exact Nat.succ_le_succ (hleast hn)
      dsimp only
      rw [hbytes]
      by_cases hfits : storageBytes kept ≤ limit
      · rw [if_pos hfits]
        refine ⟨1, (hfirst 0).mpr ⟨hfits, fun _ _ => Nat.zero_le _⟩, fun offset => ?_⟩
        simp [or_comm]
      · rw [if_neg hfits]
        obtain ⟨count, hcount, hmem⟩ := ih hdistinct.2 hsame (not_le.mp hfits)
        rw [Overflows, if_neg hlimit] at hcount
        refine ⟨count + 1, (hfirst count).mpr hcount, fun offset => ?_⟩
        rw [hmem]
        simp [or_assoc, or_left_comm]

lemma perm_sortedRecords (records : List Record) : (sortedRecords records).Perm records :=
  perm_insertionSort _ records

/-- What is marked before the sizes are looked at. -/
lemma mem_markExpiredRecords {offset : Nat} :
    offset ∈ markExpiredRecords topic records nowMS (markExpiredMessages records nowMS) ↔
      ∃ record ∈ records, record.offset = offset ∧ retentionExpired topic nowMS record = true := by
  have hmarked : ∀ p : Record → Bool, offset ∈ (records.filter p).map Record.offset ↔
      ∃ record ∈ records, record.offset = offset ∧ p record = true := by
    intro p
    simp only [mem_map, mem_filter, and_assoc, and_comm, and_left_comm]
  unfold markExpiredRecords markExpiredMessages retentionExpired
  cases topic.retentionMS with
  | none => simp [hmarked]
  | some retentionMS =>
    rw [mem_append, hmarked, hmarked, ← exists_or]
    simp [and_or_left]

/-- **Retention.** What goes is what has expired and as many of the oldest other records as have to. -/
theorem retention_removes_iff (hpolicy : retentionApplies topic = true)
    (hdistinct : (records.map Record.offset).Nodup) (nowMS : Nat) :
    ∃ count, Overflows topic.retentionMaxBytes (unexpiredRecords topic nowMS records) count ∧
      ∀ offset, offset ∈ retentionRemovableOffsets topic records nowMS ↔
        ∃ record ∈ records, record.offset = offset ∧ (retentionExpired topic nowMS record = true ∨
          record ∈ (unexpiredRecords topic nowMS records).take count) := by
  unfold retentionRemovableOffsets
  dsimp only
  rw [if_pos hpolicy]
  have hexpired := @mem_markExpiredRecords topic nowMS records
  generalize markExpiredRecords topic records nowMS (markExpiredMessages records nowMS) = remove at hexpired
  have hperm := perm_sortedRecords records
  -- the records that the marks leave are those that have not expired
  have hkept : (sortedRecords records).filter (fun record => record.offset ∉ remove)
      = unexpiredRecords topic nowMS records := by
    refine filter_congr fun record hrecord => ?_
    have hiff : record.offset ∈ remove ↔ retentionExpired topic nowMS record = true := by
      rw [hexpired]
      refine ⟨?_, fun h => ⟨record, hperm.mem_iff.mp hrecord, rfl, h⟩⟩
      rintro ⟨other, hother, hoffset, h⟩
      rwa [inj_on_of_nodup_map hdistinct hother (hperm.mem_iff.mp hrecord) hoffset] at h
    simp [hiff]
  have hmem : ∀ count offset, (offset ∈ remove ∨ offset ∈ ((unexpiredRecords topic nowMS records).take count).map
      Record.offset) ↔ ∃ record ∈ records, record.offset = offset ∧
        (retentionExpired topic nowMS record = true ∨ record ∈ (unexpiredRecords topic nowMS records).take count) := by
    intro count offset
    have hin : ∀ record ∈ (unexpiredRecords topic nowMS records).take count, record ∈ records :=
      fun record hrecord => hperm.mem_iff.mp (mem_of_mem_filter (mem_of_mem_take hrecord))
    rw [hexpired, mem_map]
    grind
  have hbytes : ((records.filter fun record => record.offset ∉ remove).map recordStorageBytes).sum
      = storageBytes (unexpiredRecords topic nowMS records) := by
    rw [← hkept]
    exact (((hperm.filter _).map _).sum_eq).symm
  unfold markOversizedRecords
  dsimp only
  rw [hbytes]
  by_cases hlimit : topic.retentionMaxBytes = 0
  · rw [if_pos (.inl hlimit)]
    refine ⟨0, by rw [Overflows, if_pos hlimit], fun offset => ?_⟩
    rw [← hmem 0]
    simp
  · by_cases hfits : storageBytes (unexpiredRecords topic nowMS records) ≤ topic.retentionMaxBytes
    · rw [if_pos hfits, ite_self]
      refine ⟨0, ?_, fun offset => ?_⟩
      · rw [Overflows, if_neg hlimit]
        exact ⟨hfits, fun _ _ => Nat.zero_le _⟩
      · rw [← hmem 0]
        simp
    · have hsome : records ≠ [] := by
        rintro rfl
        exact hfits (Nat.zero_le _)
      rw [if_neg (by simp [hlimit, hsome]), if_neg hfits]
      obtain ⟨count, hcount, hloop⟩ := mem_removeOldestUntilWithinLimit hlimit
        ((hperm.map _).nodup_iff.mpr hdistinct) hkept (not_le.mp hfits)
      exact ⟨count, hcount, fun offset => (hloop offset).trans (hmem count offset)⟩

end

def cleanedTopic (limit : Nat) : TopicConfig :=
  { newTopicConfig "orders" with
    retentionMaxBytes := limit, cleanupPolicy := .compactAndDelete, compactionEnabled := true }

def keyedRecord (offset : Nat) : Record :=
  { offset := offset, timestampMS := 5, key := [1], headers := [], attributes := 0, transaction := none
    expiresAtMS := none, payload := [7] }

theorem retention_removes_oldest :
    retentionRemovableOffsets (cleanedTopic 30) [keyedRecord 1, keyedRecord 0] 9 = [0] ∧ ∃ count,
      Overflows 30 (unexpiredRecords (cleanedTopic 30) 9 [keyedRecord 1, keyedRecord 0]) count := by
  obtain ⟨count, hcount, -⟩ := @retention_removes_iff (cleanedTopic 30) [keyedRecord 1, keyedRecord 0]
    (by decide) (by decide) 9
  exact ⟨by decide, count, hcount⟩

/-- With a limit of zero, nothing is removed. -/
theorem retention_without_limit :
    retentionRemovableOffsets (cleanedTopic 0) [keyedRecord 1, keyedRecord 0] 9 = [] ∧
      ¬ storageBytes (unexpiredRecords (cleanedTopic 0) 9 [keyedRecord 1, keyedRecord 0]) ≤ 0 := by
  decide

/-! ## Compaction (`cleanup.go`) -/

/-- The offset of the last record with each key. -/
def latestOffsetByRecordKey (records : List Record) : Map Bytes Nat :=
  records.foldl appendKeyPointer ∅

def compactionRemovableOffsets (topic : TopicConfig) (records : List Record) (nowMS : Nat) : List Nat :=
  compactionRemovableOffsetsWithLatest topic records nowMS (latestOffsetByRecordKey records)

/-- Of the records with its key, it is the one with the highest offset. -/
def IsNewest (records : List Record) (record : Record) : Prop :=
  record ∈ records ∧ record.key ≠ [] ∧
    ∀ other ∈ records, other.key = record.key → other.offset ≤ record.offset

section
variable {topic : TopicConfig} {nowMS : Nat} {records : List Record} {record : Record} {key : Bytes}

lemma get_latestOffsetByRecordKey (records : List Record) (key : Bytes) :
    (latestOffsetByRecordKey records)[key]? = if key = [] then none
      else (records.filter fun record => record.key = key).getLast?.map Record.offset := by
  induction records using reverseRecOn with
  | nil => simp [latestOffsetByRecordKey]
  | append_singleton rest record ih =>
    rw [latestOffsetByRecordKey, foldl_append, foldl_cons, foldl_nil, ← latestOffsetByRecordKey,
      appendKeyPointer, filter_append]
    by_cases hempty : record.key = []
    · rw [if_pos hempty, ih]
      by_cases hkey : key = []
      · rw [if_pos hkey, if_pos hkey]
      · have hother : record.key ≠ key := fun heq => hkey (heq.symm.trans hempty)
        simp [hkey, hother]
    · rw [if_neg hempty, Map.get_insert]
      by_cases hkey : record.key = key
      · simp [← hkey, hempty]
      · rw [if_neg hkey, ih]
        simp [hkey]

lemma scan_eq_some_iff (hord : OffsetOrdered records) {offset : Nat} :
    (latestOffsetByRecordKey records)[key]? = some offset ↔
      ∃ record, IsNewest records record ∧ record.key = key ∧ record.offset = offset := by
  rw [get_latestOffsetByRecordKey]
  by_cases hkey : key = []
  · rw [if_pos hkey]
    refine ⟨nofun, ?_⟩
    rintro ⟨record, hnewest, hsame, -⟩
    exact absurd (hsame.trans hkey) hnewest.2.1
  · rw [if_neg hkey, Option.map_eq_some_iff]
    refine exists_congr fun record => ?_
    rw [getLast?_filter_eq_some_iff hord]
    simp only [decide_eq_true_eq, IsNewest]
    constructor
    · rintro ⟨⟨hmem, rfl, hmax⟩, hoffset⟩
      exact ⟨⟨hmem, hkey, hmax⟩, rfl, hoffset⟩
    · rintro ⟨⟨hmem, -, hmax⟩, rfl, hoffset⟩
      exact ⟨⟨hmem, rfl, hmax⟩, hoffset⟩

lemma exists_newest (hord : OffsetOrdered records) (hmem : record ∈ records) (hkey : record.key ≠ []) :
    ∃ newest, IsNewest records newest ∧ newest.key = record.key := by
  have hin : record ∈ records.filter fun other => other.key = record.key := by simp [hmem]
  have hlast := getLast?_eq_some_getLast (ne_nil_of_mem hin)
  have hscan := get_latestOffsetByRecordKey records record.key
  rw [if_neg hkey, hlast, Option.map_some, scan_eq_some_iff hord] at hscan
  obtain ⟨newest, hnewest, hsame, -⟩ := hscan
  exact ⟨newest, hnewest, hsame⟩

lemma IsNewest.eq (hord : OffsetOrdered records) {newest : Record} (h : IsNewest records newest)
    (h' : IsNewest records record) (hkey : newest.key = record.key) : newest = record :=
  hord.eq_of_offset h.1 h'.1 (le_antisymm (h'.2.2 newest h.1 hkey) (h.2.2 record h'.1 hkey.symm))

/-- A record with a key is removed unless it is the newest one, and then if it is an expired tombstone. -/
lemma mem_compactionRemovableOffsets (happlies : compactionApplies topic = true)
    (hord : OffsetOrdered records) (hmem : record ∈ records) :
    record.offset ∈ compactionRemovableOffsets topic records nowMS ↔ record.key ≠ [] ∧
      (¬ IsNewest records record ∨ compactedTombstoneExpired topic record nowMS = true) := by
  have hremove : record.offset ∈ compactionRemovableOffsets topic records nowMS ↔
      compactedRecordShouldRemove topic record nowMS (latestOffsetByRecordKey records) = true := by
    unfold compactionRemovableOffsets compactionRemovableOffsetsWithLatest
    rw [if_pos happlies, mem_map]
    refine ⟨?_, fun h => ⟨record, mem_filter.mpr ⟨hmem, h⟩, rfl⟩⟩
    rintro ⟨found, hfound, hoffset⟩
    obtain ⟨hin, h⟩ := mem_filter.mp hfound
    rwa [hord.eq_of_offset hin hmem hoffset] at h
  rw [hremove, compactedRecordShouldRemove]
  by_cases hkey : record.key = []
  · simp [hkey]
  · obtain ⟨newest, hnewest, hsame⟩ := exists_newest hord hmem hkey
    have hlatest := (scan_eq_some_iff hord).mpr ⟨newest, hnewest, hsame, rfl⟩
    have hiff : newest.offset = record.offset ↔ IsNewest records record :=
      ⟨fun heq => hord.eq_of_offset hnewest.1 hmem heq ▸ hnewest, fun h => by rw [hnewest.eq hord h hsame]⟩
    simp [hkey, hlatest, hiff]

/-- **Compaction.** Of each key it leaves the newest record or, where that is an expired tombstone, none;
records without a key stay, and a second pass finds nothing to remove. -/
theorem compaction_leaves_newest (happlies : compactionApplies topic = true) (hord : OffsetOrdered records)
    (nowMS : Nat) :
    let kept := records.filter fun record => record.offset ∉ compactionRemovableOffsets topic records nowMS
    (∀ newest, IsNewest records newest → kept.filter (fun record => record.key = newest.key)
      = if compactedTombstoneExpired topic newest nowMS then [] else [newest]) ∧
    kept.filter (fun record => record.key = []) = records.filter (fun record => record.key = []) ∧
    compactionRemovableOffsets topic kept nowMS = [] := by
  intro kept
  have hkept : ∀ record, record ∈ kept ↔ record ∈ records ∧ (record.key = [] ∨
      IsNewest records record ∧ compactedTombstoneExpired topic record nowMS = false) := by
    intro record
    rw [mem_filter, decide_eq_true_eq]
    refine and_congr_right fun hmem => ?_
    rw [mem_compactionRemovableOffsets happlies hord hmem, not_and_or, not_not, not_or, not_not,
      Bool.not_eq_true]
  refine ⟨fun newest hnewest => ?_, ?_, eq_nil_iff_forall_not_mem.mpr fun offset hoffset => ?_⟩
  · -- what is left of the key can only be its newest record
    have honly : ∀ record ∈ kept, record.key = newest.key →
        record = newest ∧ compactedTombstoneExpired topic newest nowMS = false := by
      intro record hrecord hkey
      rcases ((hkept record).mp hrecord).2 with hempty | ⟨hrecord, hstays⟩
      · exact absurd (hkey.symm.trans hempty) hnewest.2.1
      · obtain rfl := hrecord.eq hord hnewest hkey
        exact ⟨rfl, hstays⟩
    by_cases hgoes : compactedTombstoneExpired topic newest nowMS = true
    · rw [if_pos hgoes, filter_eq_nil_iff]
      intro record hrecord hkey
      rw [(honly record hrecord (of_decide_eq_true hkey)).2] at hgoes
      cases hgoes
    · have hstays := (hkept newest).mpr ⟨hnewest.1, .inr ⟨hnewest, by simpa using hgoes⟩⟩
      have hnodup : kept.Nodup := (hord.filter _).imp fun hlt heq => absurd (heq ▸ hlt) (lt_irrefl _)
      rw [if_neg hgoes]
      apply perm_singleton.mp
      rw [perm_ext_iff_of_nodup (hnodup.filter _) (nodup_singleton _)]
      intro record
      rw [mem_filter, mem_singleton, decide_eq_true_eq]
      refine ⟨fun h => (honly record h.1 h.2).1, ?_⟩
      rintro rfl
      exact ⟨hstays, rfl⟩
  · rw [filter_filter]
    refine filter_congr fun record hrecord => ?_
    by_cases hkey : record.key = []
    · simp [hkey, mem_compactionRemovableOffsets happlies hord hrecord]
    · simp [hkey]
  · have hmarked := hoffset
    unfold compactionRemovableOffsets compactionRemovableOffsetsWithLatest at hmarked
    rw [if_pos happlies, mem_map] at hmarked
    obtain ⟨record, hrecord, rfl⟩ := hmarked
    have hmem := mem_of_mem_filter hrecord
    obtain ⟨hkey, hgoes⟩ := (mem_compactionRemovableOffsets happlies (hord.filter _) hmem).mp hoffset
    obtain ⟨hin, hempty | ⟨hnewest, hstays⟩⟩ := (hkept record).mp hmem
    · exact hkey hempty
    · rcases hgoes with hold | htombstone
      · exact hold ⟨hmem, hkey, fun other hother => hnewest.2.2 other ((hkept other).mp hother).1⟩
      · rw [hstays] at htombstone
        cases htombstone

end

theorem compaction_leaves_last :
    [keyedRecord 0, keyedRecord 1].filter (fun record => record.offset ∉
      compactionRemovableOffsets (cleanedTopic 0) [keyedRecord 0, keyedRecord 1] 9) = [keyedRecord 1] ∧
    compactionRemovableOffsets (cleanedTopic 0) [keyedRecord 1] 9 = [] := by
  have hkept : [keyedRecord 0, keyedRecord 1].filter (fun record => record.offset ∉
      compactionRemovableOffsets (cleanedTopic 0) [keyedRecord 0, keyedRecord 1] 9) = [keyedRecord 1] := by
    decide +kernel
  have hagain := (@compaction_leaves_newest (cleanedTopic 0) [keyedRecord 0, keyedRecord 1] (by decide)
    (by unfold OffsetOrdered; decide) 9).2.2
  exact ⟨hkept, by rwa [hkept] at hagain⟩

end Ech0.Store
