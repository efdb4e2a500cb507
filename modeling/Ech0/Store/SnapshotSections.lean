/-
  A snapshot taken while other callers append (`StorxLogStore.Snapshot`).

  `Snapshot` reads the log in three sections, each under the read lock of the index and with the
  lock given up in between: the topics, then the next offsets, then the records. An append changes
  the records and the next offset of its partition in one section under the write lock. So an
  interleaving is a list of appends and sections, and what the snapshot holds are the next offsets
  of one log and the records of a later one. `Restore` takes both as they are.
-/
import Ech0.Store.LogRestore

set_option autoImplicit false

namespace Ech0.Store

open Ech0.Lib StorxLogStore List

/-! ## Interleavings -/

/-- How far a call of `Snapshot` has come, and what it has read. -/
inductive SnapshotCall where
  | started
  | topicsRead (topics : List TopicConfig)
  | offsetsRead (topics : List TopicConfig) (logOffsets : Map String Nat)
  | returned (snapshot : Snapshot)

/-- The next section of `Snapshot`. The records of the pointers that the last one copies are read
after it; appends leave them as they are. -/
def SnapshotCall.nextSection (s : StorxLogStore) : SnapshotCall → SnapshotCall
  | started => topicsRead s.listLogTopics
  | topicsRead topics => offsetsRead topics s.snapshotLogOffsets
  | offsetsRead topics logOffsets =>
    returned { topics := topics, records := s.snapshotRecords, logOffsets := logOffsets }
  | returned snapshot => returned snapshot

/-- What happens to the log while the snapshot is taken. -/
inductive SnapshotEvent where
  | append (clock : Nat → Nat) (tp : TopicPartition) (records : List RecordAppend)
  | nextSection

/-- The log and the call after an event. -/
def snapshotStep (state : StorxLogStore × SnapshotCall) : SnapshotEvent → StorxLogStore × SnapshotCall
  | .append clock tp records =>
    match state.1.appendRecordsBatch clock tp records with
    | .ok (_, s) => (s, state.2)
    | .error _ => state
  | .nextSection => (state.1, state.2.nextSection state.1)

def snapshotRun (state : StorxLogStore × SnapshotCall) (events : List SnapshotEvent) :
    StorxLogStore × SnapshotCall :=
  events.foldl snapshotStep state

/-- Records are appended when the call has read the next offsets and not yet the records. -/
def SnapshotEvent.AppendsBetween (state : StorxLogStore × SnapshotCall) : SnapshotEvent → Prop
  | .append clock tp records => (∃ topics logOffsets, state.2 = .offsetsRead topics logOffsets) ∧
    records ≠ [] ∧ ∃ out, state.1.appendRecordsBatch clock tp records = .ok out
  | .nextSection => False

/-- Some event of the interleaving appends between the two sections. -/
def AppendsBetween : StorxLogStore × SnapshotCall → List SnapshotEvent → Prop
  | _, [] => False
  | state, event :: rest =>
    event.AppendsBetween state ∨ AppendsBetween (snapshotStep state event) rest

/-- The next offset of every partition, which is a `uint64`, is above all of its records. -/
def NextAboveRecords (s : StorxLogStore) : Prop :=
  ∀ tp, ∀ r ∈ s.recordsAt tp, r.offset < s.nextOffset tp % 2 ^ 64

/-! ## What the sections see -/

variable {s : StorxLogStore}

/-- An append that goes through, or leaves the log as it is. -/
lemma snapshotStep_append (hinv : LogInv s) (call : SnapshotCall) (clock : Nat → Nat)
    (tp : TopicPartition) (records : List RecordAppend) :
    ∃ stored s', snapshotStep (s, call) (.append clock tp records) = (s', call) ∧
      Appended s s' tp stored ∧
      (stored ≠ [] ↔ records ≠ [] ∧ ∃ out, s.appendRecordsBatch clock tp records = .ok out) := by
  rw [snapshotStep]
  dsimp only
  cases happend : s.appendRecordsBatch clock tp records with
  | error err =>
    refine ⟨[], s, rfl, appended_nil hinv tp, iff_of_false (fun h => h rfl) ?_⟩
    rintro ⟨-, out, hout⟩
    cases hout
  | ok out =>
    obtain ⟨stored, s'⟩ := out
    obtain ⟨happended, hlen⟩ := appendRecordsBatch_spec hinv happend
    refine ⟨stored, s', rfl, happended, fun h => ⟨?_, _, rfl⟩, fun h => ?_⟩
    · rintro rfl
      exact h (eq_nil_of_length_eq_zero hlen)
    · rintro rfl
      exact h.1 (eq_nil_of_length_eq_zero hlen.symm)

lemma not_appendsBetween (event : SnapshotEvent) (s : StorxLogStore) {call : SnapshotCall}
    (h : ∀ topics logOffsets, call ≠ .offsetsRead topics logOffsets) :
    ¬ event.AppendsBetween (s, call) := by
  cases event with
  | append clock tp records => exact fun ⟨⟨topics, logOffsets, hcall⟩, _⟩ => h _ _ hcall
  | nextSection => exact id

variable (events : List SnapshotEvent)

lemma snapshotRun_extends (hinv : LogInv s) (call : SnapshotCall) :
    Extends s (snapshotRun (s, call) events).1 := by
  induction events generalizing s call with
  | nil => exact Extends.refl s
  | cons event rest ih =>
    rw [snapshotRun, foldl_cons]
    cases event with
    | append clock tp records =>
      obtain ⟨stored, s', hstep, happended, -⟩ := snapshotStep_append hinv call clock tp records
      rw [hstep]
      exact happended.extends.trans (ih happended.inv call)
    | nextSection => exact ih hinv _

/-- A call that has returned stays so, and nothing is appended between its sections. -/
lemma snapshotRun_returned (s : StorxLogStore) (snapshot : Snapshot) :
    (snapshotRun (s, .returned snapshot) events).2 = .returned snapshot ∧
      ¬ AppendsBetween (s, .returned snapshot) events := by
  induction events generalizing s with
  | nil => exact ⟨rfl, id⟩
  | cons event rest ih =>
    have hstep : ∃ s', snapshotStep (s, .returned snapshot) event = (s', .returned snapshot) := by
      cases event with
      | append clock tp records =>
        rw [snapshotStep]
        split
        · exact ⟨_, rfl⟩
        · exact ⟨_, rfl⟩
      | nextSection => exact ⟨_, rfl⟩
    obtain ⟨s', hstep⟩ := hstep
    rw [snapshotRun, foldl_cons, hstep]
    refine ⟨(ih s').1, ?_⟩
    rw [AppendsBetween, or_iff_right (not_appendsBetween event s (by simp)), hstep]
    exact (ih s').2

variable {snapshot : Snapshot}

/-- **From the next offsets on**: the records are those of a log that extends the present one, and
it has more of them exactly if something is appended in between. -/
theorem snapshotRun_offsetsRead (hinv : LogInv s)
    {topics : List TopicConfig} {logOffsets : Map String Nat}
    (h : (snapshotRun (s, .offsetsRead topics logOffsets) events).2 = .returned snapshot) :
    ∃ s2, LogInv s2 ∧ Extends s s2 ∧
      snapshot = { topics := topics, records := s2.snapshotRecords, logOffsets := logOffsets } ∧
      (AppendsBetween (s, .offsetsRead topics logOffsets) events ↔
        ∃ tp, s2.recordsAt tp ≠ s.recordsAt tp) := by
  induction events generalizing s with
  | nil => cases h
  | cons event rest ih =>
    rw [snapshotRun, foldl_cons] at h
    cases event with
    | append clock tp records =>
      obtain ⟨stored, s', hstep, happended, hstored⟩ :=
        snapshotStep_append hinv (.offsetsRead topics logOffsets) clock tp records
      rw [hstep] at h
      obtain ⟨s2, hinv2, hext, hsnapshot, hrest⟩ := ih happended.inv h
      refine ⟨s2, hinv2, happended.extends.trans hext, hsnapshot, ?_⟩
      rw [AppendsBetween, hstep, hrest]
      constructor
      · rintro (⟨-, hne⟩ | ⟨a, ha⟩)
        · -- what was appended is still there when the records are read
          refine ⟨tp, fun heq => hstored.mpr hne ?_⟩
          obtain ⟨added, hadded, -⟩ := hext.records tp
          rw [hadded, happended.records tp, if_pos rfl, append_assoc] at heq
          exact (append_eq_nil_iff.mp (append_right_eq_self.mp heq)).1
        · refine ⟨a, fun heq => ha ?_⟩
          obtain ⟨added, hadded, -⟩ := hext.records a
          obtain ⟨added', hadded', -⟩ := happended.extends.records a
          rw [hadded, hadded', append_assoc] at heq
          have hnil := append_eq_nil_iff.mp (append_right_eq_self.mp heq)
          rw [hadded, hnil.2, append_nil]
      · rintro ⟨a, ha⟩
        by_cases hne : stored = []
        · refine Or.inr ⟨a, ?_⟩
          rw [happended.records a, hne, append_nil, ite_self]
          exact ha
        · exact Or.inl ⟨⟨topics, logOffsets, rfl⟩, hstored.mp hne⟩
    | nextSection =>
      obtain ⟨hreturned, hnone⟩ := snapshotRun_returned rest s
        { topics := topics, records := s.snapshotRecords, logOffsets := logOffsets }
      refine ⟨s, hinv, Extends.refl s, SnapshotCall.returned.inj (h.symm.trans hreturned), ?_⟩
      refine iff_of_false ?_ fun ⟨tp, hne⟩ => hne rfl
      rintro (hbetween | hbetween)
      · exact hbetween
      · exact hnone hbetween

/-- What a snapshot is made of: the topics and next offsets of a log, and the records of one that
extends it. -/
structure SnapshotOf (snapshot : Snapshot) (s1 s2 : StorxLogStore) : Prop where
  first : LogInv s1
  second : LogInv s2
  grew : Extends s1 s2
  parts : snapshot =
    { topics := s1.listLogTopics
      records := s2.snapshotRecords
      logOffsets := s1.snapshotLogOffsets }

lemma snapshotRun_topicsRead (hinv : LogInv s)
    (h : (snapshotRun (s, .topicsRead s.listLogTopics) events).2 = .returned snapshot) :
    ∃ s1 s2, SnapshotOf snapshot s1 s2 ∧
      Extends s1 (snapshotRun (s, .topicsRead s.listLogTopics) events).1 ∧
      (AppendsBetween (s, .topicsRead s.listLogTopics) events ↔
        ∃ tp, s2.recordsAt tp ≠ s1.recordsAt tp) := by
  induction events generalizing s with
  | nil => cases h
  | cons event rest ih =>
    rw [snapshotRun, foldl_cons] at h ⊢
    rw [AppendsBetween, or_iff_right (not_appendsBetween event s (by simp))]
    cases event with
    | append clock tp records =>
      obtain ⟨stored, s', hstep, happended, -⟩ :=
        snapshotStep_append hinv (.topicsRead s.listLogTopics) clock tp records
      have htopics : s.listLogTopics = s'.listLogTopics := by
        rw [listLogTopics, listLogTopics, happended.topics]
      rw [hstep, htopics] at h ⊢
      exact ih happended.inv h
    | nextSection =>
      obtain ⟨s2, hinv2, hext, hsnapshot, hbetween⟩ := snapshotRun_offsetsRead rest hinv h
      exact ⟨s, s2, ⟨hinv, hinv2, hext, hsnapshot⟩, snapshotRun_extends rest hinv _, hbetween⟩

/-- **Every interleaving**: the snapshot holds the next offsets of one log and the records of a
later one, and these are more than the first has exactly if something is appended in between. -/
theorem snapshotRun_started (hinv : LogInv s)
    (h : (snapshotRun (s, .started) events).2 = .returned snapshot) :
    ∃ s1 s2, SnapshotOf snapshot s1 s2 ∧ Extends s1 (snapshotRun (s, .started) events).1 ∧
      (AppendsBetween (s, .started) events ↔ ∃ tp, s2.recordsAt tp ≠ s1.recordsAt tp) := by
  induction events generalizing s with
  | nil => cases h
  | cons event rest ih =>
    rw [snapshotRun, foldl_cons] at h ⊢
    rw [AppendsBetween, or_iff_right (not_appendsBetween event s (by simp))]
    cases event with
    | append clock tp records =>
      obtain ⟨stored, s', hstep, happended, -⟩ := snapshotStep_append hinv .started clock tp records
      rw [hstep] at h ⊢
      exact ih happended.inv h
    | nextSection => exact snapshotRun_topicsRead rest hinv h

/-! ## The restored log -/

/-- The restored log has the records of the second log and the next offsets of the first. -/
lemma SnapshotOf.restored {s1 s2 target restored : StorxLogStore} (h : SnapshotOf snapshot s1 s2)
    (hrestore : target.restore snapshot = (.ok (), restored)) :
    (∀ tp, restored.recordsAt tp = s2.recordsAt tp) ∧
      ∀ tp, s2.recordsAt tp ≠ [] → restored.nextOffset tp = s1.nextOffset tp := by
  have hholds : snapshot.Holds s2.recordsAt (fun tp => s1.nextOffsets[tp]?) := by
    rw [h.parts]
    exact ⟨(snapshot_holds h.second).records, (snapshot_holds h.first).next⟩
  have ht : TopicList snapshot.topics := by
    rw [h.parts]
    exact topicList_listLogTopics h.first
  have hload := (restore_ok_iff ht hholds h.second.ordered target).mp (by rw [hrestore])
  obtain ⟨s', hrun, hlog⟩ := restore_spec ht hholds h.second.ordered hload target
  obtain rfl : restored = s' := (Prod.mk.inj (hrestore.symm.trans hrun)).2
  refine ⟨hlog.records_eq, fun tp hne => ?_⟩
  obtain ⟨hnul, topic, htopic, hname, hlt⟩ := hload tp hne
  rw [h.parts] at htopic
  have hpart : s1.HasPartition tp :=
    hasPartition_of_listLogTopics h.first htopic ((mem_partitionList topic tp).mpr ⟨hname.symm, hlt⟩)
  rw [nextOffset, hlog.next_some tp _ hnul (h.first.get_nextOffset hpart), Option.getD_some]

/-- **A snapshot taken while records are appended**, from any well-formed log and in any
interleaving in which no append comes to the last offset: the log restored from it has its next offsets
above its records exactly if no records are appended between the section that reads the next offsets
and the one that reads the records. -/
theorem restored_nextOffset_above_iff {s target restored : StorxLogStore} {snapshot : Snapshot}
    (events : List SnapshotEvent) (hinv : LogInv s)
    (hfits : (snapshotRun (s, .started) events).1.OffsetsFit)
    (hsnapshot : (snapshotRun (s, .started) events).2 = .returned snapshot)
    (hrestore : target.restore snapshot = (.ok (), restored)) :
    NextAboveRecords restored ↔ ¬ AppendsBetween (s, .started) events := by
  obtain ⟨s1, s2, hof, hlater, hbetween⟩ := snapshotRun_started events hinv hsnapshot
  obtain ⟨hrecords, hnext⟩ := hof.restored hrestore
  have huint : ∀ tp, s1.nextOffset tp % 2 ^ 64 = s1.nextOffset tp := fun tp => by
    have hle := (hlater.next tp).trans (hfits.nextOffset_le tp)
    unfold maxUint64 at hle
    exact Nat.mod_eq_of_lt (by omega)
  rw [hbetween, not_exists]
  constructor
  · intro habove tp hne
    obtain ⟨added, hadded, hoff⟩ := hof.grew.records tp
    obtain ⟨r, hr⟩ := exists_mem_of_ne_nil added fun hnil =>
      hne (by rw [hadded, hnil, append_nil])
    have hmem : r ∈ s2.recordsAt tp := hadded ▸ mem_append_right _ hr
    have hlt := habove tp r (hrecords tp ▸ hmem)
    rw [hnext tp (ne_nil_of_mem hmem), huint] at hlt
    exact Nat.not_lt.mpr (hoff r hr) hlt
  · intro hsame tp r hr
    have hsame : s2.recordsAt tp = s1.recordsAt tp := not_not.mp (hsame tp)
    rw [hrecords] at hr
    rw [hnext tp (ne_nil_of_mem hr), huint]
    exact hof.first.below tp r (hsame ▸ hr)

/-- An interleaving with one append, between the next offsets and the records. -/
def appendBeforeRecords (tp : TopicPartition) (records : List RecordAppend) : List SnapshotEvent :=
  [.nextSection, .nextSection, .append (fun _ => 0) tp records, .nextSection]

/-- The snapshot it gives. -/
def snapshotAround (s : StorxLogStore) (tp : TopicPartition) (records : List RecordAppend) :
    Snapshot :=
  { topics := s.listLogTopics
    records :=
      (snapshotStep (s, .started) (.append (fun _ => 0) tp records)).1.snapshotRecords
    logOffsets := s.snapshotLogOffsets }

lemma snapshotRun_appendBeforeRecords (s : StorxLogStore) (tp : TopicPartition)
    (records : List RecordAppend) : (snapshotRun (s, .started) (appendBeforeRecords tp records)).2
      = .returned (snapshotAround s tp records) := by
  rw [snapshotAround, snapshotStep]
  dsimp only [snapshotRun, appendBeforeRecords, List.foldl, snapshotStep, SnapshotCall.nextSection]
  cases s.appendRecordsBatch (fun _ => 0) tp records with
  | error err => rfl
  | ok out => rfl

/-- A log with the topic `t` and nothing in it. -/
def emptyTopicLog : StorxLogStore :=
  match ({} : StorxLogStore).createTopic (newTopicConfig "t") with
  | .ok s => s
  | .error _ => {}

lemma logInv_emptyTopicLog : LogInv emptyTopicLog := by
  unfold emptyTopicLog
  split
  · next hcreate => exact LogInv.empty.createTopic hcreate
  · exact LogInv.empty

/-- What `Restore` makes of the snapshot around an append of `count` records. -/
def restoredAround (count : Nat) : Except Error Unit × StorxLogStore :=
  ({} : StorxLogStore).restore
    (snapshotAround emptyTopicLog ⟨"t", 0⟩ (List.replicate count { payload := [] }))

theorem restored_nextOffset_above_iff_oneAppend :
    NextAboveRecords (restoredAround 1).2 ↔
      ¬ AppendsBetween (emptyTopicLog, .started)
        (appendBeforeRecords ⟨"t", 0⟩ (List.replicate 1 { payload := [] })) :=
  restored_nextOffset_above_iff _ logInv_emptyTopicLog (by decide +kernel)
    (snapshotRun_appendBeforeRecords emptyTopicLog ⟨"t", 0⟩ _)
    (Prod.ext (by decide +kernel : (restoredAround 1).1 = .ok ()) rfl)

/-- **An append between the two sections**: the restored log has a record at offset 0, its next
offset is 0, and the next append to it returns that offset. -/
theorem restored_offset_given_again :
    LogInv emptyTopicLog ∧
      (snapshotRun (emptyTopicLog, .started)
          (appendBeforeRecords ⟨"t", 0⟩ (List.replicate 1 { payload := [] }))).2
        = .returned
          (snapshotAround emptyTopicLog ⟨"t", 0⟩ (List.replicate 1 { payload := [] })) ∧
      (restoredAround 1).1 = .ok () ∧
      ((restoredAround 1).2.recordsAt ⟨"t", 0⟩).map Record.offset = [0] ∧
      (restoredAround 1).2.nextOffset ⟨"t", 0⟩ = 0 ∧
      ((restoredAround 1).2.appendRecordsBatch (fun _ => 0) ⟨"t", 0⟩ [{ payload := [] }]).map
        (fun out => out.1.map Record.offset) = .ok [0] ∧
      ¬ NextAboveRecords (restoredAround 1).2 := by
  have hrecords : ((restoredAround 1).2.recordsAt ⟨"t", 0⟩).map Record.offset = [0] := by
    decide +kernel
  have hnext : (restoredAround 1).2.nextOffset ⟨"t", 0⟩ = 0 := by decide +kernel
  refine ⟨logInv_emptyTopicLog, snapshotRun_appendBeforeRecords emptyTopicLog ⟨"t", 0⟩ _,
    by decide +kernel, hrecords, hnext, by decide +kernel, fun habove => ?_⟩
  obtain ⟨r, hr, -⟩ := mem_map.mp (hrecords ▸ mem_singleton_self 0)
  have hlt := habove ⟨"t", 0⟩ r hr
  rw [hnext] at hlt
  exact Nat.not_lt_zero _ hlt

end Ech0.Store
