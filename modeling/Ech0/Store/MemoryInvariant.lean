/-
  The invariant of the metadata store, and its snapshot round trip.

  Every table of the store keeps its values under keys computed from them, and holds only
  values that the save functions accept. Both matter to a restoration, which computes the keys
  again and passes over values it would not accept: with the invariant a store comes back from
  its own snapshot exactly as it was (`restore_snapshot`).

  A pause that is off would be lost on the way. The handler deletes such a pause instead of
  saving it, so the invariant asks that every stored pause is on.
-/
import Ech0.Store.Memory

set_option autoImplicit false

namespace Ech0.Store

open Ech0.Lib MemoryStore List

structure MemInv (s : MemoryStore) : Prop where
  topics : ∀ e ∈ s.topics.entries, e.2.name = e.1 ∧ e.1 ≠ "" ∧ normalizeTopic e.2 = e.2
  offsets : ∀ key : String,
    s.offsets[key]? = (s.offsetStates[key]?).map ConsumerOffsetState.nextOffset
  offsetStates : s.offsetStates.KeyedBy (fun state => offsetKey state.consumer state.topicPartition)
    (fun state => validateConsumerState state.consumer state.topic = .ok ())
  consumerPauses : s.consumerPauses.KeyedBy
    (fun state => consumerPauseKey state.consumer state.topicPartition)
    (fun state => validateConsumerState state.consumer state.topic = .ok () ∧ state.paused = true)
  placements : s.placements.KeyedBy ShardPlacement.topicPartition
    (fun placement => validateShardPlacement placement = .ok ())
  members : s.members.KeyedBy (fun member => groupMemberKey member.group member.memberID)
    (fun member => sortTopics member = member)
  assignments : s.assignments.KeyedBy ConsumerGroupAssignment.group (fun _ => True)
  transactions : s.transactions.KeyedBy TransactionState.txID (fun state => state.txID ≠ 0)
  nextTxID : s.nextTxID ≠ 0 ∧ ∀ txID state, s.transactions[txID]? = some state → txID < s.nextTxID
  producerBatches : s.producerBatches.KeyedBy producerBatchKey
    (fun batch => validateProducerBatch batch = .ok ())
  aclPolicies : s.aclPolicies.KeyedBy ACLPolicy.policyID
    (fun policy => validateACLPolicy policy = .ok ())
  dlqIndexes : s.dlqIndexes.KeyedBy dlqEntryKey (fun entry => validateDLQIndexEntry entry = .ok ())

namespace MemInv

lemma empty : MemInv {} where
  topics := by simp [OrderedMap.empty]
  offsets := by simp
  offsetStates := .empty
  consumerPauses := .empty
  placements := .empty
  members := .empty
  assignments := .empty
  transactions := .empty
  nextTxID := by simp
  producerBatches := .empty
  aclPolicies := .empty
  dlqIndexes := .empty

variable {s s' : MemoryStore}

/-! ## The save functions keep the invariant -/

/-- A check in front of a save: it has passed if the save went through. -/
lemma check_ok {check : Except Error Unit} {result : MemoryStore}
    (h : (check >>= fun _ => Except.ok result) = .ok s') : check = .ok () ∧ s' = result := by
  cases check with
  | error err => cases h
  | ok _ =>
    cases h
    exact ⟨rfl, rfl⟩

lemma sortTopics_idem (member : ConsumerGroupMember) :
    sortTopics (sortTopics member) = sortTopics member := by
  have hsorted : sortedStrings (sortedStrings member.topics) = sortedStrings member.topics :=
    (pairwise_insertionSort (· ≤ ·) member.topics).insertionSort_eq
  rw [sortTopics, sortTopics, hsorted]

variable (hinv : MemInv s)

include hinv

lemma saveTopicConfig {topic : TopicConfig} (h : s.saveTopicConfig topic = .ok s') : MemInv s' := by
  unfold MemoryStore.saveTopicConfig at h
  split at h
  · cases h
  · next hname =>
    cases h
    refine { hinv with topics := ?_ }
    rintro ⟨name, found⟩ he
    rw [OrderedMap.mem_entries_iff, OrderedMap.get_set] at he
    split at he
    · next heq =>
      cases he
      exact ⟨heq, heq ▸ hname, normalizeTopic_idem topic⟩
    · exact hinv.topics _ ((OrderedMap.mem_entries_iff _ _ _).mpr he)

lemma saveConsumerOffsetState {state : ConsumerOffsetState}
    (h : s.saveConsumerOffsetState state = .ok s') : MemInv s' := by
  obtain ⟨hvalid, rfl⟩ := check_ok h
  refine { hinv with offsets := fun key => ?_, offsetStates := hinv.offsetStates.insert hvalid }
  rw [Map.get_insert, Map.get_insert]
  split
  · rfl
  · exact hinv.offsets key

lemma deleteConsumerOffsetState (consumer : String) (tp : TopicPartition) :
    MemInv (s.deleteConsumerOffsetState consumer tp) := by
  refine { hinv with offsets := fun key => ?_, offsetStates := hinv.offsetStates.erase _ }
  change (s.offsets.erase (offsetKey consumer tp))[key]?
    = ((s.offsetStates.erase (offsetKey consumer tp))[key]?).map _
  rw [Map.get_erase, Map.get_erase]
  split
  · rfl
  · exact hinv.offsets key

lemma saveConsumerPause {state : ConsumerPauseState} (hon : state.paused = true)
    (h : s.saveConsumerPause state = .ok s') : MemInv s' := by
  obtain ⟨hvalid, rfl⟩ := check_ok h
  exact { hinv with consumerPauses := hinv.consumerPauses.insert ⟨hvalid, hon⟩ }

lemma deleteConsumerPause (consumer : String) (tp : TopicPartition) :
    MemInv (s.deleteConsumerPause consumer tp) :=
  { hinv with consumerPauses := hinv.consumerPauses.erase _ }

lemma saveShardPlacement {placement : ShardPlacement}
    (h : s.saveShardPlacement placement = .ok s') : MemInv s' := by
  obtain ⟨hvalid, rfl⟩ := check_ok h
  exact { hinv with placements := hinv.placements.insert hvalid }

lemma saveGroupMember {member : ConsumerGroupMember}
    (h : s.saveGroupMember member = .ok s') : MemInv s' := by
  unfold MemoryStore.saveGroupMember at h
  split at h
  · cases h
  · cases h
    exact { hinv with members := hinv.members.insert (sortTopics_idem member) }

lemma deleteExpiredGroupMembers (nowMS : Nat) : MemInv (s.deleteExpiredGroupMembers nowMS).2 :=
  { hinv with members := hinv.members.filter _ }

lemma saveGroupAssignment {assignment : ConsumerGroupAssignment}
    (h : s.saveGroupAssignment assignment = .ok s') : MemInv s' := by
  unfold MemoryStore.saveGroupAssignment at h
  split at h
  · cases h
  · cases h
    exact { hinv with assignments := hinv.assignments.insert trivial }

lemma allocateTransactionID : MemInv s.allocateTransactionID.2 := by
  obtain ⟨hne, hlt⟩ := hinv.nextTxID
  refine { hinv with nextTxID := ⟨Nat.succ_ne_zero _, fun txID state hget => ?_⟩ }
  have := hlt txID state hget
  change txID < (if s.nextTxID = 0 then 1 else s.nextTxID) + 1
  rw [if_neg hne]
  omega

lemma saveTransaction {state : TransactionState}
    (h : s.saveTransaction state = .ok s') : MemInv s' := by
  unfold MemoryStore.saveTransaction at h
  split at h
  · cases h
  · next hne =>
    cases h
    obtain ⟨hpos, hlt⟩ := hinv.nextTxID
    refine { hinv with transactions := hinv.transactions.insert hne, nextTxID := ?_ }
    refine ⟨?_, fun txID found hget => ?_⟩
    · dsimp only
      split
      · exact Nat.succ_ne_zero _
      · exact hpos
    · dsimp only at hget ⊢
      rw [Map.get_insert] at hget
      split at hget
      · next heq =>
        subst heq
        split <;> omega
      · have := hlt txID found hget
        split <;> omega

lemma saveProducerBatch {batch : ProducerPublishedBatch}
    (h : s.saveProducerBatch batch = .ok s') : MemInv s' := by
  obtain ⟨hvalid, rfl⟩ := check_ok h
  exact { hinv with producerBatches := hinv.producerBatches.insert hvalid }

lemma deleteProducerBatch (batch : ProducerPublishedBatch) : MemInv (s.deleteProducerBatch batch) :=
  { hinv with producerBatches := hinv.producerBatches.erase _ }

lemma saveACLPolicy {policy : ACLPolicy} (h : s.saveACLPolicy policy = .ok s') : MemInv s' := by
  obtain ⟨hvalid, rfl⟩ := check_ok h
  exact { hinv with aclPolicies := hinv.aclPolicies.insert hvalid }

lemma deleteACLPolicy {policyID : String} (h : s.deleteACLPolicy policyID = .ok s') : MemInv s' := by
  unfold MemoryStore.deleteACLPolicy at h
  split at h
  · cases h
  · cases h
    exact { hinv with aclPolicies := hinv.aclPolicies.erase _ }

lemma saveDLQIndex {entry : DLQIndexEntry} (h : s.saveDLQIndex entry = .ok s') : MemInv s' := by
  obtain ⟨hvalid, rfl⟩ := check_ok h
  exact { hinv with dlqIndexes := hinv.dlqIndexes.insert hvalid }

end MemInv

/-! ## The round trip -/

namespace MemoryStore

/-- A table is restored from its values in any order, if all of them are kept. -/
lemma restoreTable_eq {K V : Type} [Ord K] [Std.TransOrd K] [Std.LawfulEqOrd K] {key : V → K}
    {keep : V → Bool} {ok : V → Prop} {m : Map K V} (h : m.KeyedBy key ok)
    (hkeep : ∀ v, ok v → keep v = true) {values : List V}
    (hvalues : values.Perm (m.toList.map Prod.snd)) : restoreTable key keep values = m := by
  refine Eq.trans ?_ (h.setSome_eq hvalues (fun v => if keep v then some (key v, v) else none)
    fun v hv => if_pos (hkeep v hv))
  unfold restoreTable Map.setSome
  congr 1
  funext table v
  dsimp only
  split
  · rfl
  · rfl

lemma isOk_of_eq_ok {check : Except Error Unit} (h : check = .ok ()) : check.isOk = true := by
  rw [h]
  rfl

variable {s : MemoryStore}

/-- The offset states: those made from the plain offsets are all overwritten. -/
lemma restoreMemoryOffsetStates_eq (h : MemInv s) {states : List ConsumerOffsetState}
    (hstates : states.Perm (s.offsetStates.toList.map Prod.snd)) :
    restoreMemoryOffsetStates states s.offsets = s.offsetStates := by
  let entry (state : ConsumerOffsetState) : Option (String × ConsumerOffsetState) :=
    (validateConsumerState state.consumer state.topic).toOption.map fun _ =>
      (offsetKey state.consumer state.topicPartition, state)
  let offsetEntry (e : String × Nat) : Option (String × ConsumerOffsetState) :=
    (consumerOffsetStateFromKey e.1 e.2).map fun state => (e.1, state)
  have hfold : restoreMemoryOffsetStates states s.offsets
      = Map.setSome entry states (Map.setSome offsetEntry s.offsets.toList ∅) := by
    unfold restoreMemoryOffsetStates Map.setSome
    dsimp only
    congr 1
    · funext out state
      dsimp only [entry]
      rcases validateConsumerState state.consumer state.topic with err | _ <;> rfl
    · congr 1
      funext out e
      dsimp only [offsetEntry]
      split
      · next state hsome => rw [hsome, Option.map_some]
      · next hnone => rw [hnone, Option.map_none]
  have hentry : ∀ state, validateConsumerState state.consumer state.topic = .ok () →
      entry state = some (offsetKey state.consumer state.topicPartition, state) := by
    intro state hvalid
    dsimp only [entry]
    rw [hvalid]
    rfl
  rw [hfold]
  apply Map.ext_get
  intro key
  rw [h.offsetStates.get_setSome hstates entry hentry]
  cases hget : s.offsetStates[key]? with
  | some state => rfl
  | none =>
    rw [Option.none_or, Map.get_setSome_of_not_mem]
    · simp
    · rintro ⟨key', n⟩ he state hsome
      have hoffset := h.offsets key'
      rw [(Map.mem_toList _ _ _).mp he] at hoffset
      obtain ⟨parsed, -, heq⟩ := Option.map_eq_some_iff.mp hsome
      cases heq
      rw [hget] at hoffset
      cases hoffset

lemma restoreMemoryNextTransactionID_eq (h : MemInv s) {snapshot : Snapshot}
    (hnext : snapshot.nextTransactionID = s.nextTxID)
    (htxs : snapshot.transactions = s.transactions.toList.map Prod.snd) :
    restoreMemoryNextTransactionID snapshot = s.nextTxID := by
  obtain ⟨hpos, hlt⟩ := h.nextTxID
  have hloop : ∀ states : List TransactionState, (∀ state ∈ states, state.txID < s.nextTxID) →
      states.foldl (fun next state => if state.txID ≥ next then state.txID + 1 else next) s.nextTxID
        = s.nextTxID := by
    intro states hstates
    induction states with
    | nil => rfl
    | cons state rest ih =>
      obtain ⟨hfirst, hrest⟩ := forall_mem_cons.mp hstates
      rw [foldl_cons, if_neg (by omega)]
      exact ih hrest
  rw [restoreMemoryNextTransactionID, hnext, if_neg hpos, htxs]
  refine hloop _ fun state hstate => ?_
  obtain ⟨e, he, rfl⟩ := mem_map.mp hstate
  have hget := (Map.mem_toList _ _ _).mp he
  rw [(h.transactions _ _ hget).1]
  exact hlt _ _ hget

lemma checkRecordKeys_ok (es : List (String × List Record)) :
    checkRecordKeys es = .ok () ↔ ∀ e ∈ es, ∃ tp, parsePartitionKey e.1 = .ok tp := by
  induction es with
  | nil => simp [checkRecordKeys]
  | cons e rest ih =>
    obtain ⟨key, rs⟩ := e
    rw [checkRecordKeys, forall_mem_cons]
    cases hparse : parsePartitionKey key with
    | error err => exact iff_of_false nofun fun ⟨⟨_, h⟩, _⟩ => nomatch h
    | ok tp => exact ih.trans ⟨fun h => ⟨⟨tp, rfl⟩, h⟩, fun h => h.2⟩

/-- The members are sorted once more on the way out and on the way in. -/
lemma snapshot_members_sorted (h : MemInv s) :
    s.snapshot.members.map sortTopics = s.members.toList.map Prod.snd := by
  change (((s.members.toList.map Prod.snd).map sortTopics).map sortTopics) = _
  rw [map_map, map_map]
  refine map_congr_left fun e he => ?_
  have hsorted := (h.members e.1 e.2 ((Map.mem_toList _ _ _).mp he)).2
  rw [Function.comp_apply, Function.comp_apply, hsorted, hsorted]

/-- **The round trip.** From a snapshot that has the tables of a store, and whose record keys
all parse, the store is restored; its topics and its dead-letter index are those listed in the
snapshot. -/
theorem restore_snapshot (h : MemInv s) (old : MemoryStore) {topics : List TopicConfig}
    {records : Map String (List Record)} {logOffsets : Map String Nat} {dlqIndexes : List DLQIndexEntry}
    (hkeys : ∀ e ∈ records.toList, ∃ tp, parsePartitionKey e.1 = .ok tp) :
    old.restore { s.snapshot with
        topics := topics, records := records, logOffsets := logOffsets, dlqIndexes := dlqIndexes }
      = .ok { s with
          topics := restoreMemoryTopics topics
          dlqIndexes := restoreTable dlqEntryKey (fun entry => (validateDLQIndexEntry entry).isOk)
            dlqIndexes } := by
  unfold restore
  rw [(checkRecordKeys_ok _).mpr hkeys]
  refine congrArg Except.ok ?_
  simp only [MemoryStore.mk.injEq, true_and]
  refine ⟨rfl, ?_, ?_, ?_, ?_, ?_, ?_, ?_, ?_, ?_, rfl⟩
  · exact restoreMemoryOffsetStates_eq h (perm_insertionSort _ _)
  · refine restoreTable_eq h.consumerPauses (fun state hok => ?_) (perm_insertionSort _ _)
    rw [isOk_of_eq_ok hok.1, hok.2]
    rfl
  · exact restoreTable_eq h.placements (fun _ hok => isOk_of_eq_ok hok) (List.Perm.refl _)
  · refine restoreTable_eq h.members (fun _ _ => rfl) ?_
    rw [snapshot_members_sorted h]
  · exact restoreTable_eq h.assignments (fun _ _ => rfl) (List.Perm.refl _)
  · exact restoreTable_eq h.transactions (fun _ hok => decide_eq_true hok) (List.Perm.refl _)
  · exact restoreTable_eq h.producerBatches (fun _ hok => isOk_of_eq_ok hok)
      (perm_insertionSort _ _)
  · exact restoreTable_eq h.aclPolicies (fun _ hok => isOk_of_eq_ok hok)
      (perm_insertionSort _ _)
  · exact restoreMemoryNextTransactionID_eq h rfl rfl

end MemoryStore

end Ech0.Store
