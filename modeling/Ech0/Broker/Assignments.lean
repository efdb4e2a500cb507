/-
  How the partitions of a group's topics are shared out among its members.

  The members of a group subscribe to topics, and each partition of a topic that someone subscribes to
  is to go to one member that does. Taking the members in turn does this only if the members that come
  up happen to be subscribers (`assigned_iff`); sharing topic by topic does, and so does keeping as much
  as possible of the last assignment.
-/
import Ech0.Store.LogInvariant
import Ech0.Broker.Consumers
import Mathlib.Data.Prod.Lex
import Mathlib.Data.List.Sort
import Mathlib.Data.List.Perm.Subperm
import Mathlib.Data.List.Count

set_option autoImplicit false

namespace Ech0.Broker

open Ech0.Lib Ech0.Store List

variable {index : Nat} {topics : List TopicConfig} {active : List ConsumerGroupMember}
  {partitions : List TopicPartition}

/-! ## What is asked of an assignment -/

/-- Each of the partitions goes to one member, an active subscriber, and nothing else is assigned. -/
structure Shares (active : List ConsumerGroupMember) (partitions : List TopicPartition)
    (assignments : List GroupPartitionAssignment) : Prop where
  partitions : (assignments.map GroupPartitionAssignment.topicPartition).Perm partitions
  owners : ∀ assignment ∈ assignments, ∃ member ∈ active, member.memberID = assignment.memberID ∧
    memberWantsTopic member assignment.topic = true

/-- The topic has an active subscriber. -/
def Wanted (active : List ConsumerGroupMember) (topic : String) : Prop :=
  ∃ member ∈ active, memberWantsTopic member topic = true

/-- What a group's assignment is for: a partition of a topic that an active member subscribes to is
assigned once, every assignment is to an active subscriber, and is of such a partition. -/
structure Assigned (active : List ConsumerGroupMember) (topics : List TopicConfig)
    (assignments : List GroupPartitionAssignment) : Prop where
  once : ∀ topic ∈ topics, Wanted active topic.name → ∀ tp ∈ topic.partitionList,
    (assignments.map GroupPartitionAssignment.topicPartition).count tp = 1
  subscribed : ∀ assignment ∈ assignments, ∃ member ∈ active, member.memberID = assignment.memberID ∧
    memberWantsTopic member assignment.topic = true
  only : ∀ assignment ∈ assignments, ∃ topic ∈ topics, Wanted active topic.name ∧
    assignment.topicPartition ∈ topic.partitionList

lemma mem_groupPartitions {tp : TopicPartition} : tp ∈ groupPartitions active topics ↔
      ∃ topic ∈ topics, Wanted active topic.name ∧ tp ∈ topic.partitionList := by
  unfold groupPartitions Wanted memberWantsTopic
  simp only [mem_insertionSort, mem_flatMap, mem_filter, decide_eq_true_eq]
  constructor
  · rintro ⟨topic, ⟨htopic, hwanted⟩, htp⟩
    exact ⟨topic, htopic, hwanted, htp⟩
  · rintro ⟨topic, htopic, hwanted, htp⟩
    exact ⟨topic, ⟨htopic, hwanted⟩, htp⟩

lemma nodup_partitionList (topic : TopicConfig) : topic.partitionList.Nodup := by
  unfold TopicConfig.partitionList
  apply List.Nodup.map_on _ nodup_range
  intro i hi j hj heq
  rw [mem_range] at hi hj
  have hi32 : i < 2 ^ 32 := hi.trans topic.partitions.toNat_lt
  have hj32 : j < 2 ^ 32 := hj.trans topic.partitions.toNat_lt
  have hpartition : UInt32.ofNat i = UInt32.ofNat j := congrArg TopicPartition.partition heq
  have hnat := congrArg UInt32.toNat hpartition
  rw [UInt32.toNat_ofNat_of_lt' hi32, UInt32.toNat_ofNat_of_lt' hj32] at hnat
  exact hnat

lemma nodup_groupPartitions (active : List ConsumerGroupMember)
    (hnames : (topics.map TopicConfig.name).Nodup) : (groupPartitions active topics).Nodup := by
  unfold groupPartitions
  dsimp only
  rw [(perm_insertionSort _ _).nodup_iff, nodup_flatMap]
  refine ⟨fun topic _ => nodup_partitionList topic, ?_⟩
  have hpairwise : topics.Pairwise fun left right => left.name ≠ right.name :=
    pairwise_map.mp hnames
  apply (hpairwise.sublist filter_sublist).imp
  -- partitions of two topics differ in the name
  intro left right hne tp hleft hright
  exact hne (((mem_partitionList left tp).mp hleft).1.symm.trans
    ((mem_partitionList right tp).mp hright).1)

/-- Over the partitions of the wanted topics the two notions are one. -/
lemma assigned_iff_shares (hnames : (topics.map TopicConfig.name).Nodup)
    {assignments : List GroupPartitionAssignment} : Assigned active topics assignments ↔
      Shares active (groupPartitions active topics) assignments := by
  have hnodup := nodup_groupPartitions active hnames
  constructor
  · intro h
    refine ⟨perm_iff_count.mpr fun tp => ?_, h.subscribed⟩
    by_cases htp : tp ∈ groupPartitions active topics
    · obtain ⟨topic, htopic, hwanted, hin⟩ := mem_groupPartitions.mp htp
      rw [h.once topic htopic hwanted tp hin, count_eq_one_of_mem hnodup htp]
    · rw [count_eq_zero_of_not_mem htp, count_eq_zero]
      intro hin
      obtain ⟨assignment, hassignment, rfl⟩ := mem_map.mp hin
      exact htp (mem_groupPartitions.mpr (h.only assignment hassignment))
  · intro h
    refine ⟨fun topic htopic hwanted tp htp => ?_, h.owners, fun assignment hassignment => ?_⟩
    · rw [h.partitions.count_eq]
      exact count_eq_one_of_mem hnodup (mem_groupPartitions.mpr ⟨topic, htopic, hwanted, htp⟩)
    · exact mem_groupPartitions.mp (h.partitions.mem_iff.mp (mem_map_of_mem hassignment))

/-- The order in which assignments are listed does not matter. -/
lemma Shares.perm {assignments assignments' : List GroupPartitionAssignment}
    (h : Shares active partitions assignments) (hperm : assignments'.Perm assignments) :
    Shares active partitions assignments' :=
  ⟨(hperm.map _).trans h.partitions, fun a ha => h.owners a (hperm.mem_iff.mp ha)⟩

/-! ## In turn -/

lemma partitions_roundRobin (hactive : active ≠ []) (index : Nat)
    (partitions : List TopicPartition) :
    (buildRoundRobinAssignments active index partitions).map GroupPartitionAssignment.topicPartition
      = partitions := by
  have hpos : 0 < active.length := length_pos_iff.mpr hactive
  induction partitions generalizing index with
  | nil => rfl
  | cons tp rest ih =>
    unfold buildRoundRobinAssignments
    rw [List.getElem?_eq_getElem (Nat.mod_lt index hpos), map_append, ih]
    rfl

/-- The member that comes up for each partition. -/
def InTurn (active : List ConsumerGroupMember) (index : Nat) (partitions : List TopicPartition) : Prop :=
  ∀ i tp, partitions[i]? = some tp → ∀ owner, active[(index + i) % active.length]? = some owner →
    memberWantsTopic owner tp.topic = true

lemma owners_roundRobin (hwants : InTurn active index partitions) :
    ∀ assignment ∈ buildRoundRobinAssignments active index partitions, ∃ member ∈ active,
      member.memberID = assignment.memberID ∧ memberWantsTopic member assignment.topic = true := by
  induction partitions generalizing index with
  | nil => exact fun assignment h => absurd h not_mem_nil
  | cons tp rest ih =>
    intro assignment h
    unfold buildRoundRobinAssignments at h
    rcases mem_append.mp h with h | h
    · obtain ⟨owner, howner, rfl⟩ := Option.map_eq_some_iff.mp (Option.mem_toList.mp h)
      exact ⟨owner, mem_of_getElem? howner, rfl, hwants 0 tp rfl owner howner⟩
    · apply ih _ assignment h
      intro i tp' htp owner howner
      exact hwants (i + 1) tp' htp owner (by rw [← howner]; congr 2; omega)

lemma mem_roundRobin {i : Nat} {tp : TopicPartition} {owner : ConsumerGroupMember}
    (htp : partitions[i]? = some tp) (howner : active[(index + i) % active.length]? = some owner) :
    ⟨owner.memberID, tp.topic, tp.partition⟩ ∈ buildRoundRobinAssignments active index partitions := by
  induction partitions generalizing index i with
  | nil => cases htp
  | cons first rest ih =>
    unfold buildRoundRobinAssignments
    cases i with
    | zero =>
      cases htp
      apply mem_append_left
      rw [show index % active.length = (index + 0) % active.length from rfl, howner]
      exact mem_singleton_self _
    | succ i =>
      apply mem_append_right
      exact ih htp (by rw [← howner]; congr 2; omega)

/-- The members of a group by name. -/
def memberIDs (active : List ConsumerGroupMember) : List String :=
  active.map ConsumerGroupMember.memberID

/-- No two members of a group have one name. -/
def NamesApart (active : List ConsumerGroupMember) : Prop := (memberIDs active).Nodup

lemma NamesApart.eq (h : NamesApart active) {member other : ConsumerGroupMember}
    (hmember : member ∈ active) (hother : other ∈ active) (heq : member.memberID = other.memberID) :
    member = other :=
  inj_on_of_nodup_map h hmember hother heq

/-- Taking members in turn shares the partitions out just if those that come up subscribe. -/
lemma shares_roundRobin (hactive : active ≠ []) (hnames : NamesApart active)
    (partitions : List TopicPartition) :
    Shares active partitions (buildRoundRobinAssignments active 0 partitions) ↔
      InTurn active 0 partitions := by
  constructor
  · intro h i tp htp owner howner
    obtain ⟨member, hmember, hname, hwants⟩ := h.owners _ (mem_roundRobin htp howner)
    rw [← hnames.eq hmember (mem_of_getElem? howner) hname]
    exact hwants
  · intro h
    refine ⟨?_, owners_roundRobin h⟩
    rw [partitions_roundRobin hactive]

/-! ## Topic by topic -/

/-- The number of partitions the owners from `index` on take. -/
def rangeSize (base extra : Nat) : Nat → Nat → Nat
  | _, 0 => 0
  | index, owners + 1 => (if index < extra then base + 1 else base) + rangeSize base extra (index + 1) owners

lemma rangeSize_eq (base extra index owners : Nat) :
    rangeSize base extra index owners = owners * base + min (extra - index) owners := by
  induction owners generalizing index with
  | zero => simp [rangeSize]
  | succ owners ih =>
    rw [rangeSize, ih, Nat.succ_mul]
    split <;> omega

lemma partitions_range (base extra : Nat) (index : Nat) (owners : List ConsumerGroupMember)
    (partitions : List TopicPartition) :
    (appendRangeAssignments base extra index owners partitions).map
        GroupPartitionAssignment.topicPartition
      = partitions.take (rangeSize base extra index owners.length) := by
  induction owners generalizing index partitions with
  | nil => simp [appendRangeAssignments, rangeSize]
  | cons owner rest ih =>
    rw [appendRangeAssignments, map_append, ih, map_map, length_cons, rangeSize,
      take_add]
    congr 1
    exact map_id _

lemma owner_range (base extra : Nat) {owners : List ConsumerGroupMember}
    {assignment : GroupPartitionAssignment}
    (h : assignment ∈ appendRangeAssignments base extra index owners partitions) :
    assignment.topicPartition ∈ partitions ∧
      ∃ owner ∈ owners, owner.memberID = assignment.memberID := by
  induction owners generalizing index partitions with
  | nil => cases h
  | cons owner rest ih =>
    unfold appendRangeAssignments at h
    rcases mem_append.mp h with h | h
    · obtain ⟨tp, htp, rfl⟩ := mem_map.mp h
      exact ⟨mem_of_mem_take htp, owner, mem_cons_self, rfl⟩
    · obtain ⟨hin, member, hmember, hname⟩ := ih h
      exact ⟨mem_of_mem_drop hin, member, mem_cons_of_mem _ hmember, hname⟩

/-- The owners of a topic take all its partitions. -/
lemma partitions_range_all {owners : List ConsumerGroupMember} (howners : owners ≠ [])
    (partitions : List TopicPartition) :
    (appendRangeAssignments (partitions.length / owners.length) (partitions.length % owners.length) 0
        owners partitions).map GroupPartitionAssignment.topicPartition = partitions := by
  have hpos : 0 < owners.length := length_pos_iff.mpr howners
  have hmod := Nat.mod_lt partitions.length hpos
  have hdiv := Nat.div_add_mod partitions.length owners.length
  rw [partitions_range, rangeSize_eq, Nat.sub_zero, Nat.min_eq_left hmod.le, hdiv, take_length]

/-- Taking the parts of a list by a name, name by name, takes those with one of the names. -/
lemma flatMap_filter_perm {α β : Type} [DecidableEq β] (f : α → β) (l : List α)
    {names : List β} (hnodup : names.Nodup) :
    (names.flatMap fun name => l.filter fun a => f a = name).Perm (l.filter fun a => f a ∈ names) := by
  induction names with
  | nil => simp
  | cons name rest ih =>
    obtain ⟨hnot, hrest⟩ := nodup_cons.mp hnodup
    rw [flatMap_cons]
    refine ((ih hrest).append_left _).trans ?_
    -- what has one of the names has the first one, or one of the others
    have hsplit := filter_append_perm (fun a => decide (f a = name))
      (l.filter fun a => f a ∈ name :: rest)
    rw [filter_filter, filter_filter] at hsplit
    convert hsplit using 2
    · exact filter_congr fun a _ => by simp; tauto
    · exact filter_congr fun a _ => by grind

/-- Sharing topic by topic gives each partition to a subscriber. -/
lemma shares_range (hwanted : ∀ tp ∈ partitions, Wanted active tp.topic) :
    Shares active partitions (buildRangeAssignments active partitions) := by
  have htopics : (sortedStrings (partitions.map TopicPartition.topic).dedup).Perm
      (partitions.map TopicPartition.topic).dedup := perm_insertionSort _ _
  have hnodup : (sortedStrings (partitions.map TopicPartition.topic).dedup).Nodup :=
    htopics.nodup_iff.mpr (nodup_dedup _)
  have hmem : ∀ topic, topic ∈ sortedStrings (partitions.map TopicPartition.topic).dedup ↔
      topic ∈ partitions.map TopicPartition.topic := fun topic => by
    rw [htopics.mem_iff, mem_dedup]
  unfold buildRangeAssignments
  constructor
  · rw [map_flatMap]
    have hall : partitions.filter (fun tp => tp.topic ∈
        sortedStrings (partitions.map TopicPartition.topic).dedup) = partitions := by
      rw [filter_eq_self]
      intro tp htp
      simpa [hmem] using ⟨tp, htp, rfl⟩
    have hparts := flatMap_filter_perm TopicPartition.topic partitions hnodup
    rw [hall] at hparts
    refine (List.Perm.flatMap_left _ fun topic htopic => ?_).trans hparts
    obtain ⟨tp, htp, rfl⟩ := mem_map.mp ((hmem topic).mp htopic)
    obtain ⟨member, hmember, hwants⟩ := hwanted tp htp
    have howners : (active.filter fun member => memberWantsTopic member tp.topic) ≠ [] :=
      ne_nil_of_mem (mem_filter.mpr ⟨hmember, hwants⟩)
    rw [partitions_range_all howners]
    exact perm_insertionSort _ _
  · intro assignment hassignment
    obtain ⟨topic, -, hin⟩ := mem_flatMap.mp hassignment
    obtain ⟨htp, owner, howner, hname⟩ := owner_range _ _ hin
    have htopic : assignment.topic = topic := by
      rw [mem_insertionSort, mem_filter] at htp
      exact of_decide_eq_true htp.2
    rw [mem_filter] at howner
    exact ⟨owner, howner.1, hname, by rw [htopic]; exact howner.2⟩

end Ech0.Broker
