/-
  Keeping as much as possible of the last assignment.

  What a member had and may keep stays with it, what is left goes to the member with the least, and
  then partitions are moved from members with more than their share to members with less. The first
  two steps already share everything out (`shares_sticky`). The moves stop as soon as no member has
  less than its share, or none more: so a share that is not a whole number can be missed, by one
  member with too little or by one with too much (`sticky_even_iff`).
-/
import Ech0.Lib.Balance
import Ech0.Lib.KeyedInsert
import Ech0.Broker.Assignments

set_option autoImplicit false

namespace Ech0.Broker

open Ech0.Lib Ech0.Store List GroupPartitionAssignment

variable {minLoad maxLoad : Nat} {target : ConsumerGroupMember} {rest : List TopicPartition}
  {tp : TopicPartition} {previous : List GroupPartitionAssignment}
  (assignments : List GroupPartitionAssignment)

/-! ## What is kept -/

/-- The assignment may stay: its partition is still to be assigned, and its member is an active
subscriber. -/
def MayStay (active : List ConsumerGroupMember) (partitions : List TopicPartition)
    (assignment : GroupPartitionAssignment) : Bool :=
  assignment.topicPartition ∈ partitions ∧ active.any fun member =>
    member.memberID = assignment.memberID ∧ memberWantsTopic member assignment.topic

section
variable {active : List ConsumerGroupMember} {partitions : List TopicPartition}
  {assignment : GroupPartitionAssignment}

lemma mayStay_iff :
    MayStay active partitions assignment = true ↔ assignment.topicPartition ∈ partitions ∧
      ∃ member ∈ active, member.memberID = assignment.memberID ∧
        memberWantsTopic member assignment.topic = true := by
  simp [MayStay]

lemma retained_cons (seen : List TopicPartition) (first : GroupPartitionAssignment)
    (rest : List GroupPartitionAssignment) :
    retainedStickyAssignments active partitions seen (first :: rest) =
      if first.topicPartition ∉ seen ∧ MayStay active partitions first = true then
        first :: retainedStickyAssignments active partitions (first.topicPartition :: seen) rest
      else retainedStickyAssignments active partitions seen rest := by
  rw [retainedStickyAssignments]
  by_cases hseen : first.topicPartition ∈ seen
  · rw [if_pos (.inl hseen), if_neg (fun h => h.1 hseen)]
  · by_cases hin : first.topicPartition ∈ partitions
    · rw [if_neg (by simp [hseen, hin])]
      by_cases howner : active.any fun member =>
          member.memberID = first.memberID ∧ memberWantsTopic member first.topic
      · rw [if_pos howner, if_pos ⟨hseen, by simpa [MayStay, hin] using howner⟩]
      · rw [if_neg howner, if_neg (fun h => howner (by simpa [MayStay, hin] using h.2))]
    · rw [if_pos (.inr hin), if_neg (fun h => hin (mayStay_iff.mp h.2).1)]

/-- An assignment is kept if it is the first one of its partition that may stay. -/
lemma mem_retained {seen : List TopicPartition} :
    assignment ∈ retainedStickyAssignments active partitions seen previous ↔
      assignment.topicPartition ∉ seen ∧
        previous.find? (fun a => a.topicPartition = assignment.topicPartition ∧
          MayStay active partitions a) = some assignment := by
  induction previous generalizing seen with
  | nil => simp [retainedStickyAssignments]
  | cons first rest ih =>
    rw [retained_cons, find?_cons]
    by_cases htp : first.topicPartition = assignment.topicPartition
    · by_cases hstay : MayStay active partitions first = true
      · by_cases hseen : first.topicPartition ∈ seen
        · rw [if_neg (fun h => h.1 hseen), ih]
          simp [← htp, hseen]
        · have hfirst : decide (first.topicPartition = assignment.topicPartition ∧
              MayStay active partitions first = true) = true := by simp [htp, hstay]
          rw [if_pos ⟨hseen, hstay⟩, mem_cons, ih, hfirst]
          constructor
          · rintro (rfl | ⟨hnot, -⟩)
            · exact ⟨hseen, rfl⟩
            · exact absurd (htp ▸ mem_cons_self) hnot
          · exact fun h => .inl (Option.some.inj h.2).symm
      · rw [if_neg (fun h => hstay h.2), ih]
        simp [hstay]
    · -- the first one is of another partition
      have hne : assignment ≠ first := fun heq => htp (by rw [heq])
      by_cases hkept : first.topicPartition ∉ seen ∧ MayStay active partitions first = true
      · rw [if_pos hkept, mem_cons, ih]
        simp [hne, htp, Ne.symm htp]
      · rw [if_neg hkept, ih]
        simp [htp]

lemma nodup_retained (seen : List TopicPartition) (previous : List GroupPartitionAssignment) :
    ((retainedStickyAssignments active partitions seen previous).map topicPartition).Nodup := by
  induction previous generalizing seen with
  | nil => exact nodup_nil
  | cons first rest ih =>
    rw [retained_cons]
    split
    · rw [map_cons, nodup_cons]
      refine ⟨fun hin => ?_, ih _⟩
      obtain ⟨assignment, hassignment, htp⟩ := mem_map.mp hin
      exact (mem_retained.mp hassignment).1 (htp ▸ mem_cons_self)
    · exact ih seen

lemma mayStay_of_retained {seen : List TopicPartition}
    (h : assignment ∈ retainedStickyAssignments active partitions seen previous) :
    MayStay active partitions assignment = true := by
  have hfound := find?_some (mem_retained.mp h).2
  simp only [decide_eq_true_eq] at hfound
  exact hfound.2

/-! ## What is missing -/

lemma memberLoadLE_iff (left right : ConsumerGroupMember) :
    memberLoadLE assignments left right = true ↔
      toLex (memberLoad assignments left.memberID, left.memberID) ≤
        toLex (memberLoad assignments right.memberID, right.memberID) := by
  rw [Prod.Lex.toLex_le_toLex]
  unfold memberLoadLE
  by_cases heq : memberLoad assignments left.memberID = memberLoad assignments right.memberID
  · simp [heq]
  · simp [heq]

/-- The members in the order of their loads. -/
lemma pairwise_loads (members : List ConsumerGroupMember) :
    (members.insertionSort fun left right => memberLoadLE assignments left right).Pairwise
      fun left right => memberLoadLE assignments left right = true :=
  pairwise_insertionSort_of_key _ (memberLoadLE_iff assignments) members

variable {assignments : List GroupPartitionAssignment}

lemma load_le_of_memberLoadLE {left right : ConsumerGroupMember}
    (h : memberLoadLE assignments left right = true) :
    memberLoad assignments left.memberID ≤ memberLoad assignments right.memberID := by
  rw [memberLoadLE_iff, Prod.Lex.toLex_le_toLex] at h
  rcases h with h | h
  · exact h.le
  · exact h.1.le

/-- The member chosen is an active subscriber, and none of them has less. -/
lemma leastLoaded_some {topic : String} {owner : ConsumerGroupMember}
    (h : leastLoadedEligibleMember assignments active topic = some owner) :
    owner ∈ active ∧ memberWantsTopic owner topic = true ∧
      ∀ member ∈ active, memberWantsTopic member topic = true →
        memberLoad assignments owner.memberID ≤ memberLoad assignments member.memberID := by
  unfold leastLoadedEligibleMember at h
  have hsorted := pairwise_loads assignments (active.filter fun m => memberWantsTopic m topic)
  have hmem : ∀ member, member ∈ (active.filter fun m => memberWantsTopic m topic).insertionSort
      (fun left right => memberLoadLE assignments left right) ↔
      member ∈ active ∧ memberWantsTopic member topic = true := by
    intro member
    rw [mem_insertionSort, mem_filter]
  generalize (active.filter fun m => memberWantsTopic m topic).insertionSort
    (fun left right => memberLoadLE assignments left right) = sorted at h hsorted hmem
  cases sorted with
  | nil => cases h
  | cons first rest =>
    cases h
    obtain ⟨hfirst, -⟩ := pairwise_cons.mp hsorted
    obtain ⟨hin, hwants⟩ := (hmem owner).mp mem_cons_self
    refine ⟨hin, hwants, fun member hmember hwants' => ?_⟩
    rcases mem_cons.mp ((hmem member).mpr ⟨hmember, hwants'⟩) with rfl | hrest
    · exact le_rfl
    · exact load_le_of_memberLoadLE (hfirst member hrest)

lemma exists_leastLoaded (assignments : List GroupPartitionAssignment) {topic : String}
    (hwanted : Wanted active topic) :
    ∃ owner, leastLoadedEligibleMember assignments active topic = some owner := by
  obtain ⟨member, hmember, hwants⟩ := hwanted
  unfold leastLoadedEligibleMember
  rw [← Option.isSome_iff_exists, isSome_head?]
  apply ne_nil_of_mem
  rw [mem_insertionSort, mem_filter]
  exact ⟨hmember, hwants⟩

/-- One round of the loop over the partitions, if the topic of the partition is wanted. -/
lemma assignMissing_cons (hmissing : tp ∉ assignments.map topicPartition)
    {owner : ConsumerGroupMember}
    (howner : leastLoadedEligibleMember assignments active tp.topic = some owner) :
    assignMissingPartitions active assignments (tp :: rest) = assignMissingPartitions active
      (assignments ++ [⟨owner.memberID, tp.topic, tp.partition⟩]) rest := by
  rw [assignMissingPartitions, if_neg hmissing, howner]

/-- The partitions that nobody has. -/
def unassigned (assignments : List GroupPartitionAssignment) (partitions : List TopicPartition) :
    List TopicPartition :=
  partitions.filter fun tp => tp ∉ assignments.map GroupPartitionAssignment.topicPartition

lemma unassigned_cons_of_mem (h : tp ∈ assignments.map topicPartition) :
    unassigned assignments (tp :: rest) = unassigned assignments rest := by
  unfold unassigned
  rw [filter_cons, if_neg (by simp [h])]

lemma unassigned_cons_of_notMem (h : tp ∉ assignments.map topicPartition)
    : unassigned assignments (tp :: rest) = tp :: unassigned assignments rest := by
  unfold unassigned
  rw [filter_cons, if_pos (by simp [h])]

/-- The partition just assigned does not come again. -/
lemma unassigned_concat (assignments : List GroupPartitionAssignment) (memberID : String)
    (hnot : tp ∉ rest) : unassigned (assignments ++ [⟨memberID, tp.topic, tp.partition⟩]) rest
      = unassigned assignments rest := by
  apply filter_congr
  intro other hother
  have hother' : other ≠ tp := fun heq => hnot (heq ▸ hother)
  have hne : other ≠ (⟨memberID, tp.topic, tp.partition⟩ : GroupPartitionAssignment).topicPartition :=
    hother'
  simp only [map_append, map_singleton, mem_append, mem_singleton, hne, or_false]

/-- The loop assigns what is missing, and leaves what is there. -/
lemma partitions_assignMissing (hnodup : rest.Nodup)
    (hwanted : ∀ tp ∈ rest, Wanted active tp.topic) (assignments : List GroupPartitionAssignment) :
    (assignMissingPartitions active assignments rest).map topicPartition
      = assignments.map topicPartition ++ unassigned assignments rest := by
  induction rest generalizing assignments with
  | nil => simp [assignMissingPartitions, unassigned]
  | cons tp rest ih =>
    obtain ⟨hnot, hrest⟩ := nodup_cons.mp hnodup
    have hlater : ∀ tp ∈ rest, Wanted active tp.topic :=
      fun tp htp => hwanted tp (mem_cons_of_mem _ htp)
    by_cases hin : tp ∈ assignments.map topicPartition
    · rw [assignMissingPartitions, if_pos hin, ih hrest hlater, unassigned_cons_of_mem hin]
    · obtain ⟨owner, howner⟩ := exists_leastLoaded assignments (hwanted tp mem_cons_self)
      rw [assignMissing_cons hin howner, ih hrest hlater, unassigned_cons_of_notMem hin,
        unassigned_concat assignments owner.memberID hnot, map_append, append_assoc]
      rfl

lemma owners_assignMissing (howners : ∀ assignment ∈ assignments, ∃ member ∈ active,
      member.memberID = assignment.memberID ∧ memberWantsTopic member assignment.topic = true)
    (rest : List TopicPartition) :
    ∀ assignment ∈ assignMissingPartitions active assignments rest, ∃ member ∈ active,
      member.memberID = assignment.memberID ∧ memberWantsTopic member assignment.topic = true := by
  induction rest generalizing assignments with
  | nil => exact howners
  | cons tp rest ih =>
    by_cases hin : tp ∈ assignments.map topicPartition
    · rw [assignMissingPartitions, if_pos hin]
      exact ih howners
    · cases howner : leastLoadedEligibleMember assignments active tp.topic with
      | none =>
        rw [assignMissingPartitions, if_neg hin, howner]
        exact ih howners
      | some owner =>
        obtain ⟨hmember, hwants, -⟩ := leastLoaded_some howner
        rw [assignMissing_cons hin howner]
        exact ih (forall_mem_append.mpr ⟨howners,
          forall_mem_singleton.mpr ⟨owner, hmember, rfl, hwants⟩⟩)

/-- Keeping and filling up already share everything out. -/
lemma shares_filled (hnodup : partitions.Nodup) (hwanted : ∀ tp ∈ partitions, Wanted active tp.topic)
    (previous : List GroupPartitionAssignment) :
    Shares active partitions (assignMissingPartitions active
      (retainedStickyAssignments active partitions [] previous) partitions) := by
  refine ⟨?_, owners_assignMissing (fun a ha => (mayStay_iff.mp (mayStay_of_retained ha)).2) _⟩
  rw [partitions_assignMissing hnodup hwanted]
  unfold unassigned
  generalize hretained : (retainedStickyAssignments active partitions [] previous).map
    topicPartition = retained
  have hretainedNodup : retained.Nodup := hretained ▸ nodup_retained [] previous
  have hsubset : ∀ tp ∈ retained, tp ∈ partitions := by
    intro tp htp
    rw [← hretained] at htp
    obtain ⟨assignment, hassignment, rfl⟩ := mem_map.mp htp
    exact (mayStay_iff.mp (mayStay_of_retained hassignment)).1
  rw [perm_ext_iff_of_nodup _ hnodup]
  · intro tp
    rw [mem_append, mem_filter]
    constructor
    · rintro (h | h)
      · exact hsubset tp h
      · exact h.1
    · intro h
      by_cases hin : tp ∈ retained
      · exact .inl hin
      · exact .inr ⟨h, by simpa using hin⟩
  · rw [nodup_append]
    refine ⟨hretainedNodup, hnodup.filter _, fun a ha b hb heq => ?_⟩
    have hnot := (mem_filter.mp hb).2
    rw [decide_eq_true_eq, ← heq] at hnot
    exact hnot ha

/-! ## Moves -/

/-- The member could be given the assignment, from one with more than its share. -/
def Movable (assignments : List GroupPartitionAssignment) (maxLoad : Nat)
    (target : ConsumerGroupMember) (assignment : GroupPartitionAssignment) : Prop :=
  assignment.memberID ≠ target.memberID ∧ maxLoad < memberLoad assignments assignment.memberID ∧
    memberWantsTopic target assignment.topic = true

lemma movable_some {maxLoad index : Nat}
    (h : movableAssignmentIndex assignments target maxLoad = some index) :
    ∃ assignment, assignments[index]? = some assignment ∧
      Movable assignments maxLoad target assignment := by
  unfold movableAssignmentIndex at h
  dsimp only at h
  obtain ⟨⟨assignment, i⟩, hhead, rfl⟩ := Option.map_eq_some_iff.mp h
  have hmem := mem_of_head? hhead
  rw [mem_insertionSort, mem_filter] at hmem
  refine ⟨assignment, ?_, by simpa [Movable] using hmem.2⟩
  have hindex := mem_zipIdx_iff_getElem?.mp hmem.1
  exact hindex

lemma movable_none : movableAssignmentIndex assignments target maxLoad = none ↔
      ∀ assignment ∈ assignments, ¬ Movable assignments maxLoad target assignment := by
  unfold movableAssignmentIndex
  dsimp only
  rw [Option.map_eq_none_iff, head?_eq_none_iff, eq_nil_iff_forall_not_mem]
  constructor
  · intro h assignment hassignment hmovable
    obtain ⟨i, hi⟩ := getElem?_of_mem hassignment
    apply h (assignment, i)
    rw [mem_insertionSort, mem_filter]
    exact ⟨mem_zipIdx_iff_getElem?.mpr hi, by simpa [Movable] using hmovable⟩
  · rintro h ⟨assignment, i⟩ hmem
    rw [mem_insertionSort, mem_filter] at hmem
    exact h assignment (mem_of_getElem? (mem_zipIdx_iff_getElem?.mp hmem.1))
      (by simpa [Movable] using hmem.2)

/-- One move: an assignment, in its place, is given to the target. -/
structure MovedOne (assignments moved : List GroupPartitionAssignment) (maxLoad : Nat)
    (target : ConsumerGroupMember) (assignment : GroupPartitionAssignment) : Prop where
  movable : Movable assignments maxLoad target assignment
  split : ∃ before after, assignments = before ++ assignment :: after ∧
    moved = before ++ { assignment with memberID := target.memberID } :: after

variable {assignments moved : List GroupPartitionAssignment}

lemma moveOne_some {targets : List ConsumerGroupMember}
    (h : moveOneStickyAssignment assignments maxLoad targets = some moved) :
    ∃ target ∈ targets, ∃ assignment, MovedOne assignments moved maxLoad target assignment := by
  induction targets with
  | nil => cases h
  | cons target rest ih =>
    unfold moveOneStickyAssignment at h
    cases hindex : movableAssignmentIndex assignments target maxLoad with
    | none =>
      rw [hindex] at h
      obtain ⟨other, hother, hmoved⟩ := ih h
      exact ⟨other, mem_cons_of_mem _ hother, hmoved⟩
    | some index =>
      rw [hindex] at h
      cases h
      obtain ⟨assignment, hget, hmovable⟩ := movable_some hindex
      obtain ⟨hlt, hat⟩ := List.getElem?_eq_some_iff.mp hget
      refine ⟨target, mem_cons_self, assignment, hmovable, assignments.take index,
        assignments.drop (index + 1), ?_, ?_⟩
      · rw [← hat, getElem_cons_drop, take_append_drop]
      · rw [modify_eq_take_cons_drop hlt, hat]

lemma moveOne_none {targets : List ConsumerGroupMember} :
    moveOneStickyAssignment assignments maxLoad targets = none ↔
      ∀ target ∈ targets, ∀ assignment ∈ assignments,
        ¬ Movable assignments maxLoad target assignment := by
  induction targets with
  | nil => simp [moveOneStickyAssignment]
  | cons target rest ih =>
    unfold moveOneStickyAssignment
    rw [forall_mem_cons, ← movable_none, ← ih]
    cases movableAssignmentIndex assignments target maxLoad <;> simp

/-! ## Loads (`groups_cooperative.go`) -/

lemma memberLoad_append (left right : List GroupPartitionAssignment) (memberID : String) :
    memberLoad (left ++ right) memberID = memberLoad left memberID + memberLoad right memberID := by
  unfold memberLoad
  rw [filter_append, length_append]

lemma memberLoad_cons (first : GroupPartitionAssignment) (rest : List GroupPartitionAssignment)
    (memberID : String) :
    memberLoad (first :: rest) memberID
      = (if first.memberID = memberID then 1 else 0) + memberLoad rest memberID := by
  unfold memberLoad
  rw [filter_cons]
  by_cases h : first.memberID = memberID
  · rw [if_pos (by simpa using h), if_pos h, length_cons, Nat.add_comm]
  · rw [if_neg (by simpa using h), if_neg h, Nat.zero_add]

lemma memberLoad_perm {assignments assignments' : List GroupPartitionAssignment}
    (h : assignments'.Perm assignments) : memberLoad assignments' = memberLoad assignments := by
  funext memberID
  exact (h.filter _).length_eq

section
variable (h : MovedOne assignments moved maxLoad target assignment)

include h

lemma MovedOne.moves :
    Moves (memberLoad assignments) (memberLoad moved) assignment.memberID target.memberID := by
  have hapart := h.movable.1
  obtain ⟨before, after, rfl, rfl⟩ := h.split
  refine ⟨hapart, ?_, ?_, fun memberID hsource htarget => ?_⟩
  · rw [memberLoad_append, memberLoad_append, memberLoad_cons, memberLoad_cons, if_neg hapart,
      if_pos rfl]
    omega
  · rw [memberLoad_append, memberLoad_append, memberLoad_cons, memberLoad_cons,
      if_neg (Ne.symm hapart), if_pos rfl]
    omega
  · rw [memberLoad_append, memberLoad_append, memberLoad_cons, memberLoad_cons,
      if_neg (Ne.symm hsource), if_neg (Ne.symm htarget)]

lemma MovedOne.samePartitions : moved.map topicPartition = assignments.map topicPartition := by
  obtain ⟨before, after, rfl, rfl⟩ := h.split
  simp only [map_append, map_cons]
  rfl

/-- What has a new owner went to a subscriber. -/
lemma MovedOne.owners {a : GroupPartitionAssignment} (ha : a ∈ moved) :
    a ∈ assignments ∨ target.memberID = a.memberID ∧ memberWantsTopic target a.topic = true := by
  obtain ⟨-, -, hwants⟩ := h.movable
  obtain ⟨before, after, rfl, rfl⟩ := h.split
  rcases mem_append.mp ha with ha | ha
  · exact .inl (mem_append_left _ ha)
  · rcases mem_cons.mp ha with rfl | ha
    · exact .inr ⟨rfl, hwants⟩
    · exact .inl (mem_append_right _ (mem_cons_of_mem _ ha))

/-- A move to an active subscriber leaves the partitions shared out. -/
lemma MovedOne.shares (htarget : target ∈ active) (hshares : Shares active partitions assignments) :
    Shares active partitions moved := by
  refine ⟨h.samePartitions ▸ hshares.partitions, fun a ha => ?_⟩
  rcases h.owners ha with ha | howner
  · exact hshares.owners a ha
  · exact ⟨target, htarget, howner⟩

end

lemma mem_underloaded {member : ConsumerGroupMember} :
    member ∈ underloadedMembers assignments active minLoad ↔
      member ∈ active ∧ memberLoad assignments member.memberID < minLoad := by
  unfold underloadedMembers
  rw [mem_insertionSort, mem_filter]
  simp

/-- One round of the loop of `balanceStickyAssignments`, in which something is moved. -/
def MovesOn (active : List ConsumerGroupMember) (minLoad maxLoad : Nat)
    (assignments moved : List GroupPartitionAssignment) : Prop :=
  moveOneStickyAssignment assignments maxLoad (underloadedMembers assignments active minLoad) = some moved

/-- What balancing does. The loop comes to an end: its rounds lead to the result, and there is no
further one. The partitions are those that were assigned, what has a new owner went to a subscriber, and
nobody is given more than the next whole number of a share. -/
structure BalancedFrom (active : List ConsumerGroupMember) (minLoad maxLoad : Nat)
    (assignments balanced : List GroupPartitionAssignment) : Prop where
  rounds : Relation.ReflTransGen (MovesOn active minLoad maxLoad) assignments balanced
  ended : ∀ moved, ¬ MovesOn active minLoad maxLoad balanced moved
  partitions : balanced.map GroupPartitionAssignment.topicPartition
    = assignments.map GroupPartitionAssignment.topicPartition
  owners : ∀ assignment ∈ balanced, assignment ∈ assignments ∨ ∃ member ∈ active,
    member.memberID = assignment.memberID ∧ memberWantsTopic member assignment.topic = true
  loads : ∀ memberID, memberLoad balanced memberID ≤ max (memberLoad assignments memberID) maxLoad

section
lemma balancedFrom_self (h : moveOneStickyAssignment assignments maxLoad
    (underloadedMembers assignments active minLoad) = none) :
    BalancedFrom active minLoad maxLoad assignments assignments :=
  ⟨.refl, fun _ hmoves => Option.some_ne_none _ (hmoves.symm.trans h), rfl, fun _ ha => .inl ha,
    fun _ => Nat.le_max_left _ _⟩

/-- A round before it. -/
lemma BalancedFrom.head {balanced : List GroupPartitionAssignment} (hle : minLoad ≤ maxLoad)
    (hmove : MovesOn active minLoad maxLoad assignments moved)
    (h : BalancedFrom active minLoad maxLoad moved balanced) :
    BalancedFrom active minLoad maxLoad assignments balanced := by
  obtain ⟨target, htarget, assignment, hmoved⟩ := moveOne_some hmove
  obtain ⟨hactive, hlt⟩ := mem_underloaded.mp htarget
  refine ⟨.head hmove h.rounds, h.ended, h.partitions.trans hmoved.samePartitions, fun a ha => ?_,
    fun memberID => ?_⟩
  · rcases h.owners a ha with ha | howner
    · exact (hmoved.owners ha).imp_right fun howner => ⟨target, hactive, howner⟩
    · exact .inr howner
  · have hload := h.loads memberID
    have hmoves := hmoved.moves
    by_cases heq : memberID = target.memberID
    · subst heq
      have := hmoves.gains
      omega
    · by_cases hsource : memberID = assignment.memberID
      · subst hsource
        have := hmoves.loses
        omega
      · rw [hmoves.others memberID hsource heq] at hload
        exact hload

/-- What is missing goes down with every round, so that as many rounds suffice. -/
lemma balanceLoop_ends (hle : minLoad ≤ maxLoad) {fuel : Nat}
    (hfuel : shortfall minLoad (memberIDs active).dedup (memberLoad assignments) ≤ fuel) :
    BalancedFrom active minLoad maxLoad assignments
      (balanceStickyLoop active minLoad maxLoad fuel assignments) := by
  have hin : ∀ target ∈ active, target.memberID ∈ (memberIDs active).dedup := fun target htarget =>
    mem_dedup.mpr (mem_map_of_mem htarget)
  induction fuel generalizing assignments with
  | zero =>
    apply balancedFrom_self
    rw [moveOne_none]
    intro target htarget
    obtain ⟨hactive, hlt⟩ := mem_underloaded.mp htarget
    have hge := shortfall_eq_zero.mp (Nat.le_zero.mp hfuel) target.memberID (hin target hactive)
    omega
  | succ fuel ih =>
    unfold balanceStickyLoop
    cases hmove : moveOneStickyAssignment assignments maxLoad
        (underloadedMembers assignments active minLoad) with
    | none => exact balancedFrom_self hmove
    | some moved =>
      obtain ⟨target, htarget, assignment, hmoved⟩ := moveOne_some hmove
      obtain ⟨hactive, hlt⟩ := mem_underloaded.mp htarget
      have hshort := hmoved.moves.shortfall (nodup_dedup _) (hin target hactive) hle hlt
        hmoved.movable.2.1
      exact (ih (by omega)).head hle hmove

end

/-- The whole part of the share of a member, and the next whole number if there is a rest. -/
def minShare (total members : Nat) : Nat := total / members

def maxShare (total members : Nat) : Nat :=
  if total % members ≠ 0 then minShare total members + 1 else minShare total members

lemma minShare_le_maxShare (total members : Nat) : minShare total members ≤ maxShare total members := by
  unfold maxShare
  split <;> omega

lemma balanceSticky_ends (active : List ConsumerGroupMember)
    (assignments : List GroupPartitionAssignment) :
    BalancedFrom active (minShare assignments.length active.length)
      (maxShare assignments.length active.length) assignments
      (balanceStickyAssignments active assignments) := by
  unfold balanceStickyAssignments
  split
  · next hempty =>
    apply balancedFrom_self
    rw [moveOne_none]
    rcases hempty with rfl | rfl
    · exact fun _ _ _ => nofun
    · intro target htarget
      cases (mem_underloaded.mp htarget).1
  · have hle := shortfall_le (minShare assignments.length active.length) (memberIDs active).dedup
      (memberLoad assignments)
    have hids : (memberIDs active).dedup.length ≤ active.length :=
      (dedup_sublist _).length_le.trans (length_map _).le
    have hdiv : active.length * minShare assignments.length active.length ≤ assignments.length :=
      Nat.mul_div_le _ _
    exact balanceLoop_ends (minShare_le_maxShare _ _)
      ((hle.trans (Nat.mul_le_mul_right _ hids)).trans hdiv)

/-- What the moves end with where members have names of their own: what is missing and what is too much
have gone down together, and no further move is possible. -/
structure Balanced (active : List ConsumerGroupMember) (partitions : List TopicPartition)
    (minLoad maxLoad : Nat) (assignments balanced : List GroupPartitionAssignment) : Prop where
  shares : Shares active partitions balanced
  stopped : moveOneStickyAssignment balanced maxLoad (underloadedMembers balanced active minLoad) = none
  together : shortfall minLoad (memberIDs active) (memberLoad assignments)
      + surplus maxLoad (memberIDs active) (memberLoad balanced)
    = shortfall minLoad (memberIDs active) (memberLoad balanced)
      + surplus maxLoad (memberIDs active) (memberLoad assignments)

lemma BalancedFrom.balanced {balanced : List GroupPartitionAssignment}
    (h : BalancedFrom active minLoad maxLoad assignments balanced) (hle : minLoad ≤ maxLoad)
    (hnames : NamesApart active) (hshares : Shares active partitions assignments) :
    Balanced active partitions minLoad maxLoad assignments balanced := by
  have hstopped := Option.eq_none_iff_forall_ne_some.mpr h.ended
  have hrounds := h.rounds
  clear h
  suffices h : Shares active partitions balanced ∧ _ = _ from ⟨h.1, hstopped, h.2⟩
  clear hstopped
  induction hrounds with
  | refl => exact ⟨hshares, rfl⟩
  | tail _ hmove ih =>
    obtain ⟨hshared, htogether⟩ := ih
    obtain ⟨target, htarget, assignment, hmoved⟩ := moveOne_some hmove
    obtain ⟨hactive, hlt⟩ := mem_underloaded.mp htarget
    obtain ⟨owner, howner, hownerName, -⟩ := hshared.owners assignment (by
      obtain ⟨before, after, rfl, -⟩ := hmoved.split
      simp)
    have hshort := hmoved.moves.shortfall hnames (mem_map_of_mem hactive) hle hlt
      hmoved.movable.2.1
    have hsurplus := hmoved.moves.surplus hnames (hownerName ▸ mem_map_of_mem howner) hle hlt
      hmoved.movable.2.1
    exact ⟨hmoved.shares hactive hshared, by omega⟩

lemma balanceSticky_balanced (hnames : NamesApart active)
    (hshares : Shares active partitions assignments) :
    Balanced active partitions (minShare partitions.length active.length)
      (maxShare partitions.length active.length) assignments
      (balanceStickyAssignments active assignments) := by
  have hlength : assignments.length = partitions.length := by
    rw [← hshares.partitions.length_eq, length_map]
  rw [← hlength]
  exact (balanceSticky_ends active assignments).balanced (minShare_le_maxShare _ _) hnames hshares

/-- Keeping, filling up and moving share everything out. -/
lemma shares_sticky (hnames : NamesApart active) (hnodup : partitions.Nodup)
    (hwanted : ∀ tp ∈ partitions, Wanted active tp.topic) (previous : List GroupPartitionAssignment) :
    Shares active partitions (buildCooperativeStickyAssignments previous active partitions) :=
  (balanceSticky_balanced hnames (shares_filled hnodup hwanted _)).shares.perm
    (perm_insertionSort _ _)

end

/-! ## Every strategy (`groups.go`) -/

/-- Members are taken in turn: there is no last assignment to keep, and the strategy is not by
topic. -/
def TakesTurns (cfg : Config) (previous : Option ConsumerGroupAssignment) : Prop :=
  ¬ (cfg.groupStickyAssignments = true ∧ previous.isSome = true) ∧
    cfg.groupAssignmentStrategy = .roundRobin

def buildStrategyAssignments (strategy : GroupAssignmentStrategy) (active : List ConsumerGroupMember)
    (partitions : List TopicPartition) : List GroupPartitionAssignment :=
  match strategy with
  | .roundRobin => buildRoundRobinAssignments active 0 partitions
  | .range => buildRangeAssignments active partitions

lemma shares_strategy {active : List ConsumerGroupMember} {partitions : List TopicPartition}
    (hactive : active ≠ []) (hnames : NamesApart active)
    (hwanted : ∀ tp ∈ partitions, Wanted active tp.topic) (strategy : GroupAssignmentStrategy) :
    Shares active partitions (buildStrategyAssignments strategy active partitions) ↔
      (strategy = .roundRobin → InTurn active 0 partitions) := by
  cases strategy with
  | roundRobin =>
    have hshares := shares_roundRobin hactive hnames partitions
    exact ⟨fun h _ => hshares.mp h, fun h => hshares.mpr (h rfl)⟩
  | range =>
    have hshares : Shares active partitions (buildRangeAssignments active partitions) :=
      shares_range hwanted
    exact ⟨fun _ h => absurd h (by simp), fun _ => hshares⟩

lemma build_nil (cfg : Config) (previous : Option ConsumerGroupAssignment) (topics : List TopicConfig) :
    buildGroupAssignments cfg previous [] topics = [] := by
  unfold buildGroupAssignments
  rw [if_pos rfl]

section
variable {active : List ConsumerGroupMember}

lemma build_sticky {cfg : Config} (hsticky : cfg.groupStickyAssignments = true) (hactive : active ≠ [])
    (last : ConsumerGroupAssignment) (topics : List TopicConfig) :
    buildGroupAssignments cfg (some last) active topics
      = buildCooperativeStickyAssignments last.assignments active (groupPartitions active topics) := by
  unfold buildGroupAssignments
  rw [if_neg hactive, hsticky]

lemma build_strategy {cfg : Config} {previous : Option ConsumerGroupAssignment}
    (hfresh : ¬ (cfg.groupStickyAssignments = true ∧ previous.isSome = true)) (hactive : active ≠ [])
    (topics : List TopicConfig) : buildGroupAssignments cfg previous active topics
      = buildStrategyAssignments cfg.groupAssignmentStrategy active (groupPartitions active topics) := by
  unfold buildGroupAssignments
  rw [if_neg hactive]
  dsimp only
  split
  · next hsticky => exact absurd ⟨hsticky, rfl⟩ hfresh
  · rfl

lemma wanted_of_groupPartitions {topics : List TopicConfig} {tp : TopicPartition}
    (h : tp ∈ groupPartitions active topics) : Wanted active tp.topic := by
  obtain ⟨topic, -, hwanted, hin⟩ := mem_groupPartitions.mp h
  rw [((mem_partitionList topic tp).mp hin).1]
  exact hwanted

lemma groupPartitions_nil (topics : List TopicConfig) : groupPartitions [] topics = [] := by
  rw [eq_nil_iff_forall_not_mem]
  intro tp htp
  obtain ⟨member, hmember, -⟩ := wanted_of_groupPartitions htp
  exact absurd hmember not_mem_nil

end

/-- **Whom partitions are assigned to.** Whatever the members, their subscriptions, the topics and the
last assignment, the partitions of the wanted topics are assigned each to one active subscriber and
nothing else is assigned, just if no member comes up in turn for a topic that it does not subscribe
to. -/
theorem assigned_iff (cfg : Config) (previous : Option ConsumerGroupAssignment)
    {active : List ConsumerGroupMember} {topics : List TopicConfig} (hnames : NamesApart active)
    (htopics : (topics.map TopicConfig.name).Nodup) :
    Assigned active topics (buildGroupAssignments cfg previous active topics) ↔
      (TakesTurns cfg previous → InTurn active 0 (groupPartitions active topics)) := by
  rw [assigned_iff_shares htopics]
  have hnodup := nodup_groupPartitions active htopics
  have hwanted : ∀ tp ∈ groupPartitions active topics, Wanted active tp.topic :=
    fun tp htp => wanted_of_groupPartitions htp
  by_cases hactive : active = []
  · -- without members no topic is wanted
    rw [hactive, build_nil, groupPartitions_nil]
    exact ⟨fun _ _ i tp htp => by simp at htp, fun _ => ⟨by simp, by simp⟩⟩
  · by_cases hkeep : cfg.groupStickyAssignments = true ∧ previous.isSome = true
    · obtain ⟨hsticky, last, rfl⟩ := hkeep.imp_right Option.isSome_iff_exists.mp
      rw [build_sticky hsticky hactive]
      have hshares := shares_sticky hnames hnodup hwanted last.assignments
      exact ⟨fun _ hturns => absurd hkeep hturns.1, fun _ => hshares⟩
    · rw [build_strategy hkeep hactive,
        shares_strategy hactive hnames hwanted cfg.groupAssignmentStrategy]
      exact ⟨fun h hturns => h hturns.2, fun h hround => h ⟨hkeep, hround⟩⟩

/-- A member of the group that reads orders. -/
def ordersMember (memberID : String) (topics : List String) : ConsumerGroupMember :=
  { group := "billing", memberID := memberID, topics := topics, sessionTimeoutMS := 30000,
    maxPollIntervalMS := 60000, joinedAtMS := 1000, lastHeartbeatMS := 1000, lastPollMS := 1000 }

/-- Two members share two topics by range, though they subscribe to one each. -/
theorem assigned_range_two :
    Assigned [ordersMember "m1" ["audit"], ordersMember "m2" ["orders"]]
      [{ newTopicConfig "audit" with partitions := 2 }, newTopicConfig "orders"]
      (buildGroupAssignments { groupAssignmentStrategy := .range } none
        [ordersMember "m1" ["audit"], ordersMember "m2" ["orders"]]
        [{ newTopicConfig "audit" with partitions := 2 }, newTopicConfig "orders"]) :=
  (assigned_iff { groupAssignmentStrategy := .range } none (by unfold NamesApart memberIDs; decide)
    (by decide)).mpr fun hturns => absurd hturns.2 (by simp)

/-- Taken in turn, the second member comes up for a topic that only the first subscribes to. -/
theorem unsubscribed_assigned :
    ¬ Assigned [ordersMember "m1" ["audit"], ordersMember "m2" ["orders"]]
      [{ newTopicConfig "audit" with partitions := 2 }, newTopicConfig "orders"]
      (buildGroupAssignments {} none [ordersMember "m1" ["audit"], ordersMember "m2" ["orders"]]
        [{ newTopicConfig "audit" with partitions := 2 }, newTopicConfig "orders"]) := by
  intro h
  obtain ⟨member, hmember, hname, hwants⟩ := h.subscribed ⟨"m2", "audit", 1⟩ (by decide +kernel)
  revert member
  decide

/-! ## How even the shares are -/

section
variable {active : List ConsumerGroupMember} {partitions : List TopicPartition}

lemma sum_memberLoad (hnames : NamesApart active) {assignments : List GroupPartitionAssignment}
    (howners : ∀ assignment ∈ assignments, assignment.memberID ∈ memberIDs active) :
    ((memberIDs active).map (memberLoad assignments)).sum = assignments.length := by
  induction assignments with
  | nil =>
    rw [length_nil, List.sum_eq_zero_iff_forall_eq_nat]
    simp [memberLoad]
  | cons first rest ih =>
    rw [length_cons, ← ih fun a ha => howners a (mem_cons_of_mem _ ha)]
    apply sum_map_of_succ hnames (howners first mem_cons_self)
    · intro id _ hne
      rw [memberLoad_cons, if_neg (Ne.symm hne), Nat.zero_add]
    · rw [memberLoad_cons, if_pos rfl, Nat.add_comm]

lemma gives_memberLoad (assignment : GroupPartitionAssignment) :
    Gives (memberLoad assignments) (memberLoad (assignments ++ [assignment])) assignment.memberID := by
  have hload : ∀ id, memberLoad (assignments ++ [assignment]) id
      = memberLoad assignments id + if assignment.memberID = id then 1 else 0 := by
    intro id
    rw [memberLoad_append, memberLoad_cons]
    rfl
  refine ⟨?_, fun id hne => ?_⟩
  · rw [hload, if_pos rfl]
  · rw [hload, if_neg (Ne.symm hne), Nat.add_zero]

/-- What is missing goes to those that have least. It counts against what they have too little, and
nobody gets more than a share that is large enough for all. -/
lemma filled_loads (hactive : active ≠ []) (hnames : NamesApart active)
    {rest : List TopicPartition} (hnodup : rest.Nodup)
    (hsame : ∀ member ∈ active, ∀ tp ∈ rest, memberWantsTopic member tp.topic = true)
    {assignments : List GroupPartitionAssignment}
    (howners : ∀ assignment ∈ assignments, assignment.memberID ∈ memberIDs active) (lo : Nat)
    {hi : Nat} (htotal : assignments.length + (unassigned assignments rest).length ≤ active.length * hi) :
    shortfall lo (memberIDs active) (memberLoad (assignMissingPartitions active assignments rest))
        = shortfall lo (memberIDs active) (memberLoad assignments)
          - (unassigned assignments rest).length ∧
      surplus hi (memberIDs active) (memberLoad (assignMissingPartitions active assignments rest))
        = surplus hi (memberIDs active) (memberLoad assignments) := by
  induction rest generalizing assignments with
  | nil => exact ⟨rfl, rfl⟩
  | cons tp rest ih =>
    obtain ⟨hnot, hrest⟩ := nodup_cons.mp hnodup
    have hsame' : ∀ member ∈ active, ∀ tp ∈ rest, memberWantsTopic member tp.topic = true :=
      fun member hmember tp htp => hsame member hmember tp (mem_cons_of_mem _ htp)
    by_cases hin : tp ∈ assignments.map topicPartition
    · rw [unassigned_cons_of_mem hin] at htotal ⊢
      rw [assignMissingPartitions, if_pos hin]
      exact ih hrest hsame' howners htotal
    · rw [unassigned_cons_of_notMem hin, length_cons] at htotal ⊢
      have hwanted : Wanted active tp.topic := by
        obtain ⟨member, hmember⟩ := exists_mem_of_ne_nil active hactive
        exact ⟨member, hmember, hsame member hmember tp mem_cons_self⟩
      obtain ⟨owner, howner⟩ := exists_leastLoaded assignments hwanted
      obtain ⟨hmember, -, hleast⟩ := leastLoaded_some howner
      have hownerIn : owner.memberID ∈ memberIDs active := mem_map_of_mem hmember
      have hleast' : ∀ id ∈ memberIDs active,
          memberLoad assignments owner.memberID ≤ memberLoad assignments id := by
        intro id hid
        obtain ⟨member, hmember, rfl⟩ := mem_map.mp hid
        exact hleast member hmember (hsame member hmember tp mem_cons_self)
      have hgives := gives_memberLoad assignments ⟨owner.memberID, tp.topic, tp.partition⟩
      have howners' : ∀ assignment ∈ assignments ++ [⟨owner.memberID, tp.topic, tp.partition⟩],
          assignment.memberID ∈ memberIDs active :=
        forall_mem_append.mpr ⟨howners, forall_mem_singleton.mpr hownerIn⟩
      have hafter := ih hrest hsame' howners' (by
        rw [unassigned_concat assignments owner.memberID hnot, length_append,
          length_singleton]
        omega)
      rw [unassigned_concat assignments owner.memberID hnot] at hafter
      rw [assignMissing_cons hin howner, hafter.1, hafter.2]
      constructor
      · by_cases hlt : memberLoad assignments owner.memberID < lo
        · rw [hgives.shortfall_of_lt hnames hownerIn hlt]
          omega
        · -- nobody has too little
          have hzero : shortfall lo (memberIDs active) (memberLoad assignments) = 0 :=
            shortfall_eq_zero.mpr fun id hid => (Nat.le_of_not_lt hlt).trans (hleast' id hid)
          rw [hgives.shortfall_of_eq_zero hzero, hzero]
          omega
      · apply hgives.surplus_of_lt
        have hids : (memberIDs active).length = active.length := length_map _
        have hroom : ((memberIDs active).map (memberLoad assignments)).sum
            < (memberIDs active).length * hi := by
          rw [sum_memberLoad hnames howners, hids]
          omega
        obtain ⟨id, hid, hlt⟩ := exists_lt_of_sum_lt hroom
        exact (hleast' id hid).trans_lt hlt

/-- Who had the partition and may keep it: by the first of the last assignments, in order. -/
def previousOwner (previous : List GroupPartitionAssignment) (active : List ConsumerGroupMember)
    (partitions : List TopicPartition) (tp : TopicPartition) : Option String :=
  ((sortGroupAssignments previous).find? fun a =>
    a.topicPartition = tp ∧ MayStay active partitions a).map GroupPartitionAssignment.memberID

/-- How much a member had and may keep. -/
def keptBy (previous : List GroupPartitionAssignment) (active : List ConsumerGroupMember)
    (partitions : List TopicPartition) (memberID : String) : Nat :=
  (partitions.filter fun tp => previousOwner previous active partitions tp = some memberID).length

/-- How much nobody had that may keep it. -/
def unowned (previous : List GroupPartitionAssignment) (active : List ConsumerGroupMember)
    (partitions : List TopicPartition) : Nat :=
  (partitions.filter fun tp => previousOwner previous active partitions tp = none).length

lemma previousOwner_some {tp : TopicPartition}
    {memberID : String} : previousOwner previous active partitions tp = some memberID ↔
      ∃ a ∈ retainedStickyAssignments active partitions [] (sortGroupAssignments previous),
        a.topicPartition = tp ∧ a.memberID = memberID := by
  unfold previousOwner
  rw [Option.map_eq_some_iff]
  constructor
  · rintro ⟨a, hfound, hname⟩
    have htp := find?_some hfound
    simp only [decide_eq_true_eq] at htp
    refine ⟨a, mem_retained.mpr ⟨not_mem_nil, ?_⟩, htp.1, hname⟩
    rw [htp.1]
    exact hfound
  · rintro ⟨a, hin, rfl, hname⟩
    exact ⟨a, (mem_retained.mp hin).2, hname⟩

lemma memberLoad_retained (hnodup : partitions.Nodup) (previous : List GroupPartitionAssignment) :
    memberLoad (retainedStickyAssignments active partitions [] (sortGroupAssignments previous))
      = keptBy previous active partitions := by
  funext memberID
  unfold memberLoad keptBy
  rw [← length_map topicPartition]
  apply List.Perm.length_eq
  rw [perm_ext_iff_of_nodup _ (hnodup.filter _)]
  · intro tp
    rw [mem_filter, decide_eq_true_eq, previousOwner_some, mem_map]
    constructor
    · rintro ⟨a, ha, rfl⟩
      obtain ⟨hin, hname⟩ := mem_filter.mp ha
      exact ⟨(mayStay_iff.mp (mayStay_of_retained hin)).1, a, hin, rfl, by simpa using hname⟩
    · rintro ⟨-, a, hin, htp, hname⟩
      exact ⟨a, mem_filter.mpr ⟨hin, by simpa using hname⟩, htp⟩
  · exact (nodup_retained [] _).sublist (filter_sublist.map _)

lemma unassigned_retained (previous : List GroupPartitionAssignment) :
    (unassigned (retainedStickyAssignments active partitions [] (sortGroupAssignments previous))
      partitions).length = unowned previous active partitions := by
  unfold unassigned unowned
  congr 1
  apply filter_congr
  intro tp _
  rw [decide_eq_decide, Option.eq_none_iff_forall_ne_some, mem_map]
  simp only [ne_eq, previousOwner_some]
  constructor
  · rintro h memberID ⟨a, hin, htp, -⟩
    exact h ⟨a, hin, htp⟩
  · rintro h ⟨a, hin, htp⟩
    exact h a.memberID ⟨a, hin, htp, rfl⟩

lemma maxShare_eq (total : Nat) {members : Nat} (h : 0 < members) :
    maxShare total members = (total + members - 1) / members := by
  unfold maxShare minShare
  have hdiv := Nat.div_add_mod total members
  have hlt := Nat.mod_lt total h
  generalize total / members = share at *
  generalize total % members = left at *
  by_cases hzero : left = 0
  · rw [if_neg (by simpa using hzero)]
    symm
    rw [Nat.div_eq_iff h]
    have : share * members = members * share := Nat.mul_comm _ _
    omega
  · rw [if_pos hzero]
    symm
    rw [Nat.div_eq_iff h, Nat.succ_mul]
    have : share * members = members * share := Nat.mul_comm _ _
    omega

lemma le_mul_maxShare (total : Nat) {members : Nat} (h : 0 < members) :
    total ≤ members * maxShare total members := by
  unfold maxShare minShare
  have hdiv := Nat.div_add_mod total members
  have hlt := Nat.mod_lt total h
  split
  · rw [Nat.mul_succ]
    omega
  · omega

lemma maxShare_le (total members : Nat) : maxShare total members ≤ minShare total members + 1 := by
  unfold maxShare
  split <;> omega

/-- If some member has too little and some too much, a partition can be moved. -/
lemma Balanced.even_iff {subscription : List String} {maxLoad : Nat}
    {assignments balanced : List GroupPartitionAssignment}
    (h : Balanced active partitions minLoad maxLoad assignments balanced) (hle : minLoad ≤ maxLoad)
    (hsame : ∀ member ∈ active, ∀ topic, memberWantsTopic member topic = true ↔ topic ∈ subscription)
    (htopics : ∀ tp ∈ partitions, tp.topic ∈ subscription) :
    (∀ id ∈ memberIDs active, minLoad ≤ memberLoad balanced id ∧ memberLoad balanced id ≤ maxLoad) ↔
      surplus maxLoad (memberIDs active) (memberLoad assignments)
        = shortfall minLoad (memberIDs active) (memberLoad assignments) := by
  have htogether := h.together
  have hone : shortfall minLoad (memberIDs active) (memberLoad balanced) = 0 ∨
      surplus maxLoad (memberIDs active) (memberLoad balanced) = 0 := by
    rw [shortfall_eq_zero, surplus_eq_zero]
    by_contra hboth
    push Not at hboth
    obtain ⟨⟨little, hlittle, hlt⟩, much, hmuch, hgt⟩ := hboth
    obtain ⟨target, htarget, rfl⟩ := mem_map.mp hlittle
    have hpos : 0 < memberLoad balanced much := by omega
    obtain ⟨assignment, hassignment⟩ := exists_mem_of_length_pos hpos
    obtain ⟨hin, hname⟩ := mem_filter.mp hassignment
    rw [decide_eq_true_eq] at hname
    apply moveOne_none.mp h.stopped target (mem_underloaded.mpr ⟨htarget, hlt⟩) assignment hin
    rw [Movable, hname]
    refine ⟨fun heq => ?_, hgt, (hsame target htarget assignment.topic).mpr ?_⟩
    · rw [heq] at hgt
      omega
    · exact htopics assignment.topicPartition
        (h.shares.partitions.subset (mem_map_of_mem hin))
  constructor
  · intro heven
    have hshort : shortfall minLoad (memberIDs active) (memberLoad balanced) = 0 :=
      shortfall_eq_zero.mpr fun id hid => (heven id hid).1
    have hsurplus : surplus maxLoad (memberIDs active) (memberLoad balanced) = 0 :=
      surplus_eq_zero.mpr fun id hid => (heven id hid).2
    omega
  · intro hequal id hid
    exact ⟨shortfall_eq_zero.mp (by omega) id hid, surplus_eq_zero.mp (by omega) id hid⟩

/-- **How even the shares are.** The members subscribe to the same topics, and the partitions are of
these. Then every member has its share of them, rounded down or up, just if what members may keep above
that share is as much as what others are still missing once the partitions that nobody had are given
out. -/
theorem sticky_even_iff (previous : List GroupPartitionAssignment) (hactive : active ≠ [])
    (hnames : NamesApart active) (hparts : partitions.Nodup) {subscription : List String}
    (hsame : ∀ member ∈ active, ∀ topic, memberWantsTopic member topic = true ↔ topic ∈ subscription)
    (htopics : ∀ tp ∈ partitions, tp.topic ∈ subscription) :
    (∀ member ∈ active,
        memberLoad (buildCooperativeStickyAssignments previous active partitions) member.memberID
          = partitions.length / active.length ∨
        memberLoad (buildCooperativeStickyAssignments previous active partitions) member.memberID
          = (partitions.length + active.length - 1) / active.length) ↔
      surplus ((partitions.length + active.length - 1) / active.length) (memberIDs active)
          (keptBy previous active partitions)
        = shortfall (partitions.length / active.length) (memberIDs active)
            (keptBy previous active partitions) - unowned previous active partitions := by
  have hpos : 0 < active.length := length_pos_iff.mpr hactive
  rw [← maxShare_eq _ hpos]
  change (∀ member ∈ active, _ = minShare partitions.length active.length ∨ _) ↔
    _ = shortfall (minShare partitions.length active.length) _ _ - _
  have hwants : ∀ member ∈ active, ∀ tp ∈ partitions, memberWantsTopic member tp.topic = true :=
    fun member hmember tp htp => (hsame member hmember tp.topic).mpr (htopics tp htp)
  have hwanted : ∀ tp ∈ partitions, Wanted active tp.topic := by
    intro tp htp
    obtain ⟨member, hmember⟩ := exists_mem_of_ne_nil active hactive
    exact ⟨member, hmember, hwants member hmember tp htp⟩
  -- what is kept, and what is filled up
  have hfilled := shares_filled hparts hwanted (sortGroupAssignments previous)
  have howners : ∀ a ∈ retainedStickyAssignments active partitions []
      (sortGroupAssignments previous), a.memberID ∈ memberIDs active := by
    intro a ha
    obtain ⟨member, hmember, hname, -⟩ := (mayStay_iff.mp (mayStay_of_retained ha)).2
    exact hname ▸ mem_map_of_mem hmember
  have htotal := hfilled.partitions.length_eq
  rw [partitions_assignMissing hparts hwanted, length_append, length_map] at htotal
  have hloads := filled_loads hactive hnames hparts hwants howners
    (minShare partitions.length active.length)
    (htotal.trans_le (le_mul_maxShare partitions.length hpos))
  rw [unassigned_retained, memberLoad_retained hparts] at hloads
  have hbalanced := balanceSticky_balanced hnames hfilled
  rw [← hloads.1, ← hloads.2, ← hbalanced.even_iff (minShare_le_maxShare _ _) hsame htopics]
  -- sorting does not change what a member has
  have hresult : memberLoad (buildCooperativeStickyAssignments previous active partitions)
      = memberLoad (balanceStickyAssignments active (assignMissingPartitions active
        (retainedStickyAssignments active partitions [] (sortGroupAssignments previous))
        partitions)) := memberLoad_perm (perm_insertionSort _ _)
  rw [hresult]
  have hmax := maxShare_le partitions.length active.length
  have hmin := minShare_le_maxShare partitions.length active.length
  unfold memberIDs
  rw [forall_mem_map]
  apply forall₂_congr
  intro member _
  omega

end

/-- The partitions of a topic, and who has how many of them: the first ones go to the first member. -/
def ordersPartitions (count : Nat) : List TopicPartition :=
  (List.range count).map fun i => ⟨"orders", i.toUInt32⟩

def ordersHeld (held : List (String × Nat)) : List GroupPartitionAssignment :=
  ((held.flatMap fun h => List.replicate h.2 h.1).zipIdx).map fun h => ⟨h.1, "orders", h.2.toUInt32⟩

/-- What the member has when a second one joins the one that had three partitions. -/
def joinedLoad (memberID : String) : Nat :=
  memberLoad (buildCooperativeStickyAssignments (ordersHeld [("m1", 3)])
    [ordersMember "m1" ["orders"], ordersMember "m2" ["orders"]] (ordersPartitions 3)) memberID

/-- A member that joins gets its share from the one that had everything. -/
theorem sticky_even_joined :
    (joinedLoad "m1" = 3 / 2 ∨ joinedLoad "m1" = (3 + 2 - 1) / 2) ∧
      (joinedLoad "m2" = 3 / 2 ∨ joinedLoad "m2" = (3 + 2 - 1) / 2) := by
  have hsame : ∀ member ∈ [ordersMember "m1" ["orders"], ordersMember "m2" ["orders"]], ∀ topic,
      memberWantsTopic member topic = true ↔ topic ∈ ["orders"] := by
    simp [memberWantsTopic, ordersMember]
  have hnodup : (ordersPartitions 3).Nodup := by decide
  have heven := (sticky_even_iff (ordersHeld [("m1", 3)]) (by simp)
    (by unfold NamesApart memberIDs; decide) hnodup hsame (by decide)).mpr (by decide +kernel)
  exact ⟨heven _ mem_cons_self, heven _ (mem_cons_of_mem _ mem_cons_self)⟩

/-- Three members have three, three and one of seven partitions, and the third gets no second one. -/
theorem sticky_uneven :
    (["m1", "m2", "m3"].map (memberLoad (buildCooperativeStickyAssignments
      (ordersHeld [("m1", 3), ("m2", 3), ("m3", 1)])
      [ordersMember "m1" ["orders"], ordersMember "m2" ["orders"], ordersMember "m3" ["orders"]]
      (ordersPartitions 7)))) = [3, 3, 1] ∧ 1 ≠ 7 / 3 ∧ 1 ≠ (7 + 3 - 1) / 3 := by
  decide +kernel

/-! ## Any members -/

lemma nodup_assignMissing (active : List ConsumerGroupMember) (partitions : List TopicPartition)
    {assignments : List GroupPartitionAssignment} (h : (assignments.map topicPartition).Nodup) :
    ((assignMissingPartitions active assignments partitions).map topicPartition).Nodup := by
  induction partitions generalizing assignments with
  | nil => exact h
  | cons tp rest ih =>
    unfold assignMissingPartitions
    split
    · exact ih h
    · next hmissing =>
      split
      · exact ih h
      · apply ih
        rw [map_append, map_singleton, ← concat_eq_append]
        exact h.concat hmissing

/-- **Balancing comes to an end**, whatever the members subscribe to and whatever they had, and keeps
the partitions, each with one owner. -/
theorem sticky_balancing_ends (previous : List GroupPartitionAssignment)
    (active : List ConsumerGroupMember) (partitions : List TopicPartition) :
    let filled := assignMissingPartitions active
      (retainedStickyAssignments active partitions [] (sortGroupAssignments previous)) partitions
    BalancedFrom active (minShare filled.length active.length) (maxShare filled.length active.length)
        filled (balanceStickyAssignments active filled) ∧
      ((balanceStickyAssignments active filled).map GroupPartitionAssignment.topicPartition).Nodup := by
  intro filled
  have hbalanced := balanceSticky_ends active filled
  refine ⟨hbalanced, ?_⟩
  rw [hbalanced.partitions]
  exact nodup_assignMissing active partitions (nodup_retained [] _)

end Ech0.Broker
