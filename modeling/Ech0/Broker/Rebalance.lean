/-
  Rebalances of a group, one after the other.

  A rebalance replaces the assignment of a group by one for the members it finds active, and gives it
  the next generation unless nothing has changed. The generation is what a consumer shows to prove that
  it still owns its partitions, so it may not go back, and may not stand for two assignments
  (`generation_fences`). Whether nothing has changed is asked more narrowly than it should be: a member
  that owns nothing counts as a change (`rebalance_settled_iff`).
-/
import Ech0.Broker.Tables
import Ech0.Broker.StickyAssignments

set_option autoImplicit false

namespace Ech0.Broker

open Ech0.Lib Ech0.Store Prog List

variable (cfg : Config) (previous : Option ConsumerGroupAssignment) (group : String)

/-! ## One rebalance -/

/-- The members that a rebalance finds active. -/
def World.activeMembers (w : World) (group : String) : List ConsumerGroupMember :=
  let now := w.env.clock 0
  (((w.metadata.deleteExpiredGroupMembers now).2.listGroupMembers group).filter
    fun member => !member.expiredAt now).insertionSort fun left right => left.memberID ≤ right.memberID

/-- The assignment that a rebalance saves. -/
def World.rebalancePlan (cfg : Config) (w : World) (group : String) : ConsumerGroupAssignment :=
  buildGroupRebalancePlan cfg group (w.env.clock 0) (w.metadata.loadGroupAssignment group)
    (w.activeMembers group) (if w.activeMembers group = [] then [] else w.metadata.listTopics)

/-- The world in which a rebalance saves its plan: the members that have expired are gone. -/
def World.withoutExpired (w : World) : World :=
  { w.tick with metadata := (w.metadata.deleteExpiredGroupMembers (w.env.clock 0)).2 }

/-- A rebalance reads the clock once, drops the members that have expired, and saves its plan. -/
lemma exec_rebalanceGroup (w : World) : exec step (applyRebalanceGroup cfg group) w
      = exec step (wrapBroker "save group assignment" (onMeta (.saveGroupAssignment
          (w.rebalancePlan cfg group))) >>= fun _ => pure (w.rebalancePlan cfg group))
        w.withoutExpired := by
  unfold applyRebalanceGroup
  rw [exec_bind_ok step (exec_nowMS w)]
  have hdelete : exec step (wrapBroker "delete expired group members"
      (onMeta (.deleteExpiredGroupMembers (w.env.clock 0)))) w.tick
        = (.ok (w.metadata.deleteExpiredGroupMembers (w.env.clock 0)).1, w.withoutExpired) := rfl
  rw [exec_bind_ok step hdelete]
  have hactive : exec step (activeGroupMembers group (w.env.clock 0)) w.withoutExpired
      = (.ok (w.activeMembers group), w.withoutExpired) := rfl
  rw [exec_bind_ok step hactive]
  have hprevious : exec step (wrapBroker "load group assignment"
      (onMeta (.loadGroupAssignment group))) w.withoutExpired
        = (.ok (w.metadata.loadGroupAssignment group), w.withoutExpired) := rfl
  rw [exec_bind_ok step hprevious]
  unfold World.rebalancePlan
  dsimp only
  by_cases hnone : w.activeMembers group = []
  · rw [if_pos hnone, if_pos hnone]
    rfl
  · rw [if_neg hnone, if_neg hnone]
    rfl

/-- A plan is for the group, and holds what is built for it. -/
lemma fields_plan (now : Nat)
    (previous : Option ConsumerGroupAssignment) (active : List ConsumerGroupMember)
    (topics : List TopicConfig) :
    (buildGroupRebalancePlan cfg group now previous active topics).group = group ∧
      (buildGroupRebalancePlan cfg group now previous active topics).assignments
        = sortGroupAssignments (buildGroupAssignments cfg previous active topics) := by
  unfold buildGroupRebalancePlan
  cases previous with
  | none => exact ⟨rfl, rfl⟩
  | some last =>
    dsimp only
    split <;> exact ⟨rfl, rfl⟩

/-- What the groups are assigned after a rebalance. -/
lemma assignments_rebalanceGroup (w : World) :
    (applyCommand cfg (.rebalanceGroup group) w).2.metadata.assignments
      = if group = "" then w.metadata.assignments
        else w.metadata.assignments.insert group (w.rebalancePlan cfg group) := by
  have hrun : (applyCommand cfg (.rebalanceGroup group) w).2
      = (exec step (applyRebalanceGroup cfg group) w).2 := by
    change (exec step (replyWith Reply.assignment (applyRebalanceGroup cfg group)) w).2 = _
    unfold replyWith
    rw [exec_bind]
    cases exec step (applyRebalanceGroup cfg group) w with
    | mk r w' => cases r <;> rfl
  have hsave : (MetaOp.saveGroupAssignment (w.rebalancePlan cfg group)).run w.withoutExpired.metadata
      = MetaOp.save w.withoutExpired.metadata (if group = "" then
          .error (E .invalidArgument "group is required")
        else .ok { w.withoutExpired.metadata with
          assignments := w.metadata.assignments.insert group (w.rebalancePlan cfg group) }) := by
    change MetaOp.save _ (MemoryStore.saveGroupAssignment _ _) = _
    unfold MemoryStore.saveGroupAssignment
    rw [World.rebalancePlan, (fields_plan ..).1]
    rfl
  rw [hrun, exec_rebalanceGroup, exec_bind]
  rw [exec_wrapBroker, exec_onMeta, hsave]
  by_cases hname : group = ""
  · rw [if_pos hname, if_pos hname]
    rfl
  · rw [if_neg hname, if_neg hname]
    rfl

/-! ## Generations -/

/-- The second assignment has the generation of the first, and then it is the same assignment, or a
later one. -/
structure Follows (first second : ConsumerGroupAssignment) : Prop where
  generation : first.generation ≤ second.generation
  same : first.generation = second.generation → first.assignments.Perm second.assignments

lemma Follows.refl (assignment : ConsumerGroupAssignment) : Follows assignment assignment :=
  ⟨le_rfl, fun _ => .rfl⟩

lemma Follows.trans {first second third : ConsumerGroupAssignment} (h1 : Follows first second)
    (h2 : Follows second third) : Follows first third := by
  have hle1 := h1.generation
  have hle2 := h2.generation
  refine ⟨hle1.trans hle2, fun heq => ?_⟩
  exact (h1.same (by omega)).trans (h2.same (by omega))

/-- An assignment that counts as unchanged consists of the same assignments. -/
lemma perm_of_stable {previous following : List GroupPartitionAssignment}
    {active : List ConsumerGroupMember} (h : groupAssignmentStable previous following active = true) :
    previous.Perm following := by
  unfold groupAssignmentStable at h
  rw [decide_eq_true_eq] at h
  have hprevious : (sortGroupAssignments previous).Perm previous := perm_insertionSort _ _
  have hfollowing : (sortGroupAssignments following).Perm following := perm_insertionSort _ _
  rw [h.1] at hprevious
  exact hprevious.symm.trans hfollowing

lemma follows_plan (now : Nat) (previous : ConsumerGroupAssignment)
    (active : List ConsumerGroupMember) (topics : List TopicConfig) :
    Follows previous (buildGroupRebalancePlan cfg group now (some previous) active topics) := by
  unfold buildGroupRebalancePlan
  dsimp only
  by_cases hstable : groupAssignmentStable previous.assignments
      (sortGroupAssignments (buildGroupAssignments cfg (some previous) active topics)) active = true
  · rw [if_pos hstable]
    exact ⟨le_rfl, fun _ => perm_of_stable hstable⟩
  · rw [if_neg hstable]
    exact ⟨Nat.le_succ _, fun heq => by simp at heq⟩

/-- The assignment of the group is there still, or a later one is. -/
def Succeeds (group : String) (w w' : World) : Prop :=
  ∀ first, w.metadata.loadGroupAssignment group = some first →
    ∃ second, w'.metadata.loadGroupAssignment group = some second ∧ Follows first second

lemma succeeds_of_keeps {w w' : World} (h : KeepsTable .assignments w w') (group : String) :
    Succeeds group w w' := by
  intro first hfirst
  have hsame : w'.metadata.assignments = w.metadata.assignments := h
  refine ⟨first, ?_, .refl first⟩
  unfold MemoryStore.loadGroupAssignment at hfirst ⊢
  rw [hsame, hfirst]

lemma succeeds_rebalanceGroup (other : String) (w : World) :
    Succeeds group w (applyCommand cfg (.rebalanceGroup other) w).2 := by
  intro first hfirst
  unfold MemoryStore.loadGroupAssignment
  rw [assignments_rebalanceGroup]
  by_cases hname : other = ""
  · rw [if_pos hname]
    exact ⟨first, hfirst, .refl first⟩
  · rw [if_neg hname, Std.ExtTreeMap.getElem?_insert]
    by_cases hother : other = group
    · rw [if_pos (by simp [hother])]
      refine ⟨_, rfl, ?_⟩
      unfold World.rebalancePlan
      rw [hother, hfirst]
      exact follows_plan _ _ _ _ _ _
    · rw [if_neg (by simpa using hother)]
      exact ⟨first, hfirst, .refl first⟩

/-- Only a rebalance writes assignments. -/
lemma succeeds_command (cmd : Command) (w : World) :
    Succeeds group w (applyCommand cfg cmd w).2 := by
  by_cases hwrites : .assignments ∈ cmd.footprint.tables
  · cases cmd with
    | rebalanceGroup other => exact succeeds_rebalanceGroup cfg group other w
    | _ => exact absurd hwrites (by simp [Command.footprint])
  · have hkeeps : KeepsTable .assignments w (Activity.run cfg (.command cmd) w) :=
      keepsTable_activity (by simp) (by simp) hwrites cfg w
    exact succeeds_of_keeps hkeeps group

/-- **Generations fence.** Whatever commands are applied, and whatever the clock says, an assignment
that is stored is later found again or replaced by one of a higher generation: two that are stored with
one generation consist of the same assignments. -/
theorem generation_fences (cfg : Config) (group : String) (earlier later : List Command) (w : World)
    {first : ConsumerGroupAssignment}
    (hfirst : (applyCommands cfg earlier w).metadata.loadGroupAssignment group = some first) :
    ∃ second, (applyCommands cfg (earlier ++ later) w).metadata.loadGroupAssignment group = some second ∧
      first.generation ≤ second.generation ∧
      (first.generation = second.generation →
        ∀ assignment, assignment ∈ first.assignments ↔ assignment ∈ second.assignments) := by
  have hrun : ∀ w : World, Succeeds group w (applyCommands cfg later w) := by
    induction later with
    | nil => exact fun w first h => ⟨first, h, .refl first⟩
    | cons cmd rest ih =>
      intro w first h
      obtain ⟨second, hsecond, hfollows⟩ := succeeds_command cfg group cmd w first h
      obtain ⟨third, hthird, hfollows'⟩ := ih _ second hsecond
      exact ⟨third, hthird, hfollows.trans hfollows'⟩
  have happend : applyCommands cfg (earlier ++ later) w
      = applyCommands cfg later (applyCommands cfg earlier w) := foldl_append
  obtain ⟨second, hsecond, hfollows⟩ := hrun _ first hfirst
  rw [happend]
  exact ⟨second, hsecond, hfollows.generation, fun heq _ => (hfollows.same heq).mem_iff⟩

/-- A member joins the group that reads orders. -/
def joinBilling (memberID : String) : Command :=
  .joinGroup { group := "billing", memberID := memberID, topics := ["orders"] }

/-- A second member joins, and the group is rebalanced again. -/
theorem generation_fences_joined :
    ∃ second, (applyCommands {} ([.createTopic (newTopicConfig "orders"), joinBilling "m2",
        .rebalanceGroup "billing"] ++ [joinBilling "m1", .rebalanceGroup "billing"])
        (World.fresh {} stillEnv)).metadata.loadGroupAssignment "billing" = some second ∧
      1 ≤ second.generation ∧ (1 = second.generation → ∀ assignment,
        assignment ∈ [(⟨"m2", "orders", 0⟩ : GroupPartitionAssignment)] ↔ assignment ∈ second.assignments) :=
  generation_fences {} "billing" _ _ (World.fresh {} stillEnv)
    (show _ = some ⟨"billing", 1, [⟨"m2", "orders", 0⟩], 1000⟩ by decide +kernel)

/-! ## The order in which an assignment is kept -/

/-- What assignments are ordered by. -/
def orderKey (a : GroupPartitionAssignment) : String ×ₗ (Nat ×ₗ String) :=
  toLex (a.topic, toLex (a.partition.toNat, a.memberID))

lemma assignmentLE_iff (left right : GroupPartitionAssignment) :
    groupPartitionAssignmentLE left right = true ↔ orderKey left ≤ orderKey right := by
  unfold groupPartitionAssignmentLE orderKey
  rw [Prod.Lex.toLex_le_toLex, Prod.Lex.toLex_le_toLex]
  by_cases htopic : left.topic = right.topic
  · by_cases hpartition : left.partition = right.partition
    · simp [htopic, hpartition]
    · have hne : left.partition.toNat ≠ right.partition.toNat :=
        fun heq => hpartition (UInt32.toNat_inj.mp heq)
      simp [htopic, hpartition, hne, UInt32.lt_iff_toNat_lt]
  · simp [htopic]

/-- The assignments stand in their order. -/
def InOrder (assignments : List GroupPartitionAssignment) : Prop :=
  assignments.Pairwise fun left right => groupPartitionAssignmentLE left right = true

lemma inOrder_sort (assignments : List GroupPartitionAssignment) :
    InOrder (sortGroupAssignments assignments) :=
  pairwise_insertionSort_of_key _ assignmentLE_iff assignments

variable {assignments : List GroupPartitionAssignment}

lemma InOrder.sort (h : InOrder assignments) :
    sortGroupAssignments assignments = assignments := List.Pairwise.insertionSort_eq h

/-! ## A rebalance that changes nothing -/

section
variable {active : List ConsumerGroupMember} {partitions : List TopicPartition}

lemma membersMatch_iff (hnames : NamesApart active)
    (howners : ∀ a ∈ assignments, a.memberID ∈ memberIDs active) :
    assignmentMembersMatchActive assignments active = true ↔
      ∀ member ∈ active, ∃ a ∈ assignments, a.memberID = member.memberID := by
  unfold assignmentMembersMatchActive
  rw [decide_eq_true_eq]
  have hmem : ∀ id, id ∈ (assignments.map GroupPartitionAssignment.memberID).dedup ↔
      ∃ a ∈ assignments, a.memberID = id := fun id => by rw [mem_dedup, mem_map]
  constructor
  · intro h member hmember
    exact (hmem _).mp (h.2 member hmember)
  · intro h
    have hperm : (assignments.map GroupPartitionAssignment.memberID).dedup.Perm (memberIDs active) := by
      rw [perm_ext_iff_of_nodup (nodup_dedup _) hnames]
      intro id
      rw [hmem]
      constructor
      · rintro ⟨a, ha, rfl⟩
        exact howners a ha
      · intro hid
        obtain ⟨member, hmember, rfl⟩ := mem_map.mp hid
        exact h member hmember
    refine ⟨?_, fun member hmember => (hmem _).mpr (h member hmember)⟩
    rw [hperm.length_eq]
    exact length_map _

/-- The plan is the assignment it starts from just if this is built again, and everybody has a part. -/
lemma plan_eq_iff (now : Nat) {last : ConsumerGroupAssignment}
    (horder : InOrder last.assignments) (topics : List TopicConfig) :
    buildGroupRebalancePlan cfg last.group now (some last) active topics = last ↔
      sortGroupAssignments (buildGroupAssignments cfg (some last) active topics) = last.assignments ∧
        assignmentMembersMatchActive last.assignments active = true := by
  unfold buildGroupRebalancePlan
  dsimp only
  have hbuilt : InOrder (sortGroupAssignments (buildGroupAssignments cfg (some last) active topics)) :=
    inOrder_sort _
  generalize sortGroupAssignments (buildGroupAssignments cfg (some last) active topics) = built at hbuilt ⊢
  have hstable : groupAssignmentStable last.assignments built active = true ↔
      built = last.assignments ∧ assignmentMembersMatchActive last.assignments active = true := by
    unfold groupAssignmentStable
    rw [decide_eq_true_eq, horder.sort, hbuilt.sort]
    constructor
    · rintro ⟨heq, hmatch, -⟩
      exact ⟨heq.symm, hmatch⟩
    · rintro ⟨rfl, hmatch⟩
      exact ⟨rfl, hmatch, hmatch⟩
  rw [← hstable]
  by_cases h : groupAssignmentStable last.assignments built active = true
  · rw [if_pos h]
    have heq := (hstable.mp h).1
    subst heq
    exact ⟨fun _ => h, fun _ => rfl⟩
  · rw [if_neg h]
    constructor
    · intro heq
      have hgeneration := congrArg ConsumerGroupAssignment.generation heq
      simp at hgeneration
    · exact fun h' => absurd h' h

/-! ### Keeping what there is -/

lemma retained_self (hstay : ∀ a ∈ assignments, MayStay active partitions a = true)
    (hnodup : (assignments.map GroupPartitionAssignment.topicPartition).Nodup)
    {seen : List TopicPartition} (hseen : ∀ a ∈ assignments, a.topicPartition ∉ seen) :
    retainedStickyAssignments active partitions seen assignments = assignments := by
  induction assignments generalizing seen with
  | nil => rfl
  | cons first rest ih =>
    rw [map_cons, nodup_cons] at hnodup
    rw [retained_cons, if_pos ⟨hseen first mem_cons_self, hstay first mem_cons_self⟩]
    congr 1
    apply ih (fun a ha => hstay a (mem_cons_of_mem _ ha)) hnodup.2
    intro a ha hin
    rcases mem_cons.mp hin with heq | hin
    · exact hnodup.1 (heq ▸ mem_map_of_mem ha)
    · exact hseen a (mem_cons_of_mem _ ha) hin

lemma assignMissing_self {rest : List TopicPartition}
    (hall : ∀ tp ∈ rest, tp ∈ assignments.map GroupPartitionAssignment.topicPartition) :
    assignMissingPartitions active assignments rest = assignments := by
  induction rest with
  | nil => rfl
  | cons tp rest ih =>
    rw [assignMissingPartitions, if_pos (hall tp mem_cons_self)]
    exact ih fun tp htp => hall tp (mem_cons_of_mem _ htp)

/-- No member with less than its share can be given a partition of one with more. -/
def NothingToMove (active : List ConsumerGroupMember) (assignments : List GroupPartitionAssignment) :
    Prop :=
  ∀ target ∈ active,
    memberLoad assignments target.memberID < minShare assignments.length active.length →
      ∀ a ∈ assignments, ¬ Movable assignments (maxShare assignments.length active.length) target a

lemma nothingToMove_iff : NothingToMove active assignments ↔
      moveOneStickyAssignment assignments (maxShare assignments.length active.length)
        (underloadedMembers assignments active (minShare assignments.length active.length)) = none := by
  rw [moveOne_none]
  exact forall_congr' fun target => by rw [mem_underloaded, and_imp]

lemma NothingToMove.perm {assignments assignments' : List GroupPartitionAssignment}
    (h : NothingToMove active assignments) (hperm : assignments'.Perm assignments) :
    NothingToMove active assignments' := by
  unfold NothingToMove Movable at h ⊢
  rw [hperm.length_eq, memberLoad_perm hperm]
  exact fun target htarget hlt a ha => h target htarget hlt a (hperm.mem_iff.mp ha)

lemma balanceSticky_self (h : NothingToMove active assignments) :
    balanceStickyAssignments active assignments = assignments := by
  unfold balanceStickyAssignments
  by_cases hnil : assignments = [] ∨ active = []
  · rw [if_pos hnil]
  · rw [if_neg hnil]
    change balanceStickyLoop active (minShare _ _) (maxShare _ _) _ _ = _
    cases hlength : assignments.length with
    | zero => rfl
    | succ n =>
      rw [← hlength, balanceStickyLoop.eq_def, hlength]
      dsimp only
      rw [← hlength, nothingToMove_iff.mp h]

/-- The assignment is kept as it is just if everything in it may stay and nothing is to be moved. -/
lemma sticky_self_iff (hnames : NamesApart active)
    (hnodup : partitions.Nodup) (hwanted : ∀ tp ∈ partitions, Wanted active tp.topic)
    (horder : InOrder assignments)
    (hparts : (assignments.map GroupPartitionAssignment.topicPartition).Perm partitions) :
    buildCooperativeStickyAssignments assignments active partitions = assignments ↔
      (∀ a ∈ assignments, ∃ member ∈ active, member.memberID = a.memberID ∧
        memberWantsTopic member a.topic = true) ∧ NothingToMove active assignments := by
  constructor
  · intro heq
    have hfilled := shares_filled hnodup hwanted (sortGroupAssignments assignments)
    have hbalanced := balanceSticky_balanced hnames hfilled
    have hsorted : (buildCooperativeStickyAssignments assignments active partitions).Perm
        (balanceStickyAssignments active (assignMissingPartitions active
          (retainedStickyAssignments active partitions [] (sortGroupAssignments assignments))
          partitions)) := perm_insertionSort _ _
    rw [heq] at hsorted
    refine ⟨fun a ha => hbalanced.shares.owners a (hsorted.mem_iff.mp ha), ?_⟩
    apply NothingToMove.perm _ hsorted
    rw [nothingToMove_iff]
    have hlength := hbalanced.shares.partitions.length_eq
    rw [length_map] at hlength
    rw [hlength]
    exact hbalanced.stopped
  · rintro ⟨howners, hmoves⟩
    have hstay : ∀ a ∈ assignments, MayStay active partitions a = true := by
      intro a ha
      exact mayStay_iff.mpr ⟨hparts.mem_iff.mp (mem_map_of_mem ha), howners a ha⟩
    unfold buildCooperativeStickyAssignments
    dsimp only
    rw [horder.sort, retained_self hstay (hparts.nodup_iff.mpr hnodup) (by simp),
      assignMissing_self fun tp htp => hparts.mem_iff.mpr htp, balanceSticky_self hmoves, horder.sort]

end

/-! ### The same members again -/

/-- The same members subscribe to the same topics, though their leases may have been renewed. -/
def SameSubscriptions (active active' : List ConsumerGroupMember) : Prop :=
  active.map (fun member => (member.memberID, member.topics))
    = active'.map fun member => (member.memberID, member.topics)

section
variable {active active' : List ConsumerGroupMember}

lemma SameSubscriptions.memberIDs (h : SameSubscriptions active active') :
    memberIDs active = memberIDs active' := by
  have hids := congrArg (List.map Prod.fst) h
  rw [map_map, map_map] at hids
  exact hids

lemma SameSubscriptions.eligible (h : SameSubscriptions active active') (topic : String) :
    Broker.memberIDs (active.filter fun member => memberWantsTopic member topic)
      = Broker.memberIDs (active'.filter fun member => memberWantsTopic member topic) := by
  have hids : ∀ members : List ConsumerGroupMember,
      Broker.memberIDs (members.filter fun member => memberWantsTopic member topic)
        = ((members.map fun member => (member.memberID, member.topics)).filter
          fun entry => topic ∈ entry.2).map Prod.fst := by
    intro members
    rw [filter_map, map_map]
    rfl
  rw [hids, hids, h]

lemma length_congr (h : memberIDs active = memberIDs active') : active.length = active'.length := by
  simpa only [memberIDs, length_map] using congrArg List.length h

lemma roundRobin_congr (h : memberIDs active = memberIDs active') (index : Nat)
    (partitions : List TopicPartition) : buildRoundRobinAssignments active index partitions
      = buildRoundRobinAssignments active' index partitions := by
  have hname : ∀ (members : List ConsumerGroupMember) (i : Nat) (tp : TopicPartition),
      ((members[i]?).map fun owner =>
        (⟨owner.memberID, tp.topic, tp.partition⟩ : GroupPartitionAssignment))
      = ((memberIDs members)[i]?).map fun id => ⟨id, tp.topic, tp.partition⟩ := by
    intro members i tp
    unfold memberIDs
    rw [getElem?_map, Option.map_map]
    rfl
  induction partitions generalizing index with
  | nil => rfl
  | cons tp rest ih =>
    rw [buildRoundRobinAssignments, buildRoundRobinAssignments, ih, hname, hname, h, length_congr h]

lemma appendRange_congr (base extra : Nat) {index : Nat} {partitions : List TopicPartition}
    (h : memberIDs active = memberIDs active') :
    appendRangeAssignments base extra index active partitions
      = appendRangeAssignments base extra index active' partitions := by
  induction active generalizing active' index partitions with
  | nil =>
    rw [map_eq_nil_iff.mp h.symm]
  | cons member rest ih =>
    cases active' with
    | nil => cases h
    | cons member' rest' =>
      obtain ⟨hname, hrest⟩ := List.cons.inj h
      rw [appendRangeAssignments, appendRangeAssignments, hname, ih hrest]

lemma strategy_congr (h : SameSubscriptions active active') (strategy : GroupAssignmentStrategy)
    (partitions : List TopicPartition) : buildStrategyAssignments strategy active partitions
      = buildStrategyAssignments strategy active' partitions := by
  cases strategy with
  | roundRobin => exact roundRobin_congr h.memberIDs 0 partitions
  | range =>
    unfold buildStrategyAssignments buildRangeAssignments
    dsimp only
    congr 1
    funext topic
    have heligible := h.eligible topic
    rw [length_congr heligible]
    exact appendRange_congr _ _ heligible

lemma owner_roundRobin {index : Nat} {partitions : List TopicPartition}
    {a : GroupPartitionAssignment} (h : a ∈ buildRoundRobinAssignments active index partitions) :
    a.memberID ∈ memberIDs active := by
  induction partitions generalizing index with
  | nil => cases h
  | cons tp rest ih =>
    unfold buildRoundRobinAssignments at h
    rcases mem_append.mp h with h | h
    · obtain ⟨owner, howner, rfl⟩ := Option.map_eq_some_iff.mp (Option.mem_toList.mp h)
      exact mem_map_of_mem (mem_of_getElem? howner)
    · exact ih h

/-- Whatever the strategy, everything that is wanted is assigned, to members that are active. -/
lemma build_assigns {topics : List TopicConfig} (hnames : NamesApart active)
    (htopics : (topics.map TopicConfig.name).Nodup) :
    ((buildGroupAssignments cfg previous active topics).map
      GroupPartitionAssignment.topicPartition).Perm (groupPartitions active topics) ∧
      ∀ a ∈ buildGroupAssignments cfg previous active topics, a.memberID ∈ memberIDs active := by
  by_cases hactive : active = []
  · rw [hactive, build_nil, groupPartitions_nil]
    exact ⟨.refl _, by simp⟩
  · have hwanted : ∀ tp ∈ groupPartitions active topics, Wanted active tp.topic :=
      fun tp htp => wanted_of_groupPartitions htp
    have hshared : ∀ {assignments : List GroupPartitionAssignment},
        Shares active (groupPartitions active topics) assignments →
          (assignments.map GroupPartitionAssignment.topicPartition).Perm (groupPartitions active topics) ∧
            ∀ a ∈ assignments, a.memberID ∈ memberIDs active := by
      refine fun hshares => ⟨hshares.partitions, fun a ha => ?_⟩
      obtain ⟨member, hmember, hname, -⟩ := hshares.owners a ha
      exact hname ▸ mem_map_of_mem hmember
    by_cases hkeep : cfg.groupStickyAssignments = true ∧ previous.isSome = true
    · obtain ⟨hsticky, last, rfl⟩ := hkeep.imp_right Option.isSome_iff_exists.mp
      rw [build_sticky hsticky hactive]
      exact hshared (shares_sticky hnames (nodup_groupPartitions active htopics) hwanted _)
    · rw [build_strategy hkeep hactive]
      cases cfg.groupAssignmentStrategy with
      | roundRobin =>
        have hparts := partitions_roundRobin hactive 0 (groupPartitions active topics)
        exact ⟨List.Perm.of_eq hparts, fun a => owner_roundRobin⟩
      | range => exact hshared (shares_range hwanted)

end

/-! ### In the broker -/

/-- The partitions of the topics that the members found active want. -/
def World.wantedPartitions (w : World) (group : String) : List TopicPartition :=
  groupPartitions (w.activeMembers group) w.metadata.listTopics

section
variable {w : World}

/-- Members are kept by group and name. -/
lemma WorldInv.namesApart (h : WorldInv w) (group : String) : NamesApart (w.activeMembers group) := by
  have hkeyed := h.metadata.members.filter fun _ member => !member.expiredAt (w.env.clock 0)
  have hkeys := hkeyed.nodup_of_perm (List.Perm.refl _)
  have hlisted : (((w.metadata.deleteExpiredGroupMembers (w.env.clock 0)).2.listGroupMembers group).map
      ConsumerGroupMember.memberID).Nodup := by
    unfold MemoryStore.listGroupMembers
    rw [((perm_insertionSort _ _).map ConsumerGroupMember.memberID).nodup_iff, map_map]
    -- in one group the keys differ by the names
    refine pairwise_map.mpr ((pairwise_map.mp (hkeys.sublist (filter_sublist.map _))).imp_of_mem ?_)
    intro left right hleft hright hne (heq : left.memberID = right.memberID)
    apply hne
    rw [of_decide_eq_true (mem_filter.mp hleft).2, of_decide_eq_true (mem_filter.mp hright).2, heq]
  unfold NamesApart memberIDs World.activeMembers
  rw [((perm_insertionSort _ _).map ConsumerGroupMember.memberID).nodup_iff]
  exact hlisted.sublist (filter_sublist.map _)

lemma WorldInv.nodup_topics (h : WorldInv w) : (w.metadata.listTopics.map TopicConfig.name).Nodup := by
  have hnames : w.metadata.listTopics.map TopicConfig.name = w.metadata.topics.entries.map Prod.fst := by
    unfold MemoryStore.listTopics OrderedMap.values
    rw [map_map]
    apply map_congr_left
    intro e he
    exact (h.metadata.topics e he).1
  rw [hnames]
  exact w.metadata.topics.nodup

/-- What a rebalance reads of the topics does not matter when nobody is active. -/
lemma assignments_plan (w : World) :
    (w.rebalancePlan cfg group).assignments = sortGroupAssignments (buildGroupAssignments cfg
      (w.metadata.loadGroupAssignment group) (w.activeMembers group) w.metadata.listTopics) := by
  have htopics : buildGroupAssignments cfg (w.metadata.loadGroupAssignment group)
      (w.activeMembers group) (if w.activeMembers group = [] then [] else w.metadata.listTopics)
        = buildGroupAssignments cfg (w.metadata.loadGroupAssignment group) (w.activeMembers group)
          w.metadata.listTopics := by
    by_cases hnone : w.activeMembers group = []
    · rw [hnone, build_nil, build_nil]
    · rw [if_neg hnone]
  unfold World.rebalancePlan
  rw [(fields_plan ..).2, htopics]

lemma load_rebalanceGroup {group : String} (hgroup : group ≠ "") (w : World) :
    (applyCommand cfg (.rebalanceGroup group) w).2.metadata.loadGroupAssignment group
      = some (w.rebalancePlan cfg group) := by
  unfold MemoryStore.loadGroupAssignment
  rw [assignments_rebalanceGroup, if_neg hgroup, Std.ExtTreeMap.getElem?_insert_self]

/-- An assignment that was built for these members and partitions is built again, unless it is kept
and cannot stay as it is. -/
lemma rebuilt_iff {cfg : Config} {previous : Option ConsumerGroupAssignment}
    {last : ConsumerGroupAssignment} {active active' : List ConsumerGroupMember}
    {topics topics' : List TopicConfig} (hnames : NamesApart active) (hnames' : NamesApart active')
    (htopics : (topics.map TopicConfig.name).Nodup) (htopics' : (topics'.map TopicConfig.name).Nodup)
    (hmembers : SameSubscriptions active active')
    (hparts : groupPartitions active topics = groupPartitions active' topics')
    (hlast : last.assignments
      = sortGroupAssignments (buildGroupAssignments cfg previous active topics)) :
    sortGroupAssignments (buildGroupAssignments cfg (some last) active' topics') = last.assignments ↔
      (cfg.groupStickyAssignments = true →
        (∀ a ∈ last.assignments, ∃ member ∈ active', member.memberID = a.memberID ∧
          memberWantsTopic member a.topic = true) ∧ NothingToMove active' last.assignments) := by
  have horder : InOrder last.assignments := hlast ▸ inOrder_sort _
  by_cases hactive : active' = []
  · have hnone : active = [] := by
      have hids := hmembers.memberIDs
      rw [hactive] at hids
      exact map_eq_nil_iff.mp hids
    have hnil : last.assignments = [] := by
      rw [hlast, hnone, build_nil]
      rfl
    rw [hnil, hactive, build_nil]
    exact ⟨fun _ _ => ⟨by simp, fun target htarget => absurd htarget not_mem_nil⟩, fun _ => rfl⟩
  · by_cases hsticky : cfg.groupStickyAssignments = true
    · have hall : (last.assignments.map GroupPartitionAssignment.topicPartition).Perm
          (groupPartitions active' topics') := by
        rw [hlast, ← hparts]
        exact ((perm_insertionSort _ _).map _).trans
          (build_assigns cfg previous hnames htopics).1
      have hself := sticky_self_iff hnames' (nodup_groupPartitions active' htopics')
        (fun tp htp => wanted_of_groupPartitions htp) horder hall
      have hsorted : sortGroupAssignments (buildGroupAssignments cfg (some last) active' topics')
          = buildCooperativeStickyAssignments last.assignments active'
            (groupPartitions active' topics') := by
        rw [build_sticky hsticky hactive]
        exact (inOrder_sort _).sort
      rw [hsorted, hself]
      exact ⟨fun h _ => h, fun h => h hsticky⟩
    · -- the strategy looks at the members and the partitions only
      have hactive1 : active ≠ [] := by
        rintro rfl
        exact hactive (map_eq_nil_iff.mp hmembers.memberIDs.symm)
      rw [hlast, build_strategy (fun h => hsticky h.1) hactive,
        build_strategy (fun h => hsticky h.1) hactive1, strategy_congr hmembers, hparts]
      exact ⟨fun _ h => absurd h hsticky, fun _ => rfl⟩

/-- **A rebalance that finds nothing new.** The assignment stored was made by a rebalance that found the
same members with the same subscriptions, and the same partitions. Another rebalance leaves it as it
is, with its generation and its time, just if every active member owns a partition, and, when
assignments are kept, every owner subscribes and nothing is to be moved. -/
theorem rebalance_settled_iff (cfg : Config) {group : String} (hgroup : group ≠ "") {w1 w2 : World}
    (hinv1 : WorldInv w1) (hinv2 : WorldInv w2) {last : ConsumerGroupAssignment}
    (hmade : (applyCommand cfg (.rebalanceGroup group) w1).2.metadata.loadGroupAssignment group
      = some last)
    (hstored : w2.metadata.loadGroupAssignment group = some last)
    (hmembers : SameSubscriptions (w1.activeMembers group) (w2.activeMembers group))
    (hparts : w1.wantedPartitions group = w2.wantedPartitions group) :
    (applyCommand cfg (.rebalanceGroup group) w2).2.metadata.loadGroupAssignment group = some last ↔
      (∀ member ∈ w2.activeMembers group, ∃ a ∈ last.assignments, a.memberID = member.memberID) ∧
      (cfg.groupStickyAssignments = true →
        (∀ a ∈ last.assignments, ∃ member ∈ w2.activeMembers group, member.memberID = a.memberID ∧
          memberWantsTopic member a.topic = true) ∧
        NothingToMove (w2.activeMembers group) last.assignments) := by
  rw [load_rebalanceGroup cfg hgroup] at hmade ⊢
  have hplan := Option.some.inj hmade
  have hnames1 := hinv1.namesApart group
  have hnames2 := hinv2.namesApart group
  have hlast : last.assignments = sortGroupAssignments (buildGroupAssignments cfg
      (w1.metadata.loadGroupAssignment group) (w1.activeMembers group) w1.metadata.listTopics) := by
    rw [← hplan, assignments_plan]
  have hlastGroup : last.group = group := by
    rw [← hplan]
    exact (fields_plan ..).1
  have howners : ∀ a ∈ last.assignments, a.memberID ∈ memberIDs (w2.activeMembers group) := by
    intro a ha
    rw [hlast, sortGroupAssignments, mem_insertionSort] at ha
    rw [← hmembers.memberIDs]
    exact (build_assigns cfg _ hnames1 hinv1.nodup_topics).2 a ha
  have horder : InOrder last.assignments := hlast ▸ inOrder_sort _
  have hnext := assignments_plan cfg group w2
  have hsame : w2.rebalancePlan cfg group = last ↔
      (w2.rebalancePlan cfg group).assignments = last.assignments ∧
        assignmentMembersMatchActive last.assignments (w2.activeMembers group) = true := by
    subst hlastGroup
    unfold World.rebalancePlan
    rw [hstored, plan_eq_iff cfg _ horder, (fields_plan ..).2]
  rw [Option.some_inj, hsame, hnext, membersMatch_iff hnames2 howners, hstored,
    rebuilt_iff hnames1 hnames2 hinv1.nodup_topics hinv2.nodup_topics hmembers hparts hlast]
  exact and_comm

end

/-- A group of two members that share two partitions is rebalanced twice. -/
theorem rebalance_settled_pair :
    let w1 := applyCommands {} [.createTopic { newTopicConfig "orders" with partitions := 2 },
      joinBilling "m1", joinBilling "m2"] (World.fresh {} stillEnv)
    let w2 := applyCommands {} [.rebalanceGroup "billing"] w1
    (applyCommand {} (.rebalanceGroup "billing") w2).2.metadata.loadGroupAssignment "billing"
      = some ⟨"billing", 1, [⟨"m1", "orders", 0⟩, ⟨"m2", "orders", 1⟩], 1000⟩ := by
  intro w1 w2
  have hinv1 : WorldInv w1 := (WorldInv.fresh {} stillEnv).applyCommands {} _
  have hinv2 : WorldInv w2 := hinv1.activity {} (.command (.rebalanceGroup "billing"))
  apply (rebalance_settled_iff {} (by decide) hinv1 hinv2 (by decide +kernel) (by decide +kernel)
    (by unfold SameSubscriptions; decide +kernel) (by decide +kernel)).mpr
  unfold NothingToMove Movable
  decide +kernel

/-- A group of two members that reads one partition is rebalanced twice, and nothing happens in
between: the assignment is of another generation then. -/
theorem rebalance_idle_member :
    let w := applyCommands {} [.createTopic (newTopicConfig "orders"), joinBilling "m1",
      joinBilling "m2", .rebalanceGroup "billing"] (World.fresh {} stillEnv)
    w.metadata.loadGroupAssignment "billing"
        = some ⟨"billing", 1, [⟨"m1", "orders", 0⟩], 1000⟩ ∧
      (applyCommand {} (.rebalanceGroup "billing") w).2.metadata.loadGroupAssignment "billing"
        = some ⟨"billing", 2, [⟨"m1", "orders", 0⟩], 1000⟩ := by
  decide +kernel

end Ech0.Broker
