/-
  Commits of a group's offsets, and the rebalances that fall between their check and their write.

  A member shows its generation when it commits, and the broker checks that the group still has this
  generation and that the member owns the partition. Then the commit is sent on as a command, which is
  applied later and knows nothing of the lease; in a transaction, what is written at the end was checked
  when it was staged. So a rebalance in between lets a commit through that is no longer the member's to
  make (`commit_after_rebalance`). As long as a group is rebalanced only when nothing of it is on the
  way, every write is made under a lease that holds (`commits_fenced`).
-/
import Ech0.Broker.ConsumerOffsets
import Ech0.Broker.Rebalance
import Ech0.Broker.TransactionRuns

set_option autoImplicit false

namespace Ech0.Broker

open Ech0.Lib Ech0.Store Prog List

variable {w : World}

/-! ## Leases (`group_assignment_validation.go`) -/

/-- What a member claims when it commits: its group's generation, and a partition that is its own. -/
structure Lease where
  group : String
  memberID : String
  generation : Nat
  tp : TopicPartition
  deriving DecidableEq

/-- `assignmentOwnerTable`, at one partition: a later entry replaces an earlier one. -/
def assignmentOwner (assignments : List GroupPartitionAssignment) (tp : TopicPartition) : Option String :=
  assignments.foldl (fun owner a => if a.topicPartition = tp then some a.memberID else owner) none

def currentConsumerGroupAssignment (group : String) (generation : Nat) :
    Handling ConsumerGroupAssignment := do
  match ← wrapBroker "load group assignment" (onMeta (.loadGroupAssignment group)) with
  | none =>
    Prog.fail (brokerStoreError .invalidArgument
      ("consumer group " ++ group ++ " has no active assignment"))
  | some assignment =>
    if assignment.generation ≠ generation then
      Prog.fail (brokerStoreError .invalidArgument
        ("stale consumer group generation for " ++ group ++ ": got " ++ Nat.repr generation
          ++ " want " ++ Nat.repr assignment.generation))
    else pure assignment

def validateConsumerGroupPartitionOwner (lease : Lease) (assignment : ConsumerGroupAssignment) :
    Except Error Unit :=
  let partition := lease.tp.topic ++ "/" ++ Nat.repr lease.tp.partition.toNat
  match assignmentOwner assignment.assignments lease.tp with
  | none =>
    .error (brokerStoreError .invalidArgument
      ("consumer group " ++ lease.group ++ " has no owner for " ++ partition ++ " in generation "
        ++ Nat.repr lease.generation))
  | some owner =>
    if owner ≠ lease.memberID then
      .error (brokerStoreError .invalidArgument
        ("member " ++ lease.memberID ++ " does not own " ++ partition ++ " in group " ++ lease.group
          ++ " generation " ++ Nat.repr lease.generation))
    else .ok ()

def validateConsumerGroupLease (lease : Lease) : Handling Unit := do
  if lease.group = "" ∨ lease.memberID = "" then
    Prog.fail (brokerStoreError .invalidArgument "group and member_id are required")
  else if lease.generation = 0 then
    Prog.fail (brokerStoreError .invalidArgument
      ("consumer group " ++ lease.group ++ " generation is required"))
  else
    let now ← nowMS
    let _ ← loadUnexpiredGroupMember lease.group lease.memberID now
    let assignment ← currentConsumerGroupAssignment lease.group lease.generation
    Prog.ofExcept (validateConsumerGroupPartitionOwner lease assignment)

/-- `CommitConsumerGroupOffsetWithMetadata` up to the command it sends on; group and topic are scoped
names. -/
def commitConsumerGroupOffsetWithMetadata (lease : Lease) (nextOffset : Nat) (metadata : String) :
    Handling CommitOffsetCommand := do
  validateConsumerGroupLease lease
  let now ← nowMS
  pure
    { consumer := groupConsumer lease.group, topic := lease.tp.topic, partition := lease.tp.partition,
      nextOffset := nextOffset, metadata := metadata, updatedAtMS := now }

/-- The lease that a staged offset is committed under; an offset of a plain consumer has none. -/
def offsetLease (offset : TransactionOffsetCommit) : Option Lease :=
  if offset.group = "" then none
  else some ⟨offset.group, offset.memberID, offset.generation, ⟨offset.topic, offset.partition⟩⟩

/-- `CommitTransactionOffset` up to the command it sends on, `scopedTransactionOffsetGroup` included;
the names are scoped. -/
def sendTransactionOffset (identity : TransactionIdentity) (offset : TransactionOffsetCommit) :
    Handling TxCommitOffsetCommand := do
  match offsetLease offset with
  | none => pure ⟨identity, offset⟩
  | some lease =>
    validateConsumerGroupLease lease
    pure ⟨identity, offset⟩

/-- The lease holds: the group has this generation, and the member owns the partition. -/
def Lease.Held (lease : Lease) (w : World) : Prop :=
  ∃ assignment, w.metadata.loadGroupAssignment lease.group = some assignment ∧
    assignment.generation = lease.generation ∧
    assignmentOwner assignment.assignments lease.tp = some lease.memberID

variable {lease : Lease}

lemma Lease.Held.of_keeps {w' : World} (h : lease.Held w) (hkeeps : KeepsTable .assignments w w') :
    lease.Held w' := by
  have hsame : w'.metadata.assignments = w.metadata.assignments := hkeeps
  unfold Lease.Held MemoryStore.loadGroupAssignment at h ⊢
  rw [hsame]
  exact h

/-- A rebalance of another group does not touch it. -/
lemma Lease.Held.of_rebalance (h : lease.Held w) (cfg : Config) {group : String}
    (hother : lease.group ≠ group) : lease.Held (applyCommand cfg (.rebalanceGroup group) w).2 := by
  have hload : (applyCommand cfg (.rebalanceGroup group) w).2.metadata.loadGroupAssignment lease.group
      = w.metadata.loadGroupAssignment lease.group := by
    unfold MemoryStore.loadGroupAssignment
    rw [assignments_rebalanceGroup]
    by_cases hname : group = ""
    · rw [if_pos hname]
    · rw [if_neg hname, Std.ExtTreeMap.getElem?_insert, if_neg (by simpa using Ne.symm hother)]
  unfold Lease.Held at h ⊢
  rw [hload]
  exact h

lemma loadUnexpiredGroupMember_ends (group memberID : String) (now : Nat) (w : World) :
    Ends step (loadUnexpiredGroupMember group memberID now) w fun _ w' _ => w' = w := by
  unfold loadUnexpiredGroupMember
  have hload : exec step (wrapBroker "load group member" (onMeta (.loadGroupMember group memberID))) w
      = (.ok (w.metadata.loadGroupMember group memberID), w) := rfl
  apply ends_bind_ok hload
  cases w.metadata.loadGroupMember group memberID with
  | none => exact ends_fail rfl
  | some member =>
    dsimp only
    split
    · exact ends_fail rfl
    · exact ends_pure rfl

lemma currentConsumerGroupAssignment_ends (group : String) (generation : Nat) (w : World) :
    Ends step (currentConsumerGroupAssignment group generation) w fun r w' _ =>
      w' = w ∧ ∀ assignment, r = .ok assignment →
        w.metadata.loadGroupAssignment group = some assignment ∧ assignment.generation = generation := by
  unfold currentConsumerGroupAssignment
  have hload : exec step (wrapBroker "load group assignment" (onMeta (.loadGroupAssignment group))) w
      = (.ok (w.metadata.loadGroupAssignment group), w) := rfl
  apply ends_bind_ok hload
  cases w.metadata.loadGroupAssignment group with
  | none => exact ends_fail ⟨rfl, fun _ h => nomatch h⟩
  | some assignment =>
    dsimp only
    by_cases hgeneration : assignment.generation = generation
    · rw [if_neg (not_not_intro hgeneration)]
      refine ends_pure ⟨rfl, fun found h => ?_⟩
      rw [← Except.ok.inj h]
      exact ⟨rfl, hgeneration⟩
    · rw [if_pos hgeneration]
      exact ends_fail ⟨rfl, fun _ h => nomatch h⟩

lemma owner_of_validate {assignment : ConsumerGroupAssignment}
    (h : validateConsumerGroupPartitionOwner lease assignment = .ok ()) :
    assignmentOwner assignment.assignments lease.tp = some lease.memberID := by
  unfold validateConsumerGroupPartitionOwner at h
  dsimp only at h
  split at h
  · cases h
  · next owner howner =>
    split at h
    · cases h
    · next hsame => rw [howner, not_not.mp hsame]

/-- A lease that passes the check holds at that moment, and the check changes nothing. -/
lemma validateConsumerGroupLease_ends (lease : Lease) (w : World) :
    Ends step (validateConsumerGroupLease lease) w fun r w' _ =>
      w'.metadata = w.metadata ∧ (r = .ok () → lease.Held w) := by
  unfold validateConsumerGroupLease
  split
  · exact ends_fail ⟨rfl, fun h => nomatch h⟩
  split
  · exact ends_fail ⟨rfl, fun h => nomatch h⟩
  apply ends_bind_ok (exec_nowMS w)
  apply ends_bind
  apply (loadUnexpiredGroupMember_ends lease.group lease.memberID (w.env.clock 0) w.tick).mono
  rintro (err | member) w1 - rfl
  · exact ⟨rfl, fun h => nomatch h⟩
  · apply ends_bind
    apply (currentConsumerGroupAssignment_ends lease.group lease.generation w.tick).mono
    rintro (err | assignment) w2 - ⟨rfl, hassignment⟩
    · exact ⟨rfl, fun h => nomatch h⟩
    · obtain ⟨hload, hgeneration⟩ := hassignment assignment rfl
      exact ends_ofExcept ⟨rfl, fun h => ⟨assignment, hload, hgeneration, owner_of_validate h⟩⟩

/-- What is sent on was checked. -/
lemma commitConsumerGroupOffset_ends (lease : Lease) (nextOffset : Nat) (metadata : String) (w : World) :
    Ends step (commitConsumerGroupOffsetWithMetadata lease nextOffset metadata) w fun r w' _ =>
      w'.metadata = w.metadata ∧ (r.isOk = true → lease.Held w) := by
  unfold commitConsumerGroupOffsetWithMetadata
  apply ends_bind
  apply (validateConsumerGroupLease_ends lease w).mono
  rintro (err | ⟨⟩) w1 - ⟨hsame, hheld⟩
  · exact ⟨hsame, fun h => nomatch h⟩
  · apply ends_bind_ok (exec_nowMS w1)
    exact ends_pure ⟨hsame, fun _ => hheld rfl⟩

lemma sendTransactionOffset_ends (identity : TransactionIdentity) (offset : TransactionOffsetCommit)
    (w : World) : Ends step (sendTransactionOffset identity offset) w fun r w' _ =>
      w'.metadata = w.metadata ∧ ∀ req, r = .ok req →
        req = ⟨identity, offset⟩ ∧ ∀ lease ∈ offsetLease offset, lease.Held w := by
  unfold sendTransactionOffset
  cases offsetLease offset with
  | none =>
    refine ends_pure ⟨rfl, fun req h => ⟨(Except.ok.inj h).symm, fun lease hlease => ?_⟩⟩
    cases hlease
  | some lease =>
    apply ends_bind
    apply (validateConsumerGroupLease_ends lease w).mono
    rintro (err | ⟨⟩) w1 - ⟨hsame, hheld⟩
    · exact ⟨hsame, fun req h => nomatch h⟩
    · refine ends_pure ⟨hsame, fun req h => ⟨(Except.ok.inj h).symm, fun lease' hlease => ?_⟩⟩
      rw [← Option.some.inj hlease]
      exact hheld rfl

/-! ## Commits on their way -/

/-- The broker, the commits that have been checked and sent on to it, and the offsets that have been
checked and sent on to be staged in a transaction. -/
structure Commits where
  world : World
  sent : List (Lease × CommitOffsetCommand)
  staged : List TxCommitOffsetCommand

/-- What can happen next: a client's commit is checked, and a commit that was sent on arrives, alone or
coalesced with others, or is staged; or the broker does something else, but no offset of a group is
staged without a check. -/
inductive Move where
  | commit (lease : Lease) (nextOffset : Nat) (metadata : String)
  | stage (identity : TransactionIdentity) (offset : TransactionOffsetCommit)
  | arrive (index : Nat)
  | arriveTogether (indexes : List Nat)
  | arriveStaged (index : Nat)
  | other (activity : Activity)
      (hchecked : ∀ req, activity = .command (.txCommitOffset req) → req.offset.group = "")

namespace Commits

/-- The commits at these places. -/
def sentAt (s : Commits) (indexes : List Nat) : List (Lease × CommitOffsetCommand) :=
  indexes.filterMap fun index => s.sent[index]?

def next (cfg : Config) (s : Commits) : Move → Commits
  | .commit lease nextOffset metadata =>
    let (result, world) := (commitConsumerGroupOffsetWithMetadata lease nextOffset metadata).run s.world
    match result with
    | .ok req => { s with world := world, sent := s.sent ++ [(lease, req)] }
    | .error _ => { s with world := world }
  | .stage identity offset =>
    let (result, world) := (sendTransactionOffset identity offset).run s.world
    match result with
    | .ok req => { s with world := world, staged := s.staged ++ [req] }
    | .error _ => { s with world := world }
  | .arrive index =>
    match s.sent[index]? with
    | none => s
    | some (_, req) =>
      { s with world := (Activity.command (.commitOffset req)).run cfg s.world,
               sent := s.sent.eraseIdx index }
  | .arriveTogether indexes =>
    { s with
      world := (Activity.command (.commitOffsets ((s.sentAt indexes).map Prod.snd))).run cfg s.world
      sent := (s.sent.zipIdx.filter fun e => e.2 ∉ indexes).map Prod.fst }
  | .arriveStaged index =>
    match s.staged[index]? with
    | none => s
    | some req =>
      { s with world := (Activity.command (.txCommitOffset req)).run cfg s.world,
               staged := s.staged.eraseIdx index }
  | .other activity _ => { s with world := activity.run cfg s.world }

/-- The leases under which offsets are written: those of the commits that arrive, and at the end of a
transaction those of the offsets staged in it. -/
def written (s : Commits) : Move → List Lease
  | .arrive index => (s.sent[index]?).toList.map Prod.fst
  | .arriveTogether indexes => (s.sentAt indexes).map Prod.fst
  | .other (.command (.txCommit identity)) _ =>
    match s.world.transaction identity.txID with
    | some state => if state.status = .open then state.offsetCommits.filterMap offsetLease else []
    | none => []
  | _ => []

/-- A commit changes the offset of its group only under a lease that holds when it is written. -/
def Fenced (cfg : Config) (s : Commits) (move : Move) : Prop :=
  ∀ lease ∈ s.written move,
    (s.next cfg move).world.offsetState (groupConsumer lease.group) lease.tp
        ≠ s.world.offsetState (groupConsumer lease.group) lease.tp →
      lease.Held s.world

/-- A commit under this lease is on its way: it was sent on, or it is staged in an open transaction. -/
inductive Outstanding (s : Commits) : Lease → Prop
  | sent {lease : Lease} {req : CommitOffsetCommand} (h : (lease, req) ∈ s.sent) : Outstanding s lease
  | staged {lease : Lease} {req : TxCommitOffsetCommand} (h : req ∈ s.staged)
      (hlease : offsetLease req.offset = some lease) : Outstanding s lease
  | pending {lease : Lease} {txID : Nat} {state : TransactionState} {offset : TransactionOffsetCommit}
      (hstate : s.world.transaction txID = some state) (hopen : state.status = .open)
      (hoffset : offset ∈ state.offsetCommits) (hlease : offsetLease offset = some lease) :
      Outstanding s lease

/-- A group is rebalanced when none of its commits is on its way. -/
def RebalancesIdle (s : Commits) : Move → Prop
  | .other (.command (.rebalanceGroup group)) _ => ∀ lease, s.Outstanding lease → lease.group ≠ group
  | _ => True

/-! ## What one move keeps -/

end Commits

lemma TransactionStep.mem_offsets {adds : Adds} {a b : TransactionState} (h : TransactionStep adds a b)
    {offset : TransactionOffsetCommit} (hoffset : offset ∈ b.offsetCommits) :
    offset ∈ a.offsetCommits ∨ adds = .offset offset := by
  cases h with
  | same | closed _ _ _ _ _ | published _ _ _ _ _ _ => exact .inl hoffset
  | staged added hadds updatedAtMS hopen hconsumer =>
    rcases mem_append.mp (Parts.mem_compacted _ _ _ offset hoffset) with hold | hnew
    · exact .inl hold
    · rw [mem_singleton.mp hnew]
      exact .inr hadds

lemma TransactionStep.open_before {adds : Adds} {a b : TransactionState} (h : TransactionStep adds a b)
    (hopen : b.status = .open) : a.status = .open := by
  by_contra hclosed
  rw [h.eq_of_not_open hclosed] at hopen
  exact hclosed hopen

lemma Activity.addition_offset (activity : Activity) {offset : TransactionOffsetCommit}
    (h : activity.addition = .offset offset) :
    ∃ req, activity = .command (.txCommitOffset req) ∧ req.offset = offset := by
  cases activity with
  | command cmd =>
    cases cmd with
    | txCommitOffset req => exact ⟨req, rfl, Adds.offset.inj h⟩
    | _ => cases h
  | _ => cases h

/-- Only a rebalance of its group can end a lease. -/
lemma Lease.Held.activity (h : lease.Held w) (cfg : Config) {activity : Activity}
    (hidle : ∀ group, activity = .command (.rebalanceGroup group) → lease.group ≠ group) :
    lease.Held (activity.run cfg w) := by
  by_cases hwrites : .assignments ∈ activity.footprint.tables
  · cases activity with
    | command cmd =>
      cases cmd with
      | rebalanceGroup group => exact h.of_rebalance cfg (hidle group rfl)
      | _ => exact absurd hwrites (by simp [Activity.footprint, Command.footprint])
    | _ => exact absurd hwrites (by simp [Activity.footprint])
  · exact h.of_keeps (keepsTable_activity (by simp) (by simp) hwrites cfg w)

namespace Commits

variable {cfg : Config} {s s' : Commits}

/-- What is on its way after an activity was on its way before, or is the offset that it stages. -/
lemma Outstanding.before {activity : Activity} (hinv : TransactionsInv s.world)
    (hworld : s'.world = activity.run cfg s.world) (hsent : s'.sent ⊆ s.sent)
    (hstaged : s'.staged ⊆ s.staged) (h : s'.Outstanding lease) : s.Outstanding lease ∨
      ∃ offset, activity.addition = .offset offset ∧ offsetLease offset = some lease := by
  cases h with
  | sent h => exact .inl (.sent (hsent h))
  | staged h hlease => exact .inl (.staged (hstaged h) hlease)
  | pending hstate hopen hoffset hlease =>
    rw [hworld] at hstate
    obtain ⟨born, hmoved, -⟩ := activity_moved cfg hinv activity
    rcases hmoved.before hstate with ⟨before, hbefore, hstep⟩ | ⟨-, hborn⟩
    · rcases hstep.mem_offsets hoffset with hold | hnew
      · exact .inl (.pending hbefore (hstep.open_before hopen) hold hlease)
      · exact .inr ⟨_, hnew, hlease⟩
    · rw [hborn.offsets] at hoffset
      cases hoffset

/-- Every commit on its way has a lease that holds. -/
structure Inv (s : Commits) : Prop where
  transactions : TransactionsInv s.world
  held : ∀ lease, s.Outstanding lease → lease.Held s.world

/-- Looking at the metadata and sending on what was found in order. -/
lemma Inv.looked (h : s.Inv) (hsame : s'.world.metadata = s.world.metadata)
    (hsent : ∀ e ∈ s'.sent, e ∈ s.sent ∨ e.1.Held s.world)
    (hstaged : ∀ req ∈ s'.staged, req ∈ s.staged ∨
      ∀ lease ∈ offsetLease req.offset, lease.Held s.world) : s'.Inv := by
  have hsameTx : SameTransactions s.world s'.world := by
    unfold SameTransactions KeepsTable
    rw [hsame]
  have hkeeps : ∀ {lease : Lease}, lease.Held s.world → lease.Held s'.world := by
    intro lease hheld
    apply hheld.of_keeps
    unfold KeepsTable
    rw [hsame]
  have hmoved : Moved .nothing s.world s'.world none := hsameTx.moved
  refine ⟨hmoved.inv h.transactions, fun lease hout => ?_⟩
  cases hout with
  | sent hin =>
    rcases hsent _ hin with hold | hheld
    · exact hkeeps (h.held lease (.sent hold))
    · exact hkeeps hheld
  | staged hin hlease =>
    rcases hstaged _ hin with hold | hheld
    · exact hkeeps (h.held lease (.staged hold hlease))
    · exact hkeeps (hheld lease hlease)
  | pending hstate hopen hoffset hlease =>
    rw [hsameTx.transaction] at hstate
    exact hkeeps (h.held lease (.pending hstate hopen hoffset hlease))

lemma Inv.activity (h : s.Inv) (cfg : Config) (activity : Activity) (hworld : s'.world = activity.run cfg s.world)
    (hsent : s'.sent ⊆ s.sent) (hstaged : s'.staged ⊆ s.staged)
    (hidle : ∀ group, activity = .command (.rebalanceGroup group) →
      ∀ lease, s.Outstanding lease → lease.group ≠ group)
    (hadds : ∀ offset lease, activity.addition = .offset offset → offsetLease offset = some lease →
      s.Outstanding lease) : s'.Inv := by
  obtain ⟨born, hmoved, -⟩ := activity_moved cfg h.transactions activity
  refine ⟨hworld ▸ hmoved.inv h.transactions, fun lease hout => ?_⟩
  have hbefore : s.Outstanding lease := by
    rcases hout.before h.transactions hworld hsent hstaged with hold | ⟨offset, hadd, hlease⟩
    · exact hold
    · exact hadds offset lease hadd hlease
  rw [hworld]
  exact (h.held lease hbefore).activity cfg fun group hgroup => hidle group hgroup lease hbefore

lemma Inv.next (h : s.Inv) {move : Move} (hidle : s.RebalancesIdle move) : (s.next cfg move).Inv := by
  cases move with
  | commit lease nextOffset metadata =>
    have hends := commitConsumerGroupOffset_ends lease nextOffset metadata s.world
    unfold Ends at hends
    cases hrun : exec step (commitConsumerGroupOffsetWithMetadata lease nextOffset metadata)
        s.world with
    | mk r w =>
      rw [hrun] at hends
      obtain ⟨hsame, hheld⟩ := hends
      simp only [Commits.next, Handling.run, hrun]
      cases r with
      | error err => exact h.looked hsame (fun e he => .inl he) fun req hreq => .inl hreq
      | ok req =>
        refine h.looked hsame (fun e he => ?_) fun req hreq => .inl hreq
        rcases mem_append.mp he with hold | hnew
        · exact .inl hold
        · rw [mem_singleton.mp hnew]
          exact .inr (hheld rfl)
  | stage identity offset =>
    have hends := sendTransactionOffset_ends identity offset s.world
    unfold Ends at hends
    cases hrun : exec step (sendTransactionOffset identity offset) s.world with
    | mk r w =>
      rw [hrun] at hends
      obtain ⟨hsame, hheld⟩ := hends
      simp only [Commits.next, Handling.run, hrun]
      cases r with
      | error err => exact h.looked hsame (fun e he => .inl he) fun req hreq => .inl hreq
      | ok req =>
        obtain ⟨rfl, hoffset⟩ := hheld req rfl
        refine h.looked hsame (fun e he => .inl he) fun req hreq => ?_
        rcases mem_append.mp hreq with hold | hnew
        · exact .inl hold
        · rw [mem_singleton.mp hnew]
          exact .inr hoffset
  | arrive index =>
    cases hsent : s.sent[index]? with
    | none =>
      simp only [Commits.next, hsent]
      exact h
    | some e =>
      simp only [Commits.next, hsent]
      refine h.activity cfg (.command (.commitOffset e.2)) rfl (eraseIdx_sublist _ _).subset
        (List.Subset.refl _) (fun group hgroup => ?_) (fun offset lease hadd => ?_)
      · cases hgroup
      · cases hadd
  | arriveTogether indexes =>
    refine h.activity cfg (.command (.commitOffsets ((s.sentAt indexes).map Prod.snd))) rfl
      (fun e he => ?_) (List.Subset.refl _) (fun group hgroup => ?_) (fun offset lease hadd => ?_)
    · obtain ⟨⟨e', i⟩, hin, rfl⟩ := mem_map.mp he
      exact mem_of_getElem? (mem_zipIdx_iff_getElem?.mp (mem_filter.mp hin).1)
    · cases hgroup
    · cases hadd
  | arriveStaged index =>
    cases hstaged : s.staged[index]? with
    | none =>
      simp only [Commits.next, hstaged]
      exact h
    | some req =>
      simp only [Commits.next, hstaged]
      refine h.activity cfg (.command (.txCommitOffset req)) rfl (List.Subset.refl _)
        (eraseIdx_sublist _ _).subset (fun group hgroup => ?_) (fun offset lease hadd hlease => ?_)
      · cases hgroup
      · cases hadd
        exact .staged (mem_of_getElem? hstaged) hlease
  | other activity hchecked =>
    refine h.activity cfg activity rfl (List.Subset.refl _) (List.Subset.refl _)
      (fun group hgroup => ?_) (fun offset lease hadd hlease => ?_)
    · subst hgroup
      exact hidle
    · obtain ⟨req, hreq, rfl⟩ := activity.addition_offset hadd
      rw [offsetLease, if_pos (hchecked req hreq)] at hlease
      cases hlease

lemma mem_sentAt {indexes : List Nat} {e : Lease × CommitOffsetCommand} (h : e ∈ s.sentAt indexes) :
    e ∈ s.sent := by
  obtain ⟨index, -, hat⟩ := mem_filterMap.mp h
  exact mem_of_getElem? hat

/-- What is written was on its way. -/
lemma outstanding_of_written {move : Move} (h : lease ∈ s.written move) : s.Outstanding lease := by
  cases move with
  | arrive index =>
    obtain ⟨e, he, rfl⟩ := mem_map.mp h
    exact .sent (mem_of_getElem? (Option.mem_toList.mp he))
  | arriveTogether indexes =>
    obtain ⟨e, he, rfl⟩ := mem_map.mp h
    exact .sent (mem_sentAt he)
  | other activity hchecked =>
    unfold written at h
    split at h
    · next heq => cases heq
    · next heq => cases heq
    · next identity _ heq =>
      cases hstate : s.world.transaction identity.txID with
      | none =>
        rw [hstate] at h
        cases h
      | some state =>
        rw [hstate] at h
        dsimp only at h
        by_cases hopen : state.status = .open
        · rw [if_pos hopen] at h
          obtain ⟨offset, hoffset, hlease⟩ := mem_filterMap.mp h
          exact .pending hstate hopen hoffset hlease
        · rw [if_neg hopen] at h
          cases h
    · cases h
  | _ => cases h

lemma Inv.fenced (h : s.Inv) (move : Move) : s.Fenced cfg move :=
  fun lease hwritten _ => h.held lease (outstanding_of_written hwritten)

lemma not_outstanding (hsent : s.sent = []) (hstaged : s.staged = [])
    (hnone : s.world.metadata.transactions = ∅) (lease : Lease) : ¬ s.Outstanding lease := by
  intro h
  cases h with
  | sent h =>
    rw [hsent] at h
    cases h
  | staged h hlease =>
    rw [hstaged] at h
    cases h
  | pending hstate hopen hoffset hlease =>
    unfold World.transaction at hstate
    rw [hnone] at hstate
    simp at hstate

/-- The broker as it starts, with nothing on its way. -/
def start (cfg : Config) (env : Env) : Commits := ⟨World.fresh cfg env, [], []⟩

lemma inv_start (cfg : Config) (env : Env) : (start cfg env).Inv :=
  ⟨(recorded_fresh cfg env).inv, fun lease hout => absurd hout (not_outstanding rfl rfl rfl lease)⟩

end Commits

/-- **Commits are fenced by rebalances that wait for them.** Whatever is checked, sent on, staged,
delivered, committed and rebalanced, in whatever order: if a group is rebalanced only when none of its
commits is on its way, each commit is written under a lease that holds. -/
theorem commits_fenced (cfg : Config) (env : Env) {moves : List Move}
    (hidle : Meets (Commits.next cfg) Commits.RebalancesIdle moves (.start cfg env)) :
    Meets (Commits.next cfg) (Commits.Fenced cfg) moves (.start cfg env) :=
  meets_of_invariant (fun _ _ hinv hidle => hinv.next hidle) (fun _ move hinv _ => hinv.fenced move)
    (Commits.inv_start cfg env) hidle

/-- A command of which no staged offset can come. -/
def Move.plain (cmd : Command) (h : cmd.addition = .nothing) : Move :=
  .other (.command cmd) fun req heq => by
    cases heq
    cases h

/-- Members are taken in turn at every rebalance. -/
def takeTurns : Config := { groupStickyAssignments := false }

/-- The first member has the only partition, and its commit is checked. -/
def checkedCommit : List Move :=
  [.plain (.createTopic (newTopicConfig "orders")) rfl, .plain (joinBilling "m1") rfl,
    .plain (.rebalanceGroup "billing") rfl, .commit ⟨"billing", "m1", 1, ⟨"orders", 0⟩⟩ 5 ""]

/-- The commit arrives before another member joins and the group is rebalanced. -/
theorem commits_fenced_in_time :
    Meets (Commits.next takeTurns) (Commits.Fenced takeTurns)
      (checkedCommit ++ [.arrive 0, .plain (joinBilling "m0") rfl, .plain (.rebalanceGroup "billing") rfl])
      (.start takeTurns stillEnv) := by
  apply commits_fenced
  refine ⟨trivial, trivial, ?_, trivial, trivial, trivial, ?_, trivial⟩
  · exact fun lease h => absurd h (Commits.not_outstanding rfl rfl (by decide +kernel) lease)
  · exact fun lease h => absurd h (Commits.not_outstanding (by decide +kernel) (by decide +kernel)
      (by decide +kernel) lease)

/-- Another member joins and gets the partition before the commit arrives. -/
theorem commit_after_rebalance :
    ¬ Meets (Commits.next takeTurns) (Commits.Fenced takeTurns)
      (checkedCommit ++ [.plain (joinBilling "m0") rfl, .plain (.rebalanceGroup "billing") rfl, .arrive 0])
      (.start takeTurns stillEnv) := by
  intro h
  obtain ⟨-, -, -, -, -, -, hfenced, -⟩ := h
  obtain ⟨assignment, hload, hgeneration, -⟩ := hfenced ⟨"billing", "m1", 1, ⟨"orders", 0⟩⟩
    (by decide +kernel) (by decide +kernel)
  have hstored := congrArg (Option.map ConsumerGroupAssignment.generation) hload
  rw [Option.map_some, hgeneration] at hstored
  revert hstored
  decide +kernel

end Ech0.Broker
