/-
  Deadlines.

  A member of a consumer group lives until its last heartbeat plus its session timeout or its last
  poll plus its poll interval, and an open transaction until its creation plus its timeout. The broker
  adds in 64 bits, and the timeouts are the clients': a sum that wraps around is a deadline in the
  past, and the member or the transaction expires at once. The results here say exactly when a
  deadline is kept.
-/
import Ech0.Broker.TransactionRuns

set_option autoImplicit false

namespace Ech0.Broker

open Ech0.Lib Ech0.Store

/-! ## Members -/

section Members

variable (member : ConsumerGroupMember)

/-- The last heartbeat plus the session timeout. -/
def sessionDeadline : Nat := member.lastHeartbeatMS + member.sessionTimeoutMS

/-- The last poll plus the poll interval. -/
def pollDeadline : Nat := member.lastPollMS + member.maxPollIntervalMS

/-- What `expiresAtMS` has to hold in 64 bits. -/
def sessionSum : Nat :=
  member.lastHeartbeatMS + if member.sessionTimeoutMS = 0 then 1 else member.sessionTimeoutMS

/-- What `pollExpiresAtMS` has to hold in 64 bits. -/
def pollSum : Nat :=
  let timeout :=
    if member.maxPollIntervalMS = 0 then member.sessionTimeoutMS else member.maxPollIntervalMS
  member.effectiveLastPollMS + if timeout = 0 then 1 else timeout

lemma sessionDeadline_le_sum : sessionDeadline member ≤ sessionSum member := by
  unfold sessionDeadline sessionSum
  split <;> omega

lemma pollDeadline_le_sum : pollDeadline member ≤ pollSum member := by
  have hpoll : member.lastPollMS ≤ member.effectiveLastPollMS := by
    unfold ConsumerGroupMember.effectiveLastPollMS
    split <;> omega
  unfold pollDeadline pollSum
  dsimp only
  split_ifs <;> omega

/-- A deadline is kept by a sum that does not wrap around, and by one that wraps around far enough. -/
lemma le_mod_iff {deadline sum : Nat} (h : deadline ≤ sum) :
    deadline ≤ sum % 2 ^ 64 ↔ sum < 2 ^ 64 ∨ deadline ≤ sum % 2 ^ 64 := by
  refine ⟨.inr, ?_⟩
  rintro (hlt | hle)
  · rw [Nat.mod_eq_of_lt hlt]
    exact h
  · exact hle

/-- A member is expired from the earlier of its two wrapped sums on. -/
lemma expiredAt_iff (now : Nat) : member.expiredAt now = true ↔
    sessionSum member % 2 ^ 64 ≤ now ∨ pollSum member % 2 ^ 64 ≤ now := by
  unfold ConsumerGroupMember.expiredAt
  rw [decide_eq_true_eq]
  exact Iff.rfl

lemma member_expires_iff : (∀ now < 2 ^ 64, member.expiredAt now = true →
      sessionDeadline member ≤ now ∨ pollDeadline member ≤ now) ↔
    ∀ sum ∈ [sessionSum member, pollSum member],
      sum < 2 ^ 64 ∨ min (sessionDeadline member) (pollDeadline member) ≤ sum % 2 ^ 64 := by
  have hsums : ∀ sum ∈ [sessionSum member, pollSum member],
      min (sessionDeadline member) (pollDeadline member) ≤ sum := by
    have hsession := sessionDeadline_le_sum member
    have hpoll := pollDeadline_le_sum member
    simp only [List.forall_mem_cons, List.not_mem_nil, false_implies, implies_true, and_true]
    omega
  have hmod : ∀ sum, sum % 2 ^ 64 < 2 ^ 64 := fun sum => Nat.mod_lt _ (by decide)
  simp only [expiredAt_iff, ← min_le_iff]
  constructor
  · intro h sum hsum
    rw [← le_mod_iff (hsums sum hsum)]
    -- the member is expired when the clock stands at the wrapped sum
    refine h _ (hmod sum) ?_
    rcases List.mem_pair.mp hsum with rfl | rfl
    · exact min_le_left _ _
    · exact min_le_right _ _
  · intro h now _ hexpired
    have hkept := fun sum hsum => (le_mod_iff (hsums sum hsum)).mpr (h sum hsum)
    rcases min_le_iff.mp hexpired with hle | hle
    · exact (hkept _ (by simp)).trans hle
    · exact (hkept _ (by simp)).trans hle

end Members

/-! ## Transactions -/

/-- The deadline of a transaction is what its begin made it. -/
lemma deadline_of_run (cfg : Config) (env : Env) (activities : List Activity) {txID : Nat}
    {state : TransactionState}
    (h : (runActivities cfg activities (World.fresh cfg env)).transaction txID = some state) :
    state.expiresAtMS = addUint64 state.createdAtMS state.timeoutMS := by
  refine stored_of_run (fun hborn => hborn.deadline) ?_ cfg env activities h
  intro adds a b hstep ha
  cases hstep <;> exact ha

/-- **Deadlines.** A member never expires before its two deadlines if and only if neither sum wraps
around in 64 bits, or one that does wraps to a time at which a deadline has passed. An open
transaction of a run never expires before its creation plus its timeout if and only if this sum does
not wrap around, or wraps to zero, which is no deadline at all. -/
theorem deadlines_kept_iff (cfg : Config) (env : Env) (activities : List Activity) :
    (∀ member : ConsumerGroupMember,
      (∀ now < 2 ^ 64, member.expiredAt now = true →
        sessionDeadline member ≤ now ∨ pollDeadline member ≤ now) ↔
      ∀ sum ∈ [sessionSum member, pollSum member],
        sum < 2 ^ 64 ∨ min (sessionDeadline member) (pollDeadline member) ≤ sum % 2 ^ 64) ∧
    ∀ txID state,
      (runActivities cfg activities (World.fresh cfg env)).transaction txID = some state →
      state.status = .open →
      ((∀ now < 2 ^ 64, transactionExpired state now = true →
        state.createdAtMS + state.timeoutMS ≤ now) ↔
      state.createdAtMS + state.timeoutMS < 2 ^ 64 ∨
        (state.createdAtMS + state.timeoutMS) % 2 ^ 64 = 0) := by
  refine ⟨member_expires_iff, fun txID state hstored hopen => ?_⟩
  have hdeadline := deadline_of_run cfg env activities hstored
  unfold addUint64 at hdeadline
  simp only [transactionExpired, hopen, hdeadline, true_and, decide_eq_true_eq]
  generalize state.createdAtMS + state.timeoutMS = sum
  constructor
  · intro h
    by_contra hwraps
    have hearly := h (sum % 2 ^ 64) (Nat.mod_lt _ (by decide)) ⟨by omega, le_rfl⟩
    omega
  · rintro hkept now - ⟨hpos, hle⟩
    omega

/-- A session timeout of all ones: the member has expired in the moment it joins. A transaction with
such a timeout is aborted by the next pass. -/
theorem longest_timeouts_expire :
    let timeout := 2 ^ 64 - 1
    let member := groupMemberFromCommand 1000 { group := "g", memberID := "m", topics := [],
                                                sessionTimeoutMS := timeout }
    let begun := runActivities {} [.command (.txBegin ⟨"orders", timeout⟩)] (World.fresh {} stillEnv)
    (member.expiredAt 1000 = true ∧ sessionDeadline member = 1000 + timeout ∧
      1000 < pollDeadline member) ∧
    ((begun.transaction 1).map fun state => (state.status, state.createdAtMS, state.timeoutMS))
      = some (.open, 1000, timeout) ∧
    ((applyCommand {} (.txExpire 1000) begun).2.transaction 1).map (·.status) = some .aborted := by
  decide +kernel

end Ech0.Broker
