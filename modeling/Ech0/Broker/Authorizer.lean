/-
  The authorizer over the stored access policies (`governance_acl_authorizer.go`, `memory_acl.go`).

  The store lists its policies by priority, then deny before allow, then by id, and the authorizer takes
  the first one of the scope of the resource that matches the request. Hence the matching policy of the
  highest priority decides, and it does not matter how the policies come out of the store's map, in which
  the order of the insertions is at most visible (`authorized_iff`).
-/
import Ech0.Lib.KeyedInsert
import Ech0.Broker.Invariants
import Ech0.Broker.Scope

set_option autoImplicit false

namespace Ech0.Broker

open Ech0.Lib Ech0.Store List

/-! ## Requests (`governance_auth.go`, `governance_acl_authorizer.go`) -/

/-- A `Map[string, any]`. A value that is neither a text nor has one is `none`. -/
abbrev Details := Map String (Option String)

def stringDetail (details : Details) (key fallback : String) : String :=
  match details[key]? with
  | some (some value) => nonEmpty (trimSpace value) fallback
  | _ => fallback

/-- What a principal can be: an identity of the broker, one of `authx`, or neither. -/
inductive AuthPrincipal where
  | identity (identity : Identity)
  | principal (id : String) (attributes : Details)
  | unknown

def identityFromPrincipal (principal : AuthPrincipal) (fallback : Identity) : Identity :=
  let identity := normalizeIdentity fallback
  match principal with
  | .identity typed => normalizeIdentity typed
  | .unknown => identity
  | .principal id attributes => normalizeIdentity
    { principal := nonEmpty id identity.principal
      tenant := stringDetail attributes "tenant" identity.tenant
      namespace_ := stringDetail attributes "namespace" identity.namespace_
      clientID := stringDetail attributes "client_id" identity.clientID
      instanceID := stringDetail attributes "instance" identity.instanceID }

structure AuthorizationModel where
  principal : AuthPrincipal
  action : String
  resource : String
  context : Details

structure ACLResource where
  type : String
  tenant : String
  namespace_ : String
  name : String

structure ACLAuthorizationRequest where
  identity : Identity
  action : String
  resource : ACLResource

/-- What stands before the first colon, if there is one. -/
def parseAuthResourceType (resource : String) : String :=
  if ':' ∈ resource.toList then String.ofList (resource.toList.takeWhile (· ≠ ':')) else ""

def aclRequestFromAuthModel (input : AuthorizationModel) : ACLAuthorizationRequest :=
  let identity := identityFromPrincipal input.principal {}
  let type := stringDetail input.context "resource" ""
  { identity := identity
    action := input.action
    resource :=
      { type := if type = "" then parseAuthResourceType input.resource else type
        tenant := nonEmpty (stringDetail input.context "tenant" identity.tenant) identity.tenant
        namespace_ :=
          nonEmpty (stringDetail input.context "namespace" identity.namespace_) identity.namespace_
        name := stringDetail input.context "resource_id" "" } }

/-! ## The decision -/

def aclFieldMatches (policyValue requestValue : String) : Bool :=
  trimSpace policyValue = "" ∨ trimSpace policyValue = "*" ∨ trimSpace policyValue = trimSpace requestValue

def aclActionMatches (actions : List String) (action : String) : Bool :=
  actions = [] ∨ actions.any (aclFieldMatches · action)

/-- The test of `scopedACLPolicies`. -/
def inACLScope (resource : ACLResource) (policy : ACLPolicy) : Bool :=
  aclFieldMatches policy.tenant resource.tenant && aclFieldMatches policy.namespace_ resource.namespace_

def scopedACLPolicies (policies : List ACLPolicy) (resource : ACLResource) : List ACLPolicy :=
  policies.filter (inACLScope resource)

def metadataACLPolicyMatches (request : ACLAuthorizationRequest) (policy : ACLPolicy) : Bool :=
  aclFieldMatches policy.principal request.identity.principal &&
    aclFieldMatches policy.resourceType request.resource.type &&
    aclFieldMatches policy.resourceName request.resource.name &&
    aclActionMatches policy.actions request.action

/-- `ListACLPolicies` without a filter, of policies that come out of the map in this order. -/
def sortACLPolicies (policies : List ACLPolicy) : List ACLPolicy :=
  policies.insertionSort fun left right => MemoryStore.aclPolicyLE left right

structure Decision where
  allowed : Bool
  reason : String := ""
  policyID : String
  deriving DecidableEq

def authorizeFromMetadata (policies : List ACLPolicy) (input : AuthorizationModel) : Decision :=
  let request := aclRequestFromAuthModel input
  let inScope := scopedACLPolicies (sortACLPolicies policies) request.resource
  if inScope = [] then { allowed := true, policyID := "ech0.allow_all" }
  else
    match inScope.find? (metadataACLPolicyMatches request) with
    | some policy =>
      if policy.effect = .allow then { allowed := true, policyID := policy.policyID }
      else { allowed := false, reason := "policy_deny", policyID := policy.policyID }
    | none => { allowed := false, reason := "policy_required", policyID := "ech0.metadata_acl" }

/-! ## What decides -/

/-- The policy is of the scope of the resource and matches the request. -/
def Applies (request : ACLAuthorizationRequest) (policy : ACLPolicy) : Prop :=
  inACLScope request.resource policy = true ∧ metadataACLPolicyMatches request policy = true

/-- It is one of the highest priority among those that apply, and deny goes before allow. -/
structure Decides (policies : List ACLPolicy) (request : ACLAuthorizationRequest) (policy : ACLPolicy) :
    Prop where
  mem : policy ∈ policies
  applies : Applies request policy
  first : ∀ other ∈ policies, Applies request other → other.priority ≤ policy.priority ∧
    (other.priority = policy.priority → other.effect = .deny → policy.effect = .deny)

/-- The place of a policy in the listing. -/
def policyKey (policy : ACLPolicy) : ℤ ×ₗ ℕ ×ₗ String :=
  toLex (-policy.priority, toLex (if policy.effect = .deny then 0 else 1, policy.policyID))

lemma aclPolicyLE_iff (left right : ACLPolicy) :
    MemoryStore.aclPolicyLE left right = true ↔ policyKey left ≤ policyKey right := by
  unfold MemoryStore.aclPolicyLE policyKey
  rw [Prod.Lex.toLex_le_toLex, Prod.Lex.toLex_le_toLex]
  by_cases hpriority : left.priority = right.priority
  · by_cases hleft : left.effect = .deny <;> by_cases hright : right.effect = .deny <;>
      simp [hpriority, hleft, hright]
  · simp [hpriority]

lemma pairwise_sortACLPolicies (policies : List ACLPolicy) :
    (sortACLPolicies policies).Pairwise fun left right => policyKey left ≤ policyKey right :=
  (pairwise_insertionSort_of_key policyKey aclPolicyLE_iff policies).imp fun h => (aclPolicyLE_iff _ _).mp h

lemma policyID_eq_of_key {left right : ACLPolicy} (h : policyKey left = policyKey right) :
    left.policyID = right.policyID := by
  simp only [policyKey, toLex_inj, Prod.mk.injEq] at h
  exact h.2.2

/-- Policies with ids of their own are listed in one way. -/
lemma sortACLPolicies_congr {policies other : List ACLPolicy} (hids : (policies.map ACLPolicy.policyID).Nodup)
    (hperm : other.Perm policies) : sortACLPolicies other = sortACLPolicies policies := by
  have hsame : (sortACLPolicies other).Perm policies := (perm_insertionSort _ other).trans hperm
  refine (hsame.trans (perm_insertionSort _ policies).symm).eq_of_pairwise ?_
    (pairwise_sortACLPolicies other) (pairwise_sortACLPolicies policies)
  intro left right hleft hright hle hge
  exact inj_on_of_nodup_map hids (hsame.mem_iff.mp hleft) ((mem_insertionSort _).mp hright)
    (policyID_eq_of_key (le_antisymm hle hge))

/-- Where the loop of `authorizeFromMetadata` stops. -/
def firstMatch (policies : List ACLPolicy) (request : ACLAuthorizationRequest) : Option ACLPolicy :=
  (scopedACLPolicies (sortACLPolicies policies) request.resource).find? (metadataACLPolicyMatches request)

variable {policies : List ACLPolicy}

lemma decides_of_find {request : ACLAuthorizationRequest} {policy : ACLPolicy}
    (h : firstMatch policies request = some policy) : Decides policies request policy := by
  rw [firstMatch, scopedACLPolicies, find?_filter, find?_eq_some_iff_append] at h
  obtain ⟨happlies, before, after, hlist, hbefore⟩ := h
  have hmem : ∀ other, other ∈ policies ↔ other ∈ before ++ policy :: after := fun other => by
    rw [← hlist, sortACLPolicies, mem_insertionSort]
  refine ⟨(hmem policy).mpr (by simp), by simpa [Applies] using happlies, fun other hother hmatches => ?_⟩
  have hsorted := pairwise_sortACLPolicies policies
  rw [hlist] at hsorted
  rcases mem_append.mp ((hmem other).mp hother) with hin | hin
  · have := hbefore other hin
    simp [hmatches.1, hmatches.2] at this
  · rcases mem_cons.mp hin with rfl | hin
    · exact ⟨le_rfl, fun _ hdeny => hdeny⟩
    · have hle := rel_of_pairwise_cons (pairwise_append.mp hsorted).2.1 hin
      rw [policyKey, policyKey, Prod.Lex.toLex_le_toLex, Prod.Lex.toLex_le_toLex] at hle
      refine ⟨by omega, fun hsame hdeny => ?_⟩
      by_contra hne
      simp [hsame, hdeny, hne] at hle

lemma allowed_iff (policies : List ACLPolicy) (input : AuthorizationModel) :
    (authorizeFromMetadata policies input).allowed = true ↔
      scopedACLPolicies (sortACLPolicies policies) (aclRequestFromAuthModel input).resource = [] ∨
        ∃ policy, firstMatch policies (aclRequestFromAuthModel input) = some policy ∧
          policy.effect = .allow := by
  unfold authorizeFromMetadata firstMatch
  dsimp only
  split_ifs with hnone
  · simp [hnone]
  · rw [or_iff_right hnone]
    split
    · next policy hfind => by_cases hallow : policy.effect = .allow <;> simp [hfind, hallow]
    · next hfind => simp [hfind]

/-- **The decision** is that of the deciding policy, and is made without one only outside of every
scope; it is the same in whatever order the store goes through its policies. -/
theorem authorized_iff {w : World} (hinv : WorldInv w)
    (hlisted : policies.Perm (w.metadata.aclPolicies.toList.map Prod.snd)) (input : AuthorizationModel) :
    let request := aclRequestFromAuthModel input
    ((authorizeFromMetadata policies input).allowed = true ↔
      (∀ policy ∈ policies, inACLScope request.resource policy = false) ∨
        ∃ policy, Decides policies request policy ∧ policy.effect = .allow) ∧
    ∀ other, other.Perm policies →
      authorizeFromMetadata other input = authorizeFromMetadata policies input := by
  intro request
  have hids := hinv.metadata.aclPolicies.nodup_of_perm hlisted
  refine ⟨(allowed_iff policies input).trans (or_congr ?_ ⟨?_, ?_⟩), fun other hperm => ?_⟩
  · simp [scopedACLPolicies, sortACLPolicies, filter_eq_nil_iff, request]
  · rintro ⟨policy, hfind, hallow⟩
    exact ⟨policy, decides_of_find hfind, hallow⟩
  · rintro ⟨policy, hdecides, hallow⟩
    cases hfind : firstMatch policies request with
    | none =>
      refine absurd hdecides.applies.2 (find?_eq_none.mp hfind policy (mem_filter.mpr ⟨?_, hdecides.applies.1⟩))
      exact (mem_insertionSort _).mpr hdecides.mem
    | some first =>
      -- of two that decide neither is denied if one is not, and what is stored is one or the other
      have hfirst := decides_of_find hfind
      obtain ⟨hle, hdeny⟩ := hdecides.first first hfirst.mem hfirst.applies
      have hge := (hfirst.first policy hdecides.mem hdecides.applies).1
      have hvalid : MemoryStore.validateACLPolicy first = .ok () := by
        obtain ⟨entry, hentry, rfl⟩ := mem_map.mp (hlisted.mem_iff.mp hfirst.mem)
        exact (hinv.metadata.aclPolicies _ _ ((Map.mem_toList _ _ _).mp hentry)).2
      refine ⟨first, rfl, ?_⟩
      cases heffect : first.effect with
      | allow => rfl
      | deny =>
        rw [hdeny (le_antisymm hle hge) heffect] at hallow
        cases hallow
      | other effect =>
        unfold MemoryStore.validateACLPolicy at hvalid
        rw [heffect] at hvalid
        split at hvalid <;> cases hvalid
  · unfold authorizeFromMetadata
    rw [sortACLPolicies_congr hids hperm]

/-- Everyone may read `orders`, and `mallory` may do nothing. -/
def ordersPolicies : List ACLPolicy :=
  [⟨"read", "*", "*", "*", "topic", "orders", ["read"], .allow, 0, 0⟩,
   ⟨"block", "*", "*", "mallory", "*", "*", [], .deny, 0, 0⟩]

def readOrders (principal : String) : AuthorizationModel where
  principal := .identity { principal := principal }
  action := "read"
  resource := "topic:default/default/orders"
  context := (∅ : Details).insert "resource_id" (some "orders")

/-- A reader is let in, and the block goes before the permission of the same priority. -/
theorem authorized_orders :
    (authorizeFromMetadata ordersPolicies (readOrders "alice")).allowed = true ∧
    ¬ ∃ policy, Decides ordersPolicies (aclRequestFromAuthModel (readOrders "mallory")) policy ∧
      policy.effect = .allow := by
  have hinv : WorldInv (applyCommands {} (ordersPolicies.map .upsertACLPolicy) (World.fresh {} stillEnv)) :=
    (WorldInv.fresh {} stillEnv).applyCommands {} _
  have hlisted : ordersPolicies.Perm ((applyCommands {} (ordersPolicies.map .upsertACLPolicy)
      (World.fresh {} stillEnv)).metadata.aclPolicies.toList.map Prod.snd) := by decide +kernel
  refine ⟨by decide +kernel, fun h => ?_⟩
  have hrefused := ((authorized_iff hinv hlisted (readOrders "mallory")).1).mpr (.inr h)
  revert hrefused
  decide +kernel

end Ech0.Broker
