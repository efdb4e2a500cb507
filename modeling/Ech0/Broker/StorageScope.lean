/-
  Which scopes count a topic in their storage (`topicStorageInScope`): `storageUsageForScope` adds up the
  topics that pass this test for the caller's tenant and namespace.

  A scope has the topics whose stored name begins with it, and their auxiliary topics, whose name has the
  scope behind the beginning of an auxiliary topic. The default scope has all names that do not begin with
  some scope, and to these belong the auxiliary topics of the others.
-/
import Ech0.Broker.Scope

set_option autoImplicit false

namespace Ech0.Broker

open Ech0.Lib Ech0.Store List

/-! ## The test (`governance_scope.go`, `governance_quota.go`) -/

def nameInScope (identity : Identity) (kind name : String) : Bool :=
  let identity := normalizeIdentity identity
  let name := trimSpace name
  if defaultScope identity then !hasPrefix name scopedKeyPrefix
  else hasPrefix name (scopeStart identity kind)

def topicStorageInScope (identity : Identity) (topic : String) : Bool :=
  if nameInScope identity "topic" topic then true
  else
    match splitAuxTopicName topic with
    | some (_, source) => nameInScope identity "topic" source
    | none => false

/-- The stored names of the topics that a caller has: those created under a name of the caller's or
configured as dead-letter topic, those that the broker makes for a topic of the caller, and inboxes. -/
inductive StoredTopic (owner : Identity) : String → Prop
  | named (name : String) : StoredTopic owner (scopedTopicName owner name)
  | auxiliary {start topic : String} : start ∈ auxTopicStarts → StoredTopic owner topic →
      StoredTopic owner (start ++ "." ++ topic)
  | inbox (recipient : String) : StoredTopic owner (Direct.inboxTopic recipient)

def SameScope (a b : Identity) : Prop :=
  (normalizeIdentity a).tenant = (normalizeIdentity b).tenant ∧
    (normalizeIdentity a).namespace_ = (normalizeIdentity b).namespace_

/-- The names of the tenant and of the namespace are strings of bytes. -/
def Identity.FromBytes (identity : Identity) : Prop :=
  GoString (normalizeIdentity identity).tenant ∧ GoString (normalizeIdentity identity).namespace_

lemma fromBytes_default : ({} : Identity).FromBytes := by
  have htenant : (normalizeIdentity {}).tenant = "default" := by decide +kernel
  have hnamespace : (normalizeIdentity {}).namespace_ = "default" := by decide +kernel
  rw [Identity.FromBytes, htenant, hnamespace]
  simp [GoString]

/-- The topic is counted by the owner's scope and by no other. -/
def CountedByOwner (owner : Identity) (topic : String) : Prop :=
  ∀ identity : Identity, identity.FromBytes →
    (topicStorageInScope identity topic = true ↔ SameScope identity owner)

/-- The name begins with a scope that is not the default one. -/
def SpellsScope (name : String) : Prop :=
  ∃ identity : Identity, identity.FromBytes ∧ defaultScope (normalizeIdentity identity) ≠ true ∧
    hasPrefix (trimSpace name) (scopeStart (normalizeIdentity identity) "topic") = true

/-! ## Beginnings -/

section
variable {identity owner : Identity} {topic name text start source : String}

lemma hasPrefix_iff : hasPrefix text start = true ↔ ∃ rest, text = start ++ rest := by
  rw [hasPrefix, isPrefixOf_iff_prefix]
  constructor
  · rintro ⟨rest, hrest⟩
    exact ⟨String.ofList rest, by rw [← String.toList_inj, ← hrest]; simp⟩
  · rintro ⟨rest, rfl⟩
    exact ⟨rest.toList, by simp⟩

/-- Text that does not begin with white space loses some at its end. -/
lemma trimSpace_prefix_self {c : Char} {rest : List Char} (hc : NoSpace c) (h : text.toList = c :: rest) :
    (trimSpace text).toList <+: text.toList := by
  have hfront : trimFront spaceEncodings text.length text.toList = text.toList := by
    refine trimFront_eq_self _ fun encoding hmem hpre => ?_
    rw [h, map_cons] at hpre
    cases encoding with
    | nil => exact nil_not_mem_spaceEncodings hmem
    | cons first _ =>
      have hfirst := (cons_prefix_cons.mp hpre).1
      exact hc _ hmem (hfirst ▸ mem_cons_self)
  rw [trimSpace, hfront, String.toList_ofList, ← reverse_suffix, reverse_reverse]
  exact trimFront_suffix _ _ _

/-- A name that begins otherwise is one of the default scope. -/
lemma not_scoped (h : ∃ rest, text.toList = '_' :: rest)
    (hnot : ¬ scopedKeyPrefix.toList <+: text.toList) :
    hasPrefix (trimSpace text) scopedKeyPrefix ≠ true := by
  obtain ⟨rest, hrest⟩ := h
  intro hscoped
  rw [hasPrefix, isPrefixOf_iff_prefix] at hscoped
  exact hnot (hscoped.trans (trimSpace_prefix_self (by decide) hrest))

lemma aux_not_scoped (h : start ∈ auxTopicStarts) (topic : String) :
    hasPrefix (trimSpace (start ++ "." ++ topic)) scopedKeyPrefix ≠ true := by
  simp only [auxTopicStarts, mem_cons, not_mem_nil, or_false] at h
  rcases h with rfl | rfl | rfl
  all_goals
    refine not_scoped ?_ ?_
  all_goals
    simp [internalRetryTopicPrefix, internalDelayTopicPrefix, internalDLQTopicPrefix, scopedKeyPrefix]

lemma inbox_not_scoped (recipient : String) :
    hasPrefix (trimSpace (Direct.inboxTopic recipient)) scopedKeyPrefix ≠ true := by
  refine not_scoped ?_ ?_
  all_goals
    simp [Direct.inboxTopic, Direct.internalInboxTopicPrefix, scopedKeyPrefix]

/-- A topic of another scope whose name begins with a scope is one created under a plain name. -/
lemma StoredTopic.eq_scoped (h : StoredTopic owner topic)
    (howner : defaultScope (normalizeIdentity owner) ≠ true)
    (hscoped : hasPrefix (trimSpace topic) scopedKeyPrefix = true) :
    Trimmed topic ∧ ∃ name, topic = scopeStart (normalizeIdentity owner) "topic" ++ name := by
  cases h with
  | named name =>
    have hstored : scopedTopicName owner name = _ :=
      @ScopedCall.stored_of_not_default (.ofTopic owner name) howner
    refine ⟨hstored ▸ trimmed_scoped _, ?_⟩
    cases hstart : (ScopedCall.ofTopic owner name).parts.1 with
    | none => exact ⟨_, hstored.trans (by rw [hstart]; rfl)⟩
    | some start =>
      rw [hstored, hstart] at hscoped
      exact absurd hscoped (aux_not_scoped (ScopedCall.parts_start _ hstart) _)
  | auxiliary hstart _ => exact absurd hscoped (aux_not_scoped hstart _)
  | inbox recipient => exact absurd hscoped (inbox_not_scoped recipient)

/-! ## The scopes that count a topic -/

lemma nameInScope_of_default (h : defaultScope (normalizeIdentity identity) = true) :
    nameInScope identity "topic" name = true ↔ hasPrefix (trimSpace name) scopedKeyPrefix ≠ true := by
  simp [nameInScope, h]

lemma nameInScope_of_not_default (h : defaultScope (normalizeIdentity identity) ≠ true) :
    nameInScope identity "topic" name
      = hasPrefix (trimSpace name) (scopeStart (normalizeIdentity identity) "topic") :=
  if_neg h

lemma topicStorageInScope_iff :
    topicStorageInScope identity topic = true ↔ nameInScope identity "topic" topic = true ∨
      ∃ start source, splitAuxTopicName topic = some (start, source) ∧
        nameInScope identity "topic" source = true := by
  unfold topicStorageInScope
  split
  · next h => exact iff_of_true rfl (.inl h)
  · next h =>
    cases splitAuxTopicName topic with
    | none => simp [h]
    | some found => simp [h, Prod.ext_iff]

lemma hasPrefix_scopedKey
    (h : hasPrefix text (scopeStart (normalizeIdentity identity) "topic") = true) :
    hasPrefix text scopedKeyPrefix = true := by
  obtain ⟨rest, rfl⟩ := hasPrefix_iff.mp h
  simp only [scopeStart, String.append_assoc]
  exact hasPrefix_iff.mpr ⟨_, rfl⟩

lemma sameScope_default_iff (h : defaultScope (normalizeIdentity owner) = true) :
    SameScope identity owner ↔ defaultScope (normalizeIdentity identity) = true := by
  simp only [defaultScope, decide_eq_true_eq] at h ⊢
  rw [SameScope, h.1, h.2]

/-- Scoped names begin with one scope only. -/
lemma hasPrefix_scopeStart_iff (hidentity : identity.FromBytes) (howner : owner.FromBytes) :
    hasPrefix (scopeStart (normalizeIdentity owner) "topic" ++ name)
      (scopeStart (normalizeIdentity identity) "topic") = true ↔ SameScope identity owner := by
  rw [hasPrefix_iff]
  constructor
  · rintro ⟨rest, hrest⟩
    have hread := (scopeSegments_scopeStart (normalizeIdentity identity) .topic _ rest).mpr hrest
    have hwritten := (scopeSegments_scopeStart (normalizeIdentity owner) .topic _ name).mpr rfl
    have hsame := hwritten.symm.trans hread
    simp only [Option.some.injEq, Prod.mk.injEq] at hsame
    exact ⟨hexComponent_inj hidentity.1 howner.1 hsame.1.symm,
      hexComponent_inj hidentity.2 howner.2 hsame.2.1.symm⟩
  · rintro ⟨htenant, hnamespace⟩
    exact ⟨name, by rw [scopeStart, scopeStart, htenant, hnamespace]⟩

/-- **A topic is counted once**, by the scope that owns it, exactly if it is one of the default scope,
does not begin with a scope and is no auxiliary topic of a name that does; or is one of another scope and
begins with it, as no auxiliary topic and no inbox does. -/
theorem counted_by_owner_iff (h : StoredTopic owner topic) (howner : owner.FromBytes) :
    CountedByOwner owner topic ↔
      if defaultScope (normalizeIdentity owner) then
        hasPrefix (trimSpace topic) scopedKeyPrefix ≠ true ∧
          ∀ start source, splitAuxTopicName topic = some (start, source) → ¬ SpellsScope source
      else hasPrefix (trimSpace topic) scopedKeyPrefix = true := by
  have hdefaultScope : defaultScope (normalizeIdentity {}) = true := by decide +kernel
  split
  · next hscope =>
    constructor
    · intro hcounted
      constructor
      · intro hscoped
        have hin := (hcounted {} fromBytes_default).mpr ((sameScope_default_iff hscope).mpr hdefaultScope)
        rcases topicStorageInScope_iff.mp hin with hname | ⟨start, source, hsplit, -⟩
        · exact (nameInScope_of_default hdefaultScope).mp hname hscoped
        · obtain ⟨hstart, rfl⟩ := splitAuxTopicName_eq_some hsplit
          exact aux_not_scoped hstart source hscoped
      · rintro start source hsplit ⟨identity, hbytes, hother, hspelled⟩
        refine hother ((sameScope_default_iff hscope).mp ((hcounted identity hbytes).mp ?_))
        exact topicStorageInScope_iff.mpr
          (.inr ⟨start, source, hsplit, (nameInScope_of_not_default hother).trans hspelled⟩)
    · rintro ⟨hplain, hsource⟩ identity hbytes
      rw [sameScope_default_iff hscope, topicStorageInScope_iff]
      constructor
      · intro hin
        by_contra hother
        simp only [nameInScope_of_not_default hother] at hin
        rcases hin with hname | ⟨start, source, hsplit, hname⟩
        · exact hplain (hasPrefix_scopedKey hname)
        · exact hsource start source hsplit ⟨identity, hbytes, hother, hname⟩
      · exact fun hin => .inl ((nameInScope_of_default hin).mpr hplain)
  · next hscope =>
    have hapart : ∀ identity, defaultScope (normalizeIdentity identity) = true →
        ¬ SameScope identity owner := by
      rintro identity hin ⟨htenant, hnamespace⟩
      simp only [defaultScope, decide_eq_true_eq, htenant, hnamespace] at hin hscope
      exact hscope hin
    constructor
    · intro hcounted
      by_contra hplain
      refine hapart {} hdefaultScope ((hcounted {} fromBytes_default).mp (topicStorageInScope_iff.mpr (.inl ?_)))
      exact (nameInScope_of_default hdefaultScope).mpr hplain
    · intro hscoped identity hbytes
      obtain ⟨htrimmed, name, rfl⟩ := h.eq_scoped hscope hscoped
      simp only [topicStorageInScope_iff, splitAuxTopicName_scoped, reduceCtorEq, false_and, exists_false,
        or_false]
      by_cases hin : defaultScope (normalizeIdentity identity) = true
      · rw [nameInScope_of_default hin]
        exact iff_of_false (not_not_intro hscoped) (hapart identity hin)
      · rw [nameInScope_of_not_default hin, htrimmed.trimSpace_eq]
        exact hasPrefix_scopeStart_iff hbytes howner

end

/-- A topic of a tenant, whose name is scoped by tenant and namespace, is counted for its owner and for
no one else. -/
theorem counted_by_owner_orders : CountedByOwner tenantA (scopedTopicName tenantA "orders") := by
  have htenant : (normalizeIdentity tenantA).tenant = "a" := by decide +kernel
  have hnamespace : (normalizeIdentity tenantA).namespace_ = "b" := by decide +kernel
  have hbytes : tenantA.FromBytes := by
    rw [Identity.FromBytes, htenant, hnamespace]
    simp [GoString]
  refine (counted_by_owner_iff (.named "orders") hbytes).mpr ?_
  rw [if_neg (by decide +kernel)]
  decide +kernel

/-- The retry topic of the tenant's topic `orders`. -/
def retryOfOrders : String := internalRetryTopicPrefix ++ "." ++ scopedTopicName tenantA "orders"

/-- **It is counted** by the tenant and by the default scope. -/
theorem retry_counted_twice :
    StoredTopic tenantA retryOfOrders ∧ ¬ CountedByOwner tenantA retryOfOrders ∧
      topicStorageInScope tenantA retryOfOrders = true ∧
      topicStorageInScope {} retryOfOrders = true := by
  have htwice : topicStorageInScope {} retryOfOrders = true := by decide +kernel
  refine ⟨.auxiliary (by decide) (.named "orders"), fun hcounted => ?_, by decide +kernel, htwice⟩
  have hsame := ((hcounted {} fromBytes_default).mp htwice).1
  revert hsame
  decide +kernel

end Ech0.Broker
