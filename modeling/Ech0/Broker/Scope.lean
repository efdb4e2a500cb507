/-
  The stored names of tenants (`governance_scope.go`).

  A client's name is stored behind the tenant, the namespace and the kind of thing it names, each
  tenant and namespace written in hexadecimal, so that no part contains the separator. The default
  tenant is the exception: its names are stored as they are. So nothing keeps a name of the default
  tenant from spelling out what another tenant's name is stored as, or what the offsets of a consumer
  group are stored under; apart from that the stored name determines the tenant, the namespace, the
  kind and the name.
-/
import Ech0.Lib.Text
import Ech0.Store.TrimSpace
import Ech0.Store.SegmentIndexCodec
import Ech0.Broker.Transactions

set_option autoImplicit false

namespace Ech0.Broker

open Ech0.Lib Ech0.Store List

variable {name : String} {start : String}

/-! ## Identities (`governance.go`, `governance_scope.go`) -/

def defaultTenant : String := "default"
def defaultNamespace : String := "default"
def defaultPrincipal : String := "anonymous"

def scopedKeyPrefix : String := "__tenant/"

structure Identity where
  principal : String := ""
  tenant : String := ""
  namespace_ : String := ""
  clientID : String := ""
  instanceID : String := ""
  deriving DecidableEq

def nonEmpty (value fallback : String) : String := if value ≠ "" then value else fallback

def normalizeIdentity (identity : Identity) : Identity :=
  { principal := nonEmpty (trimSpace identity.principal) defaultPrincipal
    tenant := nonEmpty (trimSpace identity.tenant) defaultTenant
    namespace_ := nonEmpty (trimSpace identity.namespace_) defaultNamespace
    clientID := trimSpace identity.clientID
    instanceID := trimSpace identity.instanceID }

def defaultScope (identity : Identity) : Bool :=
  identity.tenant = defaultTenant ∧ identity.namespace_ = defaultNamespace

/-! ## Names (`governance_scope.go`) -/

def hexComponent (value : String) : String := hexEncode (bytesOfString value)

/-- What stands before the name in a scoped name. -/
def scopeStart (identity : Identity) (kind : String) : String :=
  scopedKeyPrefix ++ hexComponent identity.tenant ++ "/" ++ hexComponent identity.namespace_ ++ "/"
    ++ kind ++ "/"

def scopedName (identity : Identity) (kind name : String) : String :=
  let identity := normalizeIdentity identity
  let name := trimSpace name
  if defaultScope identity then name
  else scopeStart identity kind ++ name

/-- `visibleName`; the last line is `strings.TrimPrefix`. -/
def visibleName (identity : Identity) (kind name : String) : String :=
  let identity := normalizeIdentity identity
  let name := trimSpace name
  if defaultScope identity then name
  else (cutPrefix name (scopeStart identity kind)).getD name

/-- The beginnings of the names of auxiliary topics. -/
def auxTopicStarts : List String :=
  [internalRetryTopicPrefix, internalDelayTopicPrefix, internalDLQTopicPrefix]

def splitAuxTopicName (name : String) : Option (String × String) :=
  auxTopicStarts.findSome? fun start =>
    (cutPrefix name (start ++ ".")).map fun source => (start, source)

def scopedTopicName (identity : Identity) (name : String) : String :=
  let identity := normalizeIdentity identity
  let name := trimSpace name
  if defaultScope identity then name
  else
    match splitAuxTopicName name with
    | some (start, source) => start ++ "." ++ scopedName identity "topic" source
    | none => scopedName identity "topic" name

def visibleTopicName (identity : Identity) (name : String) : String :=
  let identity := normalizeIdentity identity
  let name := trimSpace name
  if defaultScope identity then name
  else
    match splitAuxTopicName name with
    | some (start, source) => start ++ "." ++ visibleName identity "topic" source
    | none => visibleName identity "topic" name

/-- The kinds of names, with the texts the broker's calls pass. -/
inductive NameKind where
  | topic
  | consumer
  | group
  | direct
  | directReply
  | transaction
  deriving DecidableEq

def NameKind.text : NameKind → String
  | topic => "topic"
  | consumer => "consumer"
  | group => "group"
  | direct => "direct"
  | directReply => "direct_reply"
  | transaction => "tx"

/-! ## Calls, and the combinations they stand for (`governance_scope.go`, `governance.go`) -/

/-- A name that is given a scope: by `scopedTopicName`, or by `scopedName` with a kind. -/
inductive ScopedCall where
  | ofTopic (identity : Identity) (name : String)
  | ofName (identity : Identity) (kind : NameKind) (name : String)

namespace ScopedCall

/-- The name that is stored. -/
def stored : ScopedCall → String
  | ofTopic identity name => scopedTopicName identity name
  | ofName identity kind name => scopedName identity kind.text name

def identity : ScopedCall → Identity
  | ofTopic identity _ => normalizeIdentity identity
  | ofName identity _ _ => normalizeIdentity identity

def kind : ScopedCall → NameKind
  | ofTopic _ _ => .topic
  | ofName _ kind _ => kind

/-- The name without the white space around it. -/
def trimmed : ScopedCall → String
  | ofTopic _ name => trimSpace name
  | ofName _ _ name => trimSpace name

/-- Tenant, namespace, kind and name. -/
def combination (call : ScopedCall) : String × String × NameKind × String :=
  (call.identity.tenant, call.identity.namespace_, call.kind, call.trimmed)

/-- The names of the tenant and of the namespace are strings of bytes. -/
def FromBytes (call : ScopedCall) : Prop :=
  GoString call.identity.tenant ∧ GoString call.identity.namespace_

end ScopedCall

/-! ## Reading a name as a scoped one -/

/-- The parts of a text that has the form of a scoped name: three up to the next separator, and the
rest. -/
def scopeSegments (text : String) : Option (String × String × String × String) := do
  let rest ← cutPrefix text scopedKeyPrefix
  let (tenant, rest) ← cutAt '/' rest
  let (namespace_, rest) ← cutAt '/' rest
  let (kind, name) ← cutAt '/' rest
  some (tenant, namespace_, kind, name)

/-- The name of an auxiliary topic is its beginning and the topic it is for; any other name is itself
and has no such beginning. -/
def auxParts (name : String) : Option String × String :=
  match splitAuxTopicName name with
  | some (start, source) => (some start, source)
  | none => (none, name)

def ScopedCall.parts : ScopedCall → Option String × String
  | ofTopic _ name => auxParts (trimSpace name)
  | ofName _ _ name => (none, trimSpace name)

/-- The text spells out the scope, the kind and the name of a call. -/
def Spells (text : String) (call : ScopedCall) : Prop :=
  (auxParts text).1 = call.parts.1 ∧
    scopeSegments (auxParts text).2 = some (hexComponent call.identity.tenant,
      hexComponent call.identity.namespace_, call.kind.text, trimSpace call.parts.2)

/-- The two calls differ and do not show it: both are of the default tenant and only the kinds
differ; one is of the default tenant and its name spells out the other; or they are in one scope and
differ in the white space behind the beginning of an auxiliary topic. -/
def Confused (x y : ScopedCall) : Prop :=
  if defaultScope x.identity then
    if defaultScope y.identity then x.trimmed = y.trimmed ∧ x.kind ≠ y.kind
    else Spells x.trimmed y
  else
    if defaultScope y.identity then Spells y.trimmed x
    else x.identity.tenant = y.identity.tenant ∧ x.identity.namespace_ = y.identity.namespace_ ∧
      x.kind = y.kind ∧ x.parts.1 = y.parts.1 ∧ trimSpace x.parts.2 = trimSpace y.parts.2 ∧
      x.parts.2 ≠ y.parts.2

/-- The text is the name of a call of the default tenant, or spells out one of another. -/
def SpellsStored (text : String) (call : ScopedCall) : Prop :=
  if defaultScope call.identity then text = call.trimmed else Spells text call

/-- A consumer of the default tenant whose name spells out the key of a group's offsets. -/
def SpellsGroupKey (consumer group : ScopedCall) : Prop :=
  defaultScope consumer.identity ∧
    ∃ rest, cutPrefix consumer.trimmed "__group_offset/" = some rest ∧ SpellsStored rest group

/-! ## Identities that are normal -/

lemma nonEmpty_trimSpace (value : String) {fallback : String} (h : trimSpace fallback = fallback) :
    nonEmpty (trimSpace (nonEmpty (trimSpace value) fallback)) fallback
      = nonEmpty (trimSpace value) fallback := by
  by_cases hvalue : trimSpace value = ""
  · rw [hvalue]
    simp [nonEmpty, h]
  · simp [nonEmpty, hvalue]

variable (call : ScopedCall) (identity : Identity)

lemma normalizeIdentity_normalizeIdentity :
    normalizeIdentity (normalizeIdentity identity) = normalizeIdentity identity := by
  have hprincipal : trimSpace defaultPrincipal = defaultPrincipal := by decide +kernel
  have htenant : trimSpace defaultTenant = defaultTenant := by decide +kernel
  have hnamespace : trimSpace defaultNamespace = defaultNamespace := by decide +kernel
  simp only [normalizeIdentity, nonEmpty_trimSpace _ hprincipal, nonEmpty_trimSpace _ htenant,
    nonEmpty_trimSpace _ hnamespace, trimSpace_trimSpace]

/-! ## Auxiliary topics -/

/-- A name, behind the beginning of an auxiliary topic if there is one. -/
def withStart : Option String → String → String
  | none, name => name
  | some start, name => start ++ "." ++ name

lemma splitAuxTopicName_eq_some {source : String}
    (h : splitAuxTopicName name = some (start, source)) :
    start ∈ auxTopicStarts ∧ name = start ++ "." ++ source := by
  obtain ⟨found, hmem, hcut⟩ := exists_of_findSome?_eq_some h
  obtain ⟨rest, hrest, heq⟩ := Option.map_eq_some_iff.mp hcut
  cases heq
  exact ⟨hmem, (cutPrefix_eq_some_iff _ _ _).mp hrest⟩

/-- No beginning is the beginning of another. -/
lemma splitAuxTopicName_append (h : start ∈ auxTopicStarts) (source : String) :
    splitAuxTopicName (start ++ "." ++ source) = some (start, source) := by
  have hself : cutPrefix (start ++ "." ++ source) (start ++ ".") = some source :=
    cutPrefix_append _ _
  simp only [auxTopicStarts, mem_cons, not_mem_nil, or_false] at h
  unfold splitAuxTopicName auxTopicStarts
  rcases h with rfl | rfl | rfl
  · simp only [findSome?_cons, hself, Option.map_some]
  · have hretry : cutPrefix (internalDelayTopicPrefix ++ "." ++ source)
        (internalRetryTopicPrefix ++ ".") = none :=
      cutPrefix_eq_none (by simp [internalDelayTopicPrefix, internalRetryTopicPrefix])
    simp only [findSome?_cons, hretry, hself, Option.map_some, Option.map_none]
  · have hretry : cutPrefix (internalDLQTopicPrefix ++ "." ++ source)
        (internalRetryTopicPrefix ++ ".") = none :=
      cutPrefix_eq_none (by simp [internalDLQTopicPrefix, internalRetryTopicPrefix])
    have hdelay : cutPrefix (internalDLQTopicPrefix ++ "." ++ source)
        (internalDelayTopicPrefix ++ ".") = none :=
      cutPrefix_eq_none (by simp [internalDLQTopicPrefix, internalDelayTopicPrefix])
    simp only [findSome?_cons, hretry, hdelay, hself, Option.map_some, Option.map_none]

lemma splitAuxTopicName_scoped (kind name : String) :
    splitAuxTopicName (scopeStart identity kind ++ name) = none := by
  unfold splitAuxTopicName
  rw [findSome?_eq_none_iff]
  intro start hstart
  rw [Option.map_eq_none_iff]
  apply cutPrefix_eq_none
  simp only [auxTopicStarts, mem_cons, not_mem_nil, or_false] at hstart
  rcases hstart with rfl | rfl | rfl
  · simp [scopeStart, scopedKeyPrefix, internalRetryTopicPrefix]
  · simp [scopeStart, scopedKeyPrefix, internalDelayTopicPrefix]
  · simp [scopeStart, scopedKeyPrefix, internalDLQTopicPrefix]

lemma withStart_auxParts (name : String) : withStart (auxParts name).1 (auxParts name).2 = name := by
  unfold auxParts
  cases hsplit : splitAuxTopicName name with
  | none => rfl
  | some found => exact (splitAuxTopicName_eq_some hsplit).2.symm

/-- The beginning of an auxiliary topic, if there is one. -/
lemma mem_auxTopicStarts (h : (auxParts name).1 = some start) : start ∈ auxTopicStarts := by
  unfold auxParts at h
  cases hsplit : splitAuxTopicName name with
  | none =>
    rw [hsplit] at h
    cases h
  | some found =>
    rw [hsplit] at h
    cases h
    exact (splitAuxTopicName_eq_some hsplit).1

lemma auxParts_withStart {aux : Option String} (h : ∀ start, aux = some start → start ∈ auxTopicStarts)
    (identity : Identity) (kind name : String) :
    auxParts (withStart aux (scopeStart identity kind ++ name))
      = (aux, scopeStart identity kind ++ name) := by
  unfold auxParts
  cases aux with
  | none =>
    dsimp only [withStart]
    rw [splitAuxTopicName_scoped]
  | some start =>
    dsimp only [withStart]
    rw [splitAuxTopicName_append (h start rfl)]

/-! ## Segments -/

lemma scopeSegments_eq_some_iff (text tenant namespace_ kind name : String) :
    scopeSegments text = some (tenant, namespace_, kind, name) ↔
      text = scopedKeyPrefix ++ tenant ++ "/" ++ namespace_ ++ "/" ++ kind ++ "/" ++ name ∧
        '/' ∉ tenant.toList ∧ '/' ∉ namespace_.toList ∧ '/' ∉ kind.toList := by
  simp only [scopeSegments, bind, Option.bind_eq_some_iff, Prod.exists, cutPrefix_eq_some_iff,
    cutAt_eq_some_iff, Option.some.injEq, Prod.mk.injEq]
  constructor
  · rintro ⟨rest, htext, a, rest1, ⟨hrest, ha⟩, b, rest2, ⟨hrest1, hb⟩, c, d, ⟨hrest2, hc⟩,
      rfl, rfl, rfl, rfl⟩
    refine ⟨?_, ha, hb, hc⟩
    rw [htext, ← String.toList_inj]
    simp [hrest, hrest1, hrest2]
  · rintro ⟨htext, ha, hb, hc⟩
    refine ⟨tenant ++ "/" ++ namespace_ ++ "/" ++ kind ++ "/" ++ name, ?_, tenant,
      namespace_ ++ "/" ++ kind ++ "/" ++ name, ⟨?_, ha⟩, namespace_, kind ++ "/" ++ name,
      ⟨?_, hb⟩, kind, name, ⟨?_, hc⟩, rfl, rfl, rfl, rfl⟩
    · rw [htext, ← String.toList_inj]
      simp
    · simp
    · simp
    · simp

lemma slash_not_mem_hexComponent (value : String) : '/' ∉ (hexComponent value).toList :=
  not_mem_hexEncode (by decide) _

lemma hexComponent_inj {a b : String} (ha : GoString a) (hb : GoString b)
    (h : hexComponent a = hexComponent b) : a = b := by
  rw [← stringOfBytes_bytesOfString ha, hexEncode_injective h, stringOfBytes_bytesOfString hb]

lemma NameKind.slash_not_mem_text (kind : NameKind) : '/' ∉ kind.text.toList := by
  cases kind
  all_goals decide

lemma NameKind.text_inj {a b : NameKind} (h : a.text = b.text) : a = b := by
  revert h
  cases a
  all_goals cases b
  all_goals decide

/-- **A scoped name is read back** segment by segment. -/
theorem scopeSegments_scopeStart (kind : NameKind) (text name : String) :
    scopeSegments text = some (hexComponent identity.tenant, hexComponent identity.namespace_,
        kind.text, name) ↔ text = scopeStart identity kind.text ++ name := by
  rw [scopeSegments_eq_some_iff]
  exact ⟨fun h => h.1, fun h => ⟨h, slash_not_mem_hexComponent _, slash_not_mem_hexComponent _,
    kind.slash_not_mem_text⟩⟩

/-! ## What is stored -/

namespace ScopedCall

lemma stored_of_default {call : ScopedCall} (h : defaultScope call.identity = true) :
    call.stored = call.trimmed := by
  cases call with
  | ofTopic identity name =>
    dsimp only [ScopedCall.identity] at h
    dsimp only [stored, trimmed, scopedTopicName]
    rw [if_pos h]
  | ofName identity kind name =>
    dsimp only [ScopedCall.identity] at h
    dsimp only [stored, trimmed, scopedName]
    rw [if_pos h]

lemma stored_of_not_default {call : ScopedCall} (h : defaultScope call.identity ≠ true) :
    call.stored = withStart call.parts.1
      (scopeStart call.identity call.kind.text ++ trimSpace call.parts.2) := by
  cases call with
  | ofTopic identity name =>
    dsimp only [ScopedCall.identity] at h
    have hscoped : ∀ source, scopedName (normalizeIdentity identity) "topic" source
        = scopeStart (normalizeIdentity identity) "topic" ++ trimSpace source := by
      intro source
      simp only [scopedName, normalizeIdentity_normalizeIdentity, if_neg h]
    dsimp only [stored, parts, auxParts, scopedTopicName, ScopedCall.identity, kind, NameKind.text]
    rw [if_neg h]
    cases splitAuxTopicName (trimSpace name) with
    | none => exact hscoped _
    | some found =>
      dsimp only [withStart]
      rw [hscoped]
  | ofName identity kind name =>
    dsimp only [ScopedCall.identity] at h
    dsimp only [stored, parts, withStart, scopedName, ScopedCall.identity, ScopedCall.kind]
    rw [if_neg h, trimSpace_trimSpace]

/-- The name is its parts. -/
lemma trimmed_eq : call.trimmed = withStart call.parts.1 call.parts.2 := by
  cases call with
  | ofTopic identity name => exact (withStart_auxParts _).symm
  | ofName identity kind name => rfl

lemma parts_start (h : call.parts.1 = some start) : start ∈ auxTopicStarts := by
  cases call with
  | ofTopic identity name => exact mem_auxTopicStarts h
  | ofName identity kind name => cases h

end ScopedCall

/-- **A text is what a call stores** exactly if it spells out the call. -/
theorem eq_stored_iff_spells {call : ScopedCall} (h : defaultScope call.identity ≠ true)
    (text : String) : text = call.stored ↔ Spells text call := by
  rw [ScopedCall.stored_of_not_default h, Spells, scopeSegments_scopeStart]
  constructor
  · rintro rfl
    rw [auxParts_withStart fun start => call.parts_start]
    exact ⟨rfl, rfl⟩
  · rintro ⟨hstart, hrest⟩
    rw [← hstart, ← hrest, withStart_auxParts]

lemma eq_stored_iff (text : String) : text = call.stored ↔ SpellsStored text call := by
  unfold SpellsStored
  split
  · next h => rw [ScopedCall.stored_of_default h]
  · next h => exact eq_stored_iff_spells h text

lemma withStart_inj {aux : Option String} {a b : String} (h : withStart aux a = withStart aux b) :
    a = b := by
  cases aux with
  | none => exact h
  | some start =>
    dsimp only [withStart] at h
    rw [← String.toList_inj] at h
    simp only [String.toList_append] at h
    exact String.toList_inj.mp (append_cancel_left h)

/-- Two calls outside the default scope store the same name. -/
lemma stored_eq_iff {x y : ScopedCall} (hx : defaultScope x.identity ≠ true)
    (hy : defaultScope y.identity ≠ true) (hxb : x.FromBytes) (hyb : y.FromBytes) :
    x.stored = y.stored ↔
      x.identity.tenant = y.identity.tenant ∧ x.identity.namespace_ = y.identity.namespace_ ∧
        x.kind = y.kind ∧ x.parts.1 = y.parts.1 ∧ trimSpace x.parts.2 = trimSpace y.parts.2 := by
  rw [eq_stored_iff_spells hy, Spells, ScopedCall.stored_of_not_default hx,
    auxParts_withStart fun start => x.parts_start]
  dsimp only
  rw [(scopeSegments_scopeStart x.identity x.kind _ _).mpr rfl]
  simp only [Option.some.injEq, Prod.mk.injEq]
  constructor
  · rintro ⟨hstart, htenant, hnamespace, hkind, hname⟩
    exact ⟨hexComponent_inj hxb.1 hyb.1 htenant, hexComponent_inj hxb.2 hyb.2 hnamespace,
      NameKind.text_inj hkind, hstart, hname⟩
  · rintro ⟨htenant, hnamespace, hkind, hstart, hname⟩
    rw [htenant, hnamespace, hkind]
    exact ⟨hstart, rfl, rfl, rfl, hname⟩

/-- The default scope and another one have no combination in common. -/
lemma combination_ne {x y : ScopedCall} (hx : defaultScope x.identity = true)
    (hy : defaultScope y.identity ≠ true) : x.combination ≠ y.combination := by
  intro heq
  simp only [ScopedCall.combination, Prod.mk.injEq] at heq
  rw [defaultScope, heq.1, heq.2.1] at hx
  exact hy hx

/-- **Stored names and what they stand for.** -/
theorem stored_determines_iff {x y : ScopedCall} (hxb : x.FromBytes) (hyb : y.FromBytes) :
    (x.stored = y.stored → x.combination = y.combination) ↔ ¬ Confused x y := by
  unfold Confused
  by_cases hx : defaultScope x.identity = true
  · by_cases hy : defaultScope y.identity = true
    · rw [if_pos hx, if_pos hy, ScopedCall.stored_of_default hx, ScopedCall.stored_of_default hy]
      have hscope : x.identity.tenant = y.identity.tenant ∧
          x.identity.namespace_ = y.identity.namespace_ := by
        simp only [defaultScope, decide_eq_true_eq] at hx hy
        exact ⟨hx.1.trans hy.1.symm, hx.2.trans hy.2.symm⟩
      simp only [ScopedCall.combination, Prod.mk.injEq, hscope.1, hscope.2, true_and, not_and,
        not_not]
      exact ⟨fun h htrim => (h htrim).1, fun h htrim => ⟨h htrim, htrim⟩⟩
    · rw [if_pos hx, if_neg hy, ← eq_stored_iff_spells hy, ScopedCall.stored_of_default hx]
      exact ⟨fun h heq => combination_ne hx hy (h heq), fun h heq => absurd heq h⟩
  · by_cases hy : defaultScope y.identity = true
    · rw [if_neg hx, if_pos hy, ← eq_stored_iff_spells hx, ScopedCall.stored_of_default hy]
      exact ⟨fun h heq => combination_ne hy hx (h heq.symm).symm, fun h heq => absurd heq.symm h⟩
    · rw [if_neg hx, if_neg hy, stored_eq_iff hx hy hxb hyb, ScopedCall.combination,
        ScopedCall.combination, x.trimmed_eq, y.trimmed_eq]
      simp only [Prod.mk.injEq, not_and, not_not]
      constructor
      · intro h htenant hnamespace hkind hstart hname
        have htrimmed := (h ⟨htenant, hnamespace, hkind, hstart, hname⟩).2.2.2
        rw [hstart] at htrimmed
        exact withStart_inj htrimmed
      · rintro h ⟨htenant, hnamespace, hkind, hstart, hname⟩
        rw [hstart, h htenant hnamespace hkind hstart hname]
        exact ⟨htenant, hnamespace, hkind, rfl⟩

/-! ## Back to the client's name -/

theorem firmStart_scopeStart (kind : String) : FirmStart (scopeStart identity kind) where
  first := by
    refine ⟨'_', (scopeStart identity kind).toList.tail, ?_, by decide⟩
    simp only [scopeStart, scopedKeyPrefix, String.toList_append, append_assoc]
    rfl
  last := by
    refine ⟨'/', (scopedKeyPrefix ++ hexComponent identity.tenant ++ "/"
      ++ hexComponent identity.namespace_ ++ "/" ++ kind).toList, ?_, by decide⟩
    rw [scopeStart, String.toList_append]
    rfl

lemma firmStart_aux (h : start ∈ auxTopicStarts) : FirmStart (start ++ ".") where
  first := by
    refine ⟨'_', (start ++ ".").toList.tail, ?_, by decide⟩
    simp only [auxTopicStarts, mem_cons, not_mem_nil, or_false] at h
    rcases h with rfl | rfl | rfl
    all_goals decide
  last := by
    refine ⟨'.', start.toList, ?_, by decide⟩
    rw [String.toList_append]
    rfl

lemma trimmed_scoped : Trimmed (withStart call.parts.1
      (scopeStart call.identity call.kind.text ++ trimSpace call.parts.2)) := by
  have hscoped := (firmStart_scopeStart call.identity call.kind.text).trimmed_append
    (trimmed_trimSpace call.parts.2)
  cases hstart : call.parts.1 with
  | none => exact hscoped
  | some start => exact (firmStart_aux (call.parts_start hstart)).trimmed_append hscoped

lemma visibleTopicName_of_not_default {identity : Identity}
    (h : defaultScope (normalizeIdentity identity) ≠ true) (name : String) :
    visibleTopicName identity name = withStart (auxParts (trimSpace name)).1
      (visibleName (normalizeIdentity identity) "topic" (auxParts (trimSpace name)).2) := by
  simp only [visibleTopicName, if_neg h, auxParts]
  cases splitAuxTopicName (trimSpace name) with
  | none => rfl
  | some found => rfl

lemma visibleName_scoped {identity : Identity}
    (h : defaultScope (normalizeIdentity identity) ≠ true) (kind : String) (hname : Trimmed name) :
    visibleName (normalizeIdentity identity) kind
      (scopeStart (normalizeIdentity identity) kind ++ name) = name := by
  simp only [visibleName, normalizeIdentity_normalizeIdentity, if_neg h,
    ((firmStart_scopeStart _ _).trimmed_append hname).trimSpace_eq, cutPrefix_append,
    Option.getD_some]

/-- **A topic's name comes back** as it was given, but for the white space around it and, outside
the default scope, behind the beginning of an auxiliary topic. -/
theorem visibleTopicName_scopedTopicName (name : String) :
    visibleTopicName identity (scopedTopicName identity name) =
      if defaultScope (normalizeIdentity identity) then trimSpace name
      else withStart (auxParts (trimSpace name)).1 (trimSpace (auxParts (trimSpace name)).2) := by
  split
  · next h => simp only [visibleTopicName, scopedTopicName, if_pos h, trimSpace_trimSpace]
  · next h =>
    let call : ScopedCall := .ofTopic identity name
    have hcall : defaultScope call.identity ≠ true := h
    have hstored : scopedTopicName identity name = withStart call.parts.1
        (scopeStart call.identity call.kind.text ++ trimSpace call.parts.2) :=
      ScopedCall.stored_of_not_default hcall
    rw [hstored, visibleTopicName_of_not_default h, (trimmed_scoped call).trimSpace_eq,
      auxParts_withStart fun start => call.parts_start]
    exact congrArg (withStart call.parts.1)
      (visibleName_scoped h "topic" (trimmed_trimSpace call.parts.2))

/-- The white space behind the beginning of an auxiliary topic is all that is lost. -/
lemma visibleTopicName_eq_iff (name : String) :
    visibleTopicName identity (scopedTopicName identity name) = trimSpace name ↔
      defaultScope (normalizeIdentity identity) = true ∨
        trimSpace (auxParts (trimSpace name)).2 = (auxParts (trimSpace name)).2 := by
  rw [visibleTopicName_scopedTopicName]
  split
  · next h => exact iff_of_true rfl (Or.inl h)
  · next h =>
    rw [or_iff_right h]
    constructor
    · intro heq
      exact withStart_inj (heq.trans (withStart_auxParts _).symm)
    · intro hsource
      rw [hsource, withStart_auxParts]

/-! ## The keys of consumer groups -/

/-- **The offsets of a group and those of a consumer.** -/
theorem groupConsumer_ne_iff (groupOwner consumerOwner : Identity) (group consumer : String) :
    groupConsumer (scopedName groupOwner "group" group)
        ≠ scopedName consumerOwner "consumer" consumer ↔
      ¬ SpellsGroupKey (.ofName consumerOwner .consumer consumer) (.ofName groupOwner .group group) := by
  let asGroup : ScopedCall := .ofName groupOwner .group group
  let asConsumer : ScopedCall := .ofName consumerOwner .consumer consumer
  change groupConsumer asGroup.stored ≠ asConsumer.stored ↔ ¬ SpellsGroupKey asConsumer asGroup
  refine not_congr ?_
  unfold SpellsGroupKey groupConsumer
  by_cases h : defaultScope asConsumer.identity = true
  · rw [ScopedCall.stored_of_default h]
    simp only [h, true_and, cutPrefix_eq_some_iff, ← eq_stored_iff]
    constructor
    · intro heq
      exact ⟨asGroup.stored, heq.symm, rfl⟩
    · rintro ⟨rest, hrest, rfl⟩
      exact hrest.symm
  · refine iff_of_false (fun heq => ?_) fun hspells => h hspells.1
    -- a name in another scope begins with `__tenant/`
    rw [ScopedCall.stored_of_not_default h] at heq
    have hchars := congrArg String.toList heq
    simp [asConsumer, ScopedCall.parts, withStart, scopeStart, scopedKeyPrefix] at hchars

/-! ## All three -/

/-- **Stored names keep scopes apart**, for any two names that are given a scope, any topic and any
pair of a group and a consumer: the stored name determines tenant, namespace, kind and name, the
topic's name comes back, and the group's key is not the consumer's, exactly if no name of the default
tenant spells out what another stands for and no auxiliary topic has white space behind its
beginning. -/
theorem scopes_apart_iff (x y : ScopedCall) (hx : x.FromBytes) (hy : y.FromBytes)
    (identity : Identity) (name : String) (groupOwner consumerOwner : Identity)
    (group consumer : String) :
    ((x.stored = y.stored → x.combination = y.combination) ∧
        visibleTopicName identity (scopedTopicName identity name) = trimSpace name ∧
        groupConsumer (scopedName groupOwner "group" group)
          ≠ scopedName consumerOwner "consumer" consumer) ↔
      ¬ Confused x y ∧
        (defaultScope (normalizeIdentity identity) = true ∨
          trimSpace (auxParts (trimSpace name)).2 = (auxParts (trimSpace name)).2) ∧
        ¬ SpellsGroupKey (.ofName consumerOwner .consumer consumer)
          (.ofName groupOwner .group group) := by
  rw [stored_determines_iff hx hy, visibleTopicName_eq_iff, groupConsumer_ne_iff]

/-- The tenant `a` and its namespace `b`. -/
def tenantA : Identity := { tenant := "a", namespace_ := "b" }

theorem scopes_apart_iff_tenantA :
    (((ScopedCall.ofTopic tenantA "t").stored = (ScopedCall.ofName tenantA .group "t").stored →
          (ScopedCall.ofTopic tenantA "t").combination
            = (ScopedCall.ofName tenantA .group "t").combination) ∧
        visibleTopicName tenantA (scopedTopicName tenantA "t") = trimSpace "t" ∧
        groupConsumer (scopedName tenantA "group" "t") ≠ scopedName tenantA "consumer" "t") ↔
      ¬ Confused (.ofTopic tenantA "t") (.ofName tenantA .group "t") ∧
        (defaultScope (normalizeIdentity tenantA) = true ∨
          trimSpace (auxParts (trimSpace "t")).2 = (auxParts (trimSpace "t")).2) ∧
        ¬ SpellsGroupKey (.ofName tenantA .consumer "t") (.ofName tenantA .group "t") := by
  have htenant : (normalizeIdentity tenantA).tenant = "a" := by decide +kernel
  have hnamespace : (normalizeIdentity tenantA).namespace_ = "b" := by decide +kernel
  have hbytes : GoString (normalizeIdentity tenantA).tenant ∧
      GoString (normalizeIdentity tenantA).namespace_ := by
    rw [htenant, hnamespace]
    simp [GoString]
  exact scopes_apart_iff (.ofTopic tenantA "t") (.ofName tenantA .group "t") hbytes hbytes
    tenantA "t" tenantA tenantA "t" "t"

/-- **Names of the default tenant that spell out others**: a topic that is stored as a topic of the
tenant `a`, a consumer and a transactional id that are stored alike, and a consumer whose offsets are
stored as those of the group `g`; and a retry topic whose name comes back without its white space. -/
theorem default_names_collide :
    scopedTopicName {} "__tenant/61/62/topic/t" = scopedTopicName tenantA "t" ∧
      (ScopedCall.ofTopic {} "__tenant/61/62/topic/t").combination
        ≠ (ScopedCall.ofTopic tenantA "t").combination ∧
      (ScopedCall.ofName {} .consumer "x").stored = (ScopedCall.ofName {} .transaction "x").stored ∧
      visibleTopicName tenantA (scopedTopicName tenantA "__retry. t") = "__retry.t" ∧
      groupConsumer (scopedName {} "group" "g") = scopedName {} "consumer" "__group_offset/g" := by
  decide +kernel

end Ech0.Broker
