/-
  Coalesced commands in cluster mode (`cluster_coalesced_router.go`, `concurrency.go`).

  The requests of a coalesced command are planned one after the other, scattered over one group per
  shard, and sent group by group. The groups run concurrently and write their items into one slice,
  each at the positions it saved. The writes of all groups may come in any order (`Merges`): a
  position belongs to one group, so the item of a request is what its group answered for it
  (`routed_by_shard`).

  What a shard answers to a group is open. `runBounded` fails only when the context ends before all
  groups are submitted or the pool fails, and then there is no merged result.
-/
import Ech0.Lib.Scatter
import Ech0.Broker.ProducerDedupe
import Ech0.Broker.ConsumerOffsets

set_option autoImplicit false

namespace Ech0.Broker

open Ech0.Lib Ech0.Store Prog List

/-! ## Planning (`cluster_coalesced_router.go`) -/

def planProduceBatchShardCommand (cfg : Config) (req : ProduceBatchCommand) :
    Handling (UInt32 × ProduceBatchCommand) := do
  let plan ← planProduceBatch cfg 0 req
  let placement ← ShardResolver.resolve cfg plan.tp
  pure (placement.shardID, { plan.request with partitioning := ⟨.explicit, plan.tp.partition, ""⟩ })

/-- The shard of an offset commit, in the loop of `planCommitOffsetShardGroups`. -/
def planCommitOffsetShardCommand (cfg : Config) (req : CommitOffsetCommand) :
    Handling (UInt32 × CommitOffsetCommand) := do
  let placement ← ShardResolver.resolve cfg req.topicPartition
  pure (placement.shardID, req)

/-- What the two routes differ in: how a request is planned, the partition of a planned request, an
item nothing was written to, how an error is written to one, and the error of a result of the wrong
length. -/
structure ShardRouting (ρ ι : Type) where
  plan : ρ → Handling (UInt32 × ρ)
  partition : ρ → TopicPartition
  item : ι
  setError : Error → ι → ι
  mismatch : Nat → Nat → Error

/-- The route of produce batches (`routeProduceBatchesByShard`). A planned batch names its partition
itself, and an item is the result of one batch. -/
def produceRouting (cfg : Config) : ShardRouting ProduceBatchCommand ProduceBatchItemResult where
  plan := planProduceBatchShardCommand cfg
  partition req := ⟨req.topic, req.partitioning.partition⟩
  item := {}
  setError err item := { item with error := err.message }
  mismatch got want := brokerStoreError .codec
    ("produce shard group result length mismatch: got " ++ showNat got ++ " want " ++ showNat want)

/-- The route of offset commits (`routeCommitOffsetsByShard`). The item of a commit is the text of its
error. -/
def commitRouting (cfg : Config) : ShardRouting CommitOffsetCommand String where
  plan := planCommitOffsetShardCommand cfg
  partition := CommitOffsetCommand.topicPartition
  item := ""
  setError err _ := err.message
  mismatch got want := brokerStoreError .codec
    ("commit shard group result length mismatch: got " ++ showNat got ++ " want " ++ showNat want)

variable {ρ ι : Type}

abbrev ShardGroup (ρ : Type) : Type := EntryGroup UInt32 ρ

namespace ShardRouting

variable (kind : ShardRouting ρ ι)

/-- `planProduceBatchShardGroups` and `planCommitOffsetShardGroups`, from a position on and with the
groups so far. The groups come out of a map, in any order; they are listed here in the order of
their first requests. -/
def planShardGroups : Nat → List ρ → List (ShardGroup ρ) → Handling (List (ShardGroup ρ) × List ι)
  | _, [], groups => pure (groups, [])
  | index, command :: rest, groups => do
    match ← Prog.attempt (kind.plan command) with
    | .error err =>
      let (groups, items) ← planShardGroups (index + 1) rest groups
      pure (groups, kind.setError err kind.item :: items)
    | .ok (shardID, planned) =>
      let (groups, items) ← planShardGroups (index + 1) rest
        (insertEntry groups ⟨index, shardID, planned⟩)
      pure (groups, kind.item :: items)

/-! ## Merging (`cluster_coalesced_router.go`) -/

/-- What `routeProduceBatchShardGroup` and `routeCommitOffsetShardGroup` write, given the answer of
the shard. -/
def writes (group : ShardGroup ρ) : Except Error (List ι) → List (Nat × (ι → ι))
  | .error err => group.indexes.map fun index => (index, kind.setError err)
  | .ok result =>
    if result.length ≠ group.indexes.length then
      group.indexes.map fun index =>
        (index, kind.setError (kind.mismatch result.length group.indexes.length))
    else group.indexes.zip (result.map fun item _ => item)

/-- A merged result: every group has written its items, and the writes came in some order. -/
def Merges (groups : List (ShardGroup ρ)) (answer : ShardGroup ρ → Except Error (List ι))
    (items merged : List ι) : Prop :=
  ∃ order, order.Perm (groups.flatMap fun group => kind.writes group (answer group)) ∧
    merged = applyWrites items order

/-! ## What is planned -/

/-- The plans of the requests, one after the other. -/
def planEach : List ρ → World → List (Except Error (UInt32 × ρ)) × World
  | [], w => ([], w)
  | command :: rest, w =>
    let (plan, w') := Prog.exec step (kind.plan command) w
    let (plans, w'') := planEach rest w'
    (plan :: plans, w'')

/-- The requests that have a plan, from a position on. -/
def entriesFrom : Nat → List (Except Error (UInt32 × ρ)) → List (Entry UInt32 ρ)
  | _, [] => []
  | index, .ok (shardID, planned) :: rest => ⟨index, shardID, planned⟩ :: entriesFrom (index + 1) rest
  | index, .error _ :: rest => entriesFrom (index + 1) rest

/-- The item of a request before its group has written. -/
def planned : Except Error (UInt32 × ρ) → ι
  | .ok _ => kind.item
  | .error err => kind.setError err kind.item

lemma exec_planShardGroups (index : Nat) (requests : List ρ) (groups : List (ShardGroup ρ))
    (w : World) : exec step (kind.planShardGroups index requests groups) w
      = (.ok ((entriesFrom index (kind.planEach requests w).1).foldl insertEntry groups,
          (kind.planEach requests w).1.map kind.planned), (kind.planEach requests w).2) := by
  induction requests generalizing index groups w with
  | nil => rfl
  | cons command rest ih =>
    have hattempt := exec_attempt step (kind.plan command) w
    unfold planShardGroups planEach
    refine (exec_bind_ok step hattempt).trans ?_
    cases hplan : (exec step (kind.plan command) w).1 with
    | error err =>
      have hrest := ih (index + 1) groups (exec step (kind.plan command) w).2
      exact (exec_bind_ok step hrest).trans (by simp only [hplan]; rfl)
    | ok plan =>
      have hrest := ih (index + 1) (insertEntry groups ⟨index, plan.1, plan.2⟩)
        (exec step (kind.plan command) w).2
      exact (exec_bind_ok step hrest).trans (by simp only [hplan]; rfl)

omit kind in
lemma mem_entriesFrom {index j : Nat} {plans : List (Except Error (UInt32 × ρ))} {shardID : UInt32}
    {planned : ρ} : ⟨j, shardID, planned⟩ ∈ entriesFrom index plans ↔
      index ≤ j ∧ plans[j - index]? = some (.ok (shardID, planned)) := by
  induction plans generalizing index with
  | nil => simp [entriesFrom]
  | cons plan rest ih =>
    -- the first plan is the one of this position, the others are those of the next
    cases plan with
    | error err =>
      rw [entriesFrom, ih]
      grind
    | ok found =>
      rw [entriesFrom, mem_cons, ih]
      grind

omit kind in
lemma rising_entriesFrom (index : Nat) (plans : List (Except Error (UInt32 × ρ))) :
    Rising (entriesFrom index plans) := by
  induction plans generalizing index with
  | nil => exact List.Pairwise.nil
  | cons plan rest ih =>
    cases plan with
    | error err => exact ih (index + 1)
    | ok found =>
      refine List.Pairwise.cons ?_ (ih (index + 1))
      rintro ⟨j, shardID, planned⟩ hmem
      exact (mem_entriesFrom.1 hmem).1

/-! ## Every request has one answer -/

/-- What a shard answered for the request at this place of its group. -/
def itemAt (k : Nat) : Except Error (List ι) → Option ι
  | .error err => some (kind.setError err kind.item)
  | .ok result => result[k]?

/-- What is asked of a merged result, given the plans of the requests. -/
structure Routed (plans : List (Except Error (UInt32 × ρ))) (groups : List (ShardGroup ρ))
    (answer : ShardGroup ρ → Except Error (List ι)) (merged : List ι) : Prop where
  length : merged.length = plans.length
  /-- A request without a plan is in no group, and its item is the error. -/
  unplanned : ∀ (i : Nat) (err : Error), plans[i]? = some (.error err) →
    (∀ group ∈ groups, i ∉ group.indexes) ∧ merged[i]? = some (kind.setError err kind.item)
  /-- A request with a plan is in one group, the one of its shard, once, and its item is what the
  shard answered for it. -/
  sent : ∀ (i : Nat) (shardID : UInt32) (planned : ρ), plans[i]? = some (.ok (shardID, planned)) →
    ∃ group ∈ groups, group.key = shardID ∧ ∃ k : Nat, group.indexes[k]? = some i ∧
      group.values[k]? = some planned ∧
      (∀ other ∈ groups, ∀ k' : Nat, other.indexes[k']? = some i → other = group ∧ k' = k) ∧
      merged[i]? = kind.itemAt k (answer group)
  /-- The requests of one partition are in one group, in their order. -/
  ordered : ∀ (i j : Nat) (shardI shardJ : UInt32) (first second : ρ), i < j →
    plans[i]? = some (.ok (shardI, first)) → plans[j]? = some (.ok (shardJ, second)) →
    kind.partition first = kind.partition second →
    ∃ group ∈ groups, ∃ a b : Nat, a < b ∧ group.indexes[a]? = some i ∧ group.indexes[b]? = some j

/-- One item for each request of the group, in their order, or an error. -/
def Answers (groups : List (ShardGroup ρ)) (answer : ShardGroup ρ → Except Error (List ι)) : Prop :=
  ∀ group ∈ groups, ∀ result, answer group = .ok result → result.length = group.values.length

lemma map_fst_writes (group : ShardGroup ρ) (answer : Except Error (List ι)) :
    (kind.writes group answer).map Prod.fst = group.indexes := by
  unfold writes
  split
  · simp [Function.comp_def]
  · next result =>
    split
    · simp [Function.comp_def]
    · next hlength =>
      simp only [ne_eq, Decidable.not_not] at hlength
      exact map_fst_zip (by simp [hlength])

omit kind in
lemma length_values {entries : List (Entry UInt32 ρ)} {groups : List (ShardGroup ρ)}
    (hgrouped : Grouped entries groups) {group : ShardGroup ρ} (hgroup : group ∈ groups) :
    group.values.length = group.indexes.length := by
  rw [hgrouped.indexes group hgroup, hgrouped.values group hgroup, length_map, length_map]

/-- The write of a position of a group. -/
lemma mem_writes {group : ShardGroup ρ} {answer : Except Error (List ι)} {i k : Nat}
    (hk : group.indexes[k]? = some i)
    (hlength : ∀ result, answer = .ok result → result.length = group.indexes.length) :
    ∃ f, (i, f) ∈ kind.writes group answer ∧ some (f kind.item) = kind.itemAt k answer := by
  cases answer with
  | error err => exact ⟨kind.setError err, mem_map.2 ⟨i, mem_of_getElem? hk, rfl⟩, rfl⟩
  | ok result =>
    have heq := hlength result rfl
    obtain ⟨item, hitem⟩ : ∃ item, result[k]? = some item := by
      have hlt : k < result.length := heq ▸ (List.getElem?_eq_some_iff.1 hk).1
      exact ⟨result[k], getElem?_eq_getElem hlt⟩
    refine ⟨fun _ => item, ?_, hitem.symm⟩
    simp only [writes, heq, ne_eq, not_true_eq_false, if_false]
    have hat : (group.indexes.zip (result.map fun item (_ : ι) => item))[k]?
        = some (i, fun _ => item) := by
      rw [getElem?_zip_eq_some]
      exact ⟨hk, by rw [getElem?_map, hitem]; rfl⟩
    exact mem_of_getElem? hat

lemma routed_of_merges {plans : List (Except Error (UInt32 × ρ))} {groups : List (ShardGroup ρ)}
    (hgrouped : Grouped (entriesFrom 0 plans) groups)
    {answer : ShardGroup ρ → Except Error (List ι)} (hanswer : Answers groups answer)
    {merged : List ι} (hmerged : kind.Merges groups answer (plans.map kind.planned) merged)
    {resolved : TopicPartition → UInt32} (hresolved : ∀ (i : Nat) (shardID : UInt32) (planned : ρ),
      plans[i]? = some (.ok (shardID, planned)) → shardID = resolved (kind.partition planned)) :
    kind.Routed plans groups answer merged := by
  obtain ⟨order, horder, rfl⟩ := hmerged
  have hrising := rising_entriesFrom 0 plans
  have hfst : (groups.flatMap fun group => kind.writes group (answer group)).map Prod.fst
      = groups.flatMap EntryGroup.indexes := by
    rw [map_flatMap]
    exact flatMap_congr fun group _ => kind.map_fst_writes group (answer group)
  have hnodup : (order.map Prod.fst).Nodup := by
    rw [(horder.map Prod.fst).nodup_iff, hfst]
    exact hgrouped.nodup hrising
  have hplace : ∀ (i : Nat) (shardID : UInt32) (planned : ρ),
      plans[i]? = some (.ok (shardID, planned)) → ∃ group ∈ groups, group.key = shardID ∧
        ∃ k : Nat, group.indexes[k]? = some i ∧ group.values[k]? = some planned := by
    intro i shardID planned hplan
    exact hgrouped.place (mem_entriesFrom.2 ⟨Nat.zero_le i, hplan⟩)
  refine ⟨?_, ?_, ?_, ?_⟩
  · rw [length_applyWrites, length_map]
  · intro i err hplan
    have hnone : ∀ group ∈ groups, i ∉ group.indexes := by
      intro group hgroup hindex
      obtain ⟨⟨j, shardID, planned⟩, hentry, rfl, -⟩ := hgrouped.mem_indexes hgroup hindex
      have hother := (mem_entriesFrom.1 hentry).2
      rw [Nat.sub_zero, hplan] at hother
      cases hother
    refine ⟨hnone, ?_⟩
    rw [getElem?_applyWrites_of_not_mem, getElem?_map, hplan]
    · rfl
    · rw [(horder.map Prod.fst).mem_iff, hfst]
      intro hmem
      obtain ⟨group, hgroup, hindex⟩ := mem_flatMap.1 hmem
      exact hnone group hgroup hindex
  · intro i shardID planned hplan
    obtain ⟨group, hgroup, hkey, k, hk, hvalue⟩ := hplace i shardID planned hplan
    obtain ⟨f, hwrite, hitem⟩ := kind.mem_writes hk fun result hresult =>
      (hanswer group hgroup result hresult).trans (length_values hgrouped hgroup)
    refine ⟨group, hgroup, hkey, k, hk, hvalue, ?_, ?_⟩
    · intro other hother k' hk'
      exact hgrouped.place_unique hrising hgroup hother hk hk'
    · have hmem : (i, f) ∈ order := horder.mem_iff.2 (mem_flatMap.2 ⟨group, hgroup, hwrite⟩)
      rw [getElem?_applyWrites_of_mem hnodup hmem, getElem?_map, hplan, ← hitem]
      rfl
  · intro i j shardI shardJ first second hlt hfirst hsecond hsame
    -- one partition, one shard, one group
    obtain ⟨group, hgroup, hkey, a, ha, -⟩ := hplace i shardI first hfirst
    obtain ⟨other, hother, hkey', b, hb, -⟩ := hplace j shardJ second hsecond
    have hshard : shardI = shardJ := by
      rw [hresolved i shardI first hfirst, hresolved j shardJ second hsecond, hsame]
    obtain rfl := hgrouped.eq_of_key hother hgroup (by rw [hkey, hkey', hshard])
    refine ⟨other, hother, a, b, ?_, ha, hb⟩
    obtain ⟨halt, rfl⟩ := List.getElem?_eq_some_iff.1 ha
    obtain ⟨hblt, rfl⟩ := List.getElem?_eq_some_iff.1 hb
    exact (hgrouped.rising hrising hother).sortedLT.getElem_lt_getElem_iff.mp hlt

/-- Planning changes nothing but cursors and cached placements, and a planned request goes to the
shard that its partition resolves to. -/
def Resolves (cfg : Config) : Prop :=
  ∀ (w : World) (command : ρ), WorldInv w →
    WorldInv (Prog.exec step (kind.plan command) w).2 ∧
    (∀ tp, resolvedShard cfg (Prog.exec step (kind.plan command) w).2 tp = resolvedShard cfg w tp) ∧
    ∀ (shardID : UInt32) (planned : ρ),
      (Prog.exec step (kind.plan command) w).1 = .ok (shardID, planned) →
        shardID = resolvedShard cfg w (kind.partition planned)

variable {kind}

lemma Resolves.planEach {cfg : Config} (h : kind.Resolves cfg) {requests : List ρ} {w : World}
    (hinv : WorldInv w) {i : Nat} {shardID : UInt32} {planned : ρ}
    (hplan : (kind.planEach requests w).1[i]? = some (.ok (shardID, planned))) :
    shardID = resolvedShard cfg w (kind.partition planned) := by
  induction requests generalizing w i with
  | nil => simp [ShardRouting.planEach] at hplan
  | cons command rest ih =>
    obtain ⟨hinv', hsame, hfirst⟩ := h w command hinv
    cases i with
    | zero => exact hfirst shardID planned (by simpa [ShardRouting.planEach] using hplan)
    | succ i => exact (ih hinv' (by simpa [ShardRouting.planEach] using hplan)).trans (hsame _)

variable (kind)

/-- What is asked of a route: whatever the shards answer and in whatever order the groups write, the
merged result is that of the plans; and a planned request goes to the shard of its partition. -/
def RoutesByShard (cfg : Config) (w : World) : Prop :=
  ∀ requests : List ρ, ∃ groups items w',
    Prog.exec step (kind.planShardGroups 0 requests []) w = (.ok (groups, items), w') ∧
    (∀ (i : Nat) (shardID : UInt32) (planned : ρ),
      (kind.planEach requests w).1[i]? = some (.ok (shardID, planned)) →
        shardID = resolvedShard cfg w (kind.partition planned)) ∧
    ∀ answer : ShardGroup ρ → Except Error (List ι), Answers groups answer →
      ∀ merged, kind.Merges groups answer items merged →
        kind.Routed (kind.planEach requests w).1 groups answer merged

variable {kind}

lemma Resolves.routesByShard {cfg : Config} (h : kind.Resolves cfg) {w : World}
    (hinv : WorldInv w) : kind.RoutesByShard cfg w := by
  intro requests
  refine ⟨_, _, _, kind.exec_planShardGroups 0 requests [] w, ?_, ?_⟩
  · exact fun i shardID planned hplan => h.planEach hinv hplan
  · intro answer hanswer merged hmerged
    have hgrouped := (grouped_nil (κ := UInt32) (α := ρ)).foldl
      (entriesFrom 0 (kind.planEach requests w).1)
    rw [nil_append] at hgrouped
    exact kind.routed_of_merges hgrouped hanswer hmerged
      fun i shardID planned hplan => h.planEach hinv hplan

end ShardRouting

lemma resolves_commit (cfg : Config) : (commitRouting cfg).Resolves cfg := by
  intro w command hinv
  obtain ⟨placement, cache, hrun, hshard, hsame⟩ := exec_resolve cfg hinv command.topicPartition
  have hexec : exec step (planCommitOffsetShardCommand cfg command) w
      = (.ok (placement.shardID, command), { w with placementCache := cache }) :=
    (exec_bind_ok step hrun).trans rfl
  change WorldInv (exec step (planCommitOffsetShardCommand cfg command) w).2 ∧
    (∀ tp, resolvedShard cfg (exec step (planCommitOffsetShardCommand cfg command) w).2 tp = _) ∧
    ∀ _ _, (exec step (planCommitOffsetShardCommand cfg command) w).1 = _ → _
  rw [hexec]
  refine ⟨⟨hinv.metadata, hinv.log, hinv.shards⟩, hsame, fun shardID planned hok => ?_⟩
  cases hok
  exact hshard

lemma resolves_produce (cfg : Config) : (produceRouting cfg).Resolves cfg := by
  intro w command hinv
  obtain ⟨⟨env, henv⟩, -, -⟩ := planProduceBatch_ends cfg hinv.metadata 0 command
  change WorldInv (exec step (planProduceBatchShardCommand cfg command) w).2 ∧
    (∀ tp, resolvedShard cfg (exec step (planProduceBatchShardCommand cfg command) w).2 tp = _) ∧
    ∀ _ _, (exec step (planProduceBatchShardCommand cfg command) w).1 = _ → _
  cases hplan : exec step (planProduceBatch cfg 0 command) w with
  | mk plan after =>
    rw [hplan] at henv
    obtain rfl : after = { w with env := env } := henv
    have hinv' : WorldInv { w with env := env } := ⟨hinv.metadata, hinv.log, hinv.shards⟩
    cases plan with
    | error err =>
      have hexec : exec step (planProduceBatchShardCommand cfg command) w
          = (.error err, { w with env := env }) := exec_bind_error step hplan
      rw [hexec]
      exact ⟨hinv', fun _ => rfl, nofun⟩
    | ok plan =>
      obtain ⟨placement, cache, hrun, hshard, hsame⟩ := exec_resolve cfg hinv' plan.tp
      have hexec : exec step (planProduceBatchShardCommand cfg command) w
          = (.ok (placement.shardID,
              { plan.request with partitioning := ⟨.explicit, plan.tp.partition, ""⟩ }),
            { w with env := env, placementCache := cache }) :=
        (exec_bind_ok step hplan).trans ((exec_bind_ok step hrun).trans rfl)
      rw [hexec]
      refine ⟨⟨hinv.metadata, hinv.log, hinv.shards⟩, fun tp => hsame tp, ?_⟩
      intro shardID planned hok
      cases hok
      have hok : (exec step (planProduceBatch cfg 0 command) w).1 = .ok plan := by rw [hplan]
      have htopic := planProduceBatch_returns (Q := fun _ => True) (fun _ _ => trivial)
        (returns_of_exec step hok)
      have htp : (produceRouting cfg).partition
          { plan.request with partitioning := ⟨.explicit, plan.tp.partition, ""⟩ } = plan.tp := by
        change (⟨plan.request.topic, plan.tp.partition⟩ : TopicPartition) = plan.tp
        rw [htopic.2.1, ← htopic.1]
      rw [htp]
      exact hshard

/-- **Requests routed by shard**: produce batches and offset commits. -/
theorem routed_by_shard (cfg : Config) {w : World} (hinv : WorldInv w) :
    (produceRouting cfg).RoutesByShard cfg w ∧ (commitRouting cfg).RoutesByShard cfg w :=
  ⟨(resolves_produce cfg).routesByShard hinv, (resolves_commit cfg).routesByShard hinv⟩

/-- A broker of two shards with a topic of two partitions. -/
def shardedConfig : Config := { dataShardCount := 2 }

def shardedOrders : World :=
  applyCommands shardedConfig [.createTopic { newTopicConfig "orders" with partitions := 2 }]
    (World.fresh shardedConfig stillEnv)

def commitAt (partition : UInt32) (nextOffset : Nat) : CommitOffsetCommand :=
  ⟨"billing", "orders", partition, nextOffset, none, "", 0⟩

/-- The shard of partition 1 is down; the other one refuses its second commit. -/
def shardAnswer (group : ShardGroup CommitOffsetCommand) : Except Error (List String) :=
  if group.key = 1 then .error (E .unavailable "no leader") else .ok ["", "stale"]

-- The writes of the shard that answers last are merged first.
theorem routed_by_shard_orders :
    let requests := [commitAt 0 1, commitAt 1 2, commitAt 0 3]
    let groups := [⟨0, [0, 2], [commitAt 0 1, commitAt 0 3]⟩, ⟨1, [1], [commitAt 1 2]⟩]
    (exec step ((commitRouting shardedConfig).planShardGroups 0 requests []) shardedOrders).1
      = .ok (groups, ["", "", ""]) ∧
    (commitRouting shardedConfig).Routed
      ((commitRouting shardedConfig).planEach requests shardedOrders).1 groups shardAnswer
      ["", "no leader", "stale"] := by
  intro requests groups
  have hplanned : (exec step ((commitRouting shardedConfig).planShardGroups 0 requests [])
      shardedOrders).1 = .ok (groups, ["", "", ""]) := by decide +kernel
  have hinv : WorldInv shardedOrders := (WorldInv.fresh _ _).applyCommands _ _
  obtain ⟨groups', items', w', hrun, -, hrouted⟩ :=
    (routed_by_shard shardedConfig hinv).2 requests
  rw [hrun] at hplanned
  cases hplanned
  refine ⟨by rw [hrun], hrouted shardAnswer ?_ _ ⟨_, List.reverse_perm _, by decide +kernel⟩⟩
  simp [groups, ShardRouting.Answers, shardAnswer]

end Ech0.Broker
