/-
  Offset commits that are applied together.

  Commits that wait for the same group are sent as one command. Where none of them is an
  acknowledgement, only one commit per consumer and partition is applied: the one with the greatest
  offset, and not the one that came last. So a consumer that goes back, after a commit that waits with
  it, stays where the commit left it. Where no consumer goes back the two ways agree
  (`coalesced_iff`).
-/
import Ech0.Broker.ConsumerOffsets

set_option autoImplicit false

namespace Ech0.Broker

open Ech0.Lib Ech0.Store Prog List CommitOffsetCommand

variable (cfg : Config) (requests : List CommitOffsetCommand)

/-! ## One commit -/

/-- What a commit stores, at a time. -/
def CommitOffsetCommand.stored (req : CommitOffsetCommand) (time : Nat) : ConsumerOffsetState :=
  { consumer := req.consumer, topic := req.topic, partition := req.partition,
    nextOffset := req.nextOffset, metadata := req.metadata, updatedAtMS := time }

/-- The names are there. -/
def CommitOffsetCommand.valid (req : CommitOffsetCommand) : Bool := req.consumer ≠ "" ∧ req.topic ≠ ""

def CommitOffsetCommand.storeKey (req : CommitOffsetCommand) : String :=
  offsetKey req.consumer req.topicPartition

/-- The time a commit is stored with: its own, or the one of the clock. -/
def CommitOffsetCommand.time (req : CommitOffsetCommand) (now : Nat) : Nat :=
  if req.updatedAtMS = 0 then now else req.updatedAtMS

/-- The text of a commit's error. -/
def CommitOffsetCommand.refusal (req : CommitOffsetCommand) : String :=
  errorMessage ((MemoryStore.validateConsumerState req.consumer req.topic).mapError
    (Error.wrap "commit offset"))

/-- The clock stands still. -/
def World.Still (w : World) (now : Nat) : Prop := ∀ n, w.env.clock n = now

variable {req : CommitOffsetCommand}

/-- What one commit does. It is refused by its names alone. -/
lemma exec_commit (hack : req.ackOffset = none) (w : World) :
    ∃ r w', exec step (applyCommitOffset cfg req) w = (r, w') ∧ errorMessage r = req.refusal ∧
      (∀ now, w.Still now → w'.Still now) ∧
      ∃ time, (∀ now, w.Still now → time = req.time now) ∧
        ∀ consumer tp, w'.offsetState consumer tp =
          if req.valid = true ∧ req.storeKey = offsetKey consumer tp then some (req.stored time)
          else w.offsetState consumer tp := by
  obtain ⟨time, env, htime, hstill, hvalue⟩ : ∃ time env,
      exec step (orNowMS req.updatedAtMS) w = (.ok time, { w with env := env }) ∧
      (∀ now, w.Still now → ({ w with env := env } : World).Still now) ∧
      ∀ now, w.Still now → time = req.time now := by
    unfold orNowMS time
    split
    · exact ⟨w.env.clock 0, w.env.dropClock 1, rfl, fun now h n => h (1 + n), fun now h => h 0⟩
    · exact ⟨req.updatedAtMS, w.env, rfl, fun now h => h, fun now h => rfl⟩
  have happly : exec step (applyCommitOffset cfg req) w
      = exec step (wrapBroker "commit offset" (onMeta (.saveConsumerOffsetState
          (req.stored time)))) { w with env := env } := by
    unfold applyCommitOffset
    rw [hack]
    exact exec_bind_ok step htime
  have hnormal : MemoryStore.normalizeConsumerOffsetState (req.stored time) = req.stored time := rfl
  rw [happly, exec_saveOffset]
  unfold refusal valid storeKey
  have hvalidate : MemoryStore.validateConsumerState (req.stored time).consumer (req.stored time).topic
      = MemoryStore.validateConsumerState req.consumer req.topic := rfl
  rw [hvalidate]
  unfold MemoryStore.validateConsumerState
  by_cases hconsumer : req.consumer = ""
  · rw [if_pos hconsumer]
    refine ⟨_, _, rfl, rfl, hstill, time, hvalue, fun consumer tp => ?_⟩
    rw [if_neg (by simp [hconsumer])]
    rfl
  · rw [if_neg hconsumer]
    by_cases htopic : req.topic = ""
    · rw [if_pos htopic]
      refine ⟨_, _, rfl, rfl, hstill, time, hvalue, fun consumer tp => ?_⟩
      rw [if_neg (by simp [htopic])]
      rfl
    · rw [if_neg htopic]
      refine ⟨_, _, rfl, rfl, hstill, time, hvalue, fun consumer tp => ?_⟩
      rw [hnormal, offsetState_withOffset]
      simp [hconsumer, htopic]
      rfl

/-! ## One after the other -/

/-- The commits one at a time, in the order of the list: the texts of their errors, and the world they
leave. -/
def commitEach (cfg : Config) : List CommitOffsetCommand → World → List String × World
  | [], w => ([], w)
  | req :: rest, w =>
    let (result, w') := applyCommand cfg (.commitOffset req) w
    let (errors, w'') := commitEach cfg rest w'
    (errorMessage result :: errors, w'')

lemma applyCommand_commitOffset (req : CommitOffsetCommand) (w : World) :
    applyCommand cfg (.commitOffset req) w
      = ((exec step (applyCommitOffset cfg req) w).1.map fun _ => .done,
        (exec step (applyCommitOffset cfg req) w).2) := by
  change exec step (replyWith (fun _ => Reply.done) (applyCommitOffset cfg req)) w = _
  unfold replyWith
  rw [exec_bind]
  cases exec step (applyCommitOffset cfg req) w with
  | mk r w' => cases r <;> rfl

lemma errorMessage_map {α β : Type} (f : α → β) (r : Except Error α) :
    errorMessage (r.map f) = errorMessage r := by
  cases r <;> rfl

lemma exec_applyEachCommitOffset (w : World) : exec step (applyEachCommitOffset cfg requests) w
      = (.ok (commitEach cfg requests w).1, (commitEach cfg requests w).2) := by
  induction requests generalizing w with
  | nil => rfl
  | cons req rest ih =>
    have hone : exec step (do
        let result ← Prog.attempt (applyCommitOffset cfg req)
        pure (errorMessage result) : Handling String) w
          = (.ok (errorMessage (applyCommand cfg (.commitOffset req) w).1),
            (applyCommand cfg (.commitOffset req) w).2) := by
      rw [applyCommand_commitOffset, errorMessage_map]
      exact exec_bind_ok step (exec_attempt step (applyCommitOffset cfg req) w)
    have hrest := ih (applyCommand cfg (.commitOffset req) w).2
    refine (exec_bind_ok step hone).trans ?_
    exact (exec_bind_ok step hrest).trans rfl

/-- The last commit to a place in the store. -/
def lastAt (requests : List CommitOffsetCommand) (key : String) : Option CommitOffsetCommand :=
  (requests.filter fun req => req.valid ∧ req.storeKey = key).getLast?

lemma lastAt_cons (req : CommitOffsetCommand) (rest : List CommitOffsetCommand) (key : String) :
    lastAt (req :: rest) key =
      match lastAt rest key with
      | some last => some last
      | none => if req.valid = true ∧ req.storeKey = key then some req else none := by
  unfold lastAt
  rw [filter_cons]
  by_cases hreq : req.valid = true ∧ req.storeKey = key
  · rw [if_pos (by simpa using hreq), if_pos hreq, getLast?_cons]
    cases (rest.filter fun req => req.valid ∧ req.storeKey = key).getLast? <;> rfl
  · rw [if_neg (by simpa using hreq), if_neg hreq]
    cases (rest.filter fun req => req.valid ∧ req.storeKey = key).getLast? <;> rfl

/-- **Plain commits** leave the last one at each place, and are refused by their names alone. -/
theorem commitEach_plain {requests : List CommitOffsetCommand}
    (hplain : ∀ req ∈ requests, req.ackOffset = none) (w : World) :
    (commitEach cfg requests w).1 = requests.map refusal ∧
      ∀ consumer tp,
        match lastAt requests (offsetKey consumer tp) with
        | none => (commitEach cfg requests w).2.offsetState consumer tp = w.offsetState consumer tp
        | some last => ∃ time, (∀ now, w.Still now → time = last.time now) ∧
          (commitEach cfg requests w).2.offsetState consumer tp = some (last.stored time) := by
  induction requests generalizing w with
  | nil => exact ⟨rfl, fun _ _ => rfl⟩
  | cons req rest ih =>
    obtain ⟨r, w', hrun, hrefusal, hstill, time, htime, hstate⟩ :=
      exec_commit cfg (hplain req mem_cons_self) w
    obtain ⟨herrors, hlater⟩ := ih (fun q hq => hplain q (mem_cons_of_mem _ hq)) w'
    unfold commitEach
    rw [applyCommand_commitOffset, hrun]
    dsimp only
    refine ⟨by rw [map_cons, ← herrors, ← hrefusal, errorMessage_map], fun consumer tp => ?_⟩
    have hnext := hlater consumer tp
    rw [lastAt_cons]
    cases hlast : lastAt rest (offsetKey consumer tp) with
    | some last =>
      rw [hlast] at hnext
      obtain ⟨later, hvalue, hstored⟩ := hnext
      exact ⟨later, fun now h => hvalue now (hstill now h), hstored⟩
    | none =>
      rw [hlast] at hnext
      dsimp only at hnext ⊢
      rw [hnext, hstate]
      by_cases hreq : req.valid = true ∧ req.storeKey = offsetKey consumer tp
      · rw [if_pos hreq, if_pos hreq]
        exact ⟨time, htime, rfl⟩
      · rw [if_neg hreq, if_neg hreq]

/-! ## Compaction -/

section
variable {K V : Type} [DecidableEq K] (key : V → K) (nextOffset : V → Nat)

lemma find_compactInsert (entries : List V) (entry : V) (k : K) :
    (compactInsert key nextOffset entries entry).find? (fun e => key e = k) =
      if key entry = k then
        match entries.find? (fun e => key e = k) with
        | some old => some (if nextOffset entry ≥ nextOffset old then entry else old)
        | none => some entry
      else entries.find? fun e => key e = k := by
  induction entries with
  | nil =>
    simp only [compactInsert, find?_cons, find?_nil]
    by_cases hk : key entry = k
    · simp [hk]
    · simp [hk]
  | cons old rest ih =>
    unfold compactInsert
    by_cases hold : key old = key entry
    · -- the entry takes the place of the old one, or the old one stays
      have hkept : key (if nextOffset entry ≥ nextOffset old then entry else old) = key entry := by
        split
        · rfl
        · exact hold
      rw [if_pos hold, find?_cons, find?_cons, hkept, hold]
      by_cases hk : key entry = k
      · simp [hk]
      · simp [hk]
    · rw [if_neg hold, find?_cons, find?_cons, ih]
      by_cases hk : key old = k
      · have hne : key entry ≠ k := fun h => hold (hk.trans h.symm)
        simp [hk, hne]
      · simp [hk]

lemma keys_compactInsert (entries : List V) (entry : V) :
    (compactInsert key nextOffset entries entry).map key =
      if key entry ∈ entries.map key then entries.map key else entries.map key ++ [key entry] := by
  induction entries with
  | nil => rfl
  | cons old rest ih =>
    unfold compactInsert
    by_cases hold : key old = key entry
    · have hin : key entry ∈ (old :: rest).map key := by
        rw [map_cons, hold]
        exact mem_cons_self
      rw [if_pos hold, if_pos hin]
      split
      · rw [map_cons, map_cons, hold]
      · rfl
    · rw [if_neg hold, map_cons, ih]
      by_cases hin : key entry ∈ rest.map key
      · rw [if_pos hin, if_pos (by rw [map_cons]; exact mem_cons_of_mem _ hin), map_cons]
      · have hnot : key entry ∉ (old :: rest).map key := by
          rw [map_cons, mem_cons]
          exact fun h => h.elim (fun heq => hold heq.symm) hin
        rw [if_neg hin, if_neg hnot]
        rfl

end

/-- The commits of one consumer to one partition. -/
def commitsOf (requests : List CommitOffsetCommand) (key : String × TopicPartition) :
    List CommitOffsetCommand :=
  requests.filter fun req => commitOffsetKey req = key

/-- What compaction keeps of a consumer's commits to a partition: one with the greatest offset, and the
last one if that has the greatest offset. -/
lemma kept_compact (key : String × TopicPartition) :
    match (compactCommitOffsetCommands requests).find? (fun req => commitOffsetKey req = key) with
    | none => commitsOf requests key = []
    | some kept => kept ∈ commitsOf requests key ∧
      (∀ req ∈ commitsOf requests key, req.nextOffset ≤ kept.nextOffset) ∧
      ∀ last, (commitsOf requests key).getLast? = some last →
        (∀ req ∈ commitsOf requests key, req.nextOffset ≤ last.nextOffset) → kept = last := by
  induction requests using List.reverseRecOn with
  | nil => rfl
  | append_singleton requests req ih =>
    have hcompact : compactCommitOffsetCommands (requests ++ [req]) = compactInsert commitOffsetKey
        nextOffset (compactCommitOffsetCommands requests) req := by
      unfold compactCommitOffsetCommands
      rw [foldl_append]
      rfl
    rw [hcompact, find_compactInsert]
    by_cases hreq : commitOffsetKey req = key
    · have hof : commitsOf (requests ++ [req]) key = commitsOf requests key ++ [req] := by
        unfold commitsOf
        rw [filter_append, filter_singleton, hreq]
        simp
      rw [if_pos hreq, hof]
      cases hfound : (compactCommitOffsetCommands requests).find? fun r => commitOffsetKey r = key with
      | none =>
        rw [hfound] at ih
        dsimp only at ih ⊢
        rw [ih]
        simp
      | some old =>
        rw [hfound] at ih
        obtain ⟨hmem, hmax, -⟩ := ih
        dsimp only
        by_cases hge : req.nextOffset ≥ old.nextOffset
        · rw [if_pos hge]
          refine ⟨by simp, fun r hr => ?_, fun last hlast _ => ?_⟩
          · rcases mem_append.mp hr with hr | hr
            · exact (hmax r hr).trans hge
            · rw [mem_singleton.mp hr]
          · rw [getLast?_concat] at hlast
            exact Option.some.inj hlast
        · rw [if_neg hge]
          refine ⟨mem_append_left _ hmem, fun r hr => ?_, fun last hlast hle => ?_⟩
          · rcases mem_append.mp hr with hr | hr
            · exact hmax r hr
            · rw [mem_singleton.mp hr]
              omega
          · rw [getLast?_concat] at hlast
            have := hle old (mem_append_left _ hmem)
            rw [← Option.some.inj hlast] at this
            omega
    · have hof : commitsOf (requests ++ [req]) key = commitsOf requests key := by
        unfold commitsOf
        rw [filter_append, filter_singleton]
        simp [hreq]
      rw [if_neg hreq, hof]
      exact ih

lemma nodup_compact : ((compactCommitOffsetCommands requests).map commitOffsetKey).Nodup := by
  induction requests using List.reverseRecOn with
  | nil => exact nodup_nil
  | append_singleton requests req ih =>
    unfold compactCommitOffsetCommands at ih ⊢
    rw [foldl_append, foldl_cons, foldl_nil, keys_compactInsert]
    split
    · exact ih
    · next hnot =>
      rw [nodup_append]
      refine ⟨ih, nodup_singleton _, fun a ha b hb => ?_⟩
      rw [mem_singleton.mp hb]
      exact fun heq => hnot (heq ▸ ha)

/-! ## Together (`service_apply.go`) -/

/-- `applyCommitOffsets` with the compacted commits visited in the order `visit`. They are kept in a
map of the source, which is visited in any order. -/
def applyCommitOffsetsVisiting (cfg : Config) (visit requests : List CommitOffsetCommand) :
    Handling (List String) := do
  if requests.any fun req => req.ackOffset.isSome then applyEachCommitOffset cfg requests
  else
    let errors ← applyEachCommitOffset cfg visit
    let byKey := (visit.map commitOffsetKey).zip errors
    pure (requests.map fun req =>
      ((byKey.find? fun e => e.1 = commitOffsetKey req).map Prod.snd).getD "")

/-- A stored offset without its time. -/
def untimed (state : ConsumerOffsetState) : ConsumerOffsetState := { state with updatedAtMS := 0 }

/-- The commits do together what they do one at a time. The clock is read more often when they are
applied one at a time, so the times agree where it stands still. -/
structure SameCommits (cfg : Config) (visit requests : List CommitOffsetCommand) (w : World) : Prop where
  errors : (Prog.exec step (applyCommitOffsetsVisiting cfg visit requests) w).1
    = .ok (commitEach cfg requests w).1
  offsets : ∀ consumer tp,
    ((Prog.exec step (applyCommitOffsetsVisiting cfg visit requests) w).2.offsetState consumer tp).map
        untimed
      = ((commitEach cfg requests w).2.offsetState consumer tp).map untimed
  times : ∀ now, w.Still now → ∀ consumer tp,
    (Prog.exec step (applyCommitOffsetsVisiting cfg visit requests) w).2.offsetState consumer tp
      = (commitEach cfg requests w).2.offsetState consumer tp

/-- Some commit is an acknowledgement; or no two places in the store are mixed up, and the last commit
of a consumer to a partition has its greatest offset. -/
def NoneGoesBack (requests : List CommitOffsetCommand) : Prop :=
  (∃ req ∈ requests, req.ackOffset.isSome = true) ∨
    (∀ req ∈ requests, ∀ other ∈ requests, req.valid = true → other.valid = true →
      req.storeKey = other.storeKey → commitOffsetKey req = commitOffsetKey other) ∧
    ∀ req ∈ requests, req.valid = true →
      ∀ last, (commitsOf requests (commitOffsetKey req)).getLast? = some last →
        req.nextOffset ≤ last.nextOffset

section
variable {cfg : Config} {visit requests : List CommitOffsetCommand} {w : World}

lemma refusal_of_key {req other : CommitOffsetCommand} (h : commitOffsetKey req = commitOffsetKey other) :
    req.refusal = other.refusal := by
  unfold refusal
  unfold commitOffsetKey at h
  rw [Prod.mk.injEq] at h
  rw [h.1, show req.topic = other.topic from congrArg TopicPartition.topic h.2]

lemma mem_compact (h : req ∈ compactCommitOffsetCommands requests) : req ∈ requests := by
  have hkept := kept_compact requests (commitOffsetKey req)
  obtain ⟨found, hfound⟩ : ∃ found, (compactCommitOffsetCommands requests).find?
      (fun r => commitOffsetKey r = commitOffsetKey req) = some found := by
    rw [← Option.isSome_iff_exists, find?_isSome]
    exact ⟨req, h, by simp⟩
  rw [hfound] at hkept
  -- keys are listed once, so what is found is the request itself
  have hsame : found = req := by
    have hin := mem_of_find?_eq_some hfound
    have hkey : commitOffsetKey found = commitOffsetKey req := by
      simpa using find?_some hfound
    exact inj_on_of_nodup_map (nodup_compact requests) hin h hkey
  rw [← hsame]
  exact (mem_filter.mp hkept.1).1

/-- One commit is kept for every consumer and partition of a request. -/
lemma exists_kept (h : req ∈ requests) :
    ∃ kept ∈ compactCommitOffsetCommands requests, commitOffsetKey kept = commitOffsetKey req ∧
      (∀ r ∈ commitsOf requests (commitOffsetKey req), r.nextOffset ≤ kept.nextOffset) ∧
      ∀ last, (commitsOf requests (commitOffsetKey req)).getLast? = some last →
        (∀ r ∈ commitsOf requests (commitOffsetKey req), r.nextOffset ≤ last.nextOffset) →
        kept = last := by
  have hkept := kept_compact requests (commitOffsetKey req)
  cases hfound : (compactCommitOffsetCommands requests).find?
      (fun r => commitOffsetKey r = commitOffsetKey req) with
  | none =>
    rw [hfound] at hkept
    have hin : req ∈ commitsOf requests (commitOffsetKey req) := mem_filter.mpr ⟨h, by simp⟩
    rw [hkept] at hin
    exact absurd hin not_mem_nil
  | some kept =>
    rw [hfound] at hkept
    exact ⟨kept, mem_of_find?_eq_some hfound, by simpa using find?_some hfound, hkept.2⟩

lemma lastAt_some {key : String} {last : CommitOffsetCommand} (h : lastAt requests key = some last) :
    last ∈ requests ∧ last.valid = true ∧ last.storeKey = key := by
  have hmem := mem_of_getLast? h
  rw [mem_filter] at hmem
  simpa using hmem

lemma exists_lastAt (h : req ∈ requests) (hvalid : req.valid = true) :
    ∃ last, lastAt requests req.storeKey = some last := by
  rw [← Option.isSome_iff_exists, lastAt, getLast?_isSome]
  exact ne_nil_of_mem (mem_filter.mpr ⟨h, by simp [hvalid]⟩)

/-- The key of a request says where it is stored, and whether. -/
lemma place_of_key {req other : CommitOffsetCommand} (h : commitOffsetKey req = commitOffsetKey other) :
    req.valid = other.valid ∧ req.storeKey = other.storeKey := by
  unfold commitOffsetKey at h
  rw [Prod.mk.injEq] at h
  unfold valid storeKey
  rw [h.1, h.2, show req.topic = other.topic from congrArg TopicPartition.topic h.2]
  exact ⟨rfl, rfl⟩

/-- No two places in the store are mixed up. -/
def PlacesApart (requests : List CommitOffsetCommand) : Prop :=
  ∀ req ∈ requests, ∀ other ∈ requests, req.valid = true → other.valid = true →
    req.storeKey = other.storeKey → commitOffsetKey req = commitOffsetKey other

/-- Where they are not, the last commit to a place is the last of its consumer. -/
lemma lastAt_eq_commitsOf (hplaces : PlacesApart requests) (hreq : req ∈ requests) (hvalid : req.valid = true) :
    lastAt requests req.storeKey = (commitsOf requests (commitOffsetKey req)).getLast? := by
  unfold lastAt commitsOf
  congr 1
  apply filter_congr
  intro other hother
  rw [decide_eq_decide]
  constructor
  · exact fun h => hplaces other hother req hreq h.1 hvalid h.2
  · intro h
    obtain ⟨hvalid', hkey'⟩ := place_of_key h
    exact ⟨hvalid'.trans hvalid, hkey'⟩

/-- The last commit of a list to a place, if all its commits to the place are one. -/
lemma lastAt_of_unique (h : req ∈ visit) (hvalid : req.valid = true)
    (hone : ∀ other ∈ visit, other.valid = true → other.storeKey = req.storeKey → other = req) :
    lastAt visit req.storeKey = some req := by
  obtain ⟨last, hlast⟩ := exists_lastAt h hvalid
  obtain ⟨hmem, hvalid', hkey⟩ := lastAt_some hlast
  rw [hlast, hone last hmem hvalid' hkey]

variable (hplain : ∀ req ∈ requests, req.ackOffset = none)
include hplain

/-- Without acknowledgements the compacted commits are applied, and everyone is told about its own. -/
lemma exec_visiting (hvisit : visit.Perm (compactCommitOffsetCommands requests)) :
    exec step (applyCommitOffsetsVisiting cfg visit requests) w
      = (.ok (requests.map refusal), (commitEach cfg visit w).2) := by
  have hany : (requests.any fun req => req.ackOffset.isSome) = false := by
    rw [any_eq_false]
    intro req hreq
    rw [hplain req hreq]
    simp
  have hmem : ∀ req ∈ visit, req ∈ requests := fun req hreq => mem_compact (hvisit.mem_iff.mp hreq)
  have herrors := (commitEach_plain cfg (fun req hreq => hplain req (hmem req hreq)) w).1
  unfold applyCommitOffsetsVisiting
  rw [if_neg (by simp [hany])]
  refine (exec_bind_ok step (exec_applyEachCommitOffset cfg visit w)).trans ?_
  rw [herrors, zip_map']
  refine Prod.ext (congrArg Except.ok (map_congr_left fun req hreq => ?_)) rfl
  rw [find?_map]
  obtain ⟨kept, hkept, hkey, -⟩ := exists_kept hreq
  obtain ⟨found, hfound⟩ : ∃ found, visit.find?
      ((fun e => decide (e.1 = commitOffsetKey req)) ∘ fun a => (commitOffsetKey a, a.refusal))
        = some found := by
    rw [← Option.isSome_iff_exists, find?_isSome]
    exact ⟨kept, hvisit.mem_iff.mpr hkept, by simp [hkey]⟩
  have hfoundKey : commitOffsetKey found = commitOffsetKey req := by
    simpa using find?_some hfound
  rw [hfound]
  exact refusal_of_key hfoundKey

/-- The place in the store of a request is what was asked to be stored there last. -/
lemma offsetState_commitEach {req last : CommitOffsetCommand}
    (hlast : lastAt requests req.storeKey = some last) :
    ∃ time, (∀ now, w.Still now → time = last.time now) ∧
      (commitEach cfg requests w).2.offsetState req.consumer req.topicPartition
        = some (last.stored time) := by
  have hstate := (commitEach_plain cfg hplain w).2 req.consumer req.topicPartition
  change match lastAt requests req.storeKey with
    | none => _
    | some last => _ at hstate
  rw [hlast] at hstate
  exact hstate

lemma sameCommits_of_noneGoesBack (hplaces : PlacesApart requests)
    (hlasts : ∀ req ∈ requests, req.valid = true →
      ∀ last, (commitsOf requests (commitOffsetKey req)).getLast? = some last →
        req.nextOffset ≤ last.nextOffset)
    (hvisit : visit.Perm (compactCommitOffsetCommands requests)) : SameCommits cfg visit requests w := by
  have hmem : ∀ req ∈ visit, req ∈ requests := fun req hreq => mem_compact (hvisit.mem_iff.mp hreq)
  have hplainVisit : ∀ req ∈ visit, req.ackOffset = none := fun req hreq => hplain req (hmem req hreq)
  have hnodup : (visit.map commitOffsetKey).Nodup :=
    (hvisit.map commitOffsetKey).nodup_iff.mpr (nodup_compact requests)
  -- both ways leave the same commit at every place
  have hsame : ∀ key, lastAt visit key = lastAt requests key := by
    intro key
    cases hlast : lastAt requests key with
    | none =>
      by_contra hsome
      obtain ⟨found, hfound⟩ := Option.ne_none_iff_exists'.mp hsome
      obtain ⟨hin, hvalid, hkey⟩ := lastAt_some hfound
      obtain ⟨last, hlast'⟩ := exists_lastAt (hmem found hin) hvalid
      rw [hkey, hlast] at hlast'
      cases hlast'
    | some last =>
      obtain ⟨hin, hvalid, rfl⟩ := lastAt_some hlast
      rw [lastAt_eq_commitsOf hplaces hin hvalid] at hlast
      obtain ⟨kept, hkept, -, -, hisLast⟩ := exists_kept hin
      obtain rfl : kept = last := by
        refine hisLast last hlast fun req hreq => ?_
        obtain ⟨hreqIn, hreqKey⟩ := mem_filter.mp hreq
        have hreqKey : commitOffsetKey req = commitOffsetKey last := by simpa using hreqKey
        refine hlasts req hreqIn ((place_of_key hreqKey).1.trans hvalid) last ?_
        rw [hreqKey]
        exact hlast
      have hinVisit : kept ∈ visit := hvisit.mem_iff.mpr hkept
      apply lastAt_of_unique hinVisit hvalid
      intro other hother hvalid' hkey
      exact inj_on_of_nodup_map hnodup hother hinVisit
        (hplaces other (hmem other hother) kept hin hvalid' hvalid hkey)
  have hrun : exec step (applyCommitOffsetsVisiting cfg visit requests) w = _ :=
    exec_visiting hplain hvisit
  have hstates : ∀ consumer tp,
      ((commitEach cfg visit w).2.offsetState consumer tp).map untimed
          = ((commitEach cfg requests w).2.offsetState consumer tp).map untimed ∧
        ∀ now, w.Still now → (commitEach cfg visit w).2.offsetState consumer tp
          = (commitEach cfg requests w).2.offsetState consumer tp := by
    intro consumer tp
    have htogether := (commitEach_plain cfg hplainVisit w).2 consumer tp
    have heach := (commitEach_plain cfg hplain w).2 consumer tp
    rw [hsame] at htogether
    cases hlast : lastAt requests (offsetKey consumer tp) with
    | none =>
      rw [hlast] at htogether heach
      dsimp only at htogether heach
      rw [htogether, heach]
      exact ⟨rfl, fun _ _ => rfl⟩
    | some last =>
      rw [hlast] at htogether heach
      obtain ⟨time, htime, htogether⟩ := htogether
      obtain ⟨time', htime', heach⟩ := heach
      rw [htogether, heach]
      exact ⟨rfl, fun now h => by rw [htime now h, htime' now h]⟩
  refine ⟨?_, fun consumer tp => ?_, fun now h consumer tp => ?_⟩
  · rw [hrun, (commitEach_plain cfg hplain w).1]
  · rw [hrun]
    exact (hstates consumer tp).1
  · rw [hrun]
    exact (hstates consumer tp).2 now h

variable (hsame : ∀ visit, visit.Perm (compactCommitOffsetCommands requests) →
  SameCommits cfg visit requests w)
include hsame

/-- The place of a visited commit holds it, if it is visited last of all. -/
lemma places_of_sameCommits {kept last : CommitOffsetCommand}
    (hkept : kept ∈ compactCommitOffsetCommands requests)
    (hvalid : kept.valid = true) (hlast : lastAt requests kept.storeKey = some last) :
    ∃ time time', untimed (kept.stored time) = untimed (last.stored time') := by
  -- any of the compacted commits may be visited last
  obtain ⟨before, after, hsplit⟩ := append_of_mem hkept
  have hvisit : (before ++ after ++ [kept]).Perm (compactCommitOffsetCommands requests) := by
    rw [hsplit]
    exact (perm_append_singleton kept (before ++ after)).trans perm_middle.symm
  have hplainVisit : ∀ req ∈ before ++ after ++ [kept], req.ackOffset = none :=
    fun req hreq => hplain req (mem_compact (hvisit.mem_iff.mp hreq))
  have hrun : exec step (applyCommitOffsetsVisiting cfg (before ++ after ++ [kept]) requests) w = _ :=
    exec_visiting hplain hvisit
  have hkeptLast : lastAt (before ++ after ++ [kept]) kept.storeKey = some kept := by
    unfold lastAt
    rw [filter_append, filter_singleton]
    simp [hvalid]
  have hoffsets := (hsame _ hvisit).offsets kept.consumer kept.topicPartition
  rw [hrun] at hoffsets
  obtain ⟨time, -, htogether⟩ := offsetState_commitEach hplainVisit hkeptLast
  obtain ⟨time', -, heach⟩ := offsetState_commitEach hplain hlast
  rw [htogether, heach] at hoffsets
  exact ⟨time, time', Option.some.inj hoffsets⟩

/-- Whichever of two commits to one place is visited last, the place holds the one that came last. So
they are of one consumer, to one partition. -/
lemma apart_of_sameCommits : PlacesApart requests := by
  intro req hreq other hother hvalid hvalid' hplace
  obtain ⟨last, hlast⟩ := exists_lastAt hreq hvalid
  have hkey : ∀ r ∈ requests, r.valid = true → r.storeKey = req.storeKey →
      commitOffsetKey r = commitOffsetKey last := by
    intro r hr hvalidR hplaceR
    obtain ⟨kept, hkept, hkeptKey, -⟩ := exists_kept hr
    obtain ⟨hvalidKept, hplaceKept⟩ := place_of_key hkeptKey
    have hlast' : lastAt requests kept.storeKey = some last := by
      rw [hplaceKept, hplaceR]
      exact hlast
    obtain ⟨time, time', hstored⟩ :=
      places_of_sameCommits hplain hsame hkept (hvalidKept.trans hvalidR) hlast'
    rw [← hkeptKey]
    simp only [untimed, stored, ConsumerOffsetState.mk.injEq] at hstored
    simp only [commitOffsetKey, topicPartition, hstored]
  rw [hkey req hreq hvalid rfl, hkey other hother hvalid' hplace.symm]

/-- The commit that is kept has the greatest offset, and the place holds the last one. -/
lemma lasts_of_sameCommits (hplaces : PlacesApart requests) : ∀ req ∈ requests, req.valid = true →
      ∀ last, (commitsOf requests (commitOffsetKey req)).getLast? = some last →
        req.nextOffset ≤ last.nextOffset := by
  intro req hreq hvalid last hlast
  obtain ⟨kept, hkept, hkey, hmax, -⟩ := exists_kept hreq
  obtain ⟨hvalidKept, hplaceKept⟩ := place_of_key hkey
  have hlast' : lastAt requests kept.storeKey = some last := by
    rw [hplaceKept, lastAt_eq_commitsOf hplaces hreq hvalid]
    exact hlast
  obtain ⟨time, time', hstored⟩ :=
    places_of_sameCommits hplain hsame hkept (hvalidKept.trans hvalid) hlast'
  have hnext : kept.nextOffset = last.nextOffset := congrArg ConsumerOffsetState.nextOffset hstored
  rw [← hnext]
  exact hmax req (mem_filter.mpr ⟨hreq, by simp⟩)

end

/-- **Commits together and one at a time.** In whatever order the compacted commits are visited, they
do what they do one at a time; that is so just if none of them goes back. -/
theorem coalesced_iff (cfg : Config) (requests : List CommitOffsetCommand) (w : World) :
    (∀ visit, visit.Perm (compactCommitOffsetCommands requests) → SameCommits cfg visit requests w) ↔
      NoneGoesBack requests := by
  by_cases hack : ∃ req ∈ requests, req.ackOffset.isSome = true
  · -- with an acknowledgement among them they are applied one at a time anyway
    refine ⟨fun _ => .inl hack, fun _ visit _ => ?_⟩
    have hany : (requests.any fun req => req.ackOffset.isSome) = true := by
      simpa using hack
    have hrun : exec step (applyCommitOffsetsVisiting cfg visit requests) w
        = (.ok (commitEach cfg requests w).1, (commitEach cfg requests w).2) := by
      unfold applyCommitOffsetsVisiting
      rw [if_pos hany]
      exact exec_applyEachCommitOffset cfg requests w
    exact ⟨by rw [hrun], fun _ _ => by rw [hrun], fun _ _ _ _ => by rw [hrun]⟩
  · have hplain : ∀ req ∈ requests, req.ackOffset = none := by
      intro req hreq
      by_contra hsome
      exact hack ⟨req, hreq, Option.isSome_iff_ne_none.mpr hsome⟩
    constructor
    · intro hsame
      have hplaces := apart_of_sameCommits hplain hsame
      exact .inr ⟨hplaces, lasts_of_sameCommits hplain hsame hplaces⟩
    · rintro (hsome | ⟨hplaces, hlasts⟩) visit hvisit
      · exact absurd hsome hack
      · exact sameCommits_of_noneGoesBack hplain hplaces hlasts hvisit

/-- A commit to the first partition. A seek is one too, without a time of its own. -/
def commitOrder (nextOffset : Nat) : CommitOffsetCommand :=
  { consumer := "billing", topic := "orders", partition := 0, nextOffset := nextOffset }

/-- A consumer commits offset 10 and seeks back to 5: one at a time it is at 5 then, and if the two are
applied together it is at 10. -/
theorem seek_back_lost :
    let requests := [commitOrder 10, commitOrder 5]
    ((applyCommand {} (.commitOffsets requests) ordersWorld).2.offsetState "billing" ⟨"orders", 0⟩).map
        ConsumerOffsetState.nextOffset = some 10 ∧
      ((commitEach {} requests ordersWorld).2.offsetState "billing" ⟨"orders", 0⟩).map
        ConsumerOffsetState.nextOffset = some 5 ∧
      ¬ ∀ visit, visit.Perm (compactCommitOffsetCommands requests) →
        SameCommits {} visit requests ordersWorld := by
  intro requests
  refine ⟨by decide +kernel, by decide +kernel, fun hsame => ?_⟩
  have hoffsets := (hsame _ (List.Perm.refl _)).offsets "billing" ⟨"orders", 0⟩
  have hdiffers : ((exec step (applyCommitOffsetsVisiting {}
      (compactCommitOffsetCommands requests) requests) ordersWorld).2.offsetState "billing"
        ⟨"orders", 0⟩).map untimed
      ≠ ((commitEach {} requests ordersWorld).2.offsetState "billing" ⟨"orders", 0⟩).map untimed := by
    decide +kernel
  exact hdiffers hoffsets

end Ech0.Broker
