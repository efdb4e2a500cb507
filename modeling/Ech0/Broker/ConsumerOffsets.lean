/-
  The offsets of consumers.

  A consumer either commits the offset it goes on with or acknowledges records one by one. The
  acknowledged offsets are kept as a watermark: the first offset that is missing and, in order, those
  above it. However the acknowledgements arrive, what is stored is determined by the set of them
  (`acks_mark`).
-/
import Ech0.Lib.Watermark
import Ech0.Broker.Appends

set_option autoImplicit false

namespace Ech0.Broker

open Ech0.Lib Ech0.Store StorxLogStore Prog MemoryStore List

variable {offset : Nat} {w : World}

/-! ## Draining -/

variable {pending : List Nat}

/-- What the loop leaves: each pending offset once, in order, from the next offset on and, after the
first round, above the previous one. `previous` is not above what is still to come. -/
lemma normalizePending_spec (nextOffset index : Nat) {previous : Nat}
    (hsorted : pending.Pairwise (· ≤ ·)) (hprevious : ∀ n ∈ pending, previous ≤ n) :
    (normalizePending nextOffset index previous pending).Pairwise (· < ·) ∧
      ∀ n, n ∈ normalizePending nextOffset index previous pending ↔
        n ∈ pending ∧ nextOffset ≤ n ∧ (0 < index → n ≠ previous) := by
  induction pending generalizing index previous with
  | nil => simp [normalizePending]
  | cons offset rest ih =>
    obtain ⟨hfirst, hrest⟩ := pairwise_cons.mp hsorted
    have hle := hprevious offset mem_cons_self
    unfold normalizePending
    by_cases hpassed : offset < nextOffset ∨ 0 < index ∧ offset = previous
    · -- what is below the next offset has a smaller previous one below it too
      obtain ⟨hpairwise, hmem⟩ := ih (index + 1) hrest fun n hn => hprevious n (mem_cons_of_mem _ hn)
      rw [← ite_or, if_pos hpassed]
      refine ⟨hpairwise, fun n => ?_⟩
      rw [hmem, mem_cons]
      constructor
      · exact fun h => ⟨.inr h.1, h.2.1, fun _ => h.2.2 (Nat.succ_pos _)⟩
      · rintro ⟨rfl | hn, hnext, hne⟩
        · rcases hpassed with hbelow | ⟨hindex, hsame⟩
          · omega
          · exact absurd hsame (hne hindex)
        · rcases hpassed with hbelow | ⟨hindex, -⟩
          · exact ⟨hn, hnext, by omega⟩
          · exact ⟨hn, hnext, fun _ => hne hindex⟩
    · obtain ⟨hpairwise, hmem⟩ := ih (index + 1) hrest hfirst
      rw [← ite_or, if_neg hpassed]
      refine ⟨pairwise_cons.mpr ⟨fun n hn => ?_, hpairwise⟩, fun n => ?_⟩
      · obtain ⟨hin, -, hne⟩ := (hmem n).mp hn
        have := hfirst n hin
        have := hne (Nat.succ_pos _)
        omega
      · rw [mem_cons, hmem, mem_cons]
        constructor
        · rintro (rfl | ⟨hn, hnext, hne⟩)
          · exact ⟨.inl rfl, by omega, fun hindex hsame => hpassed (.inr ⟨hindex, hsame⟩)⟩
          · have := hfirst n hn
            have := hne (Nat.succ_pos _)
            exact ⟨.inr hn, hnext, by omega⟩
        · rintro ⟨rfl | hn, hnext, hne⟩
          · exact .inl rfl
          · by_cases heq : n = offset
            · exact .inl heq
            · exact .inr ⟨hn, hnext, fun _ => heq⟩

lemma pendingOffsets_normalize (state : ConsumerOffsetState) :
    (normalizeConsumerOffsetState state).pendingOffsets.Pairwise (· < ·) ∧
      ∀ n, n ∈ (normalizeConsumerOffsetState state).pendingOffsets ↔
        n ∈ state.pendingOffsets ∧ state.nextOffset ≤ n := by
  unfold normalizeConsumerOffsetState
  by_cases hnil : state.pendingOffsets = []
  · rw [if_pos hnil, hnil]
    simp
  · rw [if_neg hnil]
    obtain ⟨hpairwise, hmem⟩ := normalizePending_spec state.nextOffset 0
      (pairwise_insertionSort (· ≤ ·) state.pendingOffsets) fun n _ => Nat.zero_le n
    refine ⟨hpairwise, fun n => ?_⟩
    simp only [hmem, mem_insertionSort, Nat.lt_irrefl, false_implies, and_true]

variable {state : ConsumerOffsetState}

/-- Pending offsets in order and above the next offset are left as they are. -/
lemma normalize_of_increasing (hincreasing : state.pendingOffsets.Pairwise (· < ·))
    (habove : ∀ n ∈ state.pendingOffsets, state.nextOffset ≤ n) :
    normalizeConsumerOffsetState state = state := by
  obtain ⟨hpairwise, hmem⟩ := pendingOffsets_normalize state
  have hpending : (normalizeConsumerOffsetState state).pendingOffsets
      = state.pendingOffsets := by
    apply hpairwise.eq_of_mem_iff hincreasing
    intro n
    rw [hmem]
    exact ⟨fun h => h.1, fun h => ⟨h, habove n h⟩⟩
  unfold normalizeConsumerOffsetState at hpending ⊢
  split
  · rfl
  · next hnil =>
    rw [if_neg hnil] at hpending
    cases state
    simp only at hpending
    rw [hpending]

lemma drainPending_marks {nextOffset : Nat} (hincreasing : pending.Pairwise (· < ·))
    (habove : ∀ n ∈ pending, nextOffset ≤ n) :
    Marks nextOffset {n | n ∈ pending} (drainPending nextOffset pending).1
      (drainPending nextOffset pending).2 := by
  induction pending generalizing nextOffset with
  | nil => exact Marks.of_not_mem (by simp) (by simp [drainPending]) .nil
  | cons offset rest ih =>
    obtain ⟨hfirst, hrest⟩ := pairwise_cons.mp hincreasing
    unfold drainPending
    by_cases hnext : offset = nextOffset
    · rw [if_pos hnext]
      subst hnext
      have hset : {n | n ∈ offset :: rest} = insert offset {n | n ∈ rest} := by
        ext n
        simp
      rw [hset]
      exact (ih hrest hfirst).of_succ
    · rw [if_neg hnext]
      -- the first pending offset is above the next one, so all of them are
      have hall : ∀ n ∈ offset :: rest, nextOffset < n := by
        intro n hn
        have hoffset := habove offset mem_cons_self
        rcases mem_cons.mp hn with rfl | hn
        · omega
        · have := hfirst n hn
          omega
      apply Marks.of_not_mem
      · intro hin
        exact absurd (hall nextOffset hin) (by omega)
      · exact fun n => ⟨fun hn => ⟨hn, hall n hn⟩, fun hn => hn.1⟩
      · exact hincreasing

/-- Draining gives the watermark of the pending offsets, whatever their order. -/
lemma drainAckedOffsets_marks (nextOffset : Nat) (pending : List Nat) :
    Marks nextOffset {n | n ∈ pending} (drainAckedOffsets nextOffset pending).1
      (drainAckedOffsets nextOffset pending).2 := by
  have hnormal : (normalizePendingOffsets nextOffset pending).Pairwise (· < ·) ∧
      ∀ n, n ∈ normalizePendingOffsets nextOffset pending ↔ n ∈ pending ∧ nextOffset ≤ n :=
    pendingOffsets_normalize _
  have hdrain := drainPending_marks hnormal.1 fun n hn => ((hnormal.2 n).mp hn).2
  unfold drainAckedOffsets
  generalize drainPending nextOffset (normalizePendingOffsets nextOffset pending) = drained at hdrain
  have hagain : normalizePendingOffsets drained.1 drained.2 = drained.2 :=
    congrArg ConsumerOffsetState.pendingOffsets
      (normalize_of_increasing hdrain.increasing fun n hn => ((hdrain.mem_iff n).mp hn).2.le)
  dsimp only
  rw [hagain]
  apply hdrain.congr
  intro n hn
  change n ∈ normalizePendingOffsets nextOffset pending ↔ n ∈ pending
  rw [hnormal.2]
  exact ⟨fun h => h.1, fun h => ⟨h, hn⟩⟩

/-! ## One acknowledgement -/

/-- Where the log of a partition starts. -/
def World.logStart (cfg : Config) (w : World) (tp : TopicPartition) : Option Nat :=
  match w.logAt (w.holder cfg tp) with
  | .error _ => none
  | .ok log => (log.partitionOffsets tp).toOption.map PartitionOffsetState.logStartOffset

/-- The stored offset of a consumer in a partition. -/
def World.offsetState (w : World) (consumer : String) (tp : TopicPartition) :
    Option ConsumerOffsetState :=
  w.metadata.loadConsumerOffsetState consumer tp

/-- The offset a consumer goes on with: the stored one, or the start of the log if that is later. -/
def position (stored : Option ConsumerOffsetState) (logStart : Nat) : Nat :=
  match stored with
  | some state => max state.nextOffset logStart
  | none => logStart

def pendingOf (stored : Option ConsumerOffsetState) : List Nat :=
  (stored.map ConsumerOffsetState.pendingOffsets).getD []

/-- What an acknowledgement makes of a position and of the offsets pending. -/
def acknowledge (next : Nat) (pending : List Nat) (offset : Nat) : Nat × List Nat :=
  if offset < next then (next, pending) else drainAckedOffsets next (pending ++ [offset])

@[simp] lemma nextOffset_normalize (state : ConsumerOffsetState) :
    (normalizeConsumerOffsetState state).nextOffset = state.nextOffset := by
  unfold normalizeConsumerOffsetState
  split <;> rfl

/-- What is stored of an acknowledgement, if there was nothing left to drain. -/
lemma acknowledge_marks {next : Nat} (hready : next ∉ pending)
    (hnext : state.nextOffset = (acknowledge next pending offset).1)
    (hpending : state.pendingOffsets = (acknowledge next pending offset).2) :
    Marks next (insert offset {n | n ∈ pending})
      (normalizeConsumerOffsetState state).nextOffset
      (normalizeConsumerOffsetState state).pendingOffsets := by
  rw [nextOffset_normalize]
  unfold acknowledge at hnext hpending
  by_cases hbelow : offset < next
  · -- nothing is added, and what was there is put in order when it is saved
    rw [if_pos hbelow] at hnext hpending
    obtain ⟨hpairwise, hmem⟩ := pendingOffsets_normalize state
    rw [hnext]
    apply Marks.insert_below _ hbelow
    apply Marks.of_not_mem hready _ hpairwise
    intro n
    rw [hmem, hpending, hnext]
    refine and_congr_right fun hn => ⟨fun hle => hle.lt_of_ne fun heq => ?_, fun hlt => hlt.le⟩
    dsimp only at heq
    exact hready (heq ▸ hn)
  · rw [if_neg hbelow] at hnext hpending
    have hdrain := drainAckedOffsets_marks next (pending ++ [offset])
    rw [← hnext, ← hpending] at hdrain
    have hset : {n | n ∈ pending ++ [offset]} = insert offset {n | n ∈ pending} := by
      ext n
      simp [or_comm]
    rw [normalize_of_increasing hdrain.increasing fun n hn => ((hdrain.mem_iff n).mp hn).2.le, ← hset]
    exact hdrain

lemma exec_advanceAckedOffsets (cfg : Config) (hinv : WorldInv w) (consumer : String)
    (tp : TopicPartition) (offset : Nat) {start : Nat} (hstart : w.logStart cfg tp = some start) :
    ∃ cache, exec step (advanceAckedOffsets cfg consumer tp offset) w
      = (.ok (acknowledge (position (w.offsetState consumer tp) start)
          (pendingOf (w.offsetState consumer tp)) offset), { w with placementCache := cache }) := by
  obtain ⟨r, cache, -, hrun, hr⟩ := exec_read cfg hinv tp (.partitionOffsets tp) rfl (fun _ _ => rfl)
    (Error.wrap (if cfg.sharded then "load sharded message partition offsets"
      else "load message partition offsets"))
  obtain ⟨offsets, rfl, rfl⟩ : ∃ offsets, r = .ok offsets ∧ offsets.logStartOffset = start := by
    unfold World.logStart at hstart
    split at hstart
    · cases hstart
    · next log hlog =>
      rw [hlog] at hr
      obtain ⟨offsets, hoffsets, hlogStart⟩ := Option.map_eq_some_iff.mp hstart
      exact ⟨offsets, Except.toOption_eq_some.mp (hr.trans hoffsets), hlogStart⟩
  have hoffsets : exec step (wrapBroker "load partition offsets for ack"
      (MessageRuntime.partitionOffsets cfg tp)) w = (.ok offsets, { w with placementCache := cache }) := by
    rw [exec_wrapBroker]
    have hexec : exec step (MessageRuntime.partitionOffsets cfg tp) w = _ := hrun
    rw [hexec]
    rfl
  have hload : exec step (wrapBroker "load consumer offset for ack"
      (onMeta (.loadConsumerOffsetState consumer tp))) { w with placementCache := cache }
        = (.ok (w.offsetState consumer tp), { w with placementCache := cache }) := rfl
  refine ⟨cache, ?_⟩
  unfold advanceAckedOffsets
  refine (exec_bind_ok step hoffsets).trans ((exec_bind_ok step hload).trans ?_)
  cases w.offsetState consumer tp with
  | none | some state =>
    dsimp only
    rw [← apply_ite pure]
    rfl

lemma exec_orNowMS (updatedAtMS : Nat) (w : World) :
    ∃ time env, exec step (orNowMS updatedAtMS) w = (.ok time, { w with env := env }) := by
  unfold orNowMS
  split
  · exact ⟨w.env.clock 0, w.env.dropClock 1, rfl⟩
  · exact ⟨updatedAtMS, w.env, rfl⟩

/-- The world with an offset put into its table. -/
def World.withOffset (w : World) (state : ConsumerOffsetState) : World :=
  { w with metadata := { w.metadata with
      offsets := w.metadata.offsets.insert (offsetKey state.consumer state.topicPartition)
        state.nextOffset
      offsetStates := w.metadata.offsetStates.insert (offsetKey state.consumer state.topicPartition)
        state } }

lemma offsetState_withOffset (w : World) (state : ConsumerOffsetState) (consumer : String)
    (tp : TopicPartition) :
    (w.withOffset state).offsetState consumer tp =
      if offsetKey state.consumer state.topicPartition = offsetKey consumer tp then some state
      else w.offsetState consumer tp := by
  unfold World.withOffset World.offsetState loadConsumerOffsetState
  dsimp only
  rw [Map.get_insert, Map.get_insert]
  split_ifs <;> rfl

lemma key_normalize (state : ConsumerOffsetState) :
    (normalizeConsumerOffsetState state).consumer = state.consumer ∧
      (normalizeConsumerOffsetState state).topic = state.topic ∧
      (normalizeConsumerOffsetState state).topicPartition = state.topicPartition := by
  unfold normalizeConsumerOffsetState
  split <;> exact ⟨rfl, rfl, rfl⟩

/-- A save is refused by the names alone. -/
lemma saveConsumerOffsetState_eq (state : ConsumerOffsetState) (w : World) :
    w.metadata.saveConsumerOffsetState state = (validateConsumerState state.consumer state.topic).map fun _ =>
      (w.withOffset (normalizeConsumerOffsetState state)).metadata := by
  obtain ⟨hconsumer, htopic, -⟩ := key_normalize state
  rw [← hconsumer, ← htopic]
  unfold saveConsumerOffsetState
  dsimp only
  cases validateConsumerState _ _ <;> rfl

lemma exec_saveOffset (context : String) (state : ConsumerOffsetState) (w : World) :
    exec step (wrapBroker context (onMeta (.saveConsumerOffsetState state))) w =
      match validateConsumerState state.consumer state.topic with
      | .ok () => (.ok (), w.withOffset (normalizeConsumerOffsetState state))
      | .error err => (.error (err.wrap context), w) := by
  change (((MetaOp.saveConsumerOffsetState state).run w.metadata).1.mapError _,
    { w with metadata := ((MetaOp.saveConsumerOffsetState state).run w.metadata).2 }) = _
  simp only [MetaOp.run, saveConsumerOffsetState_eq]
  cases validateConsumerState state.consumer state.topic <;> rfl

/-- A save that is not refused stores the state, put in order. -/
lemma offsetState_save {w' : World} {context : String}
    (h : exec step (wrapBroker context (onMeta (.saveConsumerOffsetState state))) w = (.ok (), w')) :
    w'.offsetState state.consumer state.topicPartition
      = some (normalizeConsumerOffsetState state) := by
  obtain ⟨hconsumer, -, htp⟩ := key_normalize state
  rw [exec_saveOffset] at h
  split at h
  · cases h
    rw [offsetState_withOffset, hconsumer, htp, if_pos rfl]
  · cases h

/-- What an acknowledgement stores. -/
lemma applyAckOffset_stores (cfg : Config) {w' : World} (hinv : WorldInv w)
    {req : CommitOffsetCommand} {start : Nat}
    (hstart : w.logStart cfg req.topicPartition = some start)
    (hrun : exec step (applyAckOffset cfg req offset) w = (.ok (), w')) :
    ∃ state : ConsumerOffsetState, w'.offsetState req.consumer req.topicPartition
        = some (normalizeConsumerOffsetState state) ∧ (state.nextOffset, state.pendingOffsets)
        = acknowledge (position (w.offsetState req.consumer req.topicPartition) start)
          (pendingOf (w.offsetState req.consumer req.topicPartition)) offset := by
  obtain ⟨cache, hadvance⟩ :=
    exec_advanceAckedOffsets cfg hinv req.consumer req.topicPartition offset hstart
  generalize acknowledge _ _ offset = acknowledged at hadvance ⊢
  obtain ⟨time, env, htime⟩ := exec_orNowMS req.updatedAtMS { w with placementCache := cache }
  unfold applyAckOffset at hrun
  rw [exec_bind_ok step hadvance, exec_bind_ok step htime] at hrun
  have hstored := offsetState_save hrun
  exact ⟨_, hstored, rfl⟩

/-! ## Acknowledgements in any order -/

/-- The consumer has acknowledged these offsets one after the other. What else happens leaves its
offset alone, and the log starts at `start` whenever an acknowledgement comes. -/
inductive Acked (cfg : Config) (consumer : String) (tp : TopicPartition) (start : Nat) (w0 : World) :
    List Nat → World → Prop
  | none : Acked cfg consumer tp start w0 [] w0
  | ack {offsets : List Nat} {w w' : World} {req : CommitOffsetCommand} {offset : Nat} {reply : Reply}
      (hrun : Acked cfg consumer tp start w0 offsets w) (hconsumer : req.consumer = consumer)
      (htp : req.topicPartition = tp) (hoffset : req.ackOffset = some offset)
      (hstart : w.logStart cfg tp = some start)
      (hack : applyCommand cfg (.commitOffset req) w = (.ok reply, w')) :
      Acked cfg consumer tp start w0 (offsets ++ [offset]) w'
  | other {offsets : List Nat} {w w' : World} (hrun : Acked cfg consumer tp start w0 offsets w)
      (hinv : WorldInv w') (hsame : w'.offsetState consumer tp = w.offsetState consumer tp) :
      Acked cfg consumer tp start w0 offsets w'

/-- The command of an acknowledgement. -/
lemma exec_of_commitOffset {cfg : Config} {w' : World} {req : CommitOffsetCommand} {reply : Reply}
    (hoffset : req.ackOffset = some offset)
    (h : applyCommand cfg (.commitOffset req) w = (.ok reply, w')) :
    exec step (applyAckOffset cfg req offset) w = (.ok (), w') := by
  have happly : applyCommitOffset cfg req = applyAckOffset cfg req offset := by
    unfold applyCommitOffset
    rw [hoffset]
  have hexec : exec step (replyWith (fun _ => Reply.done) (applyAckOffset cfg req offset)) w
      = (.ok reply, w') := happly ▸ h
  unfold replyWith at hexec
  rw [exec_bind] at hexec
  split at hexec
  · next value w1 hrun =>
    cases hexec
    exact hrun
  · cases hexec

section
variable {cfg : Config} {consumer : String} {tp : TopicPartition} {start : Nat} {w0 w : World}
  {offsets : List Nat}

lemma Acked.inv (h : Acked cfg consumer tp start w0 offsets w) (hinv : WorldInv w0) : WorldInv w := by
  induction h with
  | none => exact hinv
  | @ack offsets w w' req offset reply hrun hconsumer htp hoffset hstart hack ih =>
    have hafter : WorldInv (applyCommand cfg (.commitOffset req) w).2 :=
      ih.activity cfg (.command (.commitOffset req))
    rw [hack] at hafter
    exact hafter
  | other hrun hinv hsame ih => exact hinv

/-- What is stored after some acknowledgements is the watermark of them and of what was pending. -/
lemma Acked.marks (h : Acked cfg consumer tp start w0 offsets w) (hinv : WorldInv w0)
    (hready : position (w0.offsetState consumer tp) start ∉ pendingOf (w0.offsetState consumer tp)) :
    (offsets = [] ∧ w.offsetState consumer tp = w0.offsetState consumer tp) ∨
      ∃ state, w.offsetState consumer tp = some state ∧
        Marks (position (w0.offsetState consumer tp) start)
          {n | n ∈ pendingOf (w0.offsetState consumer tp) ∨ n ∈ offsets}
          state.nextOffset state.pendingOffsets := by
  induction h with
  | none => exact .inl ⟨rfl, rfl⟩
  | other hrun hinv' hsame ih =>
    rw [hsame]
    exact ih
  | @ack offsets w w' req offset reply hrun hconsumer htp hoffset hstart hack ih =>
    subst hconsumer htp
    have hworld := hrun.inv hinv
    obtain ⟨state, hstored, hstate⟩ :=
      applyAckOffset_stores cfg hworld hstart (exec_of_commitOffset hoffset hack)
    rw [Prod.ext_iff] at hstate
    right
    refine ⟨_, hstored, ?_⟩
    have hset : ∀ l : List Nat, {n | n ∈ l ∨ n ∈ offsets ++ [offset]}
        = insert offset {n | n ∈ l ∨ n ∈ offsets} := by
      intro l
      ext n
      simp
      tauto
    rw [hset]
    rcases ih with ⟨rfl, hsame⟩ | ⟨before, hbefore, hmarks⟩
    · rw [hsame] at hstate
      have hfirst := acknowledge_marks hready hstate.1 hstate.2
      simpa using hfirst
    · -- the position is the watermark: the log does not start above it
      have hposition : position (some before) start = before.nextOffset := by
        have hle : position (w0.offsetState req.consumer req.topicPartition) start ≤ before.nextOffset :=
          hmarks.least.1.1
        have hstart' : start ≤ position (w0.offsetState req.consumer req.topicPartition) start := by
          unfold position
          split
          · exact le_max_right _ _
          · exact le_rfl
        exact max_eq_left (by omega)
      rw [hbefore, hposition] at hstate
      have hnotin : before.nextOffset ∉ before.pendingOffsets := by
        intro hin
        exact absurd ((hmarks.mem_iff _).mp hin).2 (lt_irrefl _)
      exact hmarks.insert_above (acknowledge_marks hnotin hstate.1 hstate.2)

/-- **Acknowledgements form a watermark.** After any acknowledgements of a consumer, the stored offset
is the first one from its position on that it has not acknowledged, and the pending ones are the
acknowledged offsets above, in order. Other acknowledgements of the same offsets store the same. -/
theorem acks_mark (hinv : WorldInv w0)
    (hready : position (w0.offsetState consumer tp) start ∉ pendingOf (w0.offsetState consumer tp))
    (h : Acked cfg consumer tp start w0 offsets w) (hne : offsets ≠ []) :
    ∃ state, w.offsetState consumer tp = some state ∧
      Marks (position (w0.offsetState consumer tp) start)
        {n | n ∈ pendingOf (w0.offsetState consumer tp) ∨ n ∈ offsets}
        state.nextOffset state.pendingOffsets ∧
      ∀ offsets' w', Acked cfg consumer tp start w0 offsets' w' → (∀ n, n ∈ offsets' ↔ n ∈ offsets) →
        ∃ state', w'.offsetState consumer tp = some state' ∧
          state'.nextOffset = state.nextOffset ∧ state'.pendingOffsets = state.pendingOffsets := by
  rcases h.marks hinv hready with ⟨hnil, -⟩ | ⟨state, hstate, hmarks⟩
  · exact absurd hnil hne
  · refine ⟨state, hstate, hmarks, fun offsets' w' h' hsame => ?_⟩
    rcases h'.marks hinv hready with ⟨rfl, -⟩ | ⟨state', hstate', hmarks'⟩
    · obtain ⟨n, hn⟩ := List.exists_mem_of_ne_nil offsets hne
      exact absurd ((hsame n).mpr hn) List.not_mem_nil
    · have hset : ∀ n, n ∈ offsets' ↔ n ∈ offsets := hsame
      simp only [hset] at hmarks'
      exact ⟨state', hstate', hmarks'.unique hmarks⟩

end

/-- An acknowledgement of a record of the first partition. -/
def ackOrder (offset : Nat) : CommitOffsetCommand :=
  { consumer := "billing", topic := "orders", partition := 0, nextOffset := offset + 1,
    ackOffset := some offset, updatedAtMS := 5 }

/-- A broker with an empty topic. -/
def ordersWorld : World := applyCommands {} [.createTopic (newTopicConfig "orders")] (World.fresh {} stillEnv)

lemma acked_ackOrder {w0 : World} {offsets : List Nat} (offset : Nat)
    (hrun : Acked {} "billing" ⟨"orders", 0⟩ 0 w0 offsets w)
    (hstart : w.logStart {} ⟨"orders", 0⟩ = some 0)
    (hok : (applyCommand {} (.commitOffset (ackOrder offset)) w).1 = .ok .done) :
    Acked {} "billing" ⟨"orders", 0⟩ 0 w0 (offsets ++ [offset])
      (applyCommands {} [.commitOffset (ackOrder offset)] w) :=
  hrun.ack rfl rfl rfl hstart (Prod.ext hok rfl)

/-- The third, the first and again the third record are acknowledged: the second is missing. -/
theorem acks_mark_gap :
    let w := applyCommands {} ([ackOrder 2, ackOrder 0, ackOrder 2].map .commitOffset) ordersWorld
    ∃ state, w.offsetState "billing" ⟨"orders", 0⟩ = some state ∧
      Marks 0 {n | n ∈ ([] : List Nat) ∨ n ∈ [2, 0, 2]} state.nextOffset state.pendingOffsets ∧
      state.nextOffset = 1 ∧ state.pendingOffsets = [2] := by
  intro w
  have hinv : WorldInv ordersWorld :=
    (WorldInv.fresh {} stillEnv).activity {} (.command (.createTopic (newTopicConfig "orders")))
  have hstart : Acked {} "billing" ⟨"orders", 0⟩ 0 ordersWorld [] ordersWorld := .none
  have hfirst := acked_ackOrder 2 hstart (by decide +kernel) (by decide +kernel)
  have hsecond := acked_ackOrder 0 hfirst (by decide +kernel) (by decide +kernel)
  have hthird := acked_ackOrder 2 hsecond (by decide +kernel) (by decide +kernel)
  obtain ⟨state, hstate, hmarks, -⟩ := acks_mark hinv (by decide +kernel) hthird (by simp)
  have hnone : ordersWorld.offsetState "billing" ⟨"orders", 0⟩ = none := by decide +kernel
  rw [hnone] at hmarks
  have hstored : (w.offsetState "billing" ⟨"orders", 0⟩).map
      (fun state => (state.nextOffset, state.pendingOffsets)) = some (1, [2]) := by decide +kernel
  have hw : w.offsetState "billing" ⟨"orders", 0⟩ = some state := hstate
  rw [hw] at hstored
  exact ⟨state, hw, hmarks, Prod.ext_iff.mp (Option.some.inj hstored)⟩

end Ech0.Broker
