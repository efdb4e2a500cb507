/-
  Batchers: the works of many callers, taken together by one runner.

  A caller appends its work to a queue and waits for an answer on a channel of its own; a caller that
  finds no runner running starts one. The runner takes all that waits, answers the works whose
  context is done, proposes the others as one batch and hands each its part of the outcome. It stops
  once nothing waits. Callers and runners take their steps in any order, contexts end at any time,
  and what a proposal answers is open.

  In every reachable state there is at most one runner, and one as long as a work waits; every work
  is in one place (`Inv.account`), and what it is sent belongs to it (`Computed`).
-/
import Mathlib

set_option autoImplicit false

namespace Ech0.Lib.Batcher

open List

variable {id : Nat} {ρ ω κ τ : Type}

/-! ## The model -/

/-- How a batcher answers: a work whose context is done, for a cause, and the works of a batch, from
the outcome of its proposal. -/
structure Kind (ω κ τ : Type) where
  late : κ → τ
  results : ω → Nat → List τ
  length_results : ∀ outcome count, (results outcome count).length = count

structure Work (ρ : Type) where
  id : Nat
  req : ρ

/-- Where a caller is: it owes the start of a runner, it waits, or it has returned. -/
inductive Stage (τ : Type) where
  | starting
  | waiting
  | returned (result : τ)

/-- A call, with the error of its context and what its channel, of capacity one, holds. -/
structure Call (ρ κ τ : Type) where
  req : ρ
  stage : Stage τ
  done : Option κ := none
  channel : List τ := []

/-- Where a runner is. -/
inductive Phase (ρ τ : Type) where
  | coalescing
  | checking (rest active : List (Work ρ))
  | proposing (active : List (Work ρ))
  | sending (left : List (Work ρ × τ))
  | finishing

structure Proposal (ρ ω : Type) where
  works : List (Work ρ)
  outcome : ω

/-- The queue, the callers and the runners; and what was drained, proposed and sent so far. -/
structure State (ρ ω κ τ : Type) where
  running : Bool := false
  pending : List (Work ρ) := []
  calls : List (Call ρ κ τ) := []
  runners : List (Phase ρ τ) := []
  drained : List (Work ρ) := []
  proposals : List (Proposal ρ ω) := []
  sent : List (Nat × τ) := []

namespace State

/-- The next work takes the next number. If no runner runs, the caller has to start one. -/
def enqueue (s : State ρ ω κ τ) (req : ρ) : State ρ ω κ τ :=
  { s with
    pending := s.pending ++ [⟨s.calls.length, req⟩]
    running := true
    calls := s.calls ++ [{ req := req, stage := if s.running then .waiting else .starting }] }

/-- All that waits, taken out of the queue. -/
def drain (s : State ρ ω κ τ) : List (Work ρ) × State ρ ω κ τ :=
  (s.pending, { s with pending := [], drained := s.drained ++ s.pending })

def finishIfIdle (s : State ρ ω κ τ) : Bool × State ρ ω κ τ :=
  if s.pending = [] then (true, { s with running := false }) else (false, s)

def send (s : State ρ ω κ τ) (id : Nat) (result : τ) : State ρ ω κ τ :=
  { s with
    calls := s.calls.modify id fun call => { call with channel := call.channel ++ [result] }
    sent := s.sent ++ [(id, result)] }

/-- A send to the call would not block. -/
def free (s : State ρ ω κ τ) (id : Nat) : Prop := ∀ call ∈ s.calls[id]?, call.channel.length < 1

instance (s : State ρ ω κ τ) (id : Nat) : Decidable (s.free id) := by
  unfold free; infer_instance

def doneOf (s : State ρ ω κ τ) (id : Nat) : Option κ := s.calls[id]?.bind Call.done

end State

/-- One step of a runner that is at this point; `none` is where it goes when it returns. A runner
that would block on a send stays where it is. -/
def runPhase (kind : Kind ω κ τ) (outcome : ω) (s : State ρ ω κ τ) :
    Phase ρ τ → State ρ ω κ τ × Option (Phase ρ τ)
  | .coalescing =>
    let (works, s) := s.drain
    (s, some (if works.isEmpty then .finishing else .checking works []))
  | .checking [] active => (s, some (if active.isEmpty then .finishing else .proposing active))
  | .checking (work :: rest) active =>
    match s.doneOf work.id with
    | none => (s, some (.checking rest (active ++ [work])))
    | some cause =>
      if s.free work.id then (s.send work.id (kind.late cause), some (.checking rest active))
      else (s, some (.checking (work :: rest) active))
  | .proposing active =>
    ({ s with proposals := s.proposals ++ [⟨active, outcome⟩] },
      some (.sending (active.zip (kind.results outcome active.length))))
  | .sending [] => (s, some .finishing)
  | .sending ((work, result) :: left) =>
    if s.free work.id then (s.send work.id result, some (.sending left))
    else (s, some (.sending ((work, result) :: left)))
  | .finishing =>
    let (idle, s) := s.finishIfIdle
    (s, if idle then none else some .coalescing)

/-- What can happen: a call; a caller starts the runner it owes; a context ends; a caller takes its
answer, or leaves because its context is done; a runner takes a step. -/
inductive Action (ρ ω κ : Type) where
  | call (req : ρ)
  | go (id : Nat)
  | cancel (id : Nat) (cause : κ)
  | receive (id : Nat)
  | leave (id : Nat)
  | advance (runner : Nat) (outcome : ω)

def Call.isStarting (call : Call ρ κ τ) : Bool :=
  match call.stage with
  | .starting => true
  | _ => false

/-- The caller has yet to start a runner. -/
def State.owes (s : State ρ ω κ τ) (id : Nat) : Bool := s.calls[id]?.any Call.isStarting

/-- The caller has started the runner. -/
def Call.start (call : Call ρ κ τ) : Call ρ κ τ := { call with stage := .waiting }

/-- The caller takes an answer that is there. -/
def Call.receive (call : Call ρ κ τ) : Call ρ κ τ :=
  match call.stage, call.channel with
  | .waiting, result :: rest => { call with stage := .returned result, channel := rest }
  | _, _ => call

/-- The caller gives up. -/
def Call.leave (kind : Kind ω κ τ) (call : Call ρ κ τ) : Call ρ κ τ :=
  match call.stage, call.done with
  | .waiting, some cause => { call with stage := .returned (kind.late cause) }
  | _, _ => call

/-- The first cause is kept. -/
def Call.cancel (cause : κ) (call : Call ρ κ τ) : Call ρ κ τ :=
  { call with done := some (call.done.getD cause) }

/-- What an action does; where it cannot be taken, nothing happens. -/
def step (kind : Kind ω κ τ) (s : State ρ ω κ τ) : Action ρ ω κ → State ρ ω κ τ
  | .call req => s.enqueue req
  | .go id =>
    if s.owes id then
      { s with calls := s.calls.modify id Call.start, runners := s.runners ++ [.coalescing] }
    else s
  | .cancel id cause => { s with calls := s.calls.modify id (Call.cancel cause) }
  | .receive id => { s with calls := s.calls.modify id Call.receive }
  | .leave id => { s with calls := s.calls.modify id (Call.leave kind) }
  | .advance runner outcome =>
    match s.runners[runner]? with
    | none => s
    | some phase =>
      let (s, next) := runPhase kind outcome s phase
      match next with
      | none => { s with runners := s.runners.eraseIdx runner }
      | some phase => { s with runners := s.runners.set runner phase }

/-- The states that some sequence of actions leads to. -/
def Reachable (kind : Kind ω κ τ) (s : State ρ ω κ τ) : Prop :=
  ∃ actions : List (Action ρ ω κ), s = actions.foldl (step kind) {}

/-! ## What holds in every state -/

def ids (works : List (Work ρ)) : List Nat := works.map Work.id

@[simp] lemma ids_nil : ids ([] : List (Work ρ)) = [] := rfl
@[simp] lemma ids_cons (work : Work ρ) (rest : List (Work ρ)) :
    ids (work :: rest) = work.id :: ids rest := rfl
@[simp] lemma ids_append (xs ys : List (Work ρ)) : ids (xs ++ ys) = ids xs ++ ids ys :=
  map_append

/-- The works in a runner's hands, that is, drained and not yet answered. -/
def Phase.works : Phase ρ τ → List (Work ρ)
  | .coalescing => []
  | .checking rest active => rest ++ active
  | .proposing active => active
  | .sending left => left.map Prod.fst
  | .finishing => []

/-- The answers a runner is about to send. -/
def Phase.answers : Phase ρ τ → List (Nat × τ)
  | .sending left => left.map fun e => (e.1.id, e.2)
  | _ => []

def State.held (s : State ρ ω κ τ) : List (Work ρ) := s.runners.flatMap Phase.works

/-- An answer that belongs to the call: the error of its own context, or its part of the outcome of
a proposal that has its request. -/
def Computed (kind : Kind ω κ τ) (s : State ρ ω κ τ) (id : Nat) (result : τ) : Prop :=
  ∃ call : Call ρ κ τ, s.calls[id]? = some call ∧
    ((∃ cause, call.done = some cause ∧ result = kind.late cause) ∨
    ∃ proposal ∈ s.proposals, ∃ index : Nat, proposal.works[index]? = some (⟨id, call.req⟩ : Work ρ) ∧
      (kind.results proposal.outcome proposal.works.length)[index]? = some result)

/-- What a caller may have returned, given what was sent to it. -/
def Call.Returns (kind : Kind ω κ τ) (call : Call ρ κ τ) (sent : List τ) : Prop :=
  ∀ result, call.stage = .returned result →
    result ∈ sent ∨ ∃ cause, call.done = some cause ∧ result = kind.late cause

/-- What was sent to a call. -/
def State.sentTo (s : State ρ ω κ τ) (id : Nat) : List τ :=
  (s.sent.filter fun e => e.1 = id).map Prod.snd

structure Inv (kind : Kind ω κ τ) (s : State ρ ω κ τ) : Prop where
  /-- A runner, or a caller that is about to start one, for the flag. -/
  token : s.runners.length + s.calls.countP Call.isStarting = if s.running then 1 else 0
  woken : s.pending ≠ [] → s.running = true
  /-- Every work waits, or is in a runner's hands, or has been answered. -/
  account : ∀ id, (ids s.pending).count id + (ids s.held).count id
    + (s.sent.map Prod.fst).count id = if id < s.calls.length then 1 else 0
  /-- Every work waits or has been drained. -/
  drained : ∀ id, (ids s.pending).count id + (ids s.drained).count id
    = if id < s.calls.length then 1 else 0
  own : ∀ work ∈ s.pending ++ s.held, ∃ call : Call ρ κ τ, s.calls[work.id]? = some call ∧ call.req = work.req
  computed : ∀ e ∈ s.sent ++ s.runners.flatMap Phase.answers, Computed kind s e.1 e.2
  channel : ∀ (id : Nat) (call : Call ρ κ τ), s.calls[id]? = some call → call.channel ⊆ s.sentTo id
  returns : ∀ (id : Nat) (call : Call ρ κ τ), s.calls[id]? = some call → call.Returns kind (s.sentTo id)

variable {kind : Kind ω κ τ} {s s' : State ρ ω κ τ}

lemma inv_empty (kind : Kind ω κ τ) : Inv kind ({} : State ρ ω κ τ) where
  token := rfl
  woken h := absurd rfl h
  account id := by simp [State.held]
  drained id := by simp
  own work h := by simp [State.held] at h
  computed e h := by simp at h
  channel id call h := by simp at h
  returns id call h := by simp at h

/-! ## Callers -/

/-- The calls that were there are still there, with their requests and the errors of their contexts;
and so are the proposals. -/
structure Kept (s s' : State ρ ω κ τ) : Prop where
  call : ∀ (id : Nat) (call : Call ρ κ τ), s.calls[id]? = some call →
    ∃ call' : Call ρ κ τ, s'.calls[id]? = some call' ∧ call'.req = call.req ∧
      ∀ cause, call.done = some cause → call'.done = some cause
  proposals : s.proposals ⊆ s'.proposals

lemma Kept.of_calls (hcalls : s'.calls = s.calls) (hproposals : s.proposals ⊆ s'.proposals) : Kept s s' :=
  ⟨fun _ call hcall => ⟨call, hcalls ▸ hcall, rfl, fun _ h => h⟩, hproposals⟩

lemma Kept.own (hkept : Kept s s') {work : Work ρ}
    (h : ∃ call : Call ρ κ τ, s.calls[work.id]? = some call ∧ call.req = work.req) :
    ∃ call : Call ρ κ τ, s'.calls[work.id]? = some call ∧ call.req = work.req := by
  obtain ⟨call, hcall, hreq⟩ := h
  obtain ⟨call', hcall', hreq', -⟩ := hkept.call work.id call hcall
  exact ⟨call', hcall', hreq'.trans hreq⟩

lemma Computed.mono (hkept : Kept s s') {result : τ} (h : Computed kind s id result) :
    Computed kind s' id result := by
  obtain ⟨call, hcall, hresult⟩ := h
  obtain ⟨call', hcall', hreq, hdone⟩ := hkept.call id call hcall
  refine ⟨call', hcall', ?_⟩
  rcases hresult with ⟨cause, hcause, rfl⟩ | ⟨proposal, hmem, index, hindex, hresult⟩
  · exact .inl ⟨cause, hdone cause hcause, rfl⟩
  · exact .inr ⟨proposal, hkept.proposals hmem, index, hreq ▸ hindex, hresult⟩

/-- What a change of one call may do to it: its request and the error of its context stay, its
channel only loses, and what it returns it was sent. -/
structure Harmless (kind : Kind ω κ τ) (f : Call ρ κ τ → Call ρ κ τ) : Prop where
  req : ∀ call, (f call).req = call.req
  done : ∀ call cause, call.done = some cause → (f call).done = some cause
  channel : ∀ call, (f call).channel ⊆ call.channel
  returns : ∀ call sent, call.channel ⊆ sent → call.Returns kind sent → (f call).Returns kind sent

variable {calls : List (Call ρ κ τ)} {f : Call ρ κ τ → Call ρ κ τ} {call : Call ρ κ τ}

lemma getElem?_modify_some {i : Nat} (h : (calls.modify id f)[i]? = some call) :
    ∃ before, calls[i]? = some before ∧ call = if id = i then f before else before := by
  rw [getElem?_modify] at h
  cases hbefore : calls[i]? with
  | none => simp [hbefore] at h
  | some before => exact ⟨before, rfl, by simpa [hbefore] using h.symm⟩

lemma kept_modify (hf : Harmless kind f) (s : State ρ ω κ τ) (id : Nat) :
    Kept s { s with calls := s.calls.modify id f } where
  proposals := List.Subset.refl _
  call i call hcall := by
    refine ⟨if id = i then f call else call, ?_, ?_, ?_⟩
    · simp [getElem?_modify, hcall]
    · split
      · exact hf.req call
      · rfl
    · intro cause hcause
      split
      · exact hf.done call cause hcause
      · exact hcause

lemma countP_modify (hcall : calls[id]? = some call) (p : Call ρ κ τ → Bool) :
    (calls.modify id f).countP p + (if p call then 1 else 0)
      = calls.countP p + if p (f call) then 1 else 0 := by
  induction calls generalizing id with
  | nil => simp at hcall
  | cons first rest ih =>
    cases id with
    | zero =>
      obtain rfl : first = call := by simpa using hcall
      simp only [modify_zero_cons, countP_cons]
      omega
    | succ id =>
      have := ih (by simpa using hcall)
      simp only [modify_succ_cons, countP_cons]
      omega

lemma countP_modify_eq (calls : List (Call ρ κ τ)) (id : Nat)
    {p : Call ρ κ τ → Bool} (hp : ∀ call, p (f call) = p call) :
    (calls.modify id f).countP p = calls.countP p := by
  cases hcall : calls[id]? with
  | none =>
    rw [modify_eq_self (List.getElem?_eq_none_iff.1 hcall)]
  | some call =>
    have := countP_modify hcall p (f := f)
    rw [hp] at this
    omega

/-- The caller that owes a runner starts it. -/
lemma countP_start (howes : s.owes id = true) :
    (s.calls.modify id Call.start).countP Call.isStarting + 1 = s.calls.countP Call.isStarting := by
  obtain ⟨call, hcall, hstarting⟩ : ∃ call : Call ρ κ τ, s.calls[id]? = some call ∧ call.isStarting = true := by
    simpa [State.owes, Option.any_eq_true] using howes
  have hcount := countP_modify hcall Call.isStarting (f := Call.start)
  rwa [if_pos hstarting, if_neg (by simp [Call.start, Call.isStarting])] at hcount

/-- A change of one call that leaves the queue alone, and the flag in step with the runners. -/
lemma Inv.modify (h : Inv kind s) (id : Nat) (hf : Harmless kind f)
    {runners : List (Phase ρ τ)}
    (hworks : runners.flatMap Phase.works = s.runners.flatMap Phase.works)
    (hanswers : runners.flatMap Phase.answers = s.runners.flatMap Phase.answers)
    (htoken : runners.length + (s.calls.modify id f).countP Call.isStarting
      = s.runners.length + s.calls.countP Call.isStarting) :
    Inv kind { s with calls := s.calls.modify id f, runners := runners } where
  token := htoken.trans h.token
  woken := h.woken
  account i := by
    rw [length_modify]
    simpa only [State.held, hworks] using h.account i
  drained i := by
    rw [length_modify]
    exact h.drained i
  own work hmem := by
    simp only [State.held, hworks] at hmem
    exact (kept_modify hf s id).own (h.own work hmem)
  computed e hmem := by
    simp only [hanswers] at hmem
    have hkept := kept_modify hf s id
    exact (h.computed e hmem).mono ⟨hkept.call, hkept.proposals⟩
  channel i call hcall := by
    obtain ⟨before, hbefore, rfl⟩ := getElem?_modify_some hcall
    have hsent := h.channel i before hbefore
    split
    · exact List.Subset.trans (hf.channel before) hsent
    · exact hsent
  returns i call hcall := by
    obtain ⟨before, hbefore, rfl⟩ := getElem?_modify_some hcall
    have hreturns := h.returns i before hbefore
    split
    · exact hf.returns before _ (h.channel i before hbefore) hreturns
    · exact hreturns

lemma harmless_cancel (kind : Kind ω κ τ) (cause : κ) :
    Harmless kind (Call.cancel cause : Call ρ κ τ → Call ρ κ τ) where
  req _ := rfl
  done call found hfound := by simp [Call.cancel, hfound]
  channel _ := List.Subset.refl _
  returns call sent _ hreturns result hresult := by
    rcases hreturns result hresult with hsent | ⟨found, hfound, rfl⟩
    · exact .inl hsent
    · exact .inr ⟨found, by simp [Call.cancel, hfound], rfl⟩

lemma harmless_start (kind : Kind ω κ τ) :
    Harmless kind (Call.start : Call ρ κ τ → Call ρ κ τ) where
  req _ := rfl
  done _ _ h := h
  channel _ := List.Subset.refl _
  returns call sent _ _ result hresult := by simp [Call.start] at hresult

lemma isStarting_receive (call : Call ρ κ τ) : call.receive.isStarting = call.isStarting := by
  unfold Call.receive
  split
  · next hstage _ => simp [Call.isStarting, hstage]
  · rfl

lemma isStarting_leave (kind : Kind ω κ τ) (call : Call ρ κ τ) :
    (call.leave kind).isStarting = call.isStarting := by
  unfold Call.leave
  split
  · next hstage _ => simp [Call.isStarting, hstage]
  · rfl

lemma harmless_receive (kind : Kind ω κ τ) :
    Harmless kind (Call.receive : Call ρ κ τ → Call ρ κ τ) where
  req call := by unfold Call.receive; split <;> rfl
  done call cause h := by unfold Call.receive; split <;> exact h
  channel call := by
    unfold Call.receive
    split
    · next hchannel =>
      rw [hchannel]
      exact subset_cons_self _ _
    · exact List.Subset.refl _
  returns call sent hchannel hreturns result hresult := by
    unfold Call.receive at hresult ⊢
    split at hresult
    · next first rest hstage hfirst =>
      obtain rfl : first = result := by simpa using hresult
      exact .inl (hchannel (by rw [hfirst]; exact mem_cons_self))
    · exact hreturns result hresult

lemma harmless_leave (kind : Kind ω κ τ) :
    Harmless kind (Call.leave kind : Call ρ κ τ → Call ρ κ τ) where
  req call := by unfold Call.leave; split <;> rfl
  done call cause h := by unfold Call.leave; split <;> exact h
  channel call := by unfold Call.leave; split <;> exact List.Subset.refl _
  returns call sent hchannel hreturns result hresult := by
    unfold Call.leave at hresult ⊢
    split at hresult
    · next cause hstage hdone =>
      obtain rfl : kind.late cause = result := by simpa using hresult
      exact .inr ⟨cause, by simp [hdone], rfl⟩
    · exact hreturns result hresult

lemma count_enqueue (s : State ρ ω κ τ) (req : ρ) (id : Nat) : (ids (s.enqueue req).pending).count id
    = (ids s.pending).count id + if s.calls.length = id then 1 else 0 := by
  simp [State.enqueue, count_singleton]

lemma length_enqueue (s : State ρ ω κ τ) (req : ρ) (id : Nat) :
    (if id < (s.enqueue req).calls.length then 1 else 0)
      = (if id < s.calls.length then 1 else 0) + if s.calls.length = id then 1 else 0 := by
  simp only [State.enqueue, length_append, length_singleton]
  split_ifs <;> omega

/-- A new call, at the end of the queue. -/
lemma Inv.enqueue (h : Inv kind s) (req : ρ) : Inv kind (s.enqueue req) := by
  have hkept : Kept s (s.enqueue req) := by
    refine ⟨fun id call hcall => ⟨call, ?_, rfl, fun _ h => h⟩, List.Subset.refl _⟩
    exact getElem?_append_left (List.getElem?_eq_some_iff.1 hcall).1 ▸ hcall
  have hnew : ∀ {id : Nat} {call : Call ρ κ τ}, (s.enqueue req).calls[id]? = some call →
      s.calls[id]? = some call ∨ call.channel = [] ∧ ∀ result, call.stage ≠ .returned result := by
    intro id call hcall
    rcases Nat.lt_or_ge id s.calls.length with hlt | hge
    · exact .inl (by rwa [State.enqueue, getElem?_append_left hlt] at hcall)
    · rw [State.enqueue, getElem?_append_right hge] at hcall
      cases hindex : id - s.calls.length with
      | zero =>
        obtain rfl : _ = call := by simpa [hindex] using hcall
        exact .inr ⟨rfl, fun result => by split <;> simp⟩
      | succ n => simp [hindex] at hcall
  refine ⟨?_, fun _ => rfl, ?_, ?_, ?_, ?_, ?_, ?_⟩
  · have htoken := h.token
    simp only [State.enqueue, countP_append, countP_singleton]
    cases hrunning : s.running with
    | true =>
      simp only [hrunning] at htoken
      simpa [Call.isStarting] using htoken
    | false =>
      simp only [hrunning, Bool.false_eq_true, if_false] at htoken
      simp only [Call.isStarting, Bool.false_eq_true, if_false, if_true]
      omega
  · intro id
    rw [length_enqueue, ← h.account id, count_enqueue]
    simp only [State.enqueue, State.held]
    omega
  · intro id
    rw [length_enqueue, ← h.drained id, count_enqueue]
    simp only [State.enqueue]
    omega
  · intro work hmem
    rcases mem_append.1 hmem with hpending | hheld
    · rcases mem_append.1 hpending with hold | hadded
      · exact hkept.own (h.own work (mem_append_left _ hold))
      · obtain rfl : work = ⟨s.calls.length, req⟩ := by simpa using hadded
        exact ⟨_, getElem?_concat_length, rfl⟩
    · exact hkept.own (h.own work (mem_append_right _ hheld))
  · intro e hmem
    exact (h.computed e hmem).mono hkept
  · intro id call hcall
    rcases hnew hcall with hold | ⟨hempty, -⟩
    · exact h.channel id call hold
    · rw [hempty]
      exact nil_subset _
  · intro id call hcall
    rcases hnew hcall with hold | ⟨-, hstage⟩
    · exact h.returns id call hold
    · exact fun result hresult => absurd hresult (hstage result)

/-! ## The runner -/

lemma sentTo_send (s : State ρ ω κ τ) (id i : Nat) (result : τ) :
    (s.send id result).sentTo i = s.sentTo i ++ if id = i then [result] else [] := by
  unfold State.sentTo State.send
  by_cases hid : id = i <;> simp [hid]

lemma kept_send (s : State ρ ω κ τ) (id : Nat) (result : τ) : Kept s (s.send id result) where
  proposals := List.Subset.refl _
  call i call hcall := by
    refine ⟨_, by simp [State.send, getElem?_modify, hcall]; rfl, ?_, ?_⟩
    · split <;> rfl
    · intro cause hcause
      split <;> exact hcause

/-- The works in the hands of a runner have not been answered, so a send to one does not block. -/
lemma Inv.free (h : Inv kind s) {work : Work ρ} (hheld : work ∈ s.held) : s.free work.id := by
  have hnone : (s.sent.map Prod.fst).count work.id = 0 := by
    have hone : 0 < (ids s.held).count work.id :=
      count_pos_iff.2 (mem_map_of_mem hheld)
    have := h.account work.id
    split at this <;> omega
  intro call hcall
  have hchannel := h.channel work.id call hcall
  have hsentTo : s.sentTo work.id = [] := by
    unfold State.sentTo
    rw [map_eq_nil_iff, filter_eq_nil_iff]
    intro e hmem heq
    refine count_eq_zero.1 hnone ?_
    exact of_decide_eq_true heq ▸ mem_map_of_mem hmem
  rw [hsentTo, subset_nil] at hchannel
  rw [hchannel]
  exact Nat.zero_lt_one

/-- What a work of a proposal gets, by its place. -/
lemma computed_zip {active : List (Work ρ)} {outcome : ω}
    (hown : ∀ work ∈ active, ∃ call : Call ρ κ τ, s.calls[work.id]? = some call ∧
      call.req = work.req) (hproposal : ⟨active, outcome⟩ ∈ s.proposals) {e : Work ρ × τ}
    (hmem : e ∈ active.zip (kind.results outcome active.length)) : Computed kind s e.1.id e.2 := by
  obtain ⟨index, hindex⟩ := mem_iff_getElem?.1 hmem
  obtain ⟨hwork, hresult⟩ := getElem?_zip_eq_some.1 hindex
  obtain ⟨call, hcall, hreq⟩ := hown e.1 (mem_of_getElem? hwork)
  refine ⟨call, hcall, .inr ⟨⟨active, outcome⟩, hproposal, index, ?_, hresult⟩⟩
  rw [hreq]
  exact hwork

/-- The state once the only runner has moved. -/
def State.moved (next : State ρ ω κ τ × Option (Phase ρ τ)) : State ρ ω κ τ :=
  { next.1 with runners := next.2.toList }

section
variable {phase : Phase ρ τ} (h : Inv kind s) (hrunners : s.runners = [phase])

include h hrunners

/-- A runner that moves on with the works it has. -/
lemma Inv.move (next : Phase ρ τ) (hworks : next.works.Perm phase.works)
    (more : List (Proposal ρ ω)) (hanswers : ∀ e ∈ next.answers,
      Computed kind { s with proposals := s.proposals ++ more } e.1 e.2) :
    Inv kind { s with runners := [next], proposals := s.proposals ++ more } where
  token := by simpa [hrunners] using h.token
  woken := h.woken
  account id := by
    have hcount : (ids next.works).count id = (ids phase.works).count id :=
      (hworks.map Work.id).count_eq id
    simpa [State.held, hrunners, hcount] using h.account id
  drained := h.drained
  own work hwork := by
    refine h.own work ?_
    simpa [State.held, hrunners, hworks.mem_iff] using hwork
  computed e hmem := by
    simp only [flatMap_singleton, mem_append] at hmem
    rcases hmem with hsent | hanswer
    · have hkept : Kept s { s with runners := [next], proposals := s.proposals ++ more } :=
        .of_calls rfl (subset_append_left _ _)
      exact (h.computed e (mem_append_left _ hsent)).mono hkept
    · exact hanswers e hanswer
  channel := h.channel
  returns := h.returns

/-- A runner that sends an answer to one of its works. -/
lemma Inv.sends (next : Phase ρ τ) {work : Work ρ} {result : τ}
    (hworks : phase.works.Perm (work :: next.works)) (hresult : Computed kind s work.id result)
    (hanswers : next.answers ⊆ phase.answers) :
    Inv kind { s.send work.id result with runners := [next] } where
  token := by
    have hcount : (s.send work.id result).calls.countP Call.isStarting
        = s.calls.countP Call.isStarting := countP_modify_eq _ _ fun _ => rfl
    have := h.token
    rw [hrunners] at this
    rw [hcount]
    exact this
  woken := h.woken
  account id := by
    have hcount : (ids phase.works).count id = (ids (work :: next.works)).count id :=
      (hworks.map Work.id).count_eq id
    have := h.account id
    simp only [State.held, hrunners, flatMap_singleton, hcount, ids_cons, count_cons]
      at this
    simp only [State.held, State.send, flatMap_singleton, map_append, map_cons,
      map_nil, count_append, count_singleton, length_modify]
    omega
  drained id := by
    simp only [State.send, length_modify]
    exact h.drained id
  own other hmem := by
    have hold : other ∈ s.pending ++ s.held := by
      simp only [State.held, hrunners, flatMap_singleton, mem_append] at hmem ⊢
      exact hmem.imp_right fun hnext => hworks.mem_iff.2 (mem_cons_of_mem work hnext)
    exact (kept_send s work.id result).own (h.own other hold)
  computed e hmem := by
    have hkept := kept_send s work.id result
    have hold : Computed kind s e.1 e.2 := by
      simp only [State.send, flatMap_singleton, mem_append, mem_singleton] at hmem
      rcases hmem with (hsent | rfl) | hanswer
      · exact h.computed e (mem_append_left _ hsent)
      · exact hresult
      · refine h.computed e (mem_append_right _ ?_)
        rw [hrunners, flatMap_singleton]
        exact hanswers hanswer
    exact hold.mono ⟨hkept.call, hkept.proposals⟩
  channel id call hcall := by
    change call.channel ⊆ (s.send work.id result).sentTo id
    obtain ⟨before, hbefore, rfl⟩ := getElem?_modify_some hcall
    have hchannel := h.channel id before hbefore
    rw [sentTo_send]
    split
    · exact append_subset.2 ⟨List.Subset.trans hchannel (subset_append_left _ _),
        subset_append_right _ _⟩
    · exact List.Subset.trans hchannel (subset_append_left _ _)
  returns id call hcall := by
    change call.Returns kind ((s.send work.id result).sentTo id)
    obtain ⟨before, hbefore, rfl⟩ := getElem?_modify_some hcall
    intro returned hreturned
    have hold := h.returns id before hbefore returned (by split at hreturned <;> exact hreturned)
    rw [sentTo_send]
    rcases hold with hsent | ⟨cause, hcause, hlate⟩
    · exact .inl (mem_append_left _ hsent)
    · exact .inr ⟨cause, by split <;> exact hcause, hlate⟩

/-- A runner that takes all that waits. -/
lemma Inv.drains {next : Phase ρ τ} (hnone : phase.works = []) (hworks : next.works = s.pending)
    (hanswers : next.answers = []) : Inv kind { s.drain.2 with runners := [next] } where
  token := by simpa [State.drain, hrunners] using h.token
  woken hpending := absurd rfl hpending
  account id := by
    have := h.account id
    simpa [State.held, State.drain, hrunners, hnone, hworks] using this
  drained id := by
    have := h.drained id
    change (ids []).count id + (ids (s.drained ++ s.pending)).count id
      = if id < s.calls.length then 1 else 0
    simp only [ids_nil, count_nil, ids_append, count_append]
    omega
  own work hmem := by
    refine h.own work (mem_append_left _ ?_)
    simpa [State.held, State.drain, hworks] using hmem
  computed e hmem := by
    have hsent : e ∈ s.sent := by simpa [State.drain, hanswers] using hmem
    exact (h.computed e (mem_append_left _ hsent)).mono (.of_calls rfl (List.Subset.refl _))
  channel := h.channel
  returns := h.returns

/-- A runner that returns, since nothing waits. -/
lemma Inv.stops (hnone : phase.works = []) (hpending : s.pending = []) :
    Inv kind { s with running := false, runners := [] } where
  token := by
    have := h.token
    simp only [hrunners, length_singleton] at this
    simp only [length_nil, Bool.false_eq_true, if_false]
    split at this <;> omega
  woken hmore := absurd hpending hmore
  account id := by
    have := h.account id
    simpa [State.held, hrunners, hnone] using this
  drained := h.drained
  own work hmem := by simp [State.held, hpending] at hmem
  computed e hmem := by
    have hsent : e ∈ s.sent := by simpa using hmem
    exact (h.computed e (mem_append_left _ hsent)).mono (.of_calls rfl (List.Subset.refl _))
  channel := h.channel
  returns := h.returns

lemma inv_runPhase (outcome : ω) :
    Inv kind (State.moved (runPhase kind outcome s phase)) := by
  have hheld : s.held = phase.works := by simp [State.held, hrunners]
  -- steps that neither drain nor send
  have hmove : ∀ next : Phase ρ τ, next.works.Perm phase.works → next.answers = [] →
      Inv kind { s with runners := [next] } := by
    intro next hworks hanswers
    have := h.move hrunners next hworks [] (by simp [hanswers])
    simpa using this
  cases phase with
  | coalescing =>
    refine h.drains hrunners rfl ?_ ?_
    · cases s.pending <;> simp [Phase.works]
    · cases s.pending <;> simp [Phase.answers]
  | checking rest active =>
    cases rest with
    | nil =>
      cases active with
      | nil => exact hmove .finishing (List.Perm.refl _) rfl
      | cons work active => exact hmove (.proposing (work :: active)) (List.Perm.refl _) rfl
    | cons work rest =>
      have hmem : work ∈ s.held := by simp [hheld, Phase.works]
      cases hdone : s.doneOf work.id with
      | none =>
        simp only [runPhase, hdone]
        refine hmove (.checking rest (active ++ [work])) ?_ rfl
        simp only [Phase.works, cons_append, ← append_assoc]
        exact perm_append_singleton work (rest ++ active)
      | some cause =>
        simp only [runPhase, hdone, if_pos (h.free hmem)]
        have hcomputed : Computed kind s work.id (kind.late cause) := by
          obtain ⟨call, hcall, hcause⟩ := Option.bind_eq_some_iff.1 hdone
          exact ⟨call, hcall, .inl ⟨cause, hcause, rfl⟩⟩
        exact h.sends hrunners (.checking rest active) (List.Perm.refl _) hcomputed
          (nil_subset _)
  | proposing active =>
    have hlength := kind.length_results outcome active.length
    refine h.move hrunners _ ?_ _ ?_
    · simp only [Phase.works]
      rw [map_fst_zip (by omega)]
    · intro e hmem
      obtain ⟨entry, hentry, rfl⟩ := mem_map.1 hmem
      refine computed_zip ?_ (mem_append_right _ (mem_singleton.2 rfl)) hentry
      intro work hwork
      exact h.own work (mem_append_right _ (by rwa [hheld]))
  | sending left =>
    cases left with
    | nil => exact hmove .finishing (List.Perm.refl _) rfl
    | cons entry left =>
      have hmem : entry.1 ∈ s.held := by simp [hheld, Phase.works]
      simp only [runPhase, if_pos (h.free hmem)]
      refine h.sends hrunners _ (List.Perm.refl _) ?_ (subset_cons_self _ _)
      refine h.computed (entry.1.id, entry.2) (mem_append_right _ ?_)
      simp [hrunners, Phase.answers]
  | finishing =>
    unfold runPhase State.finishIfIdle
    by_cases hpending : s.pending = []
    · rw [if_pos hpending]
      exact h.stops hrunners rfl hpending
    · rw [if_neg hpending]
      exact hmove .coalescing (List.Perm.refl _) rfl

/-! ## Every step -/

end

lemma Inv.runners (h : Inv kind s) : s.runners.length ≤ 1 := by
  have := h.token
  split at this <;> omega

lemma Inv.runners_eq (h : Inv kind s) {index : Nat} {phase : Phase ρ τ}
    (hphase : s.runners[index]? = some phase) : index = 0 ∧ s.runners = [phase] := by
  have hone := h.runners
  cases hrunners : s.runners with
  | nil => simp [hrunners] at hphase
  | cons first rest =>
    obtain rfl : rest = [] := by
      rw [hrunners, length_cons] at hone
      exact length_eq_zero_iff.1 (by omega)
    cases index with
    | zero => simpa [hrunners] using hphase
    | succ index => simp [hrunners] at hphase

lemma runPhase_runners (kind : Kind ω κ τ) (outcome : ω) (s : State ρ ω κ τ) (phase : Phase ρ τ) :
    (runPhase kind outcome s phase).1.runners = s.runners ∧
      (runPhase kind outcome s phase).1.calls.length = s.calls.length := by
  unfold runPhase State.drain State.send
  split <;> try exact ⟨rfl, rfl⟩
  · split
    · exact ⟨rfl, rfl⟩
    · split <;> simp
  · split <;> simp
  · unfold State.finishIfIdle
    by_cases hpending : s.pending = [] <;> simp [hpending]

/-- The only runner moves. -/
lemma step_advance {phase : Phase ρ τ} (hrunners : s.runners = [phase]) (outcome : ω) :
    step kind s (.advance 0 outcome) = State.moved (runPhase kind outcome s phase) := by
  have hsame := (runPhase_runners kind outcome s phase).1
  simp only [step, hrunners, getElem?_cons_zero, State.moved]
  cases hnext : (runPhase kind outcome s phase).2 with
  | none => simp [hsame, hrunners]
  | some next => simp [hsame, hrunners]

lemma Inv.step (h : Inv kind s) (action : Action ρ ω κ) : Inv kind (step kind s action) := by
  cases action with
  | call req => exact h.enqueue req
  | go id =>
    simp only [Batcher.step]
    split
    · next howes =>
      -- the runner takes over what the caller owed
      refine h.modify id (harmless_start kind) ?_ ?_ ?_
      · simp [Phase.works]
      · simp [Phase.answers]
      · rw [length_append, length_singleton, ← countP_start howes]
        omega
    · exact h
  | cancel id cause =>
    exact h.modify id (harmless_cancel kind cause) rfl rfl
      (congrArg _ (countP_modify_eq _ _ fun _ => rfl))
  | receive id =>
    exact h.modify id (harmless_receive kind) rfl rfl
      (congrArg _ (countP_modify_eq _ _ isStarting_receive))
  | leave id =>
    exact h.modify id (harmless_leave kind) rfl rfl
      (congrArg _ (countP_modify_eq _ _ (isStarting_leave kind)))
  | advance index outcome =>
    cases hphase : s.runners[index]? with
    | none =>
      simp only [Batcher.step, hphase]
      exact h
    | some phase =>
      obtain ⟨rfl, hrunners⟩ := h.runners_eq hphase
      rw [step_advance hrunners]
      exact inv_runPhase h hrunners outcome

lemma Reachable.inv (h : Reachable kind s) : Inv kind s := by
  obtain ⟨actions, rfl⟩ := h
  exact List.foldlRecOn actions _ (inv_empty kind) fun _ hs action _ => hs.step action

end Ech0.Lib.Batcher
