/-
  Runs of a step function that puts something out at each step.

  The state after a run is the fold of the step; `outputs` is what the steps of the run put out, one
  after the other. An invariant may speak of the state and of all that was put out before it, and is
  carried along a run by what it says of one step (`invariant_run`). Steps may be asked to meet a
  condition in the state in which they are taken (`Meets`).
-/
import Mathlib.Data.List.Basic

set_option autoImplicit false

namespace Ech0.Lib

variable {S A B : Type} (step : S → A → S) (out : S → A → List B) (P : S → A → Prop)

/-- Each step of the run meets the condition, in the state in which it is taken. -/
def Meets : List A → S → Prop
  | [], _ => True
  | a :: rest, s => P s a ∧ Meets rest (step s a)

/-- What the steps of a run put out. -/
def outputs : List A → S → List B
  | [], _ => []
  | a :: rest, s => out s a ++ outputs rest (step s a)

variable {step out P}

lemma outputs_append (as bs : List A) (s : S) : outputs step out (as ++ bs) s
      = outputs step out as s ++ outputs step out bs (as.foldl step s) := by
  induction as generalizing s with
  | nil => rfl
  | cons a rest ih =>
    rw [List.cons_append, outputs, outputs, ih, List.foldl_cons, List.append_assoc]

lemma meets_append (as bs : List A) (s : S) :
    Meets step P (as ++ bs) s ↔ Meets step P as s ∧ Meets step P bs (as.foldl step s) := by
  induction as generalizing s with
  | nil => simp [Meets]
  | cons a rest ih =>
    rw [List.cons_append, Meets, Meets, ih, List.foldl_cons, and_assoc]

/-- A condition on the steps alone is met in every state. -/
lemma meets_and {C : A → Prop} {as : List A} {s : S} (hall : ∀ a ∈ as, C a)
    (hmeets : Meets step P as s) : Meets step (fun s a => C a ∧ P s a) as s := by
  induction as generalizing s with
  | nil => trivial
  | cons a rest ih =>
    exact ⟨⟨hall a List.mem_cons_self, hmeets.1⟩,
      ih (fun b hb => hall b (List.mem_cons_of_mem a hb)) hmeets.2⟩

/-- What one step keeps, a run keeps. -/
lemma invariant_run {Inv : S → List B → Prop}
    (hstep : ∀ s a sofar, Inv s sofar → P s a → Inv (step s a) (sofar ++ out s a))
    {as : List A} {s : S} {sofar : List B} (hstart : Inv s sofar) (hmeets : Meets step P as s) :
    Inv (as.foldl step s) (sofar ++ outputs step out as s) := by
  induction as generalizing s sofar with
  | nil =>
    rw [outputs, List.append_nil]
    exact hstart
  | cons a rest ih =>
    rw [outputs, ← List.append_assoc]
    exact ih (hstep s a sofar hstart hmeets.1) hmeets.2

/-- What an invariant says of each step, every step of a run has. -/
lemma meets_of_invariant {Inv : S → Prop} {Q : S → A → Prop}
    (hstep : ∀ s a, Inv s → P s a → Inv (step s a)) (hQ : ∀ s a, Inv s → P s a → Q s a) {as : List A}
    {s : S} (hstart : Inv s) (hmeets : Meets step P as s) : Meets step Q as s := by
  induction as generalizing s with
  | nil => trivial
  | cons a rest ih => exact ⟨hQ s a hstart hmeets.1, ih (hstep s a hstart hmeets.1) hmeets.2⟩

/-- Conditions that say the same wherever an invariant holds are met by the same runs. -/
lemma meets_congr {Inv : S → Prop} {Q : S → A → Prop} (hstep : ∀ s a, Inv s → Inv (step s a))
    (hiff : ∀ s a, Inv s → (P s a ↔ Q s a)) {as : List A} {s : S} (hstart : Inv s) :
    Meets step P as s ↔ Meets step Q as s := by
  induction as generalizing s with
  | nil => rfl
  | cons a rest ih => exact and_congr (hiff s a hstart) (ih (hstep s a hstart))

end Ech0.Lib
