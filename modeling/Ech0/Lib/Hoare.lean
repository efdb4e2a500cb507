/-
  What a run of a program ends with.

  `Ends h p w Q` says that the program `p`, run from the world `w`, ends with a result, a world and
  a trace of calls that satisfy `Q`. The rules take a program apart along the ways in which it was
  put together: a sequence passes the worlds on and joins the traces, and a loop over a list is
  followed by an invariant of the elements still to come.

  Where all that matters is which calls are made, `Makes` is a closed class of programs, so that a
  program is in it as soon as its parts are.
-/
import Ech0.Lib.Prog

set_option autoImplicit false

namespace Ech0.Lib.Prog

variable {I : Interface} {ε α β W : Type}

/-- A call that was made, with the reply to it. -/
abbrev Called (I : Interface) (ε : Type) : Type := (op : I.Op) × Except ε (I.Out op)

/-- The calls of a run, in their order. -/
def trace (h : Handler I ε W) : Prog I ε α → W → List (Called I ε)
  | .done _, _ => []
  | .call op next, w => ⟨op, (h op w).1⟩ :: trace h (next (h op w).1) (h op w).2

section
variable (h : Handler I ε W)

lemma trace_bind (p : Prog I ε α) (f : α → Prog I ε β) (w : W) :
    trace h (p >>= f) w = trace h p w ++
      match exec h p w with
      | (.ok a, w') => trace h (f a) w'
      | (.error _, _) => [] := by
  change trace h (p.bind f) w = _
  induction p generalizing w with
  | done r => cases r <;> rfl
  | call op next ih =>
    simp only [Prog.bind, trace, exec, List.cons_append]
    rw [ih]

lemma trace_attempt (p : Prog I ε α) (w : W) : trace h p.attempt w = trace h p w := by
  induction p generalizing w with
  | done r => rfl
  | call op next ih => simp only [attempt, trace, ih]

lemma trace_mapError (f : ε → ε) (p : Prog I ε α) (w : W) :
    trace h (p.mapError f) w = trace h p w := by
  induction p generalizing w with
  | done r => rfl
  | call op next ih => simp only [mapError, trace, ih]

/-! ## Ends -/

/-- The program ends with a result, a world and a trace that satisfy `Q`. -/
def Ends (p : Prog I ε α) (w : W) (Q : Except ε α → W → List (Called I ε) → Prop) : Prop :=
  Q (exec h p w).1 (exec h p w).2 (trace h p w)

variable {h} {w : W} {Q : Except ε α → W → List (Called I ε) → Prop} {p : Prog I ε α}
  {f : α → Prog I ε β}

lemma Ends.mono {Q' : Except ε α → W → List (Called I ε) → Prop}
    (hp : Ends h p w Q) (himp : ∀ r w' calls, Q r w' calls → Q' r w' calls) : Ends h p w Q' :=
  himp _ _ _ hp

lemma Ends.and {Q' : Except ε α → W → List (Called I ε) → Prop}
    (hp : Ends h p w Q) (hp' : Ends h p w Q') :
    Ends h p w fun r w' calls => Q r w' calls ∧ Q' r w' calls :=
  ⟨hp, hp'⟩

lemma ends_pure {a : α} (hQ : Q (.ok a) w []) : Ends h (pure a) w Q := hQ

lemma ends_fail {e : ε} (hQ : Q (.error e) w []) : Ends h (fail e) w Q := hQ

lemma ends_ofExcept {r : Except ε α} (hQ : Q r w []) : Ends h (ofExcept r) w Q := hQ

lemma ends_perform {op : I.Op} {Q : Except ε (I.Out op) → W → List (Called I ε) → Prop}
    (hQ : Q (h op w).1 (h op w).2 [⟨op, (h op w).1⟩]) : Ends h (perform op) w Q := hQ

/-- A sequence: what follows starts where the first program ended. -/
lemma ends_bind {Q : Except ε β → W → List (Called I ε) → Prop}
    (hp : Ends h p w fun r w' calls =>
      match r with
      | .ok a => Ends h (f a) w' fun r' w'' calls' => Q r' w'' (calls ++ calls')
      | .error e => Q (.error e) w' calls) :
    Ends h (p >>= f) w Q := by
  unfold Ends at hp ⊢
  rw [exec_bind, trace_bind]
  cases hrun : exec h p w with
  | mk r w' =>
    rw [hrun] at hp
    cases r with
    | ok a => exact hp
    | error e =>
      dsimp only at hp ⊢
      rw [List.append_nil]
      exact hp

/-- The same where the run of the first program is known. -/
lemma ends_bind_ok {Q : Except ε β → W → List (Called I ε) → Prop} {a : α} {w' : W}
    (hrun : exec h p w = (.ok a, w'))
    (hf : Ends h (f a) w' fun r w'' calls => Q r w'' (trace h p w ++ calls)) :
    Ends h (p >>= f) w Q := by
  apply ends_bind
  unfold Ends
  rw [hrun]
  exact hf

lemma ends_mapError {f : ε → ε}
    (hp : Ends h p w fun r w' calls => Q (r.mapError f) w' calls) : Ends h (p.mapError f) w Q := by
  unfold Ends at hp ⊢
  rw [exec_mapError, trace_mapError]
  exact hp

lemma ends_of_advances {R : W → W → Prop} (hp : Advances h R α p) (w : W) :
    Ends h p w fun _ w' _ => R w w' :=
  hp w

/-- A program that all is known of through a relation, and what follows it. -/
lemma ends_bind_advances {R : W → W → Prop} {Q : Except ε β → W → Prop}
    (hp : Advances h R α p) (herror : ∀ e w', R w w' → Q (.error e) w')
    (hok : ∀ a w', p.Returns a → R w w' → Ends h (f a) w' fun r w'' _ => Q r w'') :
    Ends h (p >>= f) w fun r w' _ => Q r w' := by
  apply ends_bind
  cases hrun : exec h p w with
  | mk r w' =>
    have hR := hp w
    unfold Ends
    rw [hrun] at hR ⊢
    cases r with
    | error e => exact herror e w' hR
    | ok a => exact hok a w' (returns_of_exec h (congrArg Prod.fst hrun)) hR

/-- A check in front of a program. -/
lemma ends_bind_ofExcept {r : Except ε α} {Q : Except ε β → W → List (Called I ε) → Prop}
    (herror : ∀ e, r = .error e → Q (.error e) w [])
    (hok : ∀ a, r = .ok a → Ends h (f a) w Q) : Ends h (ofExcept r >>= f) w Q := by
  cases r with
  | error e => exact herror e rfl
  | ok a => exact hok a rfl

end

/-! ## The calls a program makes -/

section
variable (h : Handler I ε W)

/-- Every call of the program satisfies `P`. -/
def Makes (P : Called I ε → Prop) (α : Type) (p : Prog I ε α) : Prop :=
  ∀ w, ∀ call ∈ trace h p w, P call

lemma makes_closed (P : Called I ε → Prop) : Closed (Makes h (I := I) (ε := ε) P) where
  done _ w call hcall := by simp [trace] at hcall
  sequence {α β p f} hp hf w call hcall := by
    rw [trace_bind, List.mem_append] at hcall
    rcases hcall with hcall | hcall
    · exact hp w call hcall
    · cases hrun : exec h p w with
      | mk r w' =>
        rw [hrun] at hcall
        cases r with
        | error e => simp at hcall
        | ok a => exact hf a (returns_of_exec h (congrArg Prod.fst hrun)) w' call hcall
  attempt {α p} hp w call hcall := by
    rw [trace_attempt] at hcall
    exact hp w call hcall
  mapError {α} f p hp w call hcall := by
    rw [trace_mapError] at hcall
    exact hp w call hcall

variable {h}

lemma makes_perform {P : Called I ε → Prop} {op : I.Op} (hP : ∀ r, P ⟨op, r⟩) :
    Makes h P _ (perform op) := by
  intro w call hcall
  rw [List.mem_singleton.mp hcall]
  exact hP _

lemma ends_of_makes {P : Called I ε → Prop} {p : Prog I ε α} (hp : Makes h P α p) (w : W) :
    Ends h p w fun _ _ calls => ∀ call ∈ calls, P call :=
  hp w

/-- A program of which it is known what it returns, where it leads and which calls it makes, and what
follows it. -/
lemma ends_bind_known {R : W → W → Prop} {P : Called I ε → Prop} {p : Prog I ε α}
    {f : α → Prog I ε β} {w : W} {Q : Except ε β → W → List (Called I ε) → Prop}
    (hp : Advances h R α p) (hcalls : Makes h P α p)
    (herror : ∀ e w' calls, R w w' → (∀ call ∈ calls, P call) → Q (.error e) w' calls)
    (hok : ∀ a w' calls, p.Returns a → R w w' → (∀ call ∈ calls, P call) →
      Ends h (f a) w' fun r w'' calls' => Q r w'' (calls ++ calls')) : Ends h (p >>= f) w Q := by
  apply ends_bind
  cases hrun : exec h p w with
  | mk r w' =>
    have hR := hp w
    have hP := hcalls w
    unfold Ends
    rw [hrun] at hR ⊢
    cases r with
    | error e => exact herror e w' _ hR hP
    | ok a => exact hok a w' _ (returns_of_exec h (congrArg Prod.fst hrun)) hR hP

end

end Ech0.Lib.Prog
