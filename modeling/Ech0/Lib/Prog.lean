/-
  Programs over an interface, and how to reason about all of them at once.

  A program is a tree: it either ends with a result or calls one operation of its interface
  and goes on with the reply. A handler gives the operations a meaning on some world.

  What is proved about programs is proved of a class of programs that is closed under the ways
  in which programs are put together (`Closed`): to see that a program belongs to the class it
  is enough to look at its parts. The parts need not be single operations. A block of
  operations may belong to a class, as when it restores an invariant that its first operation
  breaks. The classes used are these, for a meaning of the operations on worlds:

  * the programs that keep an invariant (`keeps_closed`);
  * the programs that a reflexive and transitive relation holds across (`advances_closed`);
  * the programs that do the same in any two related worlds (`respects_closed`), which covers
    determinism and independence of a part of the world.
-/
import Ech0.Lib.Map

set_option autoImplicit false

namespace Ech0.Lib

/-- A sequence that ends well has come through its first part. -/
lemma Except.bind_eq_ok {ε α β : Type} {r : Except ε α} {f : α → Except ε β} {b : β} :
    (r >>= f) = .ok b ↔ ∃ a, r = .ok a ∧ f a = .ok b := by
  cases r with
  | error e => exact ⟨nofun, fun ⟨_, h, _⟩ => (by cases h)⟩
  | ok a => exact ⟨fun h => ⟨a, rfl, h⟩, fun ⟨_, ha, h⟩ => Except.ok.inj ha ▸ h⟩

lemma Except.toOption_eq_some {ε α : Type} {r : Except ε α} {a : α} :
    r.toOption = some a ↔ r = .ok a := by
  cases r <;> simp [Except.toOption]

/-- Operations, and the type of the reply to each. -/
structure Interface where
  Op : Type
  Out : Op → Type

/-- A program: a result, or a call and what follows it. A call can fail, and a program may
look at the failure and go on. -/
inductive Prog (I : Interface) (ε α : Type) : Type where
  | done (result : Except ε α)
  | call (op : I.Op) (next : Except ε (I.Out op) → Prog I ε α)

/-- A meaning of the operations on worlds of type `W`. -/
abbrev Handler (I : Interface) (ε W : Type) : Type :=
  (op : I.Op) → W → Except ε (I.Out op) × W

namespace Prog

variable {I : Interface} {ε α β W : Type}

protected def bind : Prog I ε α → (α → Prog I ε β) → Prog I ε β
  | .done (.ok a), f => f a
  | .done (.error e), _ => .done (.error e)
  | .call op next, f => .call op fun r => (next r).bind f

instance : Monad (Prog I ε) where
  pure a := .done (.ok a)
  bind := Prog.bind

instance : LawfulMonad (Prog I ε) := by
  refine LawfulMonad.mk' _ (fun p => ?_) (fun a f => rfl) fun p f g => ?_
  · change p.bind (fun a => .done (.ok a)) = p
    induction p with
    | done r => cases r <;> rfl
    | call op next ih => simp only [Prog.bind, ih]
  · change (p.bind f).bind g = p.bind fun a => (f a).bind g
    induction p with
    | done r => cases r <;> rfl
    | call op next ih => simp only [Prog.bind, ih]

/-- Call one operation; its failure is the program's. -/
def perform (op : I.Op) : Prog I ε (I.Out op) := .call op .done

/-- Stop with an error. -/
def fail (e : ε) : Prog I ε α := .done (.error e)

/-- Lift a result that needs no call. -/
def ofExcept (r : Except ε α) : Prog I ε α := .done r

/-- Run a program and hand its outcome, an error included, to what follows. -/
def attempt : Prog I ε α → Prog I ε (Except ε α)
  | .done r => .done (.ok r)
  | .call op next => .call op fun r => (next r).attempt

/-- Change the error of a program that fails. -/
def mapError (f : ε → ε) : Prog I ε α → Prog I ε α
  | .done r => .done (r.mapError f)
  | .call op next => .call op fun r => (next r).mapError f

/-- Run a program for each element of a list, in order. -/
def forEach (f : α → Prog I ε Unit) : List α → Prog I ε Unit
  | [] => pure ()
  | a :: rest => Prog.bind (f a) fun _ => forEach f rest

/-- Run a program for each element of a list and collect the results. -/
def collect (f : α → Prog I ε β) : List α → Prog I ε (List β)
  | [] => pure []
  | a :: rest => Prog.bind (f a) fun b => Prog.bind (collect f rest) fun bs => pure (b :: bs)

/-! ## Execution -/

/-- Run a program. What its calls did to the world stays when it ends with an error. -/
def exec (h : Handler I ε W) : Prog I ε α → W → Except ε α × W
  | .done r, w => (r, w)
  | .call op next, w => exec h (next (h op w).1) (h op w).2

section
variable (h : Handler I ε W)

@[simp] lemma exec_pure (a : α) (w : W) : exec h (pure a : Prog I ε α) w = (.ok a, w) := rfl

@[simp] lemma exec_fail (e : ε) (w : W) : exec h (fail e : Prog I ε α) w = (.error e, w) := rfl

@[simp] lemma exec_ofExcept (r : Except ε α) (w : W) :
    exec h (ofExcept r : Prog I ε α) w = (r, w) := rfl

@[simp] lemma exec_perform (op : I.Op) (w : W) : exec h (perform op) w = h op w := rfl

lemma exec_bind (p : Prog I ε α) (f : α → Prog I ε β) (w : W) :
    exec h (p >>= f) w
      = match exec h p w with
        | (.ok a, w') => exec h (f a) w'
        | (.error e, w') => (.error e, w') := by
  change exec h (p.bind f) w = _
  induction p generalizing w with
  | done r => cases r <;> rfl
  | call op next ih =>
    rw [Prog.bind, exec, ih]
    rfl

variable {p : Prog I ε α} {f : α → Prog I ε β} {w w' : W}

lemma exec_bind_ok {a : α} (hp : exec h p w = (.ok a, w')) :
    exec h (p >>= f) w = exec h (f a) w' := by
  rw [exec_bind, hp]

lemma exec_bind_error {e : ε} (hp : exec h p w = (.error e, w')) :
    exec h (p >>= f) w = (.error e, w') := by
  rw [exec_bind, hp]

/-- A sequence that ends well has come through its first part. -/
lemma exec_bind_eq_ok {b : β} (hrun : exec h (p >>= f) w = (.ok b, w')) :
    ∃ a w1, exec h p w = (.ok a, w1) ∧ exec h (f a) w1 = (.ok b, w') := by
  rw [exec_bind] at hrun
  rcases hp : exec h p w with ⟨r, w1⟩
  rw [hp] at hrun
  cases r with
  | error e => cases hrun
  | ok a => exact ⟨a, w1, rfl, hrun⟩

lemma exec_attempt (p : Prog I ε α) (w : W) :
    exec h p.attempt w = (.ok (exec h p w).1, (exec h p w).2) := by
  induction p generalizing w with
  | done r => rfl
  | call op next ih => rw [attempt, exec, ih, exec]

lemma exec_mapError (f : ε → ε) (p : Prog I ε α) (w : W) :
    exec h (p.mapError f) w = ((exec h p w).1.mapError f, (exec h p w).2) := by
  induction p generalizing w with
  | done r => rfl
  | call op next ih => rw [mapError, exec, ih, exec]

lemma exec_mapError_eq_ok {f : ε → ε} {a : α}
    (hrun : exec h (p.mapError f) w = (.ok a, w')) : exec h p w = (.ok a, w') := by
  rw [exec_mapError] at hrun
  rcases hp : exec h p w with ⟨r, w1⟩
  rw [hp] at hrun
  cases r with
  | error e => cases hrun
  | ok b => exact hrun

end

/-! ## The results a program can have -/

/-- Some replies lead the program to the result `a`. -/
def Returns : Prog I ε α → α → Prop
  | .done (.ok b), a => b = a
  | .done (.error _), _ => False
  | .call _ next, a => ∃ r, (next r).Returns a

lemma returns_of_exec (h : Handler I ε W) {p : Prog I ε α} {w : W} {a : α}
    (hrun : (exec h p w).1 = .ok a) : p.Returns a := by
  induction p generalizing w with
  | done r =>
    cases r with
    | error e => cases hrun
    | ok b => exact Except.ok.inj hrun
  | call op next ih => exact ⟨(h op w).1, ih _ hrun⟩

lemma returns_bind {p : Prog I ε α} {f : α → Prog I ε β} {b : β} (h : (p >>= f).Returns b) :
    ∃ a, p.Returns a ∧ (f a).Returns b := by
  change (p.bind f).Returns b at h
  induction p with
  | done r =>
    cases r with
    | error e => exact h.elim
    | ok a => exact ⟨a, rfl, h⟩
  | call op next ih =>
    obtain ⟨r, hr⟩ := h
    obtain ⟨a, ha, hb⟩ := ih r hr
    exact ⟨a, ⟨r, ha⟩, hb⟩

lemma returns_pure {a b : α} (h : (pure b : Prog I ε α).Returns a) : b = a := h

lemma returns_ofExcept {r : Except ε α} {a : α} (h : (ofExcept r : Prog I ε α).Returns a) :
    r = .ok a := by
  cases r with
  | error e => exact h.elim
  | ok b => exact congrArg Except.ok h

lemma returns_attempt {p : Prog I ε α} {a : α} (h : p.attempt.Returns (.ok a)) : p.Returns a := by
  induction p with
  | done r =>
    cases r with
    | error e => cases h
    | ok b => exact Except.ok.inj h
  | call op next ih =>
    obtain ⟨r, hr⟩ := h
    exact ⟨r, ih r hr⟩

/-! ## Closed classes of programs -/

/-- A class of programs closed under sequencing, catching an error and changing an error. What
follows a program need only be in the class for the results the program can have. -/
structure Closed (C : (α : Type) → Prog I ε α → Prop) : Prop where
  done : ∀ {α : Type} (r : Except ε α), C α (.done r)
  sequence : ∀ {α β : Type} {p : Prog I ε α} {f : α → Prog I ε β}, C α p →
    (∀ a, p.Returns a → C β (f a)) → C β (p >>= f)
  attempt : ∀ {α : Type} {p : Prog I ε α}, C α p → C (Except ε α) p.attempt
  mapError : ∀ {α : Type} (f : ε → ε) {p : Prog I ε α}, C α p → C α (p.mapError f)

namespace Closed

variable {C : (α : Type) → Prog I ε α → Prop} (hC : Closed C)

/-- Of any class; it is asked to be closed so that it can be named by its closedness, as the others. -/
lemma ite (_ : Closed C) {c : Prop} [Decidable c] {p q : Prog I ε α} (hp : C α p) (hq : C α q) :
    C α (if c then p else q) := by
  split
  · exact hp
  · exact hq

include hC

lemma bind {p : Prog I ε α} {f : α → Prog I ε β} (hp : C α p) (hf : ∀ a, C β (f a)) :
    C β (p >>= f) :=
  hC.sequence hp fun a _ => hf a

lemma pure (a : α) : C α (Pure.pure a) := hC.done (.ok a)

lemma fail (e : ε) : C α (Prog.fail e) := hC.done (.error e)

lemma ofExcept (r : Except ε α) : C α (Prog.ofExcept r) := hC.done r

lemma forEach {f : α → Prog I ε Unit} (l : List α) (hf : ∀ a ∈ l, C Unit (f a)) :
    C Unit (Prog.forEach f l) := by
  induction l with
  | nil => exact hC.done (.ok ())
  | cons a rest ih =>
    refine hC.bind (hf a List.mem_cons_self) fun _ => ih fun b hb => ?_
    exact hf b (List.mem_cons_of_mem a hb)

lemma collect {f : α → Prog I ε β} (l : List α) (hf : ∀ a ∈ l, C β (f a)) :
    C (List β) (Prog.collect f l) := by
  induction l with
  | nil => exact hC.done (.ok [])
  | cons a rest ih =>
    refine hC.bind (hf a List.mem_cons_self) fun b => hC.bind (ih fun c hc => ?_) fun bs => ?_
    · exact hf c (List.mem_cons_of_mem a hc)
    · exact hC.done (.ok (b :: bs))

end Closed

/-! ## Invariants, transitions and relations -/

section
variable (h : Handler I ε W)

/-- The program keeps `Inv`. -/
def Keeps (Inv : W → Prop) (α : Type) (p : Prog I ε α) : Prop :=
  ∀ w, Inv w → Inv (exec h p w).2

lemma keeps_closed (Inv : W → Prop) : Closed (Keeps h (I := I) (ε := ε) Inv) where
  done _ _ hw := hw
  sequence {α β p f} hp hf w hw := by
    rw [exec_bind]
    have hw' := hp w hw
    cases hrun : exec h p w with
    | mk r w' =>
      rw [hrun] at hw'
      cases r with
      | error e => exact hw'
      | ok a => exact hf a (returns_of_exec h (congrArg Prod.fst hrun)) w' hw'
  attempt {α p} hp w hw := by
    rw [exec_attempt]
    exact hp w hw
  mapError {α} f p hp w hw := by
    rw [exec_mapError]
    exact hp w hw

/-- The relation holds across the program. -/
def Advances (R : W → W → Prop) (α : Type) (p : Prog I ε α) : Prop :=
  ∀ w, R w (exec h p w).2

lemma advances_closed {R : W → W → Prop} (hrefl : ∀ w, R w w)
    (htrans : ∀ w1 w2 w3, R w1 w2 → R w2 w3 → R w1 w3) :
    Closed (Advances h (I := I) (ε := ε) R) where
  done _ w := hrefl w
  sequence {α β p f} hp hf w := by
    rw [exec_bind]
    have hw' := hp w
    cases hrun : exec h p w with
    | mk r w' =>
      rw [hrun] at hw'
      cases r with
      | error e => exact hw'
      | ok a =>
        exact htrans _ _ _ hw' (hf a (returns_of_exec h (congrArg Prod.fst hrun)) w')
  attempt {α p} hp w := by
    rw [exec_attempt]
    exact hp w
  mapError {α} f p hp w := by
    rw [exec_mapError]
    exact hp w

/-- In related worlds the program gives equal results, and leaves related worlds behind. -/
def Respects (R : W → W → Prop) (α : Type) (p : Prog I ε α) : Prop :=
  ∀ w v, R w v → (exec h p w).1 = (exec h p v).1 ∧ R (exec h p w).2 (exec h p v).2

lemma respects_closed (R : W → W → Prop) : Closed (Respects h (I := I) (ε := ε) R) where
  done _ _ _ hwv := ⟨rfl, hwv⟩
  sequence {α β p f} hp hf w v hwv := by
    rw [exec_bind, exec_bind]
    obtain ⟨hr, hwv'⟩ := hp w v hwv
    cases hrun : exec h p w with
    | mk r w' =>
      cases hrun2 : exec h p v with
      | mk r2 v' =>
        rw [hrun, hrun2] at hr hwv'
        cases hr
        cases r with
        | error e => exact ⟨rfl, hwv'⟩
        | ok a => exact hf a (returns_of_exec h (congrArg Prod.fst hrun)) w' v' hwv'
  attempt {α p} hp w v hwv := by
    rw [exec_attempt, exec_attempt]
    obtain ⟨hr, hwv'⟩ := hp w v hwv
    exact ⟨by rw [hr], hwv'⟩
  mapError {α} f p hp w v hwv := by
    rw [exec_mapError, exec_mapError]
    obtain ⟨hr, hwv'⟩ := hp w v hwv
    exact ⟨by rw [hr], hwv'⟩

end

end Prog

end Ech0.Lib
