/-
  Encoders, and decoders that read back what they wrote and nothing else.

  An encoder is the bytes it writes, or the error it stops with; `Writer.seq` writes one part after
  the other. `Carries w p a` says that `w` writes and that `p` finds `a` in what it wrote, and it
  composes field by field. `Exact decode bytes a` is the contract of a whole message: the bytes
  decode to `a`, and neither a part of them nor anything longer decodes at all. For the part
  to be refused the decoder must not be able to tell what comes after the bytes it takes
  (`Reader.Stable`), which every decoder built from the ones of this library has by inference.
-/
import Ech0.Lib.Reader

set_option autoImplicit false

namespace Ech0.Lib

variable {ε α β γ : Type}

/-! ## Encoders -/

/-- An encoder: what it writes, or the error it stops with. -/
abbrev Writer (ε : Type) : Type := Except ε (List UInt8)

namespace Writer

/-- One part after the other; the first error ends it. -/
def seq : List (Writer ε) → Writer ε
  | [] => .ok []
  | w :: rest => w.bind fun bytes => (seq rest).map (bytes ++ ·)

/-- A check made before anything is written, whose value the rest uses. -/
def checked (x : Except ε α) (next : α → Writer ε) : Writer ε := x.bind next

@[simp] lemma checked_ok (a : α) (next : α → Writer ε) : checked (.ok a) next = next a := rfl

@[simp] lemma seq_nil : seq ([] : List (Writer ε)) = .ok [] := rfl

lemma seq_cons_ok {w : Writer ε} {rest : List (Writer ε)} {bytes more : List UInt8}
    (hw : w = .ok bytes) (hrest : seq rest = .ok more) : seq (w :: rest) = .ok (bytes ++ more) := by
  rw [seq, hw, hrest]
  rfl

@[simp] lemma seq_singleton (w : Writer ε) : seq [w] = w := by
  rw [seq, seq_nil]
  cases w with
  | error err => rfl
  | ok bytes => exact congrArg Except.ok (List.append_nil bytes)

/-- The parts are written if each of them is. -/
@[simp] lemma isOk_seq_cons (w : Writer ε) (rest : List (Writer ε)) :
    (seq (w :: rest)).isOk = (w.isOk && (seq rest).isOk) := by
  rw [seq]
  cases w with
  | error err => rfl
  | ok bytes => cases seq rest <;> rfl

lemma isOk_of_mem_seq {ws : List (Writer ε)} (h : (seq ws).isOk = true) {w : Writer ε}
    (hmem : w ∈ ws) : w.isOk = true := by
  induction ws with
  | nil => exact absurd hmem List.not_mem_nil
  | cons v rest ih =>
    rw [isOk_seq_cons, Bool.and_eq_true] at h
    rcases List.mem_cons.mp hmem with rfl | hrest
    · exact h.1
    · exact ih h.2 hrest

end Writer

/-! ## Decoders that do not look ahead -/

namespace Reader

/-- A check, or a conversion that may fail, in the middle of a decoder. -/
def ofExcept (x : Except ε α) : Reader ε α := fun bytes => x.map fun a => (a, bytes)

/-- What the decoder finds does not depend on what comes after the bytes that it takes. -/
class Stable (p : Reader ε α) : Prop where
  append : ∀ {bytes rest : List UInt8} {a : α}, p bytes = .ok (a, rest) →
    ∀ more, p (bytes ++ more) = .ok (a, rest ++ more)

instance (a : α) : Stable (pure a : Reader ε α) where
  append h more := by
    obtain ⟨rfl, rfl⟩ := Prod.mk.inj (Except.ok.inj h)
    rfl

instance (p : Reader ε α) (f : α → Reader ε β) [hp : Stable p] [hf : ∀ a, Stable (f a)] :
    Stable (p >>= f) where
  append {bytes rest b} h more := by
    have hbind : ∀ input, (p >>= f) input = (p input).bind fun found => f found.1 found.2 :=
      fun _ => rfl
    rw [hbind] at h ⊢
    cases hfound : p bytes with
    | error err =>
      rw [hfound] at h
      exact absurd h (by simp [Except.bind])
    | ok found =>
      rw [hfound] at h
      rw [hp.append hfound more]
      exact (hf found.1).append h more

instance (n : Nat) (short : Nat → ε) : Stable (fixed n short) where
  append {bytes rest taken} h more := by
    unfold fixed at h ⊢
    by_cases hlen : n > bytes.length
    · rw [if_pos hlen] at h
      exact absurd h (by simp)
    · -- there were enough bytes before, so the ones after them stay where they are
      rw [if_neg hlen] at h
      obtain ⟨rfl, rfl⟩ := Prod.mk.inj (Except.ok.inj h)
      have hle : n ≤ bytes.length := by omega
      rw [if_neg (by rw [List.length_append]; omega), List.take_append_of_le_length hle,
        List.drop_append_of_le_length hle]

instance (x : Except ε α) : Stable (ofExcept x) where
  append h more := by
    cases x with
    | error err => exact absurd h (by simp [ofExcept, Except.map])
    | ok a =>
      obtain ⟨rfl, rfl⟩ := Prod.mk.inj (Except.ok.inj h)
      rfl

instance (c : Prop) [Decidable c] (p q : Reader ε α) [hp : Stable p] [hq : Stable q] :
    Stable (if c then p else q) := by
  by_cases hc : c
  · rw [if_pos hc]
    exact hp
  · rw [if_neg hc]
    exact hq

lemma stable_times (p : Reader ε α) [Stable p] (n : Nat) : Stable (times p n) := by
  induction n with
  | zero => exact inferInstanceAs (Stable (pure []))
  | succ n ih => exact inferInstanceAs (Stable (p >>= fun a => times p n >>= fun rest => pure (a :: rest)))

instance (p : Reader ε α) [Stable p] (n : Nat) : Stable (times p n) := stable_times p n

/-- The decoder on a whole message, nothing of which may be left; `trailing` is the error for so
many bytes left. -/
def whole (p : Reader ε α) (trailing : Nat → ε) (data : List UInt8) : Except ε α :=
  match p data with
  | .error err => .error err
  | .ok (a, rest) => if rest.length ≠ 0 then .error (trailing rest.length) else .ok a

end Reader

/-! ## What is written reads back -/

/-- The encoder writes, and the decoder finds `a` in what it wrote. -/
def Carries (w : Writer ε) (p : Reader ε α) (a : α) : Prop :=
  ∃ bytes, w = .ok bytes ∧ Reads p bytes a

namespace Carries

lemma nil (a : α) : Carries (Writer.seq []) (pure a : Reader ε α) a := ⟨[], rfl, Reads.pure a⟩

/-- One field, and then the others. -/
lemma cons {w : Writer ε} {ws : List (Writer ε)} {p : Reader ε α} {f : α → Reader ε β} {a : α}
    {b : β} (hw : Carries w p a) (hws : Carries (Writer.seq ws) (f a) b) :
    Carries (Writer.seq (w :: ws)) (p >>= f) b := by
  obtain ⟨bytes, hbytes, hreads⟩ := hw
  obtain ⟨more, hmore, hrest⟩ := hws
  exact ⟨bytes ++ more, Writer.seq_cons_ok hbytes hmore, hreads.bind hrest⟩

/-- A field that is converted, or checked, once it is read. -/
lemma ofExcept {w : Writer ε} {x : Except ε α} {f : α → Reader ε β} {a : α} {b : β}
    (hx : x = .ok a) (hw : Carries w (f a) b) : Carries w (Reader.ofExcept x >>= f) b := by
  obtain ⟨bytes, hbytes, hreads⟩ := hw
  refine ⟨bytes, hbytes, ?_⟩
  have hnone : Reads (Reader.ofExcept x) [] a := fun rest => by rw [hx]; rfl
  exact hnone.bind hreads

/-- The only field, and what the decoder makes of its value. -/
lemma last {w : Writer ε} {p : Reader ε α} {f : α → Reader ε β} {a : α} {b : β}
    (hw : Carries w p a) (hb : Reads (f a) [] b) : Carries w (p >>= f) b := by
  obtain ⟨bytes, hbytes, hreads⟩ := hw
  exact ⟨bytes, hbytes, hreads.bind_pure hb⟩

lemma map {w : Writer ε} {p : Reader ε α} {a : α} {f : α → β} {b : β} (hw : Carries w p a)
    (hb : f a = b) : Carries w (p >>= fun a => pure (f a)) b :=
  hw.last (hb ▸ Reads.pure (f a))

/-- The loop over a list, each element of which reads back as `f` of it. -/
lemma times {write : α → Writer ε} {p : Reader ε β} (f : α → β) (as : List α)
    (h : ∀ a ∈ as, Carries (write a) p (f a)) :
    Carries (Writer.seq (as.map write)) (Reader.times p as.length) (as.map f) := by
  induction as with
  | nil => exact Carries.nil []
  | cons a rest ih =>
    have hrest := ih fun b hb => h b (List.mem_cons_of_mem a hb)
    exact (h a List.mem_cons_self).cons (hrest.map rfl)

end Carries

/-! ## Whole messages -/

/-- The bytes decode to `a`, and neither a part of them nor anything longer decodes. -/
structure Exact (decode : List UInt8 → Except ε α) (bytes : List UInt8) (a : α) : Prop where
  back : decode bytes = .ok a
  short : ∀ part more, part ++ more = bytes → more ≠ [] → ∃ err, decode part = .error err
  long : ∀ more, more ≠ [] → ∃ err, decode (bytes ++ more) = .error err

lemma Reads.exact {p : Reader ε α} [p.Stable] {bytes : List UInt8} {a : α} (h : Reads p bytes a)
    (trailing : Nat → ε) : Exact (p.whole trailing) bytes a where
  back := by
    have hall := h []
    rw [List.append_nil] at hall
    simp only [Reader.whole, hall]
    rfl
  short part more hsplit hmore := by
    cases hpart : p part with
    | error err => exact ⟨err, by simp only [Reader.whole, hpart]⟩
    | ok found =>
      -- had the part been enough, the rest of the bytes would be left over
      have hall := h []
      have hmeets := Reader.Stable.append hpart more
      rw [List.append_nil, ← hsplit, hmeets] at hall
      have hleft : found.2 ++ more = [] := (Prod.mk.inj (Except.ok.inj hall)).2
      exact absurd (List.append_eq_nil_iff.mp hleft).2 hmore
  long more hmore := by
    refine ⟨trailing more.length, ?_⟩
    simp only [Reader.whole, h more]
    exact if_pos fun hzero => hmore (List.length_eq_zero_iff.mp hzero)

end Ech0.Lib
