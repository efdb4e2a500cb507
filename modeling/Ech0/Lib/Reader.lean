/-
  Decoders that take what they need from the front of a list of bytes, and the encodings they
  read back.

  `Reads p bytes a` says that `p` finds `a` in `bytes`, takes just these bytes, and does so
  whatever comes after them. It composes the way the decoders do, so a decoder of several fields
  is shown to read what the encoder wrote by one rule a field, and the encoding of a whole is
  the encodings of its parts one after the other.
-/
import Mathlib.Tactic.Ring
import Mathlib.Data.Nat.Basic

set_option autoImplicit false

namespace Ech0.Lib

/-! ## Fixed-width integers -/

/-- The low `width` bytes of a number, the most significant first. -/
def bigEndian : Nat → Nat → List UInt8
  | 0, _ => []
  | width + 1, n => UInt8.ofNat (n / 256 ^ width) :: bigEndian width n

/-- The number that bytes stand for, the most significant first. -/
def ofBigEndian (bytes : List UInt8) : Nat :=
  bytes.foldl (fun n byte => n * 256 + byte.toNat) 0

@[simp] lemma length_bigEndian (width n : Nat) : (bigEndian width n).length = width := by
  induction width with
  | zero => rfl
  | succ width ih => rw [bigEndian, List.length_cons, ih]

/-- The loop over the bytes, from any number read so far. -/
lemma foldl_bigEndian (width n start : Nat) :
    (bigEndian width n).foldl (fun n byte => n * 256 + byte.toNat) start
      = start * 256 ^ width + n % 256 ^ width := by
  induction width generalizing start with
  | zero => simp [bigEndian, Nat.mod_one]
  | succ width ih =>
    rw [bigEndian, List.foldl_cons, ih, UInt8.toNat_ofNat']
    have hsplit : n % 256 ^ (width + 1) = n / 256 ^ width % 256 * 256 ^ width + n % 256 ^ width := by
      rw [Nat.pow_succ, Nat.mod_mul, Nat.mul_comm, Nat.add_comm]
    rw [hsplit, show (2 : Nat) ^ 8 = 256 from rfl, Nat.pow_succ]
    ring

lemma ofBigEndian_bigEndian {width n : Nat} (h : n < 256 ^ width) :
    ofBigEndian (bigEndian width n) = n := by
  rw [ofBigEndian, foldl_bigEndian, Nat.zero_mul, Nat.zero_add, Nat.mod_eq_of_lt h]

/-! ## Decoders -/

/-- A decoder: what is left of the input is its state. -/
abbrev Reader (ε α : Type) : Type := StateT (List UInt8) (Except ε) α

namespace Reader

variable {ε α : Type}

/-- The number of bytes left. -/
def remaining : Reader ε Nat := fun bytes => .ok (bytes.length, bytes)

/-- Just `n` bytes; `short` is the error when only so many are left. -/
def fixed (n : Nat) (short : Nat → ε) : Reader ε (List UInt8) := fun bytes =>
  if n > bytes.length then .error (short bytes.length) else .ok (bytes.take n, bytes.drop n)

/-- Fail. -/
def fail (err : ε) : Reader ε α := fun _ => .error err

/-- The same decoder `n` times. -/
def times (p : Reader ε α) : Nat → Reader ε (List α)
  | 0 => pure []
  | n + 1 => do
    let a ← p
    let rest ← times p n
    pure (a :: rest)

end Reader

/-- The decoder finds `a` in these bytes, and leaves what comes after them. -/
def Reads {ε α : Type} (p : Reader ε α) (bytes : List UInt8) (a : α) : Prop :=
  ∀ rest, p (bytes ++ rest) = .ok (a, rest)

namespace Reads

variable {ε α β : Type}

lemma pure (a : α) : Reads (Pure.pure a : Reader ε α) [] a := fun _ => rfl

lemma bind {p : Reader ε α} {f : α → Reader ε β} {bytes more : List UInt8} {a : α} {b : β}
    (hp : Reads p bytes a) (hf : Reads (f a) more b) : Reads (p >>= f) (bytes ++ more) b := by
  intro rest
  change (p (bytes ++ more ++ rest)).bind (fun found => f found.1 found.2) = _
  rw [List.append_assoc, hp]
  exact hf rest

variable {bytes : List UInt8}

/-- A decoder that checks what another one has read. -/
lemma bind_pure {p : Reader ε α} {f : α → Reader ε β} {a : α} {b : β} (hp : Reads p bytes a)
    (hf : Reads (f a) [] b) : Reads (p >>= f) bytes b := by
  have h := hp.bind hf
  rwa [List.append_nil] at h

/-- A decoder that converts what another one has read. -/
lemma map {p : Reader ε α} {a : α} (hp : Reads p bytes a) {f : α → β} {b : β} (hb : f a = b) :
    Reads (p >>= fun a => Pure.pure (f a)) bytes b := by
  refine hp.bind_pure ?_
  rw [hb]
  exact Reads.pure b

lemma fixed {n : Nat} (short : Nat → ε) (h : bytes.length = n) :
    Reads (Reader.fixed n short) bytes bytes := by
  intro rest
  unfold Reader.fixed
  rw [if_neg (by rw [List.length_append]; omega), List.take_left' h, List.drop_left' h]

/-- A decoder that looks at how much is left: at least the bytes it is going to read. -/
lemma remaining {f : Nat → Reader ε β} {b : β} (h : ∀ n, bytes.length ≤ n → Reads (f n) bytes b) :
    Reads (Reader.remaining >>= f) bytes b := by
  intro rest
  exact h (bytes ++ rest).length (by rw [List.length_append]; omega) rest

/-- Decoding one value after the other. -/
lemma times {p : Reader ε β} (encode : α → List UInt8) (f : α → β) (as : List α)
    (h : ∀ a ∈ as, Reads p (encode a) (f a)) :
    Reads (Reader.times p as.length) (as.flatMap encode) (as.map f) := by
  induction as with
  | nil => exact Reads.pure []
  | cons a rest ih =>
    rw [List.flatMap_cons]
    have htail := ih fun b hb => h b (List.mem_cons_of_mem a hb)
    exact (h a List.mem_cons_self).bind (htail.map rfl)

end Reads

end Ech0.Lib
