/-
  Sets of numbers kept as a watermark.

  Numbers are taken in any order, from a position on. Instead of the set it is enough to keep the
  first number that has not been taken and, in order, those above it that have. What is kept is
  determined by the set (`Marks.unique`), so it does not depend on the order in which the numbers
  came.
-/
import Mathlib.Order.Bounds.Basic
import Mathlib.Data.List.Sort

set_option autoImplicit false

namespace Ech0.Lib

/-- The watermark and the numbers pending above it, for the numbers taken from `start` on. -/
structure Marks (start : Nat) (taken : Set Nat) (next : Nat) (pending : List Nat) : Prop where
  least : IsLeast {n | start ≤ n ∧ n ∉ taken} next
  mem_iff : ∀ n, n ∈ pending ↔ n ∈ taken ∧ next < n
  increasing : pending.Pairwise (· < ·)

section
variable {start next n : Nat} {taken : Set Nat} {pending : List Nat}

lemma Marks.below (h : Marks start taken next pending) (hstart : start ≤ n) (hlt : n < next) :
    n ∈ taken := by
  by_contra hnot
  have hle : next ≤ n := h.least.2 ⟨hstart, hnot⟩
  omega

/-- **The order does not matter**: the set determines what is kept of it. -/
theorem Marks.unique {next' : Nat} {pending' : List Nat} (h : Marks start taken next pending)
    (h' : Marks start taken next' pending') : next = next' ∧ pending = pending' := by
  obtain rfl : next = next' := h.least.unique h'.least
  refine ⟨rfl, h.increasing.eq_of_mem_iff h'.increasing fun n => ?_⟩
  rw [h.mem_iff, h'.mem_iff]

/-- Only what was taken from the position on matters. -/
lemma Marks.congr {taken' : Set Nat} (h : Marks start taken next pending)
    (hsame : ∀ n, start ≤ n → (n ∈ taken ↔ n ∈ taken')) : Marks start taken' next pending := by
  have hle : start ≤ next := h.least.1.1
  refine ⟨⟨⟨hle, fun hin => h.least.1.2 ((hsame next hle).mpr hin)⟩, fun n ⟨hstart, hnot⟩ => ?_⟩,
    fun n => ?_, h.increasing⟩
  · exact h.least.2 ⟨hstart, fun hin => hnot ((hsame n hstart).mp hin)⟩
  · rw [h.mem_iff]
    constructor
    · exact fun hn => ⟨(hsame n (by omega)).mp hn.1, hn.2⟩
    · exact fun hn => ⟨(hsame n (by omega)).mpr hn.1, hn.2⟩

/-- Nothing is pending at a position that has not been taken. -/
lemma Marks.of_not_mem (hnot : start ∉ taken) (hpending : ∀ n, n ∈ pending ↔ n ∈ taken ∧ start < n)
    (hincreasing : pending.Pairwise (· < ·)) : Marks start taken start pending :=
  ⟨⟨⟨le_rfl, hnot⟩, fun _ hn => hn.1⟩, hpending, hincreasing⟩

/-- The position itself was taken, so that the next one is looked at. -/
lemma Marks.of_succ (h : Marks (start + 1) taken next pending) :
    Marks start (insert start taken) next pending := by
  have hle : start + 1 ≤ next := h.least.1.1
  refine ⟨⟨⟨by omega, ?_⟩, fun m ⟨hstart, hnot⟩ => ?_⟩, fun m => ?_, h.increasing⟩
  · rintro (heq | hin)
    · omega
    · exact h.least.1.2 hin
  · have hne : m ≠ start := fun heq => hnot (.inl heq)
    exact h.least.2 ⟨by omega, fun hin => hnot (.inr hin)⟩
  · rw [h.mem_iff, Set.mem_insert_iff]
    constructor
    · exact fun hm => ⟨.inr hm.1, hm.2⟩
    · rintro ⟨rfl | hin, hgt⟩
      · omega
      · exact ⟨hin, hgt⟩

/-- A number below the watermark adds nothing. -/
lemma Marks.insert_below (h : Marks start taken next pending) (hlt : n < next) :
    Marks start (insert n taken) next pending := by
  refine ⟨⟨⟨h.least.1.1, ?_⟩, fun m hm => h.least.2 ⟨hm.1, fun hin => hm.2 (.inr hin)⟩⟩, fun m => ?_,
    h.increasing⟩
  · rintro (heq | hin)
    · omega
    · exact h.least.1.2 hin
  · rw [h.mem_iff]
    constructor
    · exact fun hm => ⟨.inr hm.1, hm.2⟩
    · rintro ⟨heq | hin, hgt⟩
      · omega
      · exact ⟨hin, hgt⟩

/-- From the watermark on only what is pending, and the new number, need be looked at. -/
lemma Marks.insert_above (h : Marks start taken next pending) {next' : Nat} {pending' : List Nat}
    (h' : Marks next (insert n {m | m ∈ pending}) next' pending') :
    Marks start (insert n taken) next' pending' := by
  have hle : next ≤ next' := h'.least.1.1
  have hpending : ∀ m, next < m → (m ∈ insert n {m | m ∈ pending} ↔ m ∈ insert n taken) := by
    intro m hm
    rw [Set.mem_insert_iff, Set.mem_insert_iff, Set.mem_ofPred_eq, h.mem_iff]
    tauto
  refine ⟨⟨⟨h.least.1.1.trans hle, fun hin => ?_⟩, fun m ⟨hstart, hnot⟩ => ?_⟩, fun m => ?_,
    h'.increasing⟩
  · -- the new watermark is not among the pending; below them only the old one is left
    rcases hle.lt_or_eq with hlt | rfl
    · exact h'.least.1.2 ((hpending next' hlt).mpr hin)
    · rcases hin with rfl | hin
      · exact h'.least.1.2 (.inl rfl)
      · exact h.least.1.2 hin
  · by_contra hlt
    rcases lt_trichotomy m next with hm | rfl | hm
    · exact hnot (.inr (h.below hstart hm))
    · exact hnot ((h'.below le_rfl (by omega)).imp_right fun hin => ((h.mem_iff _).mp hin).1)
    · exact hnot ((hpending m hm).mp (h'.below hm.le (by omega)))
  · rw [h'.mem_iff]
    constructor
    · exact fun hm => ⟨(hpending m (by omega)).mp hm.1, hm.2⟩
    · exact fun hm => ⟨(hpending m (by omega)).mpr hm.1, hm.2⟩

end

end Ech0.Lib
