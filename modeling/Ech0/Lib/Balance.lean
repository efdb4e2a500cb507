/-
  Loads, and moving them towards a range.

  Each of some holders has a load, which is to lie between `lo` and `hi`. What is missing to `lo` in
  all, and what is above `hi` in all, both go down by one when a unit is moved from a holder above the
  range to one below it. So moves of this kind bring every load into the range only if the two are
  equal from the start.
-/
import Mathlib

set_option autoImplicit false

namespace Ech0.Lib

variable {ι : Type} {ids : List ι} {load load' : ι → Nat} {lo hi : Nat}

/-- What the loads are below `lo`, in all. -/
def shortfall (lo : Nat) (ids : List ι) (load : ι → Nat) : Nat := (ids.map fun i => lo - load i).sum

/-- What the loads are above `hi`, in all. -/
def surplus (hi : Nat) (ids : List ι) (load : ι → Nat) : Nat := (ids.map fun i => load i - hi).sum

lemma shortfall_eq_zero : shortfall lo ids load = 0 ↔ ∀ i ∈ ids, lo ≤ load i := by
  unfold shortfall
  rw [List.sum_eq_zero_iff_forall_eq_nat]
  simp [Nat.sub_eq_zero_iff_le]

lemma surplus_eq_zero : surplus hi ids load = 0 ↔ ∀ i ∈ ids, load i ≤ hi := by
  unfold surplus
  rw [List.sum_eq_zero_iff_forall_eq_nat]
  simp [Nat.sub_eq_zero_iff_le]

lemma shortfall_le (lo : Nat) (ids : List ι) (load : ι → Nat) :
    shortfall lo ids load ≤ ids.length * lo := by
  have hle : shortfall lo ids load ≤ (ids.map fun i => lo - load i).length • lo := by
    apply List.sum_le_card_nsmul
    intro n hn
    obtain ⟨i, -, rfl⟩ := List.mem_map.mp hn
    exact Nat.sub_le _ _
  rw [List.length_map, smul_eq_mul] at hle
  exact hle

/-- A sum in which one term has become one smaller. -/
lemma sum_map_of_succ {f g : ι → Nat} {k : ι} (hnodup : ids.Nodup) (hk : k ∈ ids)
    (hothers : ∀ i ∈ ids, i ≠ k → g i = f i) (hsucc : f k = g k + 1) :
    (ids.map f).sum = (ids.map g).sum + 1 := by
  induction ids with
  | nil => cases hk
  | cons i rest ih =>
    obtain ⟨hnot, hrest⟩ := List.nodup_cons.mp hnodup
    rw [List.map_cons, List.map_cons, List.sum_cons, List.sum_cons]
    rcases List.mem_cons.mp hk with rfl | hk
    · have hsame : rest.map g = rest.map f := by
        apply List.map_congr_left
        intro j hj
        exact hothers j (List.mem_cons_of_mem _ hj) fun heq => hnot (heq ▸ hj)
      rw [hsame, hsucc]
      omega
    · have hne : i ≠ k := fun heq => hnot (heq ▸ hk)
      rw [ih hrest hk fun j hj => hothers j (List.mem_cons_of_mem _ hj),
        hothers i List.mem_cons_self hne]
      omega

/-- The target has one more. -/
structure Gives (load load' : ι → Nat) (target : ι) : Prop where
  gains : load' target = load target + 1
  others : ∀ i, i ≠ target → load' i = load i

/-- One unit has gone from the source to the target. -/
structure Moves (load load' : ι → Nat) (source target : ι) : Prop where
  apart : source ≠ target
  gains : load' target = load target + 1
  loses : load' source + 1 = load source
  others : ∀ i, i ≠ source → i ≠ target → load' i = load i

section
variable {source target : ι}

lemma Gives.shortfall_of_lt (h : Gives load load' target) (hnodup : ids.Nodup) (hin : target ∈ ids)
    (hlt : load target < lo) : shortfall lo ids load = shortfall lo ids load' + 1 := by
  apply sum_map_of_succ hnodup hin
  · intro i _ hne
    rw [h.others i hne]
  · rw [h.gains]
    omega

lemma Gives.shortfall_of_eq_zero (h : Gives load load' target) (hzero : shortfall lo ids load = 0) :
    shortfall lo ids load' = 0 := by
  rw [shortfall_eq_zero] at hzero ⊢
  intro i hi
  have hle := hzero i hi
  by_cases heq : i = target
  · rw [heq, h.gains]
    rw [heq] at hle
    omega
  · rw [h.others i heq]
    exact hle

lemma Gives.surplus_of_lt (h : Gives load load' target) (hlt : load target < hi) :
    surplus hi ids load' = surplus hi ids load := by
  unfold surplus
  congr 1
  apply List.map_congr_left
  intro i _
  by_cases heq : i = target
  · rw [heq, h.gains]
    omega
  · rw [h.others i heq]

lemma Moves.shortfall (h : Moves load load' source target) (hnodup : ids.Nodup) (hin : target ∈ ids)
    (hle : lo ≤ hi) (hlt : load target < lo) (hgt : hi < load source) :
    shortfall lo ids load = shortfall lo ids load' + 1 := by
  apply sum_map_of_succ hnodup hin
  · intro i _ hne
    by_cases heq : i = source
    · have := h.loses
      subst heq
      omega
    · rw [h.others i heq hne]
  · rw [h.gains]
    omega

lemma Moves.surplus (h : Moves load load' source target) (hnodup : ids.Nodup) (hin : source ∈ ids)
    (hle : lo ≤ hi) (hlt : load target < lo) (hgt : hi < load source) :
    surplus hi ids load = surplus hi ids load' + 1 := by
  apply sum_map_of_succ hnodup hin
  · intro i _ hne
    by_cases heq : i = target
    · have := h.gains
      subst heq
      omega
    · rw [h.others i hne heq]
  · have := h.loses
    omega

end

/-- Fewer units than fill every holder to `hi` leave one below it. -/
lemma exists_lt_of_sum_lt (h : (ids.map load).sum < ids.length * hi) : ∃ i ∈ ids, load i < hi := by
  by_contra hnone
  push Not at hnone
  have hle : (ids.map load).length • hi ≤ (ids.map load).sum := by
    apply List.card_nsmul_le_sum
    intro n hn
    obtain ⟨i, hi, rfl⟩ := List.mem_map.mp hn
    exact hnone i hi
  rw [List.length_map, smul_eq_mul] at hle
  omega

end Ech0.Lib
