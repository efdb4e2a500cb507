/-
  Entries scattered over groups, and what the groups bring back.

  Entries with a position, a key and a value go into one group per key, in their order (`Grouped`).
  What a group makes of its entries is written back at the positions it saved. Different entries have
  different positions, so the writes of all groups can come in any order (`applyWrites`).
-/
import Mathlib.Data.List.Basic
import Mathlib.Data.List.Nodup
import Mathlib.Data.List.Pairwise

set_option autoImplicit false

namespace Ech0.Lib

open List

variable {κ α ι : Type}

/-! ## Groups -/

structure Entry (κ α : Type) where
  index : Nat
  key : κ
  value : α

structure EntryGroup (κ α : Type) where
  key : κ
  indexes : List Nat
  values : List α
  deriving DecidableEq

def EntryGroup.add (group : EntryGroup κ α) (entry : Entry κ α) : EntryGroup κ α :=
  { group with
    indexes := group.indexes ++ [entry.index], values := group.values ++ [entry.value] }

variable [DecidableEq κ]

/-- The entry goes to the group of its key, which is made if there is none. -/
def insertEntry (groups : List (EntryGroup κ α)) (entry : Entry κ α) : List (EntryGroup κ α) :=
  if groups.any fun group => group.key = entry.key then
    groups.map fun group => if group.key = entry.key then group.add entry else group
  else groups ++ [⟨entry.key, [entry.index], [entry.value]⟩]

/-- The entries of a key. -/
def entriesOf (key : κ) (entries : List (Entry κ α)) : List (Entry κ α) :=
  entries.filter fun entry => entry.key = key

lemma mem_entriesOf {key : κ} {entries : List (Entry κ α)} {entry : Entry κ α} :
    entry ∈ entriesOf key entries ↔ entry ∈ entries ∧ entry.key = key := by
  simp [entriesOf]

/-- Each key has one group, with the entries of the key in their order. -/
structure Grouped (entries : List (Entry κ α)) (groups : List (EntryGroup κ α)) : Prop where
  keys : (groups.map EntryGroup.key).Nodup
  covered : ∀ entry ∈ entries, ∃ group ∈ groups, group.key = entry.key
  indexes : ∀ group ∈ groups, group.indexes = (entriesOf group.key entries).map Entry.index
  values : ∀ group ∈ groups, group.values = (entriesOf group.key entries).map Entry.value

lemma grouped_nil : Grouped ([] : List (Entry κ α)) [] :=
  ⟨nodup_nil, fun _ h => absurd h not_mem_nil, fun _ h => absurd h not_mem_nil,
    fun _ h => absurd h not_mem_nil⟩

lemma entriesOf_concat (key : κ) (entries : List (Entry κ α)) (entry : Entry κ α) :
    entriesOf key (entries ++ [entry])
      = entriesOf key entries ++ if entry.key = key then [entry] else [] := by
  unfold entriesOf
  rw [filter_append]
  by_cases hkey : entry.key = key <;> simp [hkey]

lemma Grouped.insert {entries : List (Entry κ α)} {groups : List (EntryGroup κ α)}
    (h : Grouped entries groups) (entry : Entry κ α) :
    Grouped (entries ++ [entry]) (insertEntry groups entry) := by
  unfold insertEntry
  by_cases hany : (groups.any fun group => group.key = entry.key) = true
  · rw [if_pos hany]
    have hkey : ∀ group : EntryGroup κ α,
        (if group.key = entry.key then group.add entry else group).key = group.key := by
      intro group
      split <;> rfl
    refine ⟨?_, ?_, ?_, ?_⟩
    · rw [map_map]
      simpa [Function.comp_def, hkey] using h.keys
    · intro e he
      obtain ⟨group, hgroup, heq⟩ : ∃ group ∈ groups, group.key = e.key := by
        rcases mem_append.1 he with hold | hnew
        · exact h.covered e hold
        · obtain rfl := mem_singleton.1 hnew
          simpa using hany
      exact ⟨_, mem_map_of_mem hgroup, (hkey group).trans heq⟩
    · intro group hgroup
      obtain ⟨before, hbefore, rfl⟩ := mem_map.1 hgroup
      rw [hkey, entriesOf_concat, map_append]
      by_cases heq : before.key = entry.key
      · rw [if_pos heq, if_pos heq.symm, EntryGroup.add, h.indexes before hbefore]
        rfl
      · rw [if_neg heq, if_neg (Ne.symm heq), h.indexes before hbefore, map_nil,
          append_nil]
    · intro group hgroup
      obtain ⟨before, hbefore, rfl⟩ := mem_map.1 hgroup
      rw [hkey, entriesOf_concat, map_append]
      by_cases heq : before.key = entry.key
      · rw [if_pos heq, if_pos heq.symm, EntryGroup.add, h.values before hbefore]
        rfl
      · rw [if_neg heq, if_neg (Ne.symm heq), h.values before hbefore, map_nil,
          append_nil]
  · rw [if_neg hany]
    have hnew : ∀ group ∈ groups, group.key ≠ entry.key := by
      intro group hgroup heq
      exact hany (any_eq_true.2 ⟨group, hgroup, decide_eq_true heq⟩)
    have hnone : entriesOf entry.key entries = [] := by
      rw [entriesOf, filter_eq_nil_iff]
      intro e he heq
      obtain ⟨group, hgroup, hkey⟩ := h.covered e he
      exact hnew group hgroup (hkey.trans (of_decide_eq_true heq))
    refine ⟨?_, ?_, ?_, ?_⟩
    · rw [map_append, nodup_append']
      refine ⟨h.keys, nodup_singleton _, ?_⟩
      intro key hkey hentry
      obtain ⟨group, hgroup, rfl⟩ := mem_map.1 hkey
      exact hnew group hgroup (mem_singleton.1 hentry)
    · intro e he
      rcases mem_append.1 he with hold | hlast
      · obtain ⟨group, hgroup, hkey⟩ := h.covered e hold
        exact ⟨group, mem_append_left _ hgroup, hkey⟩
      · obtain rfl := mem_singleton.1 hlast
        exact ⟨_, mem_append_right _ (mem_singleton.2 rfl), rfl⟩
    · intro group hgroup
      rcases mem_append.1 hgroup with hold | hlast
      · rw [entriesOf_concat, if_neg (Ne.symm (hnew group hold)), append_nil]
        exact h.indexes group hold
      · obtain rfl := mem_singleton.1 hlast
        rw [entriesOf_concat, if_pos rfl, hnone]
        rfl
    · intro group hgroup
      rcases mem_append.1 hgroup with hold | hlast
      · rw [entriesOf_concat, if_neg (Ne.symm (hnew group hold)), append_nil]
        exact h.values group hold
      · obtain rfl := mem_singleton.1 hlast
        rw [entriesOf_concat, if_pos rfl, hnone]
        rfl

lemma Grouped.foldl {sofar : List (Entry κ α)} {groups : List (EntryGroup κ α)}
    (h : Grouped sofar groups) (entries : List (Entry κ α)) :
    Grouped (sofar ++ entries) (entries.foldl insertEntry groups) := by
  induction entries generalizing sofar groups with
  | nil => simpa using h
  | cons entry rest ih =>
    have := ih (h.insert entry)
    simpa using this

section Positions

variable {entries : List (Entry κ α)} {groups : List (EntryGroup κ α)}

/-- The positions of the entries rise. -/
def Rising (entries : List (Entry κ α)) : Prop := entries.Pairwise fun a b => a.index < b.index

omit [DecidableEq κ] in
lemma Rising.eq_of_index (hrising : Rising entries)
    {a b : Entry κ α} (ha : a ∈ entries) (hb : b ∈ entries) (hindex : a.index = b.index) : a = b := by
  have hnodup : (entries.map Entry.index).Nodup :=
    List.Pairwise.map _ (fun _ _ h => Nat.ne_of_lt h) hrising
  exact inj_on_of_nodup_map hnodup ha hb hindex

variable (h : Grouped entries groups)

include h

lemma Grouped.eq_of_key {group other : EntryGroup κ α} (hgroup : group ∈ groups)
    (hother : other ∈ groups) (hkey : group.key = other.key) :
    group = other :=
  inj_on_of_nodup_map h.keys hgroup hother hkey

lemma Grouped.mem_indexes {group : EntryGroup κ α}
    (hgroup : group ∈ groups) {index : Nat} (hindex : index ∈ group.indexes) :
    ∃ entry ∈ entries, entry.index = index ∧ entry.key = group.key := by
  rw [h.indexes group hgroup] at hindex
  obtain ⟨entry, hentry, rfl⟩ := mem_map.1 hindex
  exact ⟨entry, (mem_entriesOf.1 hentry).1, rfl, (mem_entriesOf.1 hentry).2⟩

lemma Grouped.rising (hrising : Rising entries)
    {group : EntryGroup κ α} (hgroup : group ∈ groups) : group.indexes.Pairwise (· < ·) := by
  rw [h.indexes group hgroup]
  exact List.Pairwise.map _ (fun _ _ h => h) (hrising.filter _)

/-- No position is in two groups, or twice in one. -/
lemma Grouped.nodup (hrising : Rising entries) :
    (groups.flatMap EntryGroup.indexes).Nodup := by
  rw [nodup_flatMap]
  refine ⟨fun group hgroup => ?_, ?_⟩
  · exact (h.rising hrising hgroup).imp fun hlt => Nat.ne_of_lt hlt
  · refine (pairwise_map.1 h.keys).imp_of_mem ?_
    intro group other hgroup hother hne index hindex hindex'
    obtain ⟨a, ha, hai, hak⟩ := h.mem_indexes hgroup hindex
    obtain ⟨b, hb, hbi, hbk⟩ := h.mem_indexes hother hindex'
    obtain rfl := hrising.eq_of_index ha hb (hai.trans hbi.symm)
    exact hne (hak.symm.trans hbk)

/-- Every entry has one place. -/
lemma Grouped.place {entry : Entry κ α} (hentry : entry ∈ entries) :
    ∃ group ∈ groups, group.key = entry.key ∧ ∃ k : Nat, group.indexes[k]? = some entry.index ∧
      group.values[k]? = some entry.value := by
  obtain ⟨group, hgroup, hkey⟩ := h.covered entry hentry
  obtain ⟨k, hk⟩ := mem_iff_getElem?.1 (mem_entriesOf.2 ⟨hentry, hkey.symm⟩)
  refine ⟨group, hgroup, hkey, k, ?_, ?_⟩
  · rw [h.indexes group hgroup, getElem?_map, hk]
    rfl
  · rw [h.values group hgroup, getElem?_map, hk]
    rfl

lemma Grouped.place_unique (hrising : Rising entries)
    {group other : EntryGroup κ α} (hgroup : group ∈ groups) (hother : other ∈ groups)
    {index k k' : Nat} (hk : group.indexes[k]? = some index)
    (hk' : other.indexes[k']? = some index) : other = group ∧ k' = k := by
  obtain ⟨a, ha, hai, hak⟩ := h.mem_indexes hgroup (mem_of_getElem? hk)
  obtain ⟨b, hb, hbi, hbk⟩ := h.mem_indexes hother (mem_of_getElem? hk')
  obtain rfl := hrising.eq_of_index ha hb (hai.trans hbi.symm)
  obtain rfl := h.eq_of_key hother hgroup (hbk.symm.trans hak)
  have hnodup : other.indexes.Nodup := (h.rising hrising hgroup).imp fun hlt => Nat.ne_of_lt hlt
  refine ⟨rfl, ?_⟩
  obtain ⟨hlt, -⟩ := List.getElem?_eq_some_iff.1 hk'
  exact (getElem?_inj hlt hnodup).1 (hk'.trans hk.symm)

end Positions

/-! ## Writes -/

/-- Changes at positions of a list, one after the other. -/
def applyWrites (items : List ι) (writes : List (Nat × (ι → ι))) : List ι :=
  writes.foldl (fun items write => items.modify write.1 write.2) items

lemma length_applyWrites (items : List ι) (writes : List (Nat × (ι → ι))) :
    (applyWrites items writes).length = items.length := by
  unfold applyWrites
  induction writes generalizing items with
  | nil => rfl
  | cons write rest ih => rw [foldl_cons, ih, length_modify]

lemma getElem?_applyWrites_of_not_mem {items : List ι} {writes : List (Nat × (ι → ι))} {i : Nat}
    (hi : i ∉ writes.map Prod.fst) : (applyWrites items writes)[i]? = items[i]? := by
  unfold applyWrites
  induction writes generalizing items with
  | nil => rfl
  | cons write rest ih =>
    simp only [map_cons, mem_cons, not_or] at hi
    rw [foldl_cons, ih hi.2, getElem?_modify_ne _ _ (Ne.symm hi.1)]

/-- A position that is written once. -/
lemma getElem?_applyWrites_of_mem {items : List ι} {writes : List (Nat × (ι → ι))}
    (hnodup : (writes.map Prod.fst).Nodup) {i : Nat} {f : ι → ι} (hmem : (i, f) ∈ writes) :
    (applyWrites items writes)[i]? = items[i]?.map f := by
  induction writes generalizing items with
  | nil => exact absurd hmem not_mem_nil
  | cons write rest ih =>
    rw [map_cons, nodup_cons] at hnodup
    change (applyWrites (items.modify write.1 write.2) rest)[i]? = _
    rcases mem_cons.1 hmem with rfl | hrest
    · rw [getElem?_applyWrites_of_not_mem hnodup.1, getElem?_modify_eq]
      rfl
    · have hne : write.1 ≠ i := by
        rintro rfl
        exact hnodup.1 (mem_map.2 ⟨_, hrest, rfl⟩)
      rw [ih hnodup.2 hrest, getElem?_modify_ne _ _ hne]

end Ech0.Lib
