/-
  Finite maps with extensional equality, and insertion-ordered maps.

  A keyed collection is `Std.ExtTreeMap` over a lawful order on the keys: two maps with
  the same bindings are equal, so a statement that two states agree is an equation and not
  a bisimulation up to the shape of a tree. The lemmas here restate the lookup rules of
  that library with `k = a` in place of `compare k a = .eq`, which is the only form the
  proofs above use.

  The second structure keeps its keys in the order of their first insertion. Its
  well-formedness (no key twice) is a field, so the fold over its entries never needs a
  side condition.
-/
import Mathlib

set_option autoImplicit false

namespace Ech0.Lib

lemma map_eq_self_iff {α : Type} {f : α → α} {l : List α} : l.map f = l ↔ ∀ a ∈ l, f a = a := by
  have h := @List.map_inj_left _ _ l f id
  rwa [List.map_id] at h

open List

/-- A finite map: the bindings and nothing else. -/
abbrev Map (K V : Type) [Ord K] : Type := Std.ExtTreeMap K V compare

namespace Map

section
variable {K V : Type} [Ord K] [Std.TransOrd K] [Std.LawfulEqOrd K]

lemma get_insert (m : Map K V) (k a : K) (v : V) [Decidable (k = a)] :
    (m.insert k v)[a]? = if k = a then some v else m[a]? := by
  rw [Std.ExtTreeMap.getElem?_insert]
  by_cases h : k = a
  · rw [if_pos h, if_pos (Std.LawfulEqOrd.compare_eq_iff_eq.mpr h)]
  · rw [if_neg h, if_neg (fun hc => h (Std.LawfulEqOrd.compare_eq_iff_eq.mp hc))]

@[simp] lemma get_insert_self (m : Map K V) (k : K) (v : V) : (m.insert k v)[k]? = some v := by
  simp

lemma get_insert_of_ne (m : Map K V) {k a : K} (v : V) (h : k ≠ a) :
    (m.insert k v)[a]? = m[a]? := by
  classical
  rw [get_insert, if_neg h]

lemma get_insert_eq_some {m : Map K V} {k a : K} {v found : V} (h : (m.insert k v)[a]? = some found) :
    k = a ∧ v = found ∨ k ≠ a ∧ m[a]? = some found := by
  classical
  rw [get_insert] at h
  split at h
  · next heq => exact .inl ⟨heq, Option.some.inj h⟩
  · next hne => exact .inr ⟨hne, h⟩

lemma get_erase (m : Map K V) (k a : K) [Decidable (k = a)] :
    (m.erase k)[a]? = if k = a then none else m[a]? := by
  rw [Std.ExtTreeMap.getElem?_erase]
  by_cases h : k = a
  · rw [if_pos h, if_pos (Std.LawfulEqOrd.compare_eq_iff_eq.mpr h)]
  · rw [if_neg h, if_neg (fun hc => h (Std.LawfulEqOrd.compare_eq_iff_eq.mp hc))]

omit [Std.LawfulEqOrd K] in
lemma contains_iff (m : Map K V) (k : K) : m.contains k = true ↔ ∃ v, m[k]? = some v := by
  rw [Std.ExtTreeMap.contains_eq_isSome_getElem?, Option.isSome_iff_exists]

omit [Std.LawfulEqOrd K] in
lemma contains_eq_false_iff (m : Map K V) (k : K) : m.contains k = false ↔ m[k]? = none := by
  rw [Std.ExtTreeMap.contains_eq_isSome_getElem?, Option.isSome_eq_false_iff,
    Option.isNone_iff_eq_none]

/-- A key that gets a value if it has none. -/
lemma get_ite_insert [DecidableEq K] (m : Map K V) (k a : K) (v : V) :
    (if m.contains k then m else m.insert k v)[a]? = if k = a then some ((m[a]?).getD v) else m[a]? := by
  split
  · next hc =>
    obtain ⟨value, hget⟩ := (contains_iff _ _).mp hc
    split
    · next heq => rw [← heq, hget, Option.getD_some]
    · rfl
  · next hc =>
    rw [Bool.not_eq_true, contains_eq_false_iff] at hc
    rw [get_insert]
    split
    · next heq => rw [← heq, hc, Option.getD_none]
    · rfl

/-- Two maps with the same lookups are the same map. -/
lemma ext_get {m1 m2 : Map K V} (h : ∀ a : K, m1[a]? = m2[a]?) : m1 = m2 :=
  Std.ExtTreeMap.ext_getElem? h

/-- Writing the value a key already has changes nothing. -/
lemma insert_eq_self (m : Map K V) (k : K) (v : V) (h : m[k]? = some v) : m.insert k v = m := by
  classical
  apply ext_get
  intro a
  rw [get_insert]
  by_cases hk : k = a
  · rw [if_pos hk, ← hk, h]
  · rw [if_neg hk]

lemma mem_toList (m : Map K V) (k : K) (v : V) : (k, v) ∈ m.toList ↔ m[k]? = some v :=
  Std.ExtTreeMap.mem_toList_iff_getElem?_eq_some

lemma nodup_keys (m : Map K V) : (m.toList.map Prod.fst).Nodup := by
  refine List.Pairwise.map _ (fun e1 e2 h heq => h ?_) m.distinct_keys_toList
  exact Std.LawfulEqOrd.compare_eq_iff_eq.mpr heq

section
variable {α : Type} (key : α → K) (value : α → V)

/-- The loop `for a := range l { m[key(a)] = value(a) }`. -/
def setEach (l : List α) (m : Map K V) : Map K V :=
  l.foldl (fun m a => m.insert (key a) (value a)) m

lemma get_setEach_of_not_mem {l : List α} (m : Map K V) {k : K} (h : ∀ a ∈ l, key a ≠ k) :
    (setEach key value l m)[k]? = m[k]? := by
  induction l generalizing m with
  | nil => rfl
  | cons a rest ih =>
    rw [setEach, foldl_cons]
    have hrest := ih (m.insert (key a) (value a)) fun b hb => h b (mem_cons_of_mem a hb)
    rw [setEach] at hrest
    rw [hrest, get_insert_of_ne _ _ (h a mem_cons_self)]

lemma get_setEach_of_mem {l : List α} (m : Map K V) {a : α} (ha : a ∈ l)
    (hnodup : (l.map key).Nodup) : (setEach key value l m)[key a]? = some (value a) := by
  induction l generalizing m with
  | nil => cases ha
  | cons b rest ih =>
    rw [map_cons, nodup_cons] at hnodup
    rcases mem_cons.mp ha with rfl | hrest
    · have hlater : ∀ c ∈ rest, key c ≠ key a := fun c hc heq =>
        hnodup.1 (heq ▸ mem_map_of_mem hc)
      have hlast := get_setEach_of_not_mem key value (m.insert (key a) (value a)) hlater
      rw [setEach, foldl_cons]
      rw [setEach] at hlast
      rw [hlast, get_insert_self]
    · exact ih (m.insert (key b) (value b)) hrest hnodup.2

/-- All values come out under their keys. -/
lemma get_setEach_iff {l : List α} (hnodup : (l.map key).Nodup) (k : K) (v : V) :
    (setEach key value l ∅)[k]? = some v ↔ ∃ a ∈ l, key a = k ∧ value a = v := by
  constructor
  · intro h
    by_cases hmem : ∃ a ∈ l, key a = k
    · obtain ⟨a, ha, rfl⟩ := hmem
      rw [get_setEach_of_mem key value ∅ ha hnodup, Option.some.injEq] at h
      exact ⟨a, ha, rfl, h⟩
    · rw [get_setEach_of_not_mem key value ∅ fun a ha heq => hmem ⟨a, ha, heq⟩] at h
      simp at h
  · rintro ⟨a, ha, rfl, rfl⟩
    exact get_setEach_of_mem key value ∅ ha hnodup

end

section
variable {α : Type} (entry : α → Option (K × V))

/-- A loop that writes an entry in some of its rounds. -/
def setSome (l : List α) (m : Map K V) : Map K V :=
  l.foldl (fun m a =>
    match entry a with
    | some e => m.insert e.1 e.2
    | none => m) m

omit [Std.LawfulEqOrd K] in
lemma setSome_eq_setEach (l : List α) (m : Map K V) :
    setSome entry l m = setEach Prod.fst Prod.snd (l.filterMap entry) m := by
  induction l generalizing m with
  | nil => rfl
  | cons a rest ih =>
    rw [setSome, foldl_cons]
    cases hentry : entry a with
    | none =>
      rw [filterMap_cons_none hentry]
      exact ih m
    | some e =>
      rw [filterMap_cons_some hentry]
      exact ih (m.insert e.1 e.2)

lemma get_setSome_of_not_mem {l : List α} (m : Map K V) {k : K}
    (h : ∀ a ∈ l, ∀ v, entry a ≠ some (k, v)) : (setSome entry l m)[k]? = m[k]? := by
  rw [setSome_eq_setEach]
  refine get_setEach_of_not_mem _ _ m ?_
  rintro ⟨k', v⟩ he rfl
  obtain ⟨a, ha, hentry⟩ := mem_filterMap.mp he
  exact h a ha v hentry

lemma get_setSome_of_mem {l : List α} (m : Map K V) {a : α} (ha : a ∈ l) {k : K} {v : V}
    (hentry : entry a = some (k, v)) (hnodup : ((l.filterMap entry).map Prod.fst).Nodup) :
    (setSome entry l m)[k]? = some v := by
  rw [setSome_eq_setEach]
  exact get_setEach_of_mem Prod.fst Prod.snd m (mem_filterMap.mpr ⟨a, ha, hentry⟩) hnodup

end

/-- One map written over another. -/
lemma get_setEach_toList (m1 m : Map K V) (k : K) :
    (setEach Prod.fst Prod.snd m1.toList m)[k]? = (m1[k]?).or m[k]? := by
  cases hget : m1[k]? with
  | none =>
    rw [get_setEach_of_not_mem, Option.none_or]
    rintro ⟨k', v⟩ he rfl
    rw [(mem_toList m1 _ _).mp he] at hget
    cases hget
  | some v =>
    exact get_setEach_of_mem Prod.fst Prod.snd m ((mem_toList m1 k v).mpr hget) m1.nodup_keys

/-! ## Tables whose values carry their keys -/

/-- Every value stands under its own key and satisfies `ok`. -/
def KeyedBy (key : V → K) (ok : V → Prop) (m : Map K V) : Prop :=
  ∀ k v, m[k]? = some v → key v = k ∧ ok v

variable {key : V → K} {ok : V → Prop} {m : Map K V}

omit [Std.LawfulEqOrd K] in
lemma KeyedBy.empty : KeyedBy key ok ∅ := by
  intro k v h
  simp at h

lemma KeyedBy.insert (h : KeyedBy key ok m) {v : V} (hv : ok v) :
    KeyedBy key ok (m.insert (key v) v) := by
  classical
  intro k' v' hget
  rw [get_insert] at hget
  split at hget
  · next heq =>
    cases hget
    exact ⟨heq, hv⟩
  · exact h k' v' hget

lemma KeyedBy.erase (h : KeyedBy key ok m) (k : K) : KeyedBy key ok (m.erase k) := by
  classical
  intro k' v' hget
  rw [get_erase] at hget
  split at hget
  · cases hget
  · exact h k' v' hget

lemma KeyedBy.filter (h : KeyedBy key ok m) (f : K → V → Bool) : KeyedBy key ok (m.filter f) := by
  intro k v hget
  rw [Std.ExtTreeMap.getElem?_filter', Option.filter_eq_some_iff] at hget
  exact h k v hget.1

/-- The keys of the values, in whatever order the values are listed. -/
lemma KeyedBy.nodup_of_perm (h : KeyedBy key ok m) {l : List V}
    (hl : l.Perm (m.toList.map Prod.snd)) : (l.map key).Nodup := by
  refine ((hl.map key).nodup_iff).mpr ?_
  have hkeys : (m.toList.map Prod.snd).map key = m.toList.map Prod.fst := by
    rw [map_map]
    refine map_congr_left fun e he => ?_
    exact (h e.1 e.2 ((mem_toList m _ _).mp he)).1
  rw [hkeys]
  exact m.nodup_keys

/-- The values of a table, listed in any order and written over another table. -/
lemma KeyedBy.get_setSome (h : KeyedBy key ok m) {l : List V}
    (hl : l.Perm (m.toList.map Prod.snd)) (entry : V → Option (K × V))
    (hentry : ∀ v, ok v → entry v = some (key v, v)) (base : Map K V) (k : K) :
    (setSome entry l base)[k]? = (m[k]?).or base[k]? := by
  have hmem : ∀ v ∈ l, m[key v]? = some v ∧ entry v = some (key v, v) := by
    intro v hv
    obtain ⟨e, he, rfl⟩ := mem_map.mp (hl.mem_iff.mp hv)
    have hget := (mem_toList m e.1 e.2).mp he
    obtain ⟨hkey, hok⟩ := h _ _ hget
    exact ⟨hkey ▸ hget, hentry _ hok⟩
  have hnodup : ((l.filterMap entry).map Prod.fst).Nodup := by
    have hmap : (l.filterMap entry).map Prod.fst = l.map key := by
      rw [map_filterMap, ← filterMap_eq_map]
      refine filterMap_congr fun v hv => ?_
      rw [(hmem v hv).2]
      rfl
    rw [hmap]
    exact h.nodup_of_perm hl
  cases hget : m[k]? with
  | some v =>
    have hkey := (h k v hget).1
    have hv : v ∈ l := hl.mem_iff.mpr (mem_map.mpr ⟨(k, v), (mem_toList m k v).mpr hget, rfl⟩)
    exact get_setSome_of_mem entry base hv (by rw [(hmem v hv).2, hkey]) hnodup
  | none =>
    rw [get_setSome_of_not_mem, Option.none_or]
    intro v hv v' heq
    rw [(hmem v hv).2] at heq
    cases heq
    rw [(hmem v hv).1] at hget
    cases hget

/-- **A table is rebuilt from its values**, listed in any order. -/
theorem KeyedBy.setSome_eq (h : KeyedBy key ok m) {l : List V}
    (hl : l.Perm (m.toList.map Prod.snd)) (entry : V → Option (K × V))
    (hentry : ∀ v, ok v → entry v = some (key v, v)) : setSome entry l ∅ = m := by
  apply ext_get
  intro k
  rw [h.get_setSome hl entry hentry]
  simp

end

end Map

/-! ## Insertion-ordered maps -/

/-- A list of bindings, each key once, in the order in which the keys were first set. -/
structure OrderedMap (K V : Type) where
  entries : List (K × V)
  nodup : (entries.map Prod.fst).Nodup

namespace OrderedMap

variable {K V : Type} [DecidableEq K]

/-- Replace the value of `k` in place, or add the binding at the end. -/
def setEntries (k : K) (v : V) : List (K × V) → List (K × V)
  | [] => [(k, v)]
  | e :: es => if e.1 = k then (k, v) :: es else e :: setEntries k v es

lemma mem_keys_setEntries (k a : K) (v : V) (es : List (K × V)) :
    a ∈ (setEntries k v es).map Prod.fst ↔ a = k ∨ a ∈ es.map Prod.fst := by
  induction es with
  | nil => simp [setEntries]
  | cons e es ih =>
    by_cases h : e.1 = k
    · rw [setEntries, if_pos h, map_cons, map_cons, mem_cons, mem_cons, h]
      tauto
    · simp only [setEntries, if_neg h, map_cons, mem_cons, ih]
      tauto

lemma nodup_setEntries (k : K) (v : V) (es : List (K × V))
    (hes : (es.map Prod.fst).Nodup) : ((setEntries k v es).map Prod.fst).Nodup := by
  induction es with
  | nil => simp [setEntries]
  | cons e es ih =>
    rw [map_cons, nodup_cons] at hes
    by_cases h : e.1 = k
    · rw [setEntries, if_pos h, map_cons, nodup_cons]
      exact h ▸ hes
    · simp only [setEntries, if_neg h, map_cons, nodup_cons]
      refine ⟨?_, ih hes.2⟩
      rw [mem_keys_setEntries]
      rintro (hk | hmem)
      · exact h hk
      · exact hes.1 hmem

def empty : OrderedMap K V := ⟨[], List.nodup_nil⟩

def set (m : OrderedMap K V) (k : K) (v : V) : OrderedMap K V :=
  ⟨setEntries k v m.entries, nodup_setEntries k v m.entries m.nodup⟩

def get? (m : OrderedMap K V) (k : K) : Option V :=
  (m.entries.find? (fun e => e.1 = k)).map Prod.snd

def values (m : OrderedMap K V) : List V := m.entries.map Prod.snd

lemma find_setEntries (k a : K) (v : V) (es : List (K × V)) :
    ((setEntries k v es).find? (fun e => e.1 = a)).map Prod.snd
      = if k = a then some v else (es.find? (fun e => e.1 = a)).map Prod.snd := by
  induction es with
  | nil => by_cases h : k = a <;> simp [setEntries, h]
  | cons e es ih =>
    by_cases he : e.1 = k
    · by_cases h : k = a
      · simp [setEntries, he, h]
      · simp [setEntries, he, h]
    · by_cases hea : e.1 = a
      · have h : ¬ k = a := fun h => he (hea.trans h.symm)
        rw [setEntries, if_neg he, if_neg h]
        simp [hea]
      · simp only [setEntries, if_neg he, find?_cons, hea, decide_false, ih]

lemma get_set (m : OrderedMap K V) (k a : K) (v : V) :
    (m.set k v).get? a = if k = a then some v else m.get? a :=
  find_setEntries k a v m.entries

@[simp] lemma get_empty (a : K) : (empty : OrderedMap K V).get? a = none := rfl

lemma mem_entries_iff (m : OrderedMap K V) (k : K) (v : V) :
    (k, v) ∈ m.entries ↔ m.get? k = some v := by
  obtain ⟨entries, hnodup⟩ := m
  unfold get?
  dsimp only
  induction entries with
  | nil => simp
  | cons e rest ih =>
    rw [map_cons, nodup_cons] at hnodup
    obtain ⟨k', v'⟩ := e
    rw [find?_cons, mem_cons, ih hnodup.2]
    by_cases heq : k' = k
    · subst heq
      have habsent : ¬ (Option.map Prod.snd (rest.find? fun e => e.1 = k')) = some v := by
        rw [← ih hnodup.2]
        exact fun hmem => hnodup.1 (mem_map.mpr ⟨_, hmem, rfl⟩)
      simp only [decide_true, Option.map_some, Option.some.injEq, Prod.mk.injEq, true_and]
      constructor
      · rintro (rfl | h)
        · rfl
        · exact absurd h habsent
      · intro h
        exact Or.inl h.symm
    · simp [heq, Ne.symm heq]

end OrderedMap

end Ech0.Lib
