/-
  Lists that are kept in the order of a key, with one entry for each.

  An insertion goes to the place of its key and replaces the entry that has it. On a list that is in
  order this says what becomes of the entries (`mem_insertKeyed`), and the list stays in order. Two lists
  that are kept by different keys hold the same entries as long as the keys tell the same entries apart
  (`mem_insertAll_congr`).
-/
import Mathlib.Data.List.Sort

set_option autoImplicit false

namespace Ech0.Lib

open List

variable {α κ μ : Type} [LinearOrder κ] [LinearOrder μ]

def insertKeyed (key : α → κ) (a : α) : List α → List α
  | [] => [a]
  | b :: rest =>
    if key b < key a then b :: insertKeyed key a rest
    else if key b = key a then a :: rest
    else a :: b :: rest

/-- In the order of the key, which no two entries share. -/
def KeyOrdered (key : α → κ) (l : List α) : Prop := l.Pairwise fun a b => key a < key b

variable {key : α → κ} {other : α → μ} {l acc acc' : List α} {a x : α}

lemma KeyOrdered.eq_of_key (h : KeyOrdered key l) {b : α} (ha : a ∈ l) (hb : b ∈ l)
    (hkey : key a = key b) : a = b := by
  have hnodup : (l.map key).Nodup := List.Pairwise.map key (fun _ _ hlt => ne_of_lt hlt) h
  exact inj_on_of_nodup_map hnodup ha hb hkey

lemma mem_insertKeyed (h : KeyOrdered key l) :
    x ∈ insertKeyed key a l ↔ x = a ∨ x ∈ l ∧ key x ≠ key a := by
  induction l with
  | nil => simp [insertKeyed]
  | cons b rest ih =>
    obtain ⟨hb, hrest⟩ := pairwise_cons.mp h
    rw [insertKeyed]
    split
    · next hlt =>
      have hne := hlt.ne
      rw [mem_cons, ih hrest]
      grind
    · next hle =>
      -- what follows is behind the key
      have hbehind : ∀ c ∈ rest, key c ≠ key a := fun c hc => ((not_lt.mp hle).trans_lt (hb c hc)).ne'
      split <;> grind

lemma KeyOrdered.insertKeyed (h : KeyOrdered key l) : KeyOrdered key (insertKeyed key a l) := by
  induction l with
  | nil => exact pairwise_singleton _ _
  | cons b rest ih =>
    obtain ⟨hb, hrest⟩ := pairwise_cons.mp h
    rw [Lib.insertKeyed]
    split
    · next hlt =>
      refine pairwise_cons.mpr ⟨fun c hc => ?_, ih hrest⟩
      rcases (mem_insertKeyed hrest).mp hc with rfl | ⟨hc, -⟩
      · exact hlt
      · exact hb c hc
    · next hle =>
      split
      · next heq => exact pairwise_cons.mpr ⟨fun c hc => heq ▸ hb c hc, hrest⟩
      · next hne =>
        have hlt : key a < key b := lt_of_le_of_ne (not_lt.mp hle) (Ne.symm hne)
        exact pairwise_cons.mpr ⟨forall_mem_cons.mpr ⟨hlt, fun c hc => hlt.trans (hb c hc)⟩, h⟩

/-- An entry behind all others goes to the end. -/
lemma insertKeyed_of_lt (h : ∀ b ∈ l, key b < key a) : insertKeyed key a l = l ++ [a] := by
  induction l with
  | nil => rfl
  | cons b rest ih =>
    rw [insertKeyed, if_pos (h b mem_cons_self), ih fun c hc => h c (mem_cons_of_mem b hc), cons_append]

/-! ## One after the other -/

def insertAll (key : α → κ) (acc l : List α) : List α := l.foldl (fun acc a => insertKeyed key a acc) acc

lemma KeyOrdered.insertAll (h : KeyOrdered key acc) (l : List α) : KeyOrdered key (insertAll key acc l) := by
  induction l generalizing acc with
  | nil => exact h
  | cons a rest ih => exact ih h.insertKeyed

/-- Entries that come in order are appended. -/
lemma insertAll_of_ordered (h : KeyOrdered key (acc ++ l)) : insertAll key acc l = acc ++ l := by
  induction l generalizing acc with
  | nil => exact (append_nil acc).symm
  | cons a rest ih =>
    have hlt : ∀ b ∈ acc, key b < key a := fun b hb => (pairwise_append.mp h).2.2 b hb a mem_cons_self
    rw [← singleton_append, ← append_assoc] at h ⊢
    rw [← ih h, ← insertKeyed_of_lt hlt]
    rfl

/-- Every key that was there or came is there. -/
lemma exists_mem_insertAll (h : KeyOrdered key acc) (hx : x ∈ acc ∨ x ∈ l) :
    ∃ a ∈ insertAll key acc l, key a = key x := by
  induction l generalizing acc x with
  | nil => exact ⟨x, hx.resolve_right not_mem_nil, rfl⟩
  | cons a rest ih =>
    by_cases hkey : key x = key a
    · rw [hkey]
      exact ih h.insertKeyed (.inl ((mem_insertKeyed h).mpr (.inl rfl)))
    · refine ih h.insertKeyed (hx.imp (fun hin => ?_) fun hin => ?_)
      · exact (mem_insertKeyed h).mpr (.inr ⟨hin, hkey⟩)
      · exact (mem_cons.mp hin).resolve_left fun heq => hkey (heq ▸ rfl)

lemma mem_of_mem_insertAll (h : KeyOrdered key acc) (hx : x ∈ insertAll key acc l) : x ∈ acc ∨ x ∈ l := by
  induction l generalizing acc with
  | nil => exact .inl hx
  | cons a rest ih =>
    rcases ih h.insertKeyed hx with hin | hin
    · rcases (mem_insertKeyed h).mp hin with rfl | ⟨hin, -⟩
      · exact .inr mem_cons_self
      · exact .inl hin
    · exact .inr (mem_cons_of_mem a hin)

/-- Keys that tell the same entries apart keep the same entries. -/
lemma mem_insertAll_congr (h : KeyOrdered key acc) (h' : KeyOrdered other acc')
    (hsame : ∀ x, x ∈ acc ↔ x ∈ acc')
    (hkeys : ∀ x ∈ acc ++ l, ∀ y ∈ l, key x = key y ↔ other x = other y) (x : α) :
    x ∈ insertAll key acc l ↔ x ∈ insertAll other acc' l := by
  induction l generalizing acc acc' with
  | nil => exact hsame x
  | cons a rest ih =>
    refine ih h.insertKeyed h'.insertKeyed (fun y => ?_) fun y hy z hz => ?_
    · rw [mem_insertKeyed h, mem_insertKeyed h', hsame]
      refine or_congr_right (and_congr_right fun hy => not_congr (hkeys y ?_ a mem_cons_self))
      exact mem_append_left _ ((hsame y).mpr hy)
    · refine hkeys y ?_ z (mem_cons_of_mem a hz)
      rcases mem_append.mp hy with hy | hy
      · rcases (mem_insertKeyed h).mp hy with rfl | ⟨hy, -⟩
        · exact mem_append_right _ mem_cons_self
        · exact mem_append_left _ hy
      · exact mem_append_right _ (mem_cons_of_mem a hy)

/-! ## Sorting -/

lemma pairwise_insertionSort_of_key (key : α → κ) {le : α → α → Bool}
    (hle : ∀ a b, le a b = true ↔ key a ≤ key b) (l : List α) :
    (l.insertionSort fun a b => le a b).Pairwise fun a b => le a b = true := by
  have htotal : Std.Total fun a b => le a b = true :=
    ⟨fun a b => by rw [hle, hle]; exact le_total _ _⟩
  have htrans : IsTrans α fun a b => le a b = true :=
    ⟨fun a b c => by rw [hle, hle, hle]; exact le_trans⟩
  exact pairwise_insertionSort _ l

end Ech0.Lib
