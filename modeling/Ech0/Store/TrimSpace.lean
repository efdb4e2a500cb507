/-
  What `strings.TrimSpace` gives: a text with no white space at its ends, and the text itself if
  there was none.

  A white space character is known by its UTF-8 encoding, so the ends are compared byte by byte with
  fourteen and eleven encodings. None of them has the byte of a character like `/` or `.`, and
  nothing is trimmed across such a character.
-/
import Ech0.Store.Memory

set_option autoImplicit false

namespace Ech0.Store

open List

/-- The text as byte values. -/
def byteValues (text : String) : List Nat := text.toList.map Char.toNat

/-- There is no white space at the ends. -/
def Trimmed (text : String) : Prop :=
  ∀ encoding ∈ spaceEncodings, ¬ encoding <+: byteValues text ∧ ¬ encoding <:+ byteValues text

/-! ## One end -/

lemma trimFront_suffix (encodings : List (List Nat)) (fuel : Nat) (text : List Char) :
    trimFront encodings fuel text <:+ text := by
  induction fuel generalizing text with
  | zero => exact suffix_refl text
  | succ fuel ih =>
    rw [trimFront]
    split
    · exact (ih _).trans (drop_suffix _ text)
    · exact suffix_refl text

/-- Every round but the last drops something, so the length of the text is enough fuel. -/
lemma not_isPrefix_trimFront {encodings : List (List Nat)} (hne : [] ∉ encodings) {fuel : Nat}
    {text : List Char} (hfuel : text.length ≤ fuel) {encoding : List Nat}
    (hmem : encoding ∈ encodings) :
    ¬ encoding <+: (trimFront encodings fuel text).map Char.toNat := by
  induction fuel generalizing text with
  | zero =>
    rw [eq_nil_of_length_eq_zero (Nat.le_zero.mp hfuel), trimFront, map_nil]
    intro hpre
    exact hne (prefix_nil.mp hpre ▸ hmem)
  | succ fuel ih =>
    rw [trimFront]
    split
    · next found hfound =>
      have hfoundMem := mem_of_find?_eq_some hfound
      have hpos : 0 < found.length :=
        length_pos_iff.mpr fun hnil => hne (hnil ▸ hfoundMem)
      refine ih ?_
      rw [length_drop]
      omega
    · next hnone =>
      intro hpre
      have hnot := find?_eq_none.mp hnone encoding hmem
      exact hnot (List.isPrefixOf_iff_prefix.mpr hpre)

lemma trimFront_eq_self {encodings : List (List Nat)} (fuel : Nat) {text : List Char}
    (h : ∀ encoding ∈ encodings, ¬ encoding <+: text.map Char.toNat) :
    trimFront encodings fuel text = text := by
  cases fuel with
  | zero => rfl
  | succ fuel =>
    have hnone : encodings.find? (fun encoding => encoding.isPrefixOf (text.map Char.toNat))
        = none := find?_eq_none.mpr fun encoding hmem hpre =>
      h encoding hmem (List.isPrefixOf_iff_prefix.mp hpre)
    rw [trimFront, hnone]

/-! ## Both ends -/

lemma nil_not_mem_spaceEncodings : [] ∉ spaceEncodings := by decide

/-- **What is left** has no white space at its ends. -/
theorem trimmed_trimSpace (text : String) : Trimmed (trimSpace text) := by
  intro encoding hmem
  rw [byteValues, trimSpace, String.toList_ofList]
  generalize hfront : trimFront spaceEncodings text.length text.toList = front
  have hlength : front.length ≤ text.length := by
    rw [← hfront, ← String.length_toList]
    exact (trimFront_suffix _ _ _).length_le
  constructor
  · -- the front of what is left is the front of what the first pass left
    intro hpre
    have hback := trimFront_suffix (spaceEncodings.map List.reverse) text.length front.reverse
    have hfrontPre := (List.reverse_prefix.mpr hback).map Char.toNat
    rw [reverse_reverse] at hfrontPre
    refine not_isPrefix_trimFront nil_not_mem_spaceEncodings
      (Nat.le_of_eq (String.length_toList (s := text))) hmem ?_
    rw [hfront]
    exact hpre.trans hfrontPre
  · intro hsuf
    have hrev : ([] : List Nat) ∉ spaceEncodings.map List.reverse := by decide
    have hfuel : front.reverse.length ≤ text.length := by
      rw [length_reverse]
      exact hlength
    refine not_isPrefix_trimFront hrev hfuel (mem_map_of_mem hmem) ?_
    rw [map_reverse] at hsuf
    exact reverse_suffix.mp (by rw [reverse_reverse]; exact hsuf)

lemma Trimmed.trimSpace_eq {text : String} (h : Trimmed text) : trimSpace text = text := by
  have hfront : trimFront spaceEncodings text.length text.toList = text.toList :=
    trimFront_eq_self _ fun encoding hmem => (h encoding hmem).1
  have hback : trimFront (spaceEncodings.map List.reverse) text.length text.toList.reverse
      = text.toList.reverse := by
    refine trimFront_eq_self _ fun encoding hmem hpre => ?_
    obtain ⟨original, horiginal, rfl⟩ := mem_map.mp hmem
    rw [map_reverse] at hpre
    exact (h original horiginal).2 (List.reverse_prefix.mp hpre)
  rw [trimSpace, hfront, hback, reverse_reverse, String.ofList_toList]

@[simp] lemma trimSpace_trimSpace (text : String) : trimSpace (trimSpace text) = trimSpace text :=
  (trimmed_trimSpace text).trimSpace_eq

/-! ## Text behind a fixed beginning -/

/-- The character is no part of a white space encoding. -/
def NoSpace (c : Char) : Prop := ∀ encoding ∈ spaceEncodings, c.toNat ∉ encoding

instance (c : Char) : Decidable (NoSpace c) :=
  inferInstanceAs (Decidable (∀ encoding ∈ spaceEncodings, c.toNat ∉ encoding))

/-- A beginning whose first and last characters are no white space. -/
structure FirmStart (start : String) : Prop where
  first : ∃ c rest, start.toList = c :: rest ∧ NoSpace c
  last : ∃ c rest, start.toList = rest ++ [c] ∧ NoSpace c

lemma FirmStart.trimmed_append {start text : String} (h : FirmStart start) (ht : Trimmed text) :
    Trimmed (start ++ text) := by
  intro encoding hmem
  rw [byteValues, String.toList_append, map_append]
  have hne : encoding ≠ [] := fun hnil => nil_not_mem_spaceEncodings (hnil ▸ hmem)
  constructor
  · obtain ⟨c, rest, hstart, hc⟩ := h.first
    rw [hstart]
    intro hpre
    obtain ⟨head, tail, rfl⟩ := exists_cons_of_ne_nil hne
    have hhead := (cons_prefix_cons.mp hpre).1
    exact hc _ hmem (hhead ▸ mem_cons_self)
  · obtain ⟨c, rest, hstart, hc⟩ := h.last
    rw [hstart]
    intro hsuf
    -- the encoding lies in the text, or reaches back to the last character of the beginning
    rcases suffix_or_suffix_of_suffix hsuf (suffix_append _ _) with hin | hback
    · exact (ht encoding hmem).2 hin
    · obtain ⟨before, rfl⟩ := hback
      cases before using List.reverseRecOn with
      | nil => exact (ht _ hmem).2 (suffix_refl _)
      | append_singleton before d =>
        obtain ⟨front, hfront⟩ := suffix_append_self_iff.mp hsuf
        have hd : d = c.toNat := by simpa using congrArg List.getLast? hfront
        exact hc _ hmem (mem_append_left _ (hd ▸ mem_concat_self))

end Ech0.Store
