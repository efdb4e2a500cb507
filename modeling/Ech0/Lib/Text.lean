/-
  Texts put together from parts and taken apart again: a text behind a fixed beginning, a text cut
  at a separator, and bytes written as hexadecimal digits.

  Each operation comes with the equation that says when it gives what. A text whose parts do not
  contain the separator is then read back by cutting it as often as it has parts.
-/
import Mathlib.Data.List.TakeWhile

set_option autoImplicit false

namespace Ech0.Lib

/-! ## Beginnings and separators -/

/-- What follows a given beginning. -/
def cutPrefix (text start : String) : Option String :=
  if start.toList.isPrefixOf text.toList then
    some (String.ofList (text.toList.drop start.length))
  else none

/-- What stands before and after the first separator. -/
def cutAt (separator : Char) (text : String) : Option (String × String) :=
  match text.toList.dropWhile (fun c => c ≠ separator) with
  | [] => none
  | _ :: after =>
    some (String.ofList (text.toList.takeWhile fun c => c ≠ separator), String.ofList after)

lemma cutPrefix_append (start rest : String) : cutPrefix (start ++ rest) start = some rest := by
  unfold cutPrefix
  rw [if_pos (by simp), String.toList_append, ← String.length_toList, List.drop_left,
    String.ofList_toList]

lemma cutPrefix_eq_some_iff (text start rest : String) :
    cutPrefix text start = some rest ↔ text = start ++ rest := by
  constructor
  · intro h
    unfold cutPrefix at h
    split at h
    · next hstart =>
      obtain ⟨tail, htail⟩ := List.isPrefixOf_iff_prefix.mp hstart
      rw [← htail, ← String.length_toList, List.drop_left] at h
      cases h
      rw [← String.toList_inj, String.toList_append, String.toList_ofList, htail]
    · cases h
  · rintro rfl
    exact cutPrefix_append start rest

lemma cutPrefix_eq_none {text start : String} (h : ¬ start.toList <+: text.toList) :
    cutPrefix text start = none := by
  unfold cutPrefix
  rw [if_neg (fun hstart => h (List.isPrefixOf_iff_prefix.mp hstart))]

lemma cutAt_eq_some_iff (separator : Char) (text before after : String) :
    cutAt separator text = some (before, after) ↔
      text.toList = before.toList ++ separator :: after.toList ∧ separator ∉ before.toList := by
  unfold cutAt
  constructor
  · intro h
    cases hdrop : text.toList.dropWhile (fun c => c ≠ separator) with
    | nil =>
      rw [hdrop] at h
      cases h
    | cons c rest =>
      rw [hdrop] at h
      cases h
      have hc : c = separator := by
        have hnot := List.head_dropWhile_not (p := fun c => decide (c ≠ separator))
          (by rw [hdrop]; exact List.cons_ne_nil c rest)
        simp only [hdrop, List.head_cons] at hnot
        simpa using hnot
      subst hc
      rw [String.toList_ofList, String.toList_ofList]
      refine ⟨?_, fun hmem => ?_⟩
      · rw [← hdrop, List.takeWhile_append_dropWhile]
      · simpa using List.mem_takeWhile_imp hmem
  · rintro ⟨htext, hnot⟩
    have hbefore : ∀ c ∈ before.toList, (decide (c ≠ separator)) = true := fun c hc =>
      decide_eq_true fun heq => hnot (heq ▸ hc)
    rw [htext, List.takeWhile_append_of_pos hbefore, List.dropWhile_append_of_pos hbefore]
    simp

/-! ## Hexadecimal digits -/

/-- A byte as two digits in lower case. -/
def hexPair (byte : UInt8) : List Char :=
  [Nat.digitChar (byte.toNat / 16), Nat.digitChar (byte.toNat % 16)]

def hexEncode (bytes : List UInt8) : String := String.ofList (bytes.flatMap hexPair)

lemma digitChar_inj {m n : Nat} (hm : m < 16) (hn : n < 16)
    (h : Nat.digitChar m = Nat.digitChar n) : m = n := by
  have hall : ∀ m n : Fin 16, Nat.digitChar m = Nat.digitChar n → m = n := by decide
  exact congrArg Fin.val (hall ⟨m, hm⟩ ⟨n, hn⟩ h)

lemma hexPair_inj {a b : UInt8} (h : hexPair a = hexPair b) : a = b := by
  rw [hexPair, hexPair, List.cons.injEq, List.cons.injEq] at h
  have ha := a.toNat_lt
  have hb := b.toNat_lt
  have hhigh := digitChar_inj (by omega) (by omega) h.1
  have hlow := digitChar_inj (by omega) (by omega) h.2.1
  exact UInt8.toNat_inj.mp (by omega)

lemma hexEncode_injective : Function.Injective hexEncode := by
  intro xs ys h
  have hchars : xs.flatMap hexPair = ys.flatMap hexPair := by
    simpa [hexEncode, String.toList_ofList] using congrArg String.toList h
  clear h
  induction xs generalizing ys with
  | nil =>
    cases ys with
    | nil => rfl
    | cons y ys => cases hchars
  | cons x xs ih =>
    cases ys with
    | nil => cases hchars
    | cons y ys =>
      rw [List.flatMap_cons, List.flatMap_cons] at hchars
      obtain ⟨hpair, hrest⟩ := List.append_inj hchars rfl
      rw [hexPair_inj hpair, ih hrest]

/-- What is not a digit does not occur. -/
lemma not_mem_hexEncode {c : Char} (h : ∀ n : Fin 16, Nat.digitChar n ≠ c) (bytes : List UInt8) :
    c ∉ (hexEncode bytes).toList := by
  rw [hexEncode, String.toList_ofList, List.mem_flatMap]
  rintro ⟨byte, -, hmem⟩
  have hbyte := byte.toNat_lt
  rcases List.mem_cons.mp hmem with heq | hmem
  · exact h ⟨byte.toNat / 16, by omega⟩ heq.symm
  · exact h ⟨byte.toNat % 16, by omega⟩ (List.mem_singleton.mp hmem).symm

end Ech0.Lib
