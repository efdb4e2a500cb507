/-
  Appends to a segment file of which some fail (`segmentWriter.appendFrames` in
  `storx_log_segments.go`).

  A write that fails may have written some of its bytes, and the next write goes behind them. The
  position that the writer counts stays where it was, so from then on it is before the place where the
  frames go, by the bytes that failed writes have left (`stray`). A later append answers with positions at
  which the file begins with those bytes, unless they happen to be the ones that it has written.
-/
import Ech0.Lib.Steps
import Ech0.Store.SegmentFile

set_option autoImplicit false

namespace Ech0.Store

open Ech0.Lib List

/-- The file holds each frame at its position. -/
def HoldsFrames (file : Bytes) (positions : List Nat) (frames : List Bytes) : Prop :=
  Forall₂ (fun position frame => (file.drop position).take frame.length = frame) positions frames

/-- A call of `appendFrames`, and how its write fails, if it does. -/
structure FramesAppend where
  fault : Option WriteFault
  frames : List Bytes

namespace SegmentWriter

def next (w : SegmentWriter) (call : FramesAppend) : SegmentWriter := (w.appendFrames call.fault call.frames).2

/-- If the call succeeds, its frames are at the positions that it returns. -/
def PositionsHold (w : SegmentWriter) (call : FramesAppend) : Prop :=
  ∀ positions, (w.appendFrames call.fault call.frames).1 = .ok positions →
    HoldsFrames (w.next call).file positions call.frames

/-- What failed writes have left behind the position. -/
def stray (w : SegmentWriter) : Bytes := w.file.drop w.position

/-- If the write does not fail and the file does not become too large, the bytes written are also those
from the stray ones on. -/
def StrayRepeats (w : SegmentWriter) (call : FramesAppend) : Prop :=
  call.fault = none → w.file.length + call.frames.flatten.length ≤ maxFileSize →
    call.frames.flatten <+: w.stray ++ call.frames.flatten

variable {w : SegmentWriter} {call : FramesAppend}

lemma holdsFrames_iff (file : Bytes) (position : Nat) (frames : List Bytes) :
    HoldsFrames file (framePositions position frames) frames ↔ frames.flatten <+: file.drop position := by
  unfold HoldsFrames
  induction frames generalizing position with
  | nil => simp [framePositions]
  | cons frame rest ih =>
    rw [framePositions, forall₂_cons, ih, flatten_cons, ← drop_drop]
    generalize file.drop position = tail
    constructor
    · rintro ⟨hframe, more, hrest⟩
      refine ⟨more, ?_⟩
      rw [append_assoc, hrest]
      nth_rewrite 1 [← hframe]
      exact take_append_drop frame.length tail
    · rintro ⟨more, rfl⟩
      rw [append_assoc, take_left, drop_left]
      exact ⟨rfl, more, rfl⟩

/-- When a call succeeds, what it returns then, and what it does to the writer. -/
lemma appendFrames_cases (w : SegmentWriter) (call : FramesAppend) :
    ((w.appendFrames call.fault call.frames).1 = .ok (framePositions w.position call.frames) ∧
      w.next call = ⟨w.file ++ call.frames.flatten, w.position + call.frames.flatten.length⟩ ∧
      (call.frames.flatten = [] ∨
        call.fault = none ∧ w.file.length + call.frames.flatten.length ≤ maxFileSize)) ∨
    ((w.appendFrames call.fault call.frames).1.isOk = false ∧
      (∃ written, w.next call = { w with file := w.file ++ written }) ∧
      (call.fault = none → maxFileSize < w.file.length + call.frames.flatten.length)) := by
  unfold next appendFrames
  by_cases hnone : call.frames = []
  · rw [if_pos hnone, hnone]
    exact .inl ⟨rfl, by simp, .inl rfl⟩
  · rw [if_neg hnone]
    unfold writeFile
    cases call.fault with
    | some fault => exact .inr ⟨rfl, ⟨_, rfl⟩, nofun⟩
    | none =>
      by_cases hlarge : w.file.length + call.frames.flatten.length > maxFileSize
      · dsimp only
        rw [if_pos hlarge]
        exact .inr ⟨rfl, ⟨[], by simp⟩, fun _ => hlarge⟩
      · dsimp only
        rw [if_neg hlarge]
        exact .inl ⟨rfl, rfl, .inr ⟨rfl, Nat.not_lt.mp hlarge⟩⟩

lemma position_le_next (h : w.position ≤ w.file.length) :
    (w.next call).position ≤ (w.next call).file.length := by
  rcases w.appendFrames_cases call with ⟨-, hnext, -⟩ | ⟨-, ⟨written, hnext⟩, -⟩
  · rw [hnext, length_append]
    exact Nat.add_le_add_right h _
  · rw [hnext, length_append]
    exact Nat.le_add_right_of_le h

lemma positionsHold_iff (h : w.position ≤ w.file.length) : w.PositionsHold call ↔ w.StrayRepeats call := by
  unfold PositionsHold StrayRepeats
  rcases w.appendFrames_cases call with ⟨hok, hnext, hwritten⟩ | ⟨herror, -, hfails⟩
  · rw [hok, hnext]
    have hdrop : (w.file ++ call.frames.flatten).drop w.position = w.stray ++ call.frames.flatten :=
      drop_append_of_le_length h
    simp only [Except.ok.injEq, forall_eq', holdsFrames_iff, hdrop]
    rcases hwritten with hnone | ⟨hfault, hfits⟩
    · rw [hnone]
      exact iff_of_true nil_prefix fun _ _ => nil_prefix
    · exact ⟨fun hprefix _ _ => hprefix, fun hrepeats => hrepeats hfault hfits⟩
  · refine iff_of_true (fun positions hok => ?_) fun hfault hfits => ?_
    · rw [hok] at herror
      cases herror
    · exact absurd hfits (Nat.not_le.mpr (hfails hfault))

/-- **Failed writes.** Each call that succeeds returns the positions of its frames exactly when each
finds nothing stray behind the position, or bytes that it repeats. -/
theorem positions_hold_iff (file : Bytes) (calls : List FramesAppend) :
    Meets next PositionsHold calls (openSegmentWriter file) ↔
      Meets next StrayRepeats calls (openSegmentWriter file) := by
  have hstep : ∀ (w : SegmentWriter) call, w.position ≤ w.file.length →
      (w.next call).position ≤ (w.next call).file.length := fun _ _ => position_le_next
  exact meets_congr hstep (fun _ _ => positionsHold_iff) le_rfl

/-- One of two bytes is written, and the append fails; the next one returns the position of that byte. -/
theorem position_of_stray_byte :
    ¬ Meets next PositionsHold [⟨some ⟨1, "no space left on device"⟩, [[1, 2]]⟩, ⟨none, [[3]]⟩]
      (openSegmentWriter []) := by
  rintro ⟨-, hsecond, -⟩
  cases hsecond [0] (by decide) with
  | cons hframe _ => exact absurd hframe (by decide)

end SegmentWriter

end Ech0.Store
