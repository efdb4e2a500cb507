/-
  The text keys of the stores: several maps are keyed by the parts of a compound key joined
  with a NUL byte, and two of the keys are parsed back when a snapshot is restored (`memory_helpers.go`,
  `snapshot_partition.go`, `snapshot_offsets.go`).

  What the proofs above need is that `parsePartitionKey` undoes `partitionKey`. It does so
  exactly for topics without a NUL byte: a topic name that contains one splits into more
  than two parts, and the key is refused.
-/
import Ech0.Store.Model

set_option autoImplicit false

namespace Ech0.Store

open List

variable {bits : Nat} {tp : TopicPartition}

/-- The separator of compound keys. -/
def nul : Char := '\x00'

/-- `fmt.Sprintf("%s\x00%d", tp.Topic, tp.Partition)`. -/
def partitionKey (tp : TopicPartition) : String :=
  tp.topic ++ "\x00" ++ Nat.repr tp.partition.toNat

def offsetKey (consumer : String) (tp : TopicPartition) : String :=
  consumer ++ "\x00" ++ tp.topic ++ "\x00" ++ Nat.repr tp.partition.toNat

def consumerPauseKey (consumer : String) (tp : TopicPartition) : String :=
  offsetKey consumer tp

def producerBatchKey (batch : ProducerPublishedBatch) : String :=
  Nat.repr batch.producerID ++ "\x00" ++ Nat.repr batch.producerEpoch ++ "\x00" ++ batch.topic
    ++ "\x00" ++ Nat.repr batch.partition.toNat ++ "\x00" ++ Nat.repr batch.baseSequence

def groupMemberKey (group memberID : String) : String :=
  group ++ "\x00" ++ memberID

def dlqIndexKey (dlqTopic : String) (dlqPartition : UInt32) (dlqOffset : Nat) : String :=
  dlqTopic ++ "\x00" ++ Nat.repr dlqPartition.toNat ++ "\x00" ++ Nat.repr dlqOffset

/-- `strings.Split(key, "\x00")`. -/
def splitKey (key : String) : List String :=
  (key.toList.splitOn nul).map String.ofList

/-- One character inside `%q`. -/
def quoteChar (c : Char) : List Char :=
  if c = '"' then ['\\', '"']
  else if c = '\\' then ['\\', '\\']
  else if c = '\n' then ['\\', 'n']
  else if c = '\r' then ['\\', 'r']
  else if c = '\t' then ['\\', 't']
  else if c.toNat < 32 ∨ c.toNat = 127 then
    ['\\', 'x', Nat.digitChar (c.toNat / 16), Nat.digitChar (c.toNat % 16)]
  else [c]

/-- `%q` (`\a`, `\b`, `\f` and `\v`, which Go prints by name, come out as `\x07` and so on). -/
def quote (text : String) : String :=
  "\"" ++ String.ofList (text.toList.flatMap quoteChar) ++ "\""

/-- The text of a `*strconv.NumError` of `ParseUint`. -/
def numError (text reason : String) : String :=
  "strconv.ParseUint: parsing " ++ quote text ++ ": " ++ reason

/-- The loop of `strconv.ParseUint` in base 10: `n` is the value read so far. -/
def parseUintLoop (bits : Nat) (text : String) : Nat → List Char → Except String Nat
  | n, [] => .ok n
  | n, c :: cs =>
    if c.isDigit then
      let next := 10 * n + (c.toNat - '0'.toNat)
      if next < 2 ^ bits then parseUintLoop bits text next cs
      else .error (numError text "value out of range")
    else .error (numError text "invalid syntax")

/-- `strconv.ParseUint(text, 10, bits)`. -/
def parseUint (bits : Nat) (text : String) : Except String Nat :=
  if text.toList = [] then .error (numError text "invalid syntax")
  else parseUintLoop bits text 0 text.toList

def parsePartitionKey (key : String) : Except Error TopicPartition :=
  match splitKey key with
  | [topic, partition] =>
    match parseUint 32 partition with
    | .ok value => .ok ⟨topic, UInt32.ofNat value⟩
    | .error err => .error (E .codec ("invalid partition in key " ++ quote key ++ ": " ++ err))
  | _ => .error (E .codec ("invalid partition key " ++ quote key))

def consumerOffsetStateFromKey (key : String) (offset : Nat) : Option ConsumerOffsetState :=
  match splitKey key with
  | [consumer, topic, partition] =>
    match parseUint 32 partition with
    | .ok value =>
      some { consumer := consumer, topic := topic, partition := UInt32.ofNat value,
             nextOffset := offset }
    | .error _ => none
  | _ => none

/-! ## Parsing a printed key -/

/-- A name that can be a part of a compound key. -/
def NulFree (name : String) : Prop := nul ∉ name.toList

instance (name : String) : Decidable (NulFree name) :=
  inferInstanceAs (Decidable (nul ∉ name.toList))

lemma le_ofDigitChars (cs : List Char) (n : Nat) : n ≤ Nat.ofDigitChars 10 cs n := by
  induction cs generalizing n with
  | nil => rw [Nat.ofDigitChars_nil]
  | cons c cs ih =>
    rw [Nat.ofDigitChars_cons]
    have h := ih (10 * n + (c.toNat - '0'.toNat))
    omega

/-- The loop reads a run of digits whose value fits; every prefix fits then, as the value only
grows. -/
lemma parseUintLoop_spec (text : String) (cs : List Char) (n : Nat)
    (hdigits : ∀ c ∈ cs, c.isDigit = true) (hfits : Nat.ofDigitChars 10 cs n < 2 ^ bits) :
    parseUintLoop bits text n cs = .ok (Nat.ofDigitChars 10 cs n) := by
  induction cs generalizing n with
  | nil => rw [parseUintLoop, Nat.ofDigitChars_nil]
  | cons c cs ih =>
    rw [Nat.ofDigitChars_cons] at hfits ⊢
    have hnext := lt_of_le_of_lt (le_ofDigitChars cs _) hfits
    simp only [parseUintLoop, if_pos (hdigits c mem_cons_self), if_pos hnext]
    exact ih _ (fun d hd => hdigits d (mem_cons_of_mem c hd)) hfits

lemma parseUint_repr {n : Nat} (h : n < 2 ^ bits) : parseUint bits (Nat.repr n) = .ok n := by
  have hne : (Nat.repr n).toList ≠ [] := by
    rw [Nat.toList_repr]
    exact Nat.toDigits_ne_nil
  have hdigits : ∀ c ∈ (Nat.repr n).toList, c.isDigit = true := by
    rw [Nat.toList_repr]
    intro c hc
    exact Nat.isDigit_of_mem_toDigits (by decide) (by decide) hc
  have hval : Nat.ofDigitChars 10 (Nat.repr n).toList 0 = n := by
    rw [Nat.toList_repr, Nat.ofDigitChars_ten_toDigits]
  rw [parseUint, if_neg hne, parseUintLoop_spec _ _ _ hdigits (by rw [hval]; exact h), hval]

lemma parseUintLoop_lt {text : String} {cs : List Char} {n value : Nat} (hn : n < 2 ^ bits)
    (h : parseUintLoop bits text n cs = .ok value) : value < 2 ^ bits := by
  induction cs generalizing n with
  | nil =>
    cases h
    exact hn
  | cons c cs ih =>
    unfold parseUintLoop at h
    split at h
    · dsimp only at h
      split at h
      · next hnext => exact ih hnext h
      · cases h
    · cases h

lemma parseUint_lt {text : String} {value : Nat} (h : parseUint bits text = .ok value) :
    value < 2 ^ bits := by
  unfold parseUint at h
  split at h
  · cases h
  · exact parseUintLoop_lt (Nat.two_pow_pos bits) h

lemma nulFree_repr (n : Nat) : NulFree (Nat.repr n) := by
  intro hmem
  rw [Nat.toList_repr] at hmem
  have hdigit := Nat.isDigit_of_mem_toDigits (by decide) (by decide) hmem
  exact absurd hdigit (by decide)

/-- The parts of a printed key: those of the topic's name, and the partition. -/
lemma splitOn_partitionKey (tp : TopicPartition) : (partitionKey tp).toList.splitOn nul
      = tp.topic.toList.splitOn nul ++ [(Nat.repr tp.partition.toNat).toList] := by
  have hkey : (partitionKey tp).toList
      = tp.topic.toList ++ nul :: (Nat.repr tp.partition.toNat).toList := by
    simp [partitionKey, nul]
  rw [hkey, splitOn_append_cons_of_beq _ _ (beq_self_eq_true nul),
    splitOn_eq_singleton (nulFree_repr _)]

lemma splitKey_partitionKey (h : NulFree tp.topic) :
    splitKey (partitionKey tp) = [tp.topic, Nat.repr tp.partition.toNat] := by
  rw [splitKey, splitOn_partitionKey, splitOn_eq_singleton h]
  simp only [singleton_append, map_cons, map_nil, String.ofList_toList]

/-- **The key of a partition parses back**, provided the topic's name has no NUL byte. -/
theorem parsePartitionKey_partitionKey (h : NulFree tp.topic) :
    parsePartitionKey (partitionKey tp) = .ok tp := by
  have hp : parseUint 32 (Nat.repr tp.partition.toNat) = Except.ok tp.partition.toNat :=
    parseUint_repr (UInt32.toNat_lt tp.partition)
  rw [parsePartitionKey, splitKey_partitionKey h]
  simp only [hp, UInt32.ofNat_toNat]

/-! ## Keys that do not parse -/

theorem splitOn_inj {left right : String} (h : left.toList.splitOn nul = right.toList.splitOn nul) :
    left = right := by
  have hjoin := congrArg [nul].intercalate h
  rw [intercalate_splitOn, intercalate_splitOn] at hjoin
  exact String.toList_inj.mp hjoin

lemma partitionKey_injective : Function.Injective partitionKey := by
  intro left right heq
  have hsplit : (partitionKey left).toList.splitOn nul = (partitionKey right).toList.splitOn nul := by
    rw [heq]
  rw [splitOn_partitionKey, splitOn_partitionKey] at hsplit
  obtain ⟨htopic, hpart⟩ := append_inj' hsplit rfl
  have hnum := Nat.repr_inj.mp (String.toList_inj.mp (singleton_inj.mp hpart))
  cases left
  cases right
  simp only [TopicPartition.mk.injEq]
  exact ⟨splitOn_inj htopic, UInt32.toNat_inj.mp hnum⟩

/-- **The key of a topic with a NUL byte is refused**: it has more than two parts. -/
theorem parsePartitionKey_isError (h : ¬ NulFree tp.topic) :
    ∃ err, parsePartitionKey (partitionKey tp) = .error err := by
  obtain ⟨front, back, hname⟩ := append_of_mem (not_not.mp h)
  have hlong : 3 ≤ (splitKey (partitionKey tp)).length := by
    have h1 := length_pos_iff.mpr (splitOn_ne_nil nul front)
    have h2 := length_pos_iff.mpr (splitOn_ne_nil nul back)
    rw [splitKey, splitOn_partitionKey, hname,
      splitOn_append_cons_of_beq _ _ (beq_self_eq_true nul)]
    simp only [length_map, length_append, length_singleton]
    omega
  unfold parsePartitionKey
  split
  · next hshort =>
    rw [hshort] at hlong
    simp at hlong
  · exact ⟨_, rfl⟩

/-- Parsing gives back the partition or nothing. -/
lemma parsePartitionKey_partitionKey_iff {a : TopicPartition} :
    parsePartitionKey (partitionKey tp) = .ok a ↔ NulFree tp.topic ∧ tp = a := by
  by_cases h : NulFree tp.topic
  · rw [parsePartitionKey_partitionKey h, Except.ok.injEq]
    exact ⟨fun heq => ⟨h, heq⟩, fun hand => hand.2⟩
  · obtain ⟨err, herr⟩ := parsePartitionKey_isError h
    rw [herr]
    exact ⟨nofun, fun hand => absurd hand.1 h⟩

/-- Two parts in front of the topic and two behind it have no separator in them, so the key says what
it was made from. -/
lemma producerBatchKey_eq {left right : ProducerPublishedBatch}
    (h : producerBatchKey left = producerBatchKey right) :
    left.producerID = right.producerID ∧ left.producerEpoch = right.producerEpoch ∧
      left.topic = right.topic ∧ left.partition = right.partition ∧
      left.baseSequence = right.baseSequence := by
  have hsplit : ∀ batch : ProducerPublishedBatch, (producerBatchKey batch).toList.splitOn nul
      = (Nat.repr batch.producerID).toList :: (Nat.repr batch.producerEpoch).toList ::
        ((partitionKey ⟨batch.topic, batch.partition⟩).toList.splitOn nul
          ++ [(Nat.repr batch.baseSequence).toList]) := by
    intro batch
    have hkey : (producerBatchKey batch).toList = (Nat.repr batch.producerID).toList
        ++ nul :: ((Nat.repr batch.producerEpoch).toList ++ nul ::
          ((partitionKey ⟨batch.topic, batch.partition⟩).toList ++ nul ::
            (Nat.repr batch.baseSequence).toList)) := by
      simp [producerBatchKey, partitionKey, nul]
    rw [hkey, splitOn_append_cons_of_beq _ _ (beq_self_eq_true nul),
      splitOn_append_cons_of_beq _ _ (beq_self_eq_true nul),
      splitOn_append_cons_of_beq _ _ (beq_self_eq_true nul),
      splitOn_eq_singleton (nulFree_repr _), splitOn_eq_singleton (nulFree_repr _),
      splitOn_eq_singleton (nulFree_repr _)]
    rfl
  have hparts := hsplit left
  rw [h, hsplit right, List.cons.injEq, List.cons.injEq] at hparts
  obtain ⟨hproducer, hepoch, hrest⟩ := hparts
  obtain ⟨htp, hbase⟩ := append_inj' hrest rfl
  have hpartition := partitionKey_injective (splitOn_inj htp)
  rw [TopicPartition.mk.injEq] at hpartition
  exact ⟨(Nat.repr_inj.mp (String.toList_inj.mp hproducer)).symm,
    (Nat.repr_inj.mp (String.toList_inj.mp hepoch)).symm, hpartition.1.symm, hpartition.2.symm,
    (Nat.repr_inj.mp (String.toList_inj.mp (singleton_inj.mp hbase))).symm⟩

end Ech0.Store
