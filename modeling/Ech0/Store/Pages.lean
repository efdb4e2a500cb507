/-
  Pages of records (`ReadPage`): a partition is read by asking for the page after the one before, with
  the cursor that it returned, as long as there is more.

  The segment log takes a page out of its index by position, and knows from the index whether there is
  more; the position after the page is an `int` that can overflow, and the slice then panics. The
  in-memory store compares the page with the highest offset ever given out, and returns a cursor only if
  there is more, where the segment log returns one with every page that holds a record.
-/
import Ech0.Store.MemoryLog

set_option autoImplicit false

namespace Ech0.Store

/-! ## Pages (`memory.go`, `storx_log_read.go`) -/

structure RecordPage where
  records : List Record := []
  nextCursor : String := ""
  hasMore : Bool := false
  deriving DecidableEq

/-- The sum of two `int`s that are not negative. -/
def addInt (a b : Nat) : Int := if a + b ≤ maxInt then a + b else (a + b : Int) - 2 ^ 64

/-- Both stores read a cursor like this, with errors of their own. -/
def cursorOffset (refused : String → Error) (cursor : String) : Except Error Nat :=
  if cursor = "" then .ok 0 else (parseUint 64 cursor).mapError refused

/-- `records[len(records)-1].Offset + 1`, of a page that has records. -/
def offsetAfter (records : List Record) : Nat :=
  ((records.getLast?.map Record.offset).getD 0 + 1) % 2 ^ 64

namespace StorxLogStore

def pageCursorOffset (cursor : String) : Except Error Nat :=
  cursorOffset (fun err => E .invalidArgument ("invalid page cursor " ++ quote cursor ++ ": " ++ err))
    cursor

/-- `recordPointersPage`, for a positive `maxRecords`; `none` is the panic of a slice whose end is
before its start. -/
def recordPointersPage (s : StorxLogStore) (tp : TopicPartition) (offset maxRecords : Nat) :
    Option (List Record × Bool) :=
  let pointers := s.recordsAt tp
  let start := segmentPointerSearch pointers offset
  let stop := addInt start maxRecords
  let hasMore := decide (stop < pointers.length)
  let stop := min stop pointers.length
  if stop < start then none else some ((pointers.drop start).take (stop.toNat - start), hasMore)

/-- `ReadPage`; `none` is a panic. -/
def readPage (s : StorxLogStore) (tp : TopicPartition) (cursor : String) (maxRecords : Nat) :
    Option (Except Error RecordPage) :=
  if maxRecords = 0 then some (.ok {})
  else
    match s.loadTopicForPartition tp with
    | .error err => some (.error err)
    | .ok _ =>
      match pageCursorOffset cursor with
      | .error err => some (.error err)
      | .ok offset =>
        (s.recordPointersPage tp offset maxRecords).map fun (records, hasMore) => .ok
          { records := records
            nextCursor := if records.length > 0 then Nat.repr (offsetAfter records) else ""
            hasMore := hasMore }

end StorxLogStore

namespace MemoryLog

def parseMemoryRecordPageCursor (cursor : String) : Except Error Nat :=
  cursorOffset (fun _ => E .invalidArgument "invalid record page cursor") cursor

def memoryRecordPageNext (m : MemoryLog) (tp : TopicPartition) (records : List Record)
    (maxRecords : Nat) : Except Error (Bool × String) :=
  if records.length ≠ maxRecords ∨ maxRecords = 0 then .ok (false, "")
  else do
    let next := offsetAfter records
    let offsets ← m.partitionOffsets tp
    match offsets.highWatermark with
    | none => .ok (false, "")
    | some highWatermark =>
      if next > highWatermark then .ok (false, "") else .ok (true, Nat.repr next)

def readPage (m : MemoryLog) (tp : TopicPartition) (cursor : String) (maxRecords : Nat) :
    Except Error RecordPage := do
  let offset ← parseMemoryRecordPageCursor cursor
  let records ← m.readFrom tp offset maxRecords
  let (hasMore, nextCursor) ← m.memoryRecordPageNext tp records maxRecords
  .ok { records := records, nextCursor := nextCursor, hasMore := hasMore }

end MemoryLog

/-! ## Following the cursor -/

/-- The pages that a reader gets who starts at the cursor and follows the one returned as long as there
is more, and the reader comes to the end. -/
inductive Follows (read : String → Option RecordPage) : String → List RecordPage → Prop
  | last {cursor : String} {page : RecordPage} : read cursor = some page → page.hasMore = false →
      Follows read cursor [page]
  | next {cursor : String} {page : RecordPage} {rest : List RecordPage} : read cursor = some page →
      page.hasMore = true → Follows read page.nextCursor rest → Follows read cursor (page :: rest)

/-- The pages of the segment log; there is none after an error or a panic. -/
def StorxLogStore.page (s : StorxLogStore) (tp : TopicPartition) (maxRecords : Nat)
    (cursor : String) : Option RecordPage :=
  (s.readPage tp cursor maxRecords).bind Except.toOption

/-- Those of the in-memory store. -/
def MemoryLog.page (m : MemoryLog) (tp : TopicPartition) (maxRecords : Nat) (cursor : String) :
    Option RecordPage :=
  (m.readPage tp cursor maxRecords).toOption

/-- The records at or after the offset. -/
def StorxLogStore.visibleFrom (s : StorxLogStore) (tp : TopicPartition) (offset : Nat) :
    List Record :=
  (s.recordsAt tp).dropWhile fun record => record.offset < offset

/-- The pages hold the records one after the other, and each says that there is more exactly if some
record is not yet in it or in one before. -/
structure Enumerates (visible : List Record) (pages : List RecordPage) : Prop where
  records : pages.flatMap RecordPage.records = visible
  more : ∀ before page after, pages = before ++ page :: after →
    (page.hasMore = true ↔ ∃ record ∈ visible, record ∉ (before ++ [page]).flatMap RecordPage.records)

/-- Both stores let a reader enumerate the records at or after the offset, with the same pages. -/
def SamePages (m : MemoryLog) (s : StorxLogStore) (tp : TopicPartition) (cursor : String)
    (offset maxRecords : Nat) : Prop :=
  ∃ pages, Follows (s.page tp maxRecords) cursor pages ∧ Follows (m.page tp maxRecords) cursor pages ∧
    Enumerates (s.visibleFrom tp offset) pages

/-! ## One page -/

section
open StorxLogStore List
variable {m : MemoryLog} {s : StorxLogStore} {tp : TopicPartition} {cursor : String}
  {offset maxRecords : Nat} {page : RecordPage}

lemma drop_segmentPointerSearch (pointers : List Record) (offset : Nat) :
    pointers.drop (segmentPointerSearch pointers offset)
      = pointers.dropWhile fun record => record.offset < offset := by
  conv_lhs =>
    arg 2
    rw [← takeWhile_append_dropWhile (p := fun record : Record => record.offset < offset)
      (l := pointers)]
  exact drop_left

/-- The end of the page overflows, or the page is the next records. -/
lemma recordPointersPage_eq (hmax : maxRecords ≤ maxInt) :
    s.recordPointersPage tp offset maxRecords =
      if segmentPointerSearch (s.recordsAt tp) offset + maxRecords ≤ maxInt then
        some ((s.visibleFrom tp offset).take maxRecords,
          decide (maxRecords < (s.visibleFrom tp offset).length))
      else none := by
  unfold recordPointersPage visibleFrom addInt
  rw [← drop_segmentPointerSearch]
  have hstart : segmentPointerSearch (s.recordsAt tp) offset ≤ (s.recordsAt tp).length :=
    (takeWhile_sublist _).length_le
  simp only [length_drop]
  generalize segmentPointerSearch (s.recordsAt tp) offset = start at hstart ⊢
  by_cases hroom : start + maxRecords ≤ maxInt
  · rw [if_pos hroom, if_pos hroom, if_neg (by omega)]
    congr 2
    · rw [take_eq_take_iff, length_drop]
      omega
    · rw [decide_eq_decide]
      omega
  · rw [if_neg hroom, if_neg hroom, if_pos]
    unfold maxInt at hmax
    omega

lemma readFrom_visible (hpart : s.HasPartition tp) (offset : Nat) (hpos : 0 < maxRecords) :
    s.readFrom tp offset maxRecords = .ok ((s.visibleFrom tp offset).take maxRecords) := by
  obtain ⟨topic, hload⟩ := hpart.load
  rw [StorxLogStore.readFrom, if_neg (Nat.ne_of_gt hpos), hload]
  rfl

/-- The cursors mean the same to both stores. -/
lemma cursorOffset_of {refused refused' : String → Error}
    (h : cursorOffset refused cursor = .ok offset) : cursorOffset refused' cursor = .ok offset := by
  unfold cursorOffset at h ⊢
  split at h
  · next hempty => rw [if_pos hempty, h]
  · next hne =>
    rw [if_neg hne]
    cases hparse : parseUint 64 cursor with
    | error err => rw [hparse] at h; cases h
    | ok parsed => rwa [hparse] at h

lemma pageCursorOffset_repr (h : offset < 2 ^ 64) :
    pageCursorOffset (Nat.repr offset) = .ok offset := by
  rw [pageCursorOffset, cursorOffset, if_neg Nat.repr_ne_empty, parseUint_repr h]
  rfl

/-- A page of the segment log. -/
lemma segment_page (hpart : s.HasPartition tp) (hpos : 0 < maxRecords) (hmax : maxRecords ≤ maxInt)
    (hcursor : pageCursorOffset cursor = .ok offset) :
    s.page tp maxRecords cursor = some page ↔
      segmentPointerSearch (s.recordsAt tp) offset + maxRecords ≤ maxInt ∧
        page.records = (s.visibleFrom tp offset).take maxRecords ∧
        page.nextCursor = (if page.records.length > 0 then Nat.repr (offsetAfter page.records) else "") ∧
        (page.hasMore = true ↔ maxRecords < (s.visibleFrom tp offset).length) := by
  obtain ⟨topic, hload⟩ := hpart.load
  obtain ⟨records, nextCursor, hasMore⟩ := page
  rw [StorxLogStore.page, StorxLogStore.readPage, if_neg (Nat.ne_of_gt hpos), hload, hcursor]
  simp only [recordPointersPage_eq hmax]
  split
  · next hroom =>
    simp only [Option.map_some, Option.bind_some, Except.toOption, Option.some.injEq, RecordPage.mk.injEq]
    constructor
    · rintro ⟨rfl, rfl, rfl⟩
      exact ⟨hroom, rfl, rfl, decide_eq_true_iff⟩
    · rintro ⟨-, rfl, rfl, hmore⟩
      exact ⟨rfl, rfl, by rw [← Bool.coe_iff_coe, decide_eq_true_iff, hmore]⟩
  · next hroom => simp [hroom]

/-- A page of the in-memory store. -/
lemma memory_page (h : Mirrors m s) (hpart : s.HasPartition tp) (hpos : 0 < maxRecords)
    (hcursor : pageCursorOffset cursor = .ok offset) :
    m.page tp maxRecords cursor = some page ↔
      page.records = (s.visibleFrom tp offset).take maxRecords ∧
        page.nextCursor = (if page.hasMore then Nat.repr (offsetAfter page.records) else "") ∧
        (page.hasMore = true ↔ page.records.length = maxRecords ∧
          offsetAfter page.records < s.nextOffset tp) := by
  obtain ⟨topic, hload⟩ := hpart.load
  have hread := (h.readFrom tp offset maxRecords).trans (readFrom_visible hpart offset hpos)
  have hoffsets : m.partitionOffsets tp = .ok (StorxLogStore.partitionOffsetsFromRecordOffsets tp
      (s.nextOffset tp) ((s.recordsAt tp).map Record.offset)) := by
    rw [h.partitionOffsets, StorxLogStore.partitionOffsets, hload, Mirrors.next_getD h.inv]
    rfl
  have hnext : ∀ records, m.memoryRecordPageNext tp records maxRecords =
      .ok (if records.length = maxRecords ∧ offsetAfter records < s.nextOffset tp then
        (true, Nat.repr (offsetAfter records)) else (false, "")) := by
    intro records
    rw [MemoryLog.memoryRecordPageNext, hoffsets]
    by_cases hfull : records.length = maxRecords
    · rw [if_neg (by omega)]
      cases s.nextOffset tp with
      | zero =>
        rw [if_neg (by omega)]
        rfl
      | succ last =>
        change (if offsetAfter records > last then _ else _) = _
        split
        · rw [if_neg (by omega)]
        · rw [if_pos ⟨hfull, by omega⟩]
    · rw [if_pos (.inl hfull), if_neg (fun hboth => hfull hboth.1)]
  obtain ⟨records, nextCursor, hasMore⟩ := page
  simp only [MemoryLog.page, MemoryLog.readPage, MemoryLog.parseMemoryRecordPageCursor,
    cursorOffset_of hcursor, bind,
    Except.bind, hread, hnext, Except.toOption, Option.some.injEq, RecordPage.mk.injEq]
  constructor
  · rintro ⟨rfl, rfl, rfl⟩
    split
    · next hmore => exact ⟨rfl, rfl, iff_of_true rfl hmore⟩
    · next hmore => exact ⟨rfl, rfl, iff_of_false Bool.false_ne_true hmore⟩
  · rintro ⟨rfl, rfl, hmore⟩
    cases hasMore with
    | false => rw [if_neg (fun hboth => Bool.false_ne_true (hmore.mpr hboth))]; exact ⟨rfl, rfl, rfl⟩
    | true => rw [if_pos (hmore.mp rfl)]; exact ⟨rfl, rfl, rfl⟩

/-! ## All pages -/

/-- After a page come the records behind it. -/
lemma visibleFrom_offsetAfter (h : LogInv s) (hnext : s.nextOffset tp < 2 ^ 64) (hpos : 0 < maxRecords)
    (hne : s.visibleFrom tp offset ≠ []) :
    s.visibleFrom tp (offsetAfter ((s.visibleFrom tp offset).take maxRecords))
      = (s.visibleFrom tp offset).drop maxRecords := by
  obtain ⟨init, last, hlast⟩ : ∃ init last, (s.visibleFrom tp offset).take maxRecords = init ++ [last] := by
    refine ⟨_, _, (dropLast_append_getLast (l := (s.visibleFrom tp offset).take maxRecords) ?_).symm⟩
    rw [ne_eq, take_eq_nil_iff]
    exact fun hnil => hnil.elim (Nat.ne_of_gt hpos) hne
  -- The partition is what is before the page, the page up to its last record, and what is behind it.
  have hsplit : s.recordsAt tp = ((s.recordsAt tp).takeWhile (fun record => record.offset < offset)
      ++ init) ++ last :: (s.visibleFrom tp offset).drop maxRecords := by
    conv_lhs => rw [← takeWhile_append_dropWhile (p := fun record : Record => record.offset < offset)
      (l := s.recordsAt tp), ← take_append_drop maxRecords (dropWhile _ _)]
    rw [← visibleFrom, hlast]
    simp
  have hordered := h.ordered tp
  have hbelow := h.below tp last (by rw [hsplit]; simp)
  rw [hlast, offsetAfter, getLast?_concat, Option.map_some, Option.getD_some,
    Nat.mod_eq_of_lt (by omega), visibleFrom, hsplit]
  rw [hsplit, OffsetOrdered, pairwise_append, pairwise_cons] at hordered
  obtain ⟨-, ⟨hafter, -⟩, hbefore⟩ := hordered
  rw [dropWhile_append_of_pos, dropWhile_cons_of_pos, dropWhile_eq_self_iff]
  · intro hlength hlt
    have := hafter _ (getElem_mem hlength)
    simp only [decide_eq_true_eq] at hlt
    omega
  · simp
  · intro record hrecord
    have := hbefore record hrecord last mem_cons_self
    simp only [decide_eq_true_eq]
    omega

/-- Pages that both stores return are none with a record: the last one has a cursor in the segment log
and none in the in-memory store. -/
lemma visible_nil_of_follows (h : Mirrors m s) (hpart : s.HasPartition tp)
    (hnext : s.nextOffset tp < 2 ^ 64) (hpos : 0 < maxRecords) (hmax : maxRecords ≤ maxInt)
    {pages : List RecordPage} (hsegment : Follows (s.page tp maxRecords) cursor pages)
    (hmemory : Follows (m.page tp maxRecords) cursor pages)
    (hcursor : pageCursorOffset cursor = .ok offset) : s.visibleFrom tp offset = [] ∧
      segmentPointerSearch (s.recordsAt tp) offset + maxRecords ≤ maxInt := by
  induction hsegment generalizing offset with
  | last hread hmore =>
    obtain ⟨hroom, hrecords, hsegmentCursor, -⟩ := (segment_page hpart hpos hmax hcursor).mp hread
    cases hmemory with
    | last hmemoryRead _ =>
      obtain ⟨-, hmemoryCursor, -⟩ := (memory_page h hpart hpos hcursor).mp hmemoryRead
      refine ⟨?_, hroom⟩
      rw [hsegmentCursor, hmore, if_neg Bool.false_ne_true, hrecords] at hmemoryCursor
      split at hmemoryCursor
      · exact absurd hmemoryCursor Nat.repr_ne_empty
      · next hnone =>
        rw [length_take] at hnone
        exact eq_nil_of_length_eq_zero (by omega)
    | next _ _ hrest => cases hrest
  | next hread hmore _ ih =>
    obtain ⟨-, hrecords, hsegmentCursor, hfurther⟩ := (segment_page hpart hpos hmax hcursor).mp hread
    have hlonger := hfurther.mp hmore
    cases hmemory with
    | last _ hmemoryMore => cases hmore.symm.trans hmemoryMore
    | next _ _ hrest =>
      have hne : s.visibleFrom tp offset ≠ [] := ne_nil_of_length_pos (by omega)
      rw [if_pos (by rw [hrecords, length_take]; omega), hrecords] at hsegmentCursor
      have hafter := (ih hrest (by
        rw [hsegmentCursor]
        exact pageCursorOffset_repr (Nat.mod_lt _ (by decide)))).1
      rw [visibleFrom_offsetAfter h.inv hnext hpos hne, drop_eq_nil_iff] at hafter
      omega

/-- **The pages of the two stores are the same** and enumerate the records exactly if there are none to
read and the end of the page does not overflow. -/
theorem same_pages_iff (h : Mirrors m s) (hpart : s.HasPartition tp) (hnext : s.nextOffset tp < 2 ^ 64)
    (hpos : 0 < maxRecords) (hmax : maxRecords ≤ maxInt)
    (hcursor : StorxLogStore.pageCursorOffset cursor = .ok offset) :
    SamePages m s tp cursor offset maxRecords ↔
      (∀ record ∈ s.recordsAt tp, record.offset < offset) ∧
        (s.recordsAt tp).length + maxRecords ≤ maxInt := by
  have hall : s.visibleFrom tp offset = [] ↔ ∀ record ∈ s.recordsAt tp, record.offset < offset := by
    simp [visibleFrom]
  have hindex : s.visibleFrom tp offset = [] →
      segmentPointerSearch (s.recordsAt tp) offset = (s.recordsAt tp).length := by
    intro hnone
    rw [segmentPointerSearch, takeWhile_eq_self_iff.mpr]
    simpa using hall.mp hnone
  constructor
  · rintro ⟨pages, hsegment, hmemory, -⟩
    obtain ⟨hnone, hroom⟩ := visible_nil_of_follows h hpart hnext hpos hmax hsegment hmemory hcursor
    exact ⟨hall.mp hnone, hindex hnone ▸ hroom⟩
  · rintro ⟨hnone, hroom⟩
    rw [← hall] at hnone
    refine ⟨[{}], .last ((segment_page hpart hpos hmax hcursor).mpr ?_) rfl,
      .last ((memory_page h hpart hpos hcursor).mpr ?_) rfl, ?_⟩
    · rw [hindex hnone, hnone]
      exact ⟨hroom, take_nil.symm, rfl, iff_of_false Bool.false_ne_true (Nat.not_lt_zero _)⟩
    · rw [hnone]
      exact ⟨take_nil.symm, rfl,
        iff_of_false Bool.false_ne_true fun hboth => Nat.ne_of_lt hpos hboth.1⟩
    · rw [hnone]
      refine ⟨rfl, fun before page after heq => ?_⟩
      obtain ⟨rfl, rfl⟩ : before = [] ∧ page = {} := by
        cases before with
        | nil => exact ⟨rfl, (cons.inj heq).1.symm⟩
        | cons _ rest => cases rest <;> cases (cons.inj heq).2
      simp

end

/-- The stores after a topic was created and the records were appended to it. -/
def ordersLog (appends : List RecordAppend) : MemoryLog × StorxLogStore :=
  let calls := [.createTopic (newTopicConfig "orders"), .appendRecordsBatch ⟨"orders", 0⟩ appends]
  (calls.foldl (fun (m : MemoryLog) call => (m.call (fun _ => 0) call).2) {},
   calls.foldl (fun (s : StorxLogStore) call => (s.call (fun _ => 0) call).2) {})

def twoOrders : MemoryLog × StorxLogStore := ordersLog [stampedAppend 1, stampedAppend 2]

/-- A reader who has seen both records. -/
theorem same_pages_seen : SamePages twoOrders.1 twoOrders.2 ⟨"orders", 0⟩ "2" 2 5 := by
  have hcreated := (mirrors_empty.createTopic (fun _ => 0) (fun _ => 0) (newTopicConfig "orders")).mirrors
  have hstamped : ∀ append ∈ [stampedAppend 1, stampedAppend 2], append.timestampMS.isSome := by
    simp [stampedAppend]
  have hmirrors : Mirrors twoOrders.1 twoOrders.2 := by
    rcases hcreated.appendRecordsBatch (fun _ => 0) (fun _ => 0) ⟨"orders", 0⟩ hstamped
      (by decide +kernel) with ⟨-, hstep⟩ | ⟨-, hfailed, -⟩
    · exact hstep.mirrors
    · cases hfailed
  exact (same_pages_iff hmirrors ⟨_, rfl, by decide⟩ (by decide +kernel) (by decide) (by decide)
    (by decide +kernel)).mpr ⟨by decide +kernel, by decide +kernel⟩

/-- Of two records, a reader starts at the second one and takes as many as there are: the segment log
panics. A page with both has a cursor in one of the stores. -/
theorem pages_differ :
    twoOrders.2.readPage ⟨"orders", 0⟩ "1" maxInt = none ∧
    ¬ SamePages twoOrders.1 twoOrders.2 ⟨"orders", 0⟩ "1" 1 maxInt ∧
    (twoOrders.2.page ⟨"orders", 0⟩ 2 "").map RecordPage.nextCursor = some "2" ∧
    (twoOrders.1.page ⟨"orders", 0⟩ 2 "").map RecordPage.nextCursor = some "" := by
  have hpanic : twoOrders.2.readPage ⟨"orders", 0⟩ "1" maxInt = none := by decide +kernel
  refine ⟨hpanic, ?_, by decide +kernel, by decide +kernel⟩
  rintro ⟨pages, hsegment, -⟩
  cases hsegment with
  | last hread | next hread =>
    rw [StorxLogStore.page, hpanic] at hread
    cases hread

end Ech0.Store
