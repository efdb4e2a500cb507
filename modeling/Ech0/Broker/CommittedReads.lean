/-
  Reading what is committed.

  `readCommittedRecords` pages through a log: it asks for as many records as it still has room for,
  leaves out what it may not show and asks again from where the page ended. A page that ends in the
  middle of the log ends after its last record, and one that meets an open transaction ends before
  it. So the cursor always splits the log (`readCommittedLoop_spec`), and a reader that goes on where
  the last page ended sees every committed record once. The exception is a record at the last offset
  there is: behind it the cursor is 0 again.
-/
import Ech0.Broker.Fetch
import Ech0.Broker.TransactionPublish

set_option autoImplicit false

namespace Ech0.Broker

open Ech0.Lib Ech0.Store StorxLogStore List

variable {cursor maxRecords rounds : Nat} {rest : List Record} {records taken : List Record}

/-! ## What a reader of committed records is to see -/

/-- A record of a transaction that is open, or that is not known. -/
def World.isOpen (w : World) (record : Record) : Bool :=
  match record.transaction with
  | none => false
  | some transaction => transaction.controlType = .none &&
      (w.metadata.loadTransaction transaction.txID).all fun state => state.status = .open

/-- A record that is no control record, and not of a transaction unless of a committed one. -/
def World.isCommitted (w : World) (record : Record) : Bool :=
  match record.transaction with
  | none => true
  | some transaction => transaction.controlType = .none &&
      (w.metadata.loadTransaction transaction.txID).any fun state => state.status = .committed

/-- The committed records of those before the first one of an open transaction. -/
def World.committedBefore (w : World) (records : List Record) : List Record :=
  (records.takeWhile fun record => !w.isOpen record).filter w.isCommitted

/-- None of the records that a reader passes has the last offset. -/
def World.Passable (w : World) (records : List Record) : Prop :=
  ∀ record ∈ records.takeWhile fun record => !w.isOpen record, record.offset < maxUint64

section
variable {cfg : Config} {w : World}

lemma World.Passable.front {later : List Record} (h : w.Passable (records ++ later)) :
    w.Passable records := by
  intro record hrecord
  apply h
  rw [takeWhile_append]
  split
  · exact mem_append_left _ ((takeWhile_sublist _).subset hrecord)
  · exact hrecord

/-- What is behind records that are passed. -/
lemma World.Passable.behind (h : w.Passable (taken ++ rest))
    (hclosed : ∀ record ∈ taken, w.isOpen record = false) : w.Passable rest := by
  unfold World.Passable at h
  rw [takeWhile_append_of_pos fun record hrecord => by rw [hclosed record hrecord]; rfl] at h
  exact fun record hrecord => h record (mem_append_right _ hrecord)

lemma World.Passable.addUint64_eq {record : Record} (h : w.Passable (record :: rest))
    (hclosed : w.isOpen record = false) : addUint64 record.offset 1 = record.offset + 1 := by
  have hlt := h record (by rw [takeWhile_cons, hclosed]; exact mem_cons_self)
  unfold maxUint64 at hlt
  exact Nat.mod_eq_of_lt (by omega)

lemma peeks_transactionRecordVisibility (record : Record) :
    Peeks cfg w (transactionRecordVisibility record)
      (.ok (if w.isOpen record then .open else if w.isCommitted record then .visible else .hidden)) := by
  unfold transactionRecordVisibility World.isOpen World.isCommitted
  cases record.transaction with
  | none => exact peeks_pure _
  | some transaction =>
    dsimp only
    by_cases hcontrol : transaction.controlType = .none
    · rw [if_neg (by simpa using hcontrol)]
      have hload : Peeks cfg w (wrapBroker "load transaction visibility"
          (onMeta (.loadTransaction transaction.txID)))
            (.ok (w.metadata.loadTransaction transaction.txID)) :=
        (peeks_onMeta (fun _ => rfl)).wrapBroker _
      rcases Option.eq_none_or_eq_some (w.metadata.loadTransaction transaction.txID) with
        hstate | ⟨state, hstate⟩
      · rw [hstate] at hload
        refine hload.bind ?_
        simpa [hcontrol, hstate] using peeks_pure _
      · rw [hstate] at hload
        refine hload.bind ?_
        by_cases hopen : state.status = .open
        · simpa [hcontrol, hstate, hopen] using peeks_pure _
        · by_cases hcommitted : state.status = .committed
          · simpa [hcontrol, hstate, hcommitted] using peeks_pure _
          · simpa [hcontrol, hstate, hopen, hcommitted] using peeks_pure _
    · rw [if_pos hcontrol]
      simpa [hcontrol] using peeks_pure _

/-! ## One page -/

/-- Where the loop over a page ends: what was taken, what was left and the cursor in between. -/
structure PageCut (w : World) (records taken rest : List Record) (cursor next : Nat) : Prop where
  split : records = taken ++ rest
  closed : ∀ record ∈ taken, w.isOpen record = false
  after : ∀ record ∈ taken, record.offset < next
  before : ∀ record ∈ rest, next ≤ record.offset
  forward : cursor ≤ next
  bounded : ∀ bound, cursor ≤ bound → (∀ record ∈ records, record.offset < bound) → next ≤ bound

variable {cursor next : Nat}

lemma PageCut.cons {record : Record} (h : PageCut w records taken rest (record.offset + 1) next)
    (hclosed : w.isOpen record = false) (hcursor : cursor ≤ record.offset) :
    PageCut w (record :: records) (record :: taken) rest cursor next := by
  have hforward := h.forward
  refine ⟨by rw [h.split]; rfl, ?_, ?_, h.before, by omega, fun bound _ hbound => ?_⟩
  · exact forall_mem_cons.mpr ⟨hclosed, h.closed⟩
  · exact forall_mem_cons.mpr ⟨by omega, h.after⟩
  · have hrecord := hbound record mem_cons_self
    exact h.bounded bound (by omega) fun r hr => hbound r (mem_cons_of_mem _ hr)

/-- Nothing of the page is taken. -/
lemma PageCut.nothing (hforward : cursor ≤ next)
    (hbefore : ∀ record ∈ records, next ≤ record.offset)
    (hbounded : ∀ bound, cursor ≤ bound → (∀ record ∈ records, record.offset < bound) → next ≤ bound) :
    PageCut w records [] records cursor next :=
  ⟨rfl, by simp, by simp, hbefore, hforward, hbounded⟩

/-- Why the loop over a page ends. -/
def PageStop (w : World) (maxRecords : Nat) (visible rest : List Record) (stop : Bool) : Prop :=
  visible.length ≤ maxRecords ∧
    if stop then visible.length = maxRecords ∨ ∃ record tail, rest = record :: tail ∧ w.isOpen record
    else rest = []

/-- The loop over a page, from a cursor that no record of the page is below. -/
lemma collectCommittedRecords_spec (cfg : Config) (w : World) {visible : List Record}
    (hordered : OffsetOrdered records) (hcursor : ∀ record ∈ records, cursor ≤ record.offset)
    (hpassable : w.Passable records) (hroom : visible.length < maxRecords) :
    ∃ taken rest next stop, PageCut w records taken rest cursor next ∧
      PageStop w maxRecords (visible ++ taken.filter w.isCommitted) rest stop ∧
      Peeks cfg w (collectCommittedRecords maxRecords records cursor visible)
        (.ok (stop, next, visible ++ taken.filter w.isCommitted)) := by
  induction records generalizing cursor visible with
  | nil =>
    refine ⟨[], [], cursor, false, .nothing le_rfl (by simp) (fun _ h _ => h), ?_, ?_⟩
    · simpa [PageStop] using hroom.le
    · simpa [collectCommittedRecords] using peeks_pure _
  | cons record records ih =>
    obtain ⟨hfirst, hrest⟩ := pairwise_cons.mp hordered
    have hrecord := hcursor record mem_cons_self
    have hvisibility : Peeks cfg w (transactionRecordVisibility record) _ :=
      peeks_transactionRecordVisibility record
    have hlater : ∀ r ∈ records, record.offset + 1 ≤ r.offset := fun r hr => hfirst r hr
    by_cases hopen : w.isOpen record = true
    · -- the record stays where it is, and the cursor before it
      rw [if_pos hopen] at hvisibility
      refine ⟨[], record :: records, record.offset, true, .nothing hrecord ?_ ?_, ?_, ?_⟩
      · exact forall_mem_cons.mpr ⟨le_rfl, fun r hr => (hfirst r hr).le⟩
      · exact fun bound _ hbound => (hbound record mem_cons_self).le
      · refine ⟨by simpa using hroom.le, ?_⟩
        exact .inr ⟨record, records, rfl, hopen⟩
      · rw [filter_nil, append_nil]
        exact hvisibility.bind (peeks_pure _)
    · rw [if_neg hopen] at hvisibility
      have hclosed : w.isOpen record = false := Bool.eq_false_iff.mpr hopen
      have hpast := hpassable.addUint64_eq hclosed
      have htaken : ∀ r ∈ [record], w.isOpen r = false := by simpa using hclosed
      have hbehind : w.Passable records := hpassable.behind htaken
      by_cases hcommitted : w.isCommitted record = true
      · rw [if_pos hcommitted] at hvisibility
        by_cases hfull : maxRecords ≤ (visible ++ [record]).length
        · refine ⟨[record], records, record.offset + 1, true,
            (PageCut.nothing le_rfl hlater fun _ h _ => h).cons hclosed hrecord, ?_, ?_⟩
          · rw [filter_cons_of_pos hcommitted, filter_nil]
            rw [length_append, length_singleton] at hfull
            refine ⟨?_, .inl ?_⟩ <;> rw [length_append, length_singleton] <;> omega
          · rw [filter_cons_of_pos hcommitted, filter_nil]
            refine hvisibility.bind ?_
            dsimp only
            rw [if_pos hfull, hpast]
            exact peeks_pure _
        · have hmore : (visible ++ [record]).length < maxRecords := by omega
          obtain ⟨taken, rest, next, stop, hcut, hstop, hrun⟩ := ih hrest hlater hbehind hmore
          rw [append_assoc, singleton_append] at hstop hrun
          refine ⟨record :: taken, rest, next, stop, hcut.cons hclosed hrecord, ?_, ?_⟩
          · rw [filter_cons_of_pos hcommitted]
            exact hstop
          · rw [filter_cons_of_pos hcommitted]
            refine hvisibility.bind ?_
            dsimp only
            rw [if_neg hfull, hpast]
            exact hrun
      · rw [if_neg hcommitted] at hvisibility
        obtain ⟨taken, rest, next, stop, hcut, hstop, hrun⟩ := ih hrest hlater hbehind hroom
        refine ⟨record :: taken, rest, next, stop, hcut.cons hclosed hrecord, ?_, ?_⟩
        · rw [filter_cons_of_neg hcommitted]
          exact hstop
        · rw [filter_cons_of_neg hcommitted]
          refine hvisibility.bind ?_
          dsimp only
          rw [if_neg (by omega), hpast]
          exact hrun

/-! ## Page after page -/

/-- A page is the first part of what is still to be read. -/
lemma PageCut.of_page {page later : List Record} (h : PageCut w page taken rest cursor next)
    (hordered : OffsetOrdered (page ++ later)) (hcursor : ∀ record ∈ later, cursor ≤ record.offset) :
    PageCut w (page ++ later) taken (rest ++ later) cursor next := by
  obtain ⟨-, -, hpage⟩ := pairwise_append.mp hordered
  refine ⟨by rw [h.split, append_assoc], h.closed, h.after, fun record hrecord => ?_, h.forward,
    fun bound hle hbound => h.bounded bound hle fun r hr => hbound r (mem_append_left _ hr)⟩
  rcases mem_append.mp hrecord with hrest | hlater
  · exact h.before record hrest
  · exact h.bounded record.offset (hcursor record hlater) fun r hr => hpage r hr record hlater

/-- One scan goes on where another one ended. -/
lemma PageCut.append {middle taken' : List Record} {next next' : Nat}
    (h : PageCut w records taken middle cursor next) (h' : PageCut w middle taken' rest next next') :
    PageCut w records (taken ++ taken') rest cursor next' := by
  have hforward := h.forward
  have hforward' := h'.forward
  refine ⟨by rw [h.split, h'.split, append_assoc], ?_, ?_, h'.before, by omega, ?_⟩
  · exact forall_mem_append.mpr ⟨h.closed, h'.closed⟩
  · exact forall_mem_append.mpr ⟨fun record hr => (h.after record hr).trans_le hforward', h'.after⟩
  · intro bound hle hbound
    refine h'.bounded bound (h.bounded bound hle hbound) fun record hrecord => hbound record ?_
    rw [h.split]
    exact mem_append_right _ hrecord

/-- The cursor splits the log. -/
lemma PageCut.unread (h : PageCut w (recordsFrom records cursor) taken rest cursor next) :
    recordsFrom records next = rest := by
  have hforward := h.forward
  have hagain : recordsFrom records next = recordsFrom (recordsFrom records cursor) next := by
    unfold recordsFrom
    rw [filter_filter]
    apply filter_congr
    intro record _
    rw [Bool.eq_iff_iff, Bool.and_eq_true, decide_eq_true_eq, decide_eq_true_eq]
    omega
  rw [hagain, h.split]
  unfold recordsFrom
  rw [filter_append, filter_eq_nil_iff.mpr, filter_eq_self.mpr, nil_append]
  · intro record hrecord
    exact decide_eq_true (h.before record hrecord)
  · intro record hrecord
    have := h.after record hrecord
    rw [decide_eq_true_eq]
    omega

/-- A scan has shown enough, or there is nothing more that it may show. -/
def ScanEnd (w : World) (maxRecords : Nat) (visible rest : List Record) : Prop :=
  visible.length ≤ maxRecords ∧
    (visible.length = maxRecords ∨ rest = [] ∨ ∃ record tail, rest = record :: tail ∧ w.isOpen record)

variable {tp : TopicPartition} {log : StorxLogStore}

/-- The induction is on the rounds: each reads a record at least. -/
lemma readCommittedLoop_spec (hinv : WorldInv w) (hlog : w.logAt (w.holder cfg tp) = .ok log)
    (hpart : log.HasPartition tp) {visible : List Record} (hroom : visible.length ≤ maxRecords)
    (hpassable : w.Passable (recordsFrom (log.recordsAt tp) cursor))
    (hrounds : (recordsFrom (log.recordsAt tp) cursor).length < rounds) :
    ∃ taken rest next, PageCut w (recordsFrom (log.recordsAt tp) cursor) taken rest cursor next ∧
      ScanEnd w maxRecords (visible ++ taken.filter w.isCommitted) rest ∧
      Peeks cfg w (readCommittedLoop cfg tp maxRecords rounds cursor visible)
        (.ok (some (visible ++ taken.filter w.isCommitted, next))) := by
  induction rounds generalizing cursor visible with
  | zero => exact absurd hrounds (Nat.not_lt_zero _)
  | succ rounds ih =>
    have hcursor : ∀ record ∈ recordsFrom (log.recordsAt tp) cursor, cursor ≤ record.offset :=
      fun record hrecord => of_decide_eq_true (mem_filter.mp hrecord).2
    have hordered : OffsetOrdered (recordsFrom (log.recordsAt tp) cursor) :=
      ((hinv.logAt hlog).ordered tp).filter _
    generalize hunread : recordsFrom (log.recordsAt tp) cursor = unread
      at hcursor hordered hpassable hrounds ⊢
    have hnothing : PageCut w unread [] unread cursor cursor :=
      .nothing le_rfl hcursor fun _ h _ => h
    unfold readCommittedLoop
    by_cases hfull : visible.length < maxRecords
    · rw [if_pos hfull]
      have hread : Peeks cfg w (wrapBroker "read committed messages"
          (MessageRuntime.readFrom cfg tp cursor (maxRecords - visible.length)))
            (.ok (unread.take (maxRecords - visible.length))) := by
        rw [← hunread]
        exact (peeks_readFrom hinv hlog hpart cursor _).wrapBroker _
      have hsplit : unread.take (maxRecords - visible.length) ++ unread.drop (maxRecords - visible.length)
          = unread := take_append_drop _ _
      have hsize : (unread.take (maxRecords - visible.length)).length
          = min (maxRecords - visible.length) unread.length := length_take
      generalize unread.take (maxRecords - visible.length) = page at hread hsplit hsize
      generalize unread.drop (maxRecords - visible.length) = later at hsplit
      subst hsplit
      by_cases hnil : page = []
      · -- nothing is left of the log
        have hend : page ++ later = [] := by
          rw [hnil, length_nil] at hsize
          apply eq_nil_of_length_eq_zero
          rw [hnil]
          omega
        refine ⟨[], page ++ later, cursor, hnothing, ⟨by simpa using hroom, .inr (.inl hend)⟩, ?_⟩
        refine hread.bind ?_
        dsimp only
        rw [if_pos hnil, filter_nil, append_nil]
        exact peeks_pure _
      · obtain ⟨hpage, hlater, -⟩ := pairwise_append.mp hordered
        obtain ⟨taken, rest, next, stop, hcut, hstop, hrun⟩ := collectCommittedRecords_spec cfg w
          hpage (fun r hr => hcursor r (mem_append_left _ hr)) hpassable.front hfull
        have hcut' := hcut.of_page hordered fun r hr => hcursor r (mem_append_right _ hr)
        have hcollect : Peeks cfg w (collectCommittedRecords maxRecords page 0 visible)
            (.ok (stop, next, visible ++ taken.filter w.isCommitted)) := by
          -- the cursor of an empty page is never read
          cases page with
          | nil => exact absurd rfl hnil
          | cons first others => exact hrun
        cases stop with
        | true =>
          refine ⟨taken, rest ++ later, next, hcut', ⟨hstop.1, ?_⟩, ?_⟩
          · rcases hstop.2 with hlength | ⟨record, others, rfl, hopen⟩
            · exact .inl hlength
            · exact .inr (.inr ⟨record, others ++ later, rfl, hopen⟩)
          · refine hread.bind ?_
            dsimp only
            rw [if_neg hnil]
            exact hcollect.bind (peeks_pure _)
        | false =>
          obtain rfl : rest = [] := hstop.2
          rw [nil_append] at hcut'
          have hnext : recordsFrom (log.recordsAt tp) next = later := by
            rw [← hunread] at hcut'
            exact hcut'.unread
          have hless : (recordsFrom (log.recordsAt tp) next).length < rounds := by
            have hpos := length_pos_iff.mpr hnil
            rw [length_append] at hrounds
            rw [hnext]
            omega
          have hbehind : w.Passable (recordsFrom (log.recordsAt tp) next) := by
            rw [hnext]
            rw [hcut'.split] at hpassable
            exact hpassable.behind hcut'.closed
          obtain ⟨taken', rest', next', hcut'', hend, hloop⟩ := ih hstop.1 hbehind hless
          rw [hnext] at hcut''
          rw [append_assoc, ← filter_append] at hend hloop
          refine ⟨taken ++ taken', rest', next', hcut'.append hcut'', hend, ?_⟩
          refine hread.bind ?_
          dsimp only
          rw [if_neg hnil]
          exact hcollect.bind hloop
    · rw [if_neg hfull]
      refine ⟨[], unread, cursor, hnothing, ?_, ?_⟩
      · rw [filter_nil, append_nil]
        exact ⟨hroom, .inl (by omega)⟩
      · rw [filter_nil, append_nil]
        exact peeks_pure _

lemma committedBefore_append (hclosed : ∀ record ∈ taken, w.isOpen record = false)
    (rest : List Record) :
    w.committedBefore (taken ++ rest) = taken.filter w.isCommitted ++ w.committedBefore rest := by
  unfold World.committedBefore
  rw [takeWhile_append_of_pos, filter_append]
  intro record hrecord
  rw [hclosed record hrecord]
  rfl

/-- What a scan has shown, and what is left to show from its cursor on. -/
lemma committedBefore_scan {unread : List Record} {next : Nat}
    (hcut : PageCut w unread taken rest cursor next)
    (hend : ScanEnd w maxRecords (taken.filter w.isCommitted) rest) :
    taken.filter w.isCommitted = (w.committedBefore unread).take maxRecords ∧
      w.committedBefore rest = (w.committedBefore unread).drop maxRecords := by
  rw [hcut.split, committedBefore_append hcut.closed]
  obtain ⟨hle, hfull | hlast⟩ := hend
  · rw [← hfull, take_left, drop_left]
    exact ⟨rfl, rfl⟩
  · have hnothing : w.committedBefore rest = [] := by
      rcases hlast with rfl | ⟨record, tail, rfl, hopen⟩
      · rfl
      · unfold World.committedBefore
        rw [takeWhile_cons, hopen]
        rfl
    rw [hnothing, append_nil, take_of_length_le hle, drop_of_length_le hle]
    exact ⟨rfl, rfl⟩

/-- One fetch: what it returns, and that the next one goes on where it ended. -/
lemma readCommittedRecords_spec (hinv : WorldInv w) (hlog : w.logAt (w.holder cfg tp) = .ok log)
    (hpart : log.HasPartition tp) {offset : Nat} (maxRecords : Nat)
    (hpassable : w.Passable (recordsFrom (log.recordsAt tp) offset))
    (hrounds : (log.recordsAt tp).length < rounds) : ∃ next,
      w.Passable (recordsFrom (log.recordsAt tp) next) ∧
      (∀ record ∈ log.recordsAt tp, offset ≤ record.offset → w.isOpen record → next ≤ record.offset) ∧
      w.committedBefore (recordsFrom (log.recordsAt tp) next)
        = (w.committedBefore (recordsFrom (log.recordsAt tp) offset)).drop maxRecords ∧
      Peeks cfg w (readCommittedRecords cfg tp offset maxRecords rounds)
        (.ok (some ((w.committedBefore (recordsFrom (log.recordsAt tp) offset)).take maxRecords, next))) := by
  have hless : (recordsFrom (log.recordsAt tp) offset).length < rounds :=
    (length_filter_le _ _).trans_lt hrounds
  have hroom : ([] : List Record).length ≤ maxRecords := Nat.zero_le _
  obtain ⟨taken, rest, next, hcut, hend, hrun⟩ :=
    readCommittedLoop_spec hinv hlog hpart hroom hpassable hless
  rw [nil_append] at hend hrun
  obtain ⟨hshown, hleft⟩ := committedBefore_scan hcut hend
  refine ⟨next, ?_, fun record hrecord hoffset hopen => ?_, ?_, ?_⟩
  · rw [hcut.unread]
    rw [hcut.split] at hpassable
    exact hpassable.behind hcut.closed
  · -- an open record is not taken, so the cursor is before it
    have hunread : record ∈ recordsFrom (log.recordsAt tp) offset :=
      mem_filter.mpr ⟨hrecord, decide_eq_true hoffset⟩
    rw [hcut.split] at hunread
    rcases mem_append.mp hunread with htaken | hrest
    · rw [hcut.closed record htaken] at hopen
      cases hopen
    · exact hcut.before record hrest
  · rw [hcut.unread]
    exact hleft
  · rw [← hshown]
    exact hrun

end

end Ech0.Broker
