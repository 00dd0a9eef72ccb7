import LegalAgent.Library.Order
import LegalAgent.Store.Repository

/-
  Reading the event log of a run.

  The primary key of `run_events` gives the events of one run
  different numbers.  A page behind the last number that a
  client received is then the beginning of what it has not
  received, in the order of the numbers.

  Key definitions include:
    * `Db.runLog`
    * `Db.KeyedEvents`
    * `Db.replay`
    * `throughTerminal`
    * `EndsOnce`

  Key theorems include:
    * `keyed_appendEvent`
    * `page_of_prefix`
-/

------------------------------------------------------------
-- Logs
------------------------------------------------------------

namespace LegalAgent

open Library

/- The logged events of a run in the order of their writes. -/
def Db.runLog (db : Db) (runId : RunId) : List RunEvent :=
  (db.runEvents.filter fun row => row.runId == runId).map
    fun row => ⟨row.data, row.seq⟩

/- The primary key of `run_events`. -/
def Db.KeyedEvents (db : Db) : Prop :=
  db.runEvents.Pairwise fun row other =>
    row.runId = other.runId → row.seq ≠ other.seq

/- Events by their numbers. -/
def inOrder (events : List RunEvent) : List RunEvent :=
  sortBy RunEvent.seq events

/- The logged events of a run by their numbers. -/
def Db.replay (db : Db) (runId : RunId) : List RunEvent :=
  inOrder (db.runLog runId)

/- The number of the last event that a client received. -/
def lastEventId (received : List RunEvent) : Option Nat :=
  received.getLast?.map RunEvent.seq

/- The last number after more events were received. -/
theorem lastEventId_append
    (received more : List RunEvent) :
    lastEventId (received ++ more) =
      (lastEventId more).or (lastEventId received) := by
  rw [lastEventId, List.getLast?_append, Option.map_or,
    lastEventId, lastEventId]

/- The events up to the first terminal one. -/
def throughTerminal : List RunEvent → List RunEvent
| [] => []
| event :: events =>
    if event.name.terminal then [event]
    else event :: throughTerminal events

/- Events without a terminal one are kept. -/
theorem throughTerminal_of_none
    {events : List RunEvent}
    (hNone : ∀ event ∈ events, event.name.terminal = false) :
    throughTerminal events = events := by
  induction events with
  | nil => rfl
  | cons event events ih =>
      rw [List.forall_mem_cons] at hNone
      rw [throughTerminal, hNone.1, ih hNone.2]
      rfl

/- Only the last of some events is terminal. -/
def EndsOnce (events : List RunEvent) : Prop :=
  ∃ before last,
    events = before ++ [last] ∧ last.name.terminal = true ∧
      ∀ event ∈ before, event.name.terminal = false

/- The last event is terminal and the others are not. -/
theorem endsOnce_iff
    (events : List RunEvent) :
    EndsOnce events ↔
      (events.getLast?.any fun event => event.name.terminal) =
          true ∧
        (events.dropLast.all fun event =>
          !event.name.terminal) = true := by
  rcases List.eq_nil_or_concat events with
    rfl | ⟨before, last, rfl⟩
  · simp [EndsOnce]
  · constructor
    · rintro ⟨before', last', hEq, hLast, hBefore⟩
      rw [List.concat_eq_append] at hEq ⊢
      rcases List.append_inj' hEq rfl with ⟨rfl, hSame⟩
      cases hSame
      simpa [hLast] using hBefore
    · rw [List.concat_eq_append]
      rintro ⟨hLast, hBefore⟩
      refine ⟨before, last, rfl, ?_, ?_⟩
      · simpa using hLast
      · simpa using hBefore

instance (events : List RunEvent) : Decidable (EndsOnce events) :=
  decidable_of_iff _ (endsOnce_iff events).symm

/- Events of which only the last is terminal are kept. -/
theorem throughTerminal_of_endsOnce
    {events : List RunEvent}
    (hEnds : EndsOnce events) :
    throughTerminal events = events := by
  rcases hEnds with ⟨before, last, rfl, hLast, hBefore⟩
  induction before with
  | nil => simp [throughTerminal, hLast]
  | cons event before ih =>
      rw [List.forall_mem_cons] at hBefore
      rw [List.cons_append, throughTerminal, hBefore.1,
        ih hBefore.2]
      rfl

/- What follows events without a terminal one ends once. -/
theorem endsOnce_of_append
    {events more : List RunEvent}
    (hEnds : EndsOnce (events ++ more))
    (hNone : ∀ event ∈ events, event.name.terminal = false) :
    EndsOnce more := by
  rcases hEnds with ⟨before, last, hEq, hLast, hBefore⟩
  rcases List.eq_nil_or_concat more with
    rfl | ⟨init, other, rfl⟩
  · rw [List.append_nil] at hEq
    subst hEq
    rw [hNone last (by simp)] at hLast
    cases hLast
  · rw [List.concat_eq_append] at hEq ⊢
    rw [← List.append_assoc] at hEq
    rcases List.append_inj' hEq rfl with ⟨rfl, hOther⟩
    cases hOther
    refine ⟨init, last, rfl, hLast, ?_⟩
    intro event hMem
    exact hBefore event (List.mem_append_right _ hMem)

/- A terminal event in a beginning is the end. -/
theorem eq_nil_of_endsOnce
    {events more : List RunEvent}
    (hEnds : EndsOnce (events ++ more))
    {event : RunEvent}
    (hMem : event ∈ events)
    (hTerminal : event.name.terminal = true) :
    more = [] := by
  rcases hEnds with ⟨before, last, hEq, -, hBefore⟩
  rcases List.eq_nil_or_concat more with
    rfl | ⟨init, other, rfl⟩
  · rfl
  · rw [List.concat_eq_append, ← List.append_assoc] at hEq
    rcases List.append_inj' hEq rfl with ⟨rfl, -⟩
    rw [hBefore event (List.mem_append_left _ hMem)]
      at hTerminal
    cases hTerminal

/- A logged event keeps the primary key. -/
theorem keyed_appendEvent
    {db : Db}
    (hKeyed : db.KeyedEvents)
    (threadId : ThreadId)
    (runId : RunId)
    (event : RunEvent) :
    (db.appendEvent threadId runId event).KeyedEvents := by
  unfold Db.appendEvent
  split
  · exact hKeyed
  · rename_i hFree
    refine List.pairwise_append.mpr
      ⟨hKeyed, List.pairwise_singleton _ _, ?_⟩
    intro row hRow other hOther hRun hSeq
    rw [List.mem_singleton] at hOther
    subst hOther
    apply hFree
    rw [List.any_eq_true]
    refine ⟨row, hRow, ?_⟩
    rw [Bool.and_eq_true, beq_iff_eq, beq_iff_eq]
    exact ⟨hRun, hSeq⟩

/- The events of one log have different numbers. -/
theorem seqs_of_keyed
    {db : Db}
    (hKeyed : db.KeyedEvents)
    (runId : RunId) :
    (db.runLog runId).Pairwise fun event other =>
      event.seq ≠ other.seq := by
  apply List.pairwise_map.mpr
  apply
    (List.Pairwise.sublist List.filter_sublist hKeyed).imp_of_mem
  intro row other hRow hOther hSeq
  have hRun := (List.mem_filter.mp hRow).2
  have hRun' := (List.mem_filter.mp hOther).2
  rw [beq_iff_eq] at hRun hRun'
  exact hSeq (hRun.trans hRun'.symm)

------------------------------------------------------------
-- Order
------------------------------------------------------------

/- Events with different numbers are put in strict order. -/
theorem sorted_inOrder
    {events : List RunEvent}
    (hSeqs :
      events.Pairwise fun event other =>
        event.seq ≠ other.seq) :
    (inOrder events).Pairwise fun event other =>
      event.seq < other.seq :=
  sorted_sortBy hSeqs

/- Ordered events stay where they are. -/
theorem inOrder_of_sorted
    {events : List RunEvent}
    (hSorted :
      events.Pairwise fun event other =>
        event.seq < other.seq) :
    inOrder events = events :=
  sortBy_of_sorted hSorted

/- Selected events are in the order of all. -/
theorem inOrder_filter
    {events : List RunEvent}
    (hSeqs :
      events.Pairwise fun event other =>
        event.seq ≠ other.seq)
    (selects : RunEvent → Bool) :
    inOrder (events.filter selects) =
      (inOrder events).filter selects :=
  sortBy_filter hSeqs selects

------------------------------------------------------------
-- Pages
------------------------------------------------------------

/- A page is the beginning of the events behind the cursor. -/
theorem getRunEventsAfter_eq
    {db : Db}
    {runId : RunId}
    (hSeqs :
      (db.runLog runId).Pairwise fun event other =>
        event.seq ≠ other.seq)
    (cursor : Option Nat) :
    getRunEventsAfter runId cursor db =
      .ok
        (((db.replay runId).filter fun event =>
            cursor.all (· < event.seq)).take pageLimit,
          db) := by
  unfold Db.replay
  rw [← inOrder_filter hSeqs, Db.runLog, List.filter_map,
    List.filter_filter]
  unfold getRunEventsAfter Statement.query inOrder sortBy
  rw [← List.map_insertionSort
    (fun row other : RunEventRow => row.seq ≤ other.seq)]
  · rw [← List.map_take]
    simp only [Function.comp_def, Bool.and_comm]
  · intro row _ other _
    exact Iff.rfl

/- Behind a prefix of ordered events is the rest of them. -/
theorem behind_prefix
    {received rest : List RunEvent}
    (hSorted :
      (received ++ rest).Pairwise fun event other =>
        event.seq < other.seq) :
    ((received ++ rest).filter fun event =>
        (lastEventId received).all (· < event.seq)) =
      rest := by
  rcases List.pairwise_append.mp hSorted with
    ⟨hReceived, -, hBehind⟩
  rw [List.filter_append]
  rcases List.eq_nil_or_concat received with
    rfl | ⟨events, last, rfl⟩
  · simp [lastEventId]
  · rw [List.concat_eq_append] at hReceived hBehind ⊢
    have hLast :
        lastEventId (events ++ [last]) = some last.seq := by
      simp [lastEventId]
    rw [hLast]
    have hNone :
        ((events ++ [last]).filter fun event =>
            (some last.seq).all (· < event.seq)) = [] := by
      rw [List.filter_eq_nil_iff]
      intro event hMem
      rw [Option.all_some, decide_eq_true_eq, Nat.not_lt]
      rcases List.mem_append.mp hMem with hEvents | hEq
      · exact
          Nat.le_of_lt
            ((List.pairwise_append.mp hReceived).2.2 event
              hEvents last (List.mem_singleton_self last))
      · rw [List.mem_singleton.mp hEq]
    have hAll :
        (rest.filter fun event =>
            (some last.seq).all (· < event.seq)) = rest := by
      rw [List.filter_eq_self]
      intro event hMem
      rw [Option.all_some, decide_eq_true_eq]
      exact hBehind last (by simp) event hMem
    rw [hNone, hAll, List.nil_append]

/- A client gets the events that follow what it received. -/
theorem page_of_prefix
    {db : Db}
    {runId : RunId}
    (hSeqs :
      (db.runLog runId).Pairwise fun event other =>
        event.seq ≠ other.seq)
    {received rest : List RunEvent}
    (hReplay : db.replay runId = received ++ rest) :
    getRunEventsAfter runId (lastEventId received) db =
      .ok (rest.take pageLimit, db) := by
  have hSorted := sorted_inOrder hSeqs
  rw [← Db.replay, hReplay] at hSorted
  rw [getRunEventsAfter_eq hSeqs, hReplay,
    behind_prefix hSorted]

end LegalAgent
