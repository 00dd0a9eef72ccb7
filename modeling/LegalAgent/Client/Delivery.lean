import LegalAgent.Client.Sse

/-
  What a client yields of a finished log.

  The client applies the events of a log in order, each from
  the source that it reached first.  A source that the server
  closes is silent only if it was the first one to receive an
  event behind which a close is no error.

  Key definitions include:
    * `Finished`
    * `Follows`
    * `Tracks`

  Key theorems include:
    * `tracks_step`
    * `delivered_exactly_once`
-/

------------------------------------------------------------
-- Logs
------------------------------------------------------------

namespace LegalAgent

namespace Client

open Library

/-
  A log in the order of its numbers, all of them new to the
  client, that ends with its only terminal event, `run.done`.
-/
structure Finished
    (log : List RunEvent)
    (maxSeq : Int) :
    Prop where
  sorted :
    log.Pairwise fun event other => event.seq < other.seq
  fresh : ∀ event ∈ log, maxSeq < event.seq
  ends :
    ∃ before last,
      log = before ++ [last] ∧ last.name = .runDone ∧
        ∀ event ∈ before, event.name.terminal = false

section Logs

variable {log : List RunEvent} {start : Int}
variable {position : Nat} {event : RunEvent}

/- Only the last event of a log is terminal. -/
theorem Finished.terminal_iff
    (hFinished : Finished log start)
    (hEvent : log[position]? = some event) :
    event.name.terminal = true ↔ position + 1 = log.length := by
  rcases hFinished.ends with ⟨before, last, rfl, hLast, hBefore⟩
  rw [List.length_append, List.length_singleton]
  rcases Nat.lt_trichotomy position before.length with
    hLt | hEq | hGt
  · rw [List.getElem?_append_left hLt] at hEvent
    rw [hBefore event (List.mem_of_getElem? hEvent)]
    constructor
    · intro hFalse
      cases hFalse
    · intro hEq
      omega
  · subst hEq
    simp only [List.getElem?_concat_length,
      Option.some_inj] at hEvent
    subst hEvent
    rw [hLast]
    exact ⟨fun _ => rfl, fun _ => rfl⟩
  · rw [List.getElem?_eq_none (by simp; omega)] at hEvent
    cases hEvent

/- A log that ends with `run.done` has no error. -/
theorem Finished.ne_error
    (hFinished : Finished log start)
    (hEvent : log[position]? = some event) :
    event.name ≠ .error := by
  intro hError
  have hTerminal : event.name.terminal = true := by
    rw [hError]
    rfl
  have hPosition := (hFinished.terminal_iff hEvent).mp hTerminal
  rcases hFinished.ends with ⟨before, last, rfl, hLast, -⟩
  rw [List.length_append, List.length_singleton,
    Nat.add_right_cancel_iff] at hPosition
  subst hPosition
  simp only [List.getElem?_concat_length,
    Option.some_inj] at hEvent
  subst hEvent
  rw [hLast] at hError
  cases hError

/- The numbers of a log are in the order of its positions. -/
theorem Finished.seq_le_iff
    (hFinished : Finished log start)
    {other : Nat}
    {event' : RunEvent}
    (hEvent : log[position]? = some event)
    (hOther : log[other]? = some event') :
    event'.seq ≤ event.seq ↔ other < position + 1 := by
  rcases List.getElem?_eq_some_iff.mp hEvent with ⟨hLt, rfl⟩
  rcases List.getElem?_eq_some_iff.mp hOther with ⟨hLt', rfl⟩
  have hSorted := List.pairwise_iff_getElem.mp hFinished.sorted
  rcases Nat.lt_trichotomy other position with hLess | hEq | hMore
  · have := hSorted other position hLt' hLt hLess
    omega
  · subst hEq
    omega
  · have := hSorted position other hLt hLt' hMore
    omega

end Logs

------------------------------------------------------------
-- Invariants
------------------------------------------------------------

/- What an iterable has yielded or will yield. -/
def Source.items (source : Source) : List Item :=
  source.yielded ++ source.queue

/- The logged event of an item. -/
def Item.event? : Item → Option RunEvent
| .event logged => some logged
| .lost _ => none

/- Whether an item is a made-up error. -/
def Item.isLost : Item → Bool
| .event .. => false
| .lost .. => true

/-
  What is known of a source when some events of the log have
  been applied and each was first delivered to some source.
-/
structure Follows
    (log : List RunEvent)
    (front : Nat)
    (first? : Nat → Option Nat)
    (index : Nat)
    (source : Source) :
    Prop where
  next_le : source.next ≤ front
  terminated :
    source.terminated = true ↔
      ∃ position event,
        log[position]? = some event ∧
          settles event.name = true ∧
            first? position = some index
  done : source.done = true → source.next = log.length
  lost :
    source.items.any Item.isLost =
      (source.done && !source.terminated)

/- The first events of a log have been applied. -/
structure Tracks
    (log : List RunEvent)
    (front : Nat)
    (state : State) :
    Prop where
  bound : front ≤ log.length
  applied :
    ∀ position event,
      log[position]? = some event →
        ((event.seq : Int) ≤ state.maxSeq ↔ position < front)
  known :
    ∀ position,
      (state.first? position).isSome = true ↔ position < front
  sources :
    ∀ index source,
      state.sources[index]? = some source →
        Follows log front state.first? index source
  events :
    ((state.sources.flatMap fun source =>
        source.items.filterMap Item.event?).Perm
      (log.take front))
  named :
    ∀ position index,
      state.first? position = some index →
        index < state.sources.length
  opened : state.sources ≠ []

/- A change of one source adds to what all sources have. -/
theorem flatMap_set
    {α β : Type}
    {items : List α}
    {index : Nat}
    {item : α}
    (item' : α)
    (view : α → List β)
    (more : List β)
    (hItem : items[index]? = some item)
    (hView : view item' = view item ++ more) :
    ((items.set index item').flatMap view).Perm
      (items.flatMap view ++ more) := by
  induction items generalizing index with
  | nil => cases hItem
  | cons first items ih =>
      cases index with
      | zero =>
          simp only [List.getElem?_cons_zero,
            Option.some_inj] at hItem
          subst hItem
          simp only [List.set_cons_zero, List.flatMap_cons,
            hView, List.append_assoc]
          exact List.Perm.append_left _ List.perm_append_comm
      | succ index =>
          simp only [List.getElem?_cons_succ] at hItem
          simp only [List.set_cons_succ, List.flatMap_cons,
            List.append_assoc]
          exact List.Perm.append_left _ (ih hItem)

section Steps

variable {log : List RunEvent} {start : Int}
variable {front : Nat} {state next : State}

/- At first no event has been applied. -/
theorem tracks_sent
    (hFinished : Finished log start) :
    Tracks log 0 (.sent start) where
  bound := Nat.zero_le _
  applied := by
    intro position event hEvent
    have hFresh :=
      hFinished.fresh event (List.mem_of_getElem? hEvent)
    simp only [State.sent, Nat.not_lt_zero, iff_false, not_le]
    exact hFresh
  known := by
    intro position
    simp [State.first?, State.sent]
  sources := by
    intro index source hSource
    obtain ⟨rfl, rfl⟩ : index = 0 ∧ source = .opened := by
      cases index with
      | zero => exact ⟨rfl, (Option.some_inj.mp hSource).symm⟩
      | succ index => cases hSource
    constructor
    · exact Nat.le_refl _
    · simp [Source.opened, State.first?, State.sent]
    · intro hDone
      cases hDone
    · rfl
  events := by
    simp [State.sent, Source.opened, Source.items]
  named := by
    intro position index hFirst
    simp [State.first?, State.sent] at hFirst
  opened := by
    simp [State.sent]

/- A change of one source without a new event. -/
theorem tracks_set
    (hTracks : Tracks log front state)
    {index : Nat}
    {source : Source}
    (source' : Source)
    (hSource : state.sources[index]? = some source)
    (hFollows :
      Follows log front state.first? index source')
    (hItems :
      source'.items.filterMap Item.event? =
        source.items.filterMap Item.event?)
    (hMaxSeq : next.maxSeq = state.maxSeq)
    (hFirst : next.first? = state.first?)
    (hSources :
      next.sources = state.sources.set index source') :
    Tracks log front next where
  bound := hTracks.bound
  applied := by
    rw [hMaxSeq]
    exact hTracks.applied
  known := by
    rw [hFirst]
    exact hTracks.known
  sources := by
    intro other source'' hOther
    rw [hSources, List.getElem?_set] at hOther
    rw [hFirst]
    split at hOther
    · rename_i hEq
      subst hEq
      split at hOther
      · cases hOther
        exact hFollows
      · cases hOther
    · exact hTracks.sources other source'' hOther
  events := by
    have hPerm :=
      flatMap_set source'
        (fun source => source.items.filterMap Item.event?) []
        hSource (by rw [hItems, List.append_nil])
    rw [List.append_nil] at hPerm
    rw [hSources]
    exact hPerm.trans hTracks.events
  named := by
    rw [hFirst, hSources, List.length_set]
    exact hTracks.named
  opened := by
    intro hNil
    rw [hSources] at hNil
    exact hTracks.opened (by simpa using hNil)

/- What a source follows does not depend on the others. -/
theorem follows_mono
    {first first' : Nat → Option Nat}
    {index : Nat}
    {source : Source}
    (hFollows : Follows log front first index source)
    {front' : Nat}
    (hLe : front ≤ front')
    (hFirst :
      ∀ position,
        first' position = some index ↔
          first position = some index) :
    Follows log front' first' index source where
  next_le := Nat.le_trans hFollows.next_le hLe
  terminated := by
    rw [hFollows.terminated]
    simp only [hFirst]
  done := hFollows.done
  lost := hFollows.lost

/- The first receivers after a delivery. -/
theorem first?_append
    (index position other : Nat)
    {deliveries : List (Nat × Nat)} :
    ((deliveries ++ [(index, position)]).find? fun delivery =>
        delivery.2 == other).map Prod.fst =
      ((deliveries.find? fun delivery =>
          delivery.2 == other).map Prod.fst).or
        (if position = other then some index else none) := by
  rw [List.find?_append, Option.map_or]
  by_cases hEq : position = other
  · simp [hEq]
  · simp [hEq]

/- A terminal event settles. -/
theorem settles_of_terminal
    {name : EventName}
    (hTerminal : name.terminal = true) :
    settles name = true := by
  cases name <;> first | rfl | cases hTerminal

/- A delivery keeps track of the log. -/
theorem tracks_deliver
    (hFinished : Finished log start)
    (hTracks : Tracks log front state)
    {index : Nat}
    {source : Source}
    {event : RunEvent}
    (hSource : state.sources[index]? = some source)
    (hOpen : source.done = false)
    (hEvent : log[source.next]? = some event) :
    ∃ front',
      Tracks log front' (state.deliver index source event) := by
  have hFollows := hTracks.sources index source hSource
  have hFirst :
      ∀ other,
        (state.deliver index source event).first? other =
          (state.first? other).or
            (if source.next = other then some index else none) :=
    fun other => first?_append index source.next other
  have hNotError := hFinished.ne_error hEvent
  by_cases hSeen : (event.seq : Int) ≤ state.maxSeq
  · have hBehind :=
      (hTracks.applied source.next event hEvent).mp hSeen
    have hHeard : listen state.maxSeq source event =
        (source, state.maxSeq) := by
      rw [listen, if_pos hSeen]
    refine
      ⟨front,
        tracks_set hTracks { source with next := source.next + 1 }
          hSource ?_ rfl ?_ ?_ ?_⟩
    · exact
        { next_le := hBehind
          terminated := hFollows.terminated
          done := by
            intro hDone
            rw [hOpen] at hDone
            cases hDone
          lost := hFollows.lost }
    · simp only [State.deliver, hHeard]
    · funext other
      rw [hFirst]
      split
      · rename_i hEq
        have hSome := (hTracks.known other).mpr (hEq ▸ hBehind)
        rcases Option.isSome_iff_exists.mp hSome with
          ⟨first, hSome⟩
        rw [hSome, Option.some_or]
      · rw [Option.or_none]
    · simp only [State.deliver, hHeard, if_neg hNotError]
  · have hFront : source.next = front := by
      have hNot :=
        mt (hTracks.applied source.next event hEvent).mpr hSeen
      have hLe := hFollows.next_le
      omega
    subst hFront
    have hUnknown : state.first? source.next = none := by
      rw [← Option.not_isSome_iff_eq_none, hTracks.known]
      exact Nat.lt_irrefl _
    have hHeard :
        listen state.maxSeq source event =
          ({ source with
              terminated :=
                source.terminated || settles event.name
              queue := source.queue ++ [.event event]
              done := source.done || event.name.terminal },
            (event.seq : Int)) := by
      rw [listen, if_neg hSeen]
    have hOthers :
        ∀ other, other ≠ source.next →
          (state.deliver index source event).first? other =
            state.first? other := by
      intro other hNe
      rw [hFirst, if_neg hNe.symm, Option.or_none]
    have hHere :
        (state.deliver index source event).first? source.next =
          some index := by
      rw [hFirst, hUnknown, if_pos rfl, Option.none_or]
    have hSources :
        (state.deliver index source event).sources =
          state.sources.set index
            { source with
              terminated :=
                source.terminated || settles event.name
              queue := source.queue ++ [.event event]
              done := source.done || event.name.terminal
              next := source.next + 1 } := by
      simp only [State.deliver, hHeard, if_neg hNotError]
    rcases List.getElem?_eq_some_iff.mp hEvent with ⟨hLt, hGet⟩
    refine ⟨source.next + 1, hLt, ?_, ?_, ?_, ?_, ?_, ?_⟩
    · intro position other hOther
      simp only [State.deliver, hHeard, Int.ofNat_le]
      exact hFinished.seq_le_iff hEvent hOther
    · intro position
      rcases Nat.lt_trichotomy position source.next with
        hLess | rfl | hMore
      · rw [hOthers position (by omega), hTracks.known]
        omega
      · rw [hHere]
        simp
      · rw [hOthers position (by omega), hTracks.known]
        omega
    · intro other source'' hOther
      rw [hSources, List.getElem?_set] at hOther
      split at hOther
      · rename_i hEq
        subst hEq
        split at hOther
        · cases hOther
          refine ⟨Nat.le_refl _, ?_, ?_, ?_⟩
          · simp only [Bool.or_eq_true]
            rw [hFollows.terminated]
            constructor
            · rintro (⟨position, logged, hLog, hSettles, hGot⟩ |
                hSettles)
              · refine ⟨position, logged, hLog, hSettles, ?_⟩
                rw [hFirst, hGot, Option.some_or]
              · exact ⟨source.next, event, hEvent, hSettles, hHere⟩
            · rintro ⟨position, logged, hLog, hSettles, hGot⟩
              by_cases hEq : position = source.next
              · subst hEq
                rw [hEvent] at hLog
                cases hLog
                exact Or.inr hSettles
              · rw [hOthers position hEq] at hGot
                exact
                  Or.inl ⟨position, logged, hLog, hSettles, hGot⟩
          · simp only [hOpen, Bool.false_or]
            exact (hFinished.terminal_iff hEvent).mp
          · have hLost := hFollows.lost
            rw [hOpen, Bool.false_and] at hLost
            change
              ((source.yielded ++
                  (source.queue ++ [Item.event event])).any
                Item.isLost) = _
            rw [← List.append_assoc, List.any_append]
            change (source.items.any _ || false) = _
            rw [hLost, hOpen]
            cases hTerminal : event.name.terminal with
            | false => rfl
            | true => simp [settles_of_terminal hTerminal]
        · cases hOther
      · rename_i hNe
        apply
          follows_mono (hTracks.sources other source'' hOther)
            (Nat.le_succ _)
        intro position
        by_cases hEq : position = source.next
        · subst hEq
          rw [hHere, hUnknown]
          simpa using hNe
        · rw [hOthers position hEq]
    · rw [hSources]
      refine
        (flatMap_set _ _ [event] hSource ?_).trans ?_
      · simp [Source.items, Item.event?]
      · rw [List.take_add_one, hEvent]
        exact List.Perm.append_right _ hTracks.events
    · intro position other hOther
      rw [hSources, List.length_set]
      by_cases hEq : position = source.next
      · subst hEq
        rw [hHere, Option.some_inj] at hOther
        subst hOther
        exact (List.getElem?_eq_some_iff.mp hSource).1
      · rw [hOthers position hEq] at hOther
        exact hTracks.named position other hOther
    · intro hNil
      rw [hSources] at hNil
      exact hTracks.opened (by simpa using hNil)

/- A closed connection adds no logged event. -/
theorem events_onerror
    (maxSeq : Int)
    (source : Source) :
    (onerror maxSeq source).items.filterMap Item.event? =
      source.items.filterMap Item.event? := by
  unfold onerror Source.items
  cases source.terminated <;> simp [Item.event?]

/- A closed connection is lost unless the source settled. -/
theorem follows_onerror
    {first? : Nat → Option Nat}
    {index : Nat}
    {source : Source}
    (hFollows : Follows log front first? index source)
    (hOpen : source.done = false)
    (hEnd : source.next = log.length)
    (maxSeq : Int) :
    Follows log front first? index (onerror maxSeq source) where
  next_le := hFollows.next_le
  terminated := hFollows.terminated
  done := fun _ => hEnd
  lost := by
    have hLost := hFollows.lost
    rw [hOpen, Bool.false_and] at hLost
    unfold Source.items at hLost
    unfold onerror Source.items
    cases hTerminated : source.terminated with
    | true =>
        rw [if_pos rfl, hLost]
        rfl
    | false =>
        rw [if_neg Bool.false_ne_true, ← List.append_assoc,
          List.any_append, hLost]
        rfl

/- Every step keeps track of the log. -/
theorem tracks_step
    (hFinished : Finished log start)
    (hTracks : Tracks log front state)
    {action : Action}
    (hStep : step log state action = some next) :
    ∃ front', Tracks log front' next := by
  cases action with
  | approve =>
      cases hStep
      refine
        ⟨front, hTracks.bound, hTracks.applied, hTracks.known,
          ?_, ?_, ?_, ?_⟩
      · intro index source hSource
        rcases Nat.lt_or_ge index state.sources.length with
          hLt | hGe
        · rw [List.getElem?_append_left hLt] at hSource
          exact hTracks.sources index source hSource
        · rw [List.getElem?_append_right hGe,
            List.getElem?_singleton] at hSource
          split at hSource
          · cases hSource
            refine ⟨Nat.zero_le _, ?_, ?_, rfl⟩
            · constructor
              · intro hTerminated
                cases hTerminated
              · rintro ⟨position, event, -, -, hFirst⟩
                have hLt := hTracks.named position index hFirst
                exact absurd hLt (Nat.not_lt.mpr hGe)
            · intro hDone
              cases hDone
          · cases hSource
      · simpa [Source.opened, Source.items] using hTracks.events
      · intro position index hFirst
        rw [List.length_append]
        exact
          Nat.lt_add_right _ (hTracks.named position index hFirst)
      · simp
  | deliver index =>
      simp only [step] at hStep
      split at hStep
      · cases hStep
      · rename_i source hSource
        split at hStep
        · cases hStep
        · rename_i hOpen
          rw [Bool.not_eq_true] at hOpen
          rcases Option.map_eq_some_iff.mp hStep with
            ⟨event, hEvent, rfl⟩
          exact
            tracks_deliver hFinished hTracks hSource hOpen hEvent
  | close index =>
      simp only [step] at hStep
      split at hStep
      · cases hStep
      · rename_i source hSource
        split at hStep
        · cases hStep
        · rename_i hReady
          cases hStep
          have hFollows := hTracks.sources index source hSource
          rw [Bool.or_eq_true, not_or, Bool.not_eq_true,
            decide_eq_true_eq, Nat.not_lt] at hReady
          rcases hReady with ⟨hOpen, hGe⟩
          have hEnd : source.next = log.length :=
            Nat.le_antisymm
              (Nat.le_trans hFollows.next_le hTracks.bound) hGe
          exact
            ⟨front,
              tracks_set hTracks _ hSource
                (follows_onerror hFollows hOpen hEnd _)
                (events_onerror _ _) rfl rfl rfl⟩
  | take index =>
      simp only [step] at hStep
      split at hStep
      · cases hStep
      · rename_i source hSource
        split at hStep
        · cases hStep
        · rename_i item queue hQueue
          cases hStep
          have hFollows := hTracks.sources index source hSource
          have hItems :
              (source.yielded ++ [item]) ++ queue =
                source.items := by
            rw [Source.items, hQueue, List.append_assoc]
            rfl
          refine
            ⟨front,
              tracks_set hTracks
                { source with
                  queue := queue
                  yielded := source.yielded ++ [item] }
                hSource ?_
                (congrArg (List.filterMap Item.event?) hItems)
                rfl rfl rfl⟩
          exact
            { next_le := hFollows.next_le
              terminated := hFollows.terminated
              done := hFollows.done
              lost :=
                (congrArg (List.any · Item.isLost) hItems).trans
                  hFollows.lost }

end Steps

------------------------------------------------------------
-- Runs
------------------------------------------------------------

/- Every event of a log is yielded once, and nothing else. -/
def ExactlyOnce
    (log : List RunEvent)
    (state : State) :
    Prop :=
  state.yielded.Perm (log.map Item.event)

/-
  Every source was the first to receive an event of the log
  behind which a close is no error.
-/
def EachSettles
    (log : List RunEvent)
    (state : State) :
    Prop :=
  ∀ index < state.sources.length,
    ∃ position event,
      log[position]? = some event ∧
        settles event.name = true ∧
          state.first? position = some index

/- The events of a log are tracked in every run. -/
theorem tracks_run
    {log : List RunEvent}
    {start : Int}
    (hFinished : Finished log start)
    {state : State}
    (hRun :
      Execution (step log) (fun _ _ => True) (.sent start)
        state) :
    ∃ front, Tracks log front state := by
  induction hRun with
  | refl => exact ⟨0, tracks_sent hFinished⟩
  | tail _ hNext ih =>
      rcases ih with ⟨front, hTracks⟩
      rcases hNext with ⟨action, -, hStep⟩
      exact tracks_step hFinished hTracks hStep

/- Items without a made-up error are logged events. -/
theorem map_events
    {items : List Item}
    (hNone : items.any Item.isLost = false) :
    (items.filterMap Item.event?).map Item.event = items := by
  induction items with
  | nil => rfl
  | cons item items ih =>
      rw [List.any_cons, Bool.or_eq_false_iff] at hNone
      cases item with
      | event logged =>
          change
            Item.event logged ::
                (items.filterMap Item.event?).map Item.event = _
          rw [ih hNone.2]
      | lost seq => cases hNone.1

/-
  When all iterables have returned, they have yielded each
  event of the log exactly once and no made-up error, exactly
  when every source was the first to receive an answer, an
  error or the end of the run.
-/
theorem delivered_exactly_once
    {log : List RunEvent}
    {start : Int}
    (hFinished : Finished log start)
    {state : State}
    (hRun :
      Execution (step log) (fun _ _ => True) (.sent start)
        state)
    (hReturned : state.returned = true) :
    ExactlyOnce log state ↔ EachSettles log state := by
  rcases tracks_run hFinished hRun with ⟨front, hTracks⟩
  have hSources := List.all_eq_true.mp hReturned
  have hItems :
      ∀ source ∈ state.sources,
        source.done = true ∧ source.yielded = source.items := by
    intro source hMem
    have hBoth := hSources source hMem
    rw [Bool.and_eq_true, List.isEmpty_iff] at hBoth
    refine ⟨hBoth.1, ?_⟩
    rw [Source.items, hBoth.2, List.append_nil]
  have hYielded :
      state.yielded = state.sources.flatMap Source.items := by
    unfold State.yielded
    rw [List.flatMap_congr fun source hMem => (hItems source hMem).2]
  have hFront : front = log.length := by
    rcases List.exists_cons_of_ne_nil hTracks.opened with
      ⟨source, rest, hCons⟩
    have hSource : state.sources[0]? = some source := by
      rw [hCons]
      rfl
    have hFollows := hTracks.sources 0 source hSource
    have hDone :=
      (hItems source (List.mem_of_getElem? hSource)).1
    have hNext := hFollows.done hDone
    exact
      Nat.le_antisymm hTracks.bound (hNext ▸ hFollows.next_le)
  have hEvents :
      (state.yielded.filterMap Item.event?).Perm log := by
    have hAll := hTracks.events
    rw [hFront, List.take_length] at hAll
    rw [hYielded, List.filterMap_flatMap]
    exact hAll
  have hLost :
      ∀ (index : Nat) (source : Source),
        state.sources[index]? = some source →
          (source.items.any Item.isLost = false ↔
            source.terminated = true) := by
    intro index source hSource
    have hDone :=
      (hItems source (List.mem_of_getElem? hSource)).1
    rw [(hTracks.sources index source hSource).lost, hDone,
      Bool.true_and, Bool.not_eq_false']
  constructor
  · intro hOnce index hLt
    have hSource := List.getElem?_eq_getElem hLt
    apply (hTracks.sources index _ hSource).terminated.mp
    apply (hLost index _ hSource).mp
    rw [List.any_eq_false]
    intro item hMem hIsLost
    have hYields : item ∈ state.yielded := by
      rw [hYielded]
      exact
        List.mem_flatMap.mpr
          ⟨_, List.mem_of_getElem? hSource, hMem⟩
    rcases List.mem_map.mp (hOnce.mem_iff.mp hYields) with
      ⟨event, -, rfl⟩
    cases hIsLost
  · intro hSettles
    have hNone : state.yielded.any Item.isLost = false := by
      rw [hYielded, List.any_flatMap, List.any_eq_false]
      intro source hMem
      rcases List.mem_iff_getElem.mp hMem with
        ⟨index, hLt, hGet⟩
      have hSource : state.sources[index]? = some source := by
        rw [List.getElem?_eq_getElem hLt, hGet]
      have hTerminated :=
        (hTracks.sources index source hSource).terminated.mpr
          (hSettles index hLt)
      rw [(hLost index source hSource).mpr hTerminated]
      exact Bool.false_ne_true
    unfold ExactlyOnce
    rw [← map_events hNone]
    exact hEvents.map _

/- The log of a run with one approval. -/
def approvedLog : List RunEvent :=
  [⟨.runStarted 0 0 [], 1⟩,
    ⟨.approvalRequested 0 [] .approvalRequired, 2⟩,
    ⟨.messageCompleted [] [], 3⟩, ⟨.runDone 0 none, 4⟩]

/- The log of a run with one approval is finished. -/
theorem finished_approvedLog : Finished approvedLog (-1) where
  sorted := by
    unfold approvedLog
    simp
  fresh := by
    unfold approvedLog
    simp
  ends :=
    ⟨approvedLog.dropLast, ⟨.runDone 0 none, 4⟩, rfl, rfl,
      by
        unfold approvedLog
        decide⟩

/-
  The first source brings the answer and the second one the
  end of the run.
-/
def sharedDelivery : List Action :=
  [.deliver 0, .deliver 0, .take 0, .take 0, .approve,
    .deliver 1, .deliver 1, .deliver 0, .deliver 1, .deliver 1,
    .deliver 0, .close 0, .take 0, .take 1]

/- Both sources of `sharedDelivery` settle. -/
theorem delivered_exactly_once_shared :
    ∃ state,
      execute (step approvedLog) sharedDelivery (.sent (-1)) =
          some state ∧
        ExactlyOnce approvedLog state := by
  rcases
      exists_of_execute
        (show
          (execute (step approvedLog) sharedDelivery
              (.sent (-1))).map (fun state =>
                (state.returned, state.sources.length,
                  state.first? 2, state.first? 3)) =
            some (true, 2, some 0, some 1) by
          decide +kernel) with
    ⟨state, hState, hView⟩
  simp only [Prod.mk.injEq] at hView
  rcases hView with ⟨hReturned, hLength, hAnswer, hEnd⟩
  refine ⟨state, hState, ?_⟩
  apply
    (delivered_exactly_once finished_approvedLog
      (execution_of_execute hState) hReturned).mpr
  intro index hLt
  rw [hLength] at hLt
  obtain rfl | rfl : index = 0 ∨ index = 1 := by
    omega
  · exact ⟨2, _, rfl, rfl, hAnswer⟩
  · exact ⟨3, _, rfl, rfl, hEnd⟩

/- The second source brings both, and the first one is closed. -/
def lateDelivery : List Action :=
  [.deliver 0, .deliver 0, .take 0, .take 0, .approve,
    .deliver 1, .deliver 1, .deliver 1, .deliver 1, .take 1,
    .take 1, .deliver 0, .deliver 0, .close 0, .take 0]

/- A source that comes too late yields a made-up error. -/
theorem connection_lost :
    ¬ ∀ (log : List RunEvent) (start : Int) (state : State),
      Finished log start →
        Execution (step log) (fun _ _ => True) (.sent start)
            state →
          state.returned = true → ExactlyOnce log state := by
  intro hAll
  rcases
      exists_of_execute
        (show
          (execute (step approvedLog) lateDelivery
              (.sent (-1))).map (fun state =>
                (state.returned, state.yielded.length)) =
            some (true, 5) by
          decide +kernel) with
    ⟨state, hState, hView⟩
  simp only [Prod.mk.injEq] at hView
  have hOnce :=
    hAll approvedLog (-1) state finished_approvedLog
      (execution_of_execute hState) hView.1
  have hLength := hOnce.length_eq
  rw [hView.2] at hLength
  exact absurd hLength (by decide)

end Client

end LegalAgent
