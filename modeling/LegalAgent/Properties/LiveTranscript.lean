import LegalAgent.Client.Transcript
import LegalAgent.Properties.RecordedEvents
import LegalAgent.Store.Fork

/-
  What a page shows of a run is what it shows of the thread.

  A page that applies the logged events of a thread in their
  order adds cells and answers to its transcript.  The same
  cells and answers, in the same order, are among those that
  it shows once the thread is opened again.

  Key theorems include:
    * `numbered_of_reachable`
    * `live_within_reloaded`
-/

------------------------------------------------------------
-- Ordered Lists
------------------------------------------------------------

namespace LegalAgent

open Library

/-
  Items in strict order are a sublist of the items that they
  are among, if these are in the order as well.
-/
theorem sublist_of_ordered
    {α : Type}
    {key : α → Nat}
    {items all : List α}
    (hItems : items.Pairwise fun item other => key item < key other)
    (hAll : all.Pairwise fun item other => key item ≤ key other)
    (hMem : ∀ item ∈ items, item ∈ all) :
    items.Sublist all := by
  induction all generalizing items with
  | nil =>
      cases items with
      | nil => exact List.Sublist.refl _
      | cons item items =>
          cases hMem item List.mem_cons_self
  | cons first all ih =>
      rcases List.pairwise_cons.mp hAll with ⟨hFirst, hRest⟩
      cases items with
      | nil => exact List.nil_sublist _
      | cons item items =>
          rcases List.pairwise_cons.mp hItems with
            ⟨hItem, hItems'⟩
          -- the items behind the first one are not `first`
          have hBehind :
              ∀ other ∈ items,
                key first < key other → other ∈ all := by
            intro other hOther hLess
            rcases List.mem_cons.mp
                (hMem other (List.mem_cons_of_mem _ hOther)) with
              rfl | hIn
            · exact absurd hLess (Nat.lt_irrefl _)
            · exact hIn
          rcases List.mem_cons.mp
              (hMem item List.mem_cons_self) with rfl | hIn
          · apply List.Sublist.cons_cons
            apply ih hItems' hRest
            intro other hOther
            exact hBehind other hOther (hItem other hOther)
          · apply List.Sublist.cons
            apply ih hItems hRest
            intro other hOther
            rcases List.mem_cons.mp hOther with rfl | hOther
            · exact hIn
            · exact
                hBehind other hOther
                  (Nat.lt_of_le_of_lt (hFirst item hIn)
                    (hItem other hOther))

------------------------------------------------------------
-- Own Messages
------------------------------------------------------------

section Reachable

variable {registry : Registry}
variable {allowed : System → Action → Prop}

/- The numbers of the messages were drawn. -/
def Db.Numbered (db : Db) : Prop :=
  ∀ slot ∈ db.slots, 0 < slot.seq

/- Every call keeps the messages numbered. -/
theorem numbered_of_exec
    {inst : InstanceId}
    {op : Op}
    {world world' : World}
    {value : op.Reply}
    (hExec : exec inst op world = (.ok value, world'))
    (hNumbered : world.db.Numbered) :
    world'.db.Numbered := by
  intro slot hSlot
  cases changesSlots_of_exec hExec with
  | added _ hSlots =>
      rw [hSlots, List.mem_append, List.mem_singleton] at hSlot
      rcases hSlot with hSlot | rfl
      · exact hNumbered slot hSlot
      · exact Nat.succ_pos _
  | committed _ hSlots =>
      rw [hSlots, List.mem_append, List.mem_singleton] at hSlot
      rcases hSlot with hSlot | rfl
      · exact hNumbered slot hSlot
      · exact Nat.succ_pos _
  | kept _ hSlots =>
      rw [hSlots] at hSlot
      exact hNumbered slot hSlot

/- Every step numbers the messages from one on. -/
theorem keeps_numbered :
    KeptInDb registry allowed Db.Numbered where
  exec _ hExec hNumbered := numbered_of_exec hExec hNumbered
  advance _ _ hNumbered := hNumbered
  heartbeat _ _ hNumbered := hNumbered
  sweep := by
    intro db selects hNumbered slot hSlot
    rw [slots_sweep] at hSlot
    exact hNumbered slot hSlot
  collect _ _ hNumbered := hNumbered

/- The messages of a reachable system are numbered. -/
theorem numbered_of_reachable
    {system : System}
    (hReachable : Reachable registry allowed system) :
    system.world.db.Numbered :=
  preserved_of_reachable (preserves_of_kept keeps_numbered)
    (fun _ hSlot => by cases hSlot) hReachable

/- The thread of a message is there. -/
theorem thread_of_message
    {system : System}
    (hReachable : Reachable registry allowed system)
    {message : Message}
    (hMem : message ∈ system.world.db.messages) :
    ∃ thread,
      system.world.db.threads.get? message.threadId =
        some thread := by
  have hSlot : message.slot ∈ system.world.db.slots :=
    List.mem_map_of_mem hMem
  have hPos :=
    numbered_of_reachable hReachable message.slot hSlot
  have hLast :=
    (wellFormed_of_reachable hReachable).slotSeqs _ hSlot
  cases hThread :
      system.world.db.threads.get? message.threadId with
  | some thread => exact ⟨thread, rfl⟩
  | none =>
      have hZero :
          system.world.db.lastSeq message.slot.threadId = 0 := by
        rw [Db.lastSeq]
        change
          (system.world.db.threads.get?
            message.threadId).elim 0 _ = 0
        rw [hThread]
        rfl
      omega

/- A thread shows its own messages. -/
theorem visible_of_own
    {db : Db}
    {message : Message}
    {thread : Thread}
    (hThread : db.threads.get? message.threadId = some thread) :
    db.visible message.threadId message = true := by
  unfold Db.visible
  cases hDepth : db.threads.rows.length with
  | zero =>
      have hMem := mem_threads hThread
      rw [List.length_eq_zero_iff.mp hDepth] at hMem
      cases hMem
  | succ depth =>
      rw [Db.chain, hThread]
      simp

/- The messages of a thread are in the order of numbers. -/
theorem ordered_threadMessages
    (db : Db)
    (threadId : ThreadId) :
    (db.threadMessages threadId).Pairwise fun message other =>
      message.seq ≤ other.seq := by
  have hTotal :
      Std.Total fun message other : Message =>
        message.seq ≤ other.seq :=
    ⟨fun message other => Nat.le_total message.seq other.seq⟩
  have hTrans :
      IsTrans Message fun message other =>
        message.seq ≤ other.seq :=
    ⟨fun _ _ _ hFirst hSecond => Nat.le_trans hFirst hSecond⟩
  exact List.pairwise_insertionSort _ _

/-
  The cells and the answers of a thread itself, without those
  of the threads that it was forked from.
-/
def Db.ownReplies (db : Db) (threadId : ThreadId) : List Message :=
  (db.threadMessages threadId).filter fun message =>
    message.threadId == threadId && message.role != .user

/- A recorded reply is a reply of its thread. -/
theorem mem_of_recorded
    {system : System}
    (hReachable : Reachable registry allowed system)
    {record : MessageRecord}
    (hRecord : record ∈ system.world.db.messageRecords)
    (hRole : record.role ≠ .user) :
    ∃ message ∈ system.world.db.ownReplies record.threadId,
      message.record = record := by
  rcases List.mem_map.mp hRecord with ⟨message, hMem, rfl⟩
  refine ⟨message, ?_, rfl⟩
  rcases thread_of_message hReachable hMem with
    ⟨thread, hThread⟩
  rw [Db.ownReplies, List.mem_filter, Db.threadMessages, bySeq,
    List.mem_insertionSort, List.mem_filter, Bool.and_eq_true,
    bne_iff_ne]
  exact
    ⟨⟨hMem, visible_of_own hThread⟩, beq_self_eq_true _, hRole⟩

------------------------------------------------------------
-- Live And Reloaded Transcripts
------------------------------------------------------------

open Client

/- An event that is shown shows the message with its number. -/
theorem shown_of_recorded
    {system : System}
    (hReachable : Reachable registry allowed system)
    {threadId : ThreadId}
    {event : RunEvent}
    {interrupting : Bool}
    {look : Look}
    (hRecords : Records system.world.db threadId event)
    (hError : event.name = .error → interrupting = true)
    (hLook : eventLook interrupting event.data = some look) :
    ∃ message ∈ system.world.db.ownReplies threadId,
      message.seq = event.seq ∧ messageLook message = look := by
  rcases event with ⟨data, seq⟩
  cases data with
  | toolCall call =>
      rcases hRecords with
        ⟨record, hRecord, rfl, hSeq, hRole, hCall⟩
      cases hLook
      rcases
          mem_of_recorded hReachable hRecord
            (by rw [hRole]; decide) with
        ⟨message, hMem, rfl⟩
      refine ⟨message, hMem, hSeq, ?_⟩
      change message.role = .tool at hRole
      change message.call = call at hCall
      rw [messageLook, hRole, ← hCall]
      rfl
  | messageCompleted text cites =>
      rcases hRecords with
        ⟨runId, -, -, record, hRecord, rfl, hSeq, -, hRole,
          hText, -⟩
      cases hLook
      rcases
          mem_of_recorded hReachable hRecord
            (by rw [hRole]; decide) with
        ⟨message, hMem, rfl⟩
      refine ⟨message, hMem, hSeq, ?_⟩
      change message.role = .agent at hRole
      change message.contentMd = some text at hText
      rw [messageLook, hRole, hText]
      rfl
  | error runId message reason forged valid =>
      rw [eventLook, hError rfl] at hLook
      cases hLook
  | _ => cases hLook

/- The messages that the shown events show, in their order. -/
theorem messages_of_shown
    {all : List Message}
    {interrupting : Bool}
    {events : List RunEvent}
    (hShown :
      ∀ event ∈ events, ∀ look,
        eventLook interrupting event.data = some look →
          ∃ message ∈ all,
            message.seq = event.seq ∧
              messageLook message = look)
    (hOrder :
      events.Pairwise fun event other =>
        event.seq < other.seq) :
    ∃ messages : List Message,
      messages.map messageLook =
          (events.filterMap fun event =>
            eventLook interrupting event.data) ∧
        (messages.Pairwise fun message other =>
          message.seq < other.seq) ∧
        (∀ message ∈ messages,
          message ∈ all ∧
            ∃ event ∈ events, message.seq = event.seq) ∧
        ∀ event ∈ events,
          (eventLook interrupting event.data).isSome = true →
            ∃ message ∈ messages, message.seq = event.seq := by
  induction events with
  | nil =>
      exact
        ⟨[], rfl, List.Pairwise.nil, List.forall_mem_nil _,
          List.forall_mem_nil _⟩
  | cons event events ih =>
      rcases List.pairwise_cons.mp hOrder with ⟨hFirst, hRest⟩
      rcases
          ih
            (fun other hOther =>
              hShown other (List.mem_cons_of_mem _ hOther))
            hRest with
        ⟨messages, hLooks, hSorted, hMessages, hEvents⟩
      have hBehind :
          ∀ message ∈ messages,
            message ∈ all ∧
              ∃ other ∈ event :: events,
                message.seq = other.seq := by
        intro message hMem
        rcases hMessages message hMem with
          ⟨hAll, other, hOther, hSeq⟩
        exact
          ⟨hAll, other, List.mem_cons_of_mem _ hOther, hSeq⟩
      cases hLook : eventLook interrupting event.data with
      | none =>
          refine ⟨messages, ?_, hSorted, hBehind, ?_⟩
          · simp only [List.filterMap_cons, hLook, hLooks]
          · intro other hOther hSome
            rcases List.mem_cons.mp hOther with rfl | hOther
            · rw [hLook] at hSome
              cases hSome
            · exact hEvents other hOther hSome
      | some look =>
          rcases hShown event List.mem_cons_self look hLook with
            ⟨message, hMem, hSeq, hMessage⟩
          refine ⟨message :: messages, ?_, ?_, ?_, ?_⟩
          · simp only [List.map_cons, hMessage, hLooks,
              List.filterMap_cons, hLook]
          · apply List.pairwise_cons.mpr
            refine ⟨?_, hSorted⟩
            intro other hOther
            rcases hMessages other hOther with
              ⟨-, event', hEvent', hSeq'⟩
            rw [hSeq, hSeq']
            exact hFirst event' hEvent'
          · intro other hOther
            rcases List.mem_cons.mp hOther with rfl | hOther
            · exact ⟨hMem, event, List.mem_cons_self, hSeq⟩
            · exact hBehind other hOther
          · intro other hOther hSome
            rcases List.mem_cons.mp hOther with rfl | hOther
            · exact ⟨message, List.mem_cons_self, hSeq⟩
            · rcases hEvents other hOther hSome with
                ⟨other', hMem', hSeq'⟩
              exact
                ⟨other', List.mem_cons_of_mem _ hMem', hSeq'⟩

/-
  Whatever a page showed before, what logged events of one
  thread add to its transcript when it applies them in their
  order is a sublist of the transcript of the thread opened
  again.  Errors are only shown live.
-/
theorem live_within_reloaded
    {system : System}
    (hReachable : Reachable registry allowed system)
    {threadId : ThreadId}
    {events : List RunEvent}
    (hLogged :
      ∀ event ∈ events,
        ∃ row ∈ system.world.db.runEvents,
          row.threadId = threadId ∧
            event = ⟨row.data, row.seq⟩)
    (hOrder :
      events.Pairwise fun event other => event.seq < other.seq)
    (chat : Chat)
    (hErrors :
      ∀ event ∈ events,
        event.name = .error → chat.interrupting = true)
    (reopened : Transcript) :
    ∃ added,
      (chat.consume (events.map Item.event)
            false).transcript.looks =
          chat.transcript.looks ++ added ∧
        added.Sublist
          (reopened.loadMessages
            (system.world.db.threadMessages threadId)).looks := by
  refine ⟨_, looks_consume events, ?_⟩
  have hShown :
      ∀ event ∈ events, ∀ look,
        eventLook chat.interrupting event.data = some look →
          ∃ message ∈ system.world.db.ownReplies threadId,
            message.seq = event.seq ∧
              messageLook message = look := by
    intro event hEvent look hLook
    rcases hLogged event hEvent with ⟨row, hRow, rfl, rfl⟩
    exact
      shown_of_recorded hReachable
        (recorded_of_reachable hReachable row hRow)
        (hErrors _ hEvent) hLook
  rcases messages_of_shown hShown hOrder with
    ⟨messages, hLooks, hSorted, hMessages, -⟩
  rw [looks_loadMessages, ← hLooks]
  apply List.Sublist.map
  apply
    sublist_of_ordered hSorted
      (ordered_threadMessages system.world.db threadId)
  intro message hMem
  exact List.mem_of_mem_filter (hMessages message hMem).1

end Reachable

/- A page that has just sent a question. -/
def askingChat : Client.Chat where
  transcript := ⟨[], 0, fun _ hMem => by cases hMem⟩
  citations := Client.CitationLibrary.clear
  plan := ⟨[⟨1, "질문 이해".toList, .active⟩], 1⟩
  toolIds := fun _ => none
  planToolIds := fun _ => none
  planAnalyzeId := some 1
  status := "분석 중…".toList
  runModel := []
  awaiting := none
  answered := false
  interrupting := false
  busy := true

/- The thread, the number and the name of a logged event. -/
def RunEventRow.view
    (row : RunEventRow) :
    ThreadId × Nat × EventName :=
  (row.threadId, row.seq, row.data.name)

/- The log of `toldRun`. -/
def toldRows : List (ThreadId × Nat × EventName) :=
  [(0, 1, .runStarted), (0, 3, .toolCall), (0, 4, .toolResult),
    (0, 5, .messageCompleted), (0, 6, .runDone)]

/- The rows of the log are of one thread, without errors. -/
theorem of_toldRows
    {rows : List RunEventRow}
    (hRows : rows.map RunEventRow.view = toldRows) :
    ∀ row ∈ rows,
      row.threadId = 0 ∧ row.data.name ≠ .error := by
  intro row hMem
  have hAll :
      ∀ view ∈ toldRows, view.1 = 0 ∧ view.2.2 ≠ .error := by
    decide
  apply hAll row.view
  rw [← hRows]
  exact List.mem_map_of_mem hMem

/- The events of the log are in the order of their numbers. -/
theorem ordered_toldRows
    {rows : List RunEventRow}
    (hRows : rows.map RunEventRow.view = toldRows) :
    (rows.map fun row =>
        RunEvent.mk row.data row.seq).Pairwise
      fun event other => event.seq < other.seq := by
  have hViews :
      toldRows.Pairwise fun view other =>
        view.2.1 < other.2.1 := by
    decide
  rw [← hRows, List.pairwise_map] at hViews
  rw [List.pairwise_map]
  exact hViews

/- The events of `toldRun` add a cell and an answer. -/
theorem live_within_reloaded_told :
    ∃ system,
      execute (System.step .single) toldRun .initial =
          some system ∧
        ∃ added,
          (askingChat.consume
                ((system.world.db.runEvents.map fun row =>
                  RunEvent.mk row.data row.seq).map
                  Client.Item.event)
                false).transcript.looks =
              askingChat.transcript.looks ++ added ∧
            added.Sublist
              (askingChat.transcript.loadMessages
                (system.world.db.threadMessages 0)).looks := by
  rcases
      exists_of_execute
        (show
          (execute (System.step .single) toldRun .initial).map
              (fun system =>
                system.world.db.runEvents.map
                  RunEventRow.view) =
            some toldRows by
          decide +kernel) with
    ⟨system, hSystem, hRows⟩
  have hReachable :
      Reachable .single (fun _ _ => True) system :=
    execution_of_execute hSystem
  refine
    ⟨system, hSystem,
      live_within_reloaded hReachable ?_
        (ordered_toldRows hRows) askingChat ?_
        askingChat.transcript⟩
  · intro event hEvent
    rcases List.mem_map.mp hEvent with ⟨row, hMem, rfl⟩
    exact ⟨row, hMem, (of_toldRows hRows row hMem).1, rfl⟩
  · intro event hEvent hError
    rcases List.mem_map.mp hEvent with ⟨row, hMem, rfl⟩
    exact absurd hError (of_toldRows hRows row hMem).2

end LegalAgent
