import LegalAgent.Properties.Announcing
import LegalAgent.Properties.EventNumbers
import LegalAgent.Properties.LiveTranscript
import Mathlib.Data.List.Pairwise

/-
  Stored rows that reach the log.

  As long as no step loses an event that a task is about to
  log, every stored cell and answer is announced in the log, or
  its announcement is the next call of a task.  The whole log
  of a thread therefore shows all of its cells and answers.

  Key definitions include:
    * `Lossless`
    * `Db.Announced`
    * `System.Accounted`

  Key theorems include:
    * `preserves_accounted`
    * `log_complete`
-/

------------------------------------------------------------
-- Announced Rows
------------------------------------------------------------

namespace LegalAgent

open Library

/-
  No step loses an event that a task is about to log: logging
  does not fail, no instance crashes before it, and the log is
  not collected.
-/
def Lossless (system : System) : Action → Prop
| .turn taskId fault =>
    ∀ task op,
      system.call? (.turn taskId fault) = some (task, op) →
        op.isLog = true → fault = false
| .crash inst =>
    ∀ taskId task op,
      system.tasks taskId = some task →
        task.inst = inst →
          task.op? = some op → op.isLog = false
| .collectEvents _ => False
| _ => True

/- The announcement of a stored cell or answer. -/
def MessageRecord.announcement
    (record : MessageRecord) :
    Option Announcement :=
  match record.role with
  | .user => none
  | .tool => some ⟨record.threadId, record.seq, .toolCall⟩
  | .agent =>
      some ⟨record.threadId, record.seq, .messageCompleted⟩

/- Whether an announcement is in the log. -/
def Db.Announced (db : Db) (key : Announcement) : Prop :=
  ∃ row ∈ db.runEvents,
    row.threadId = key.threadId ∧ row.seq = key.seq ∧
      row.data.name = key.name

/-
  Every stored cell and answer is announced in the log, or a
  task announces it with its next call.
-/
structure System.Accounted (system : System) : Prop where
  prompt :
    ∀ taskId task,
      system.tasks taskId = some task → task.program.LogsAtOnce
  stored :
    ∀ record ∈ system.world.db.messageRecords, ∀ key,
      record.announcement = some key →
        system.world.db.Announced key ∨
          ∃ taskId task,
            system.tasks taskId = some task ∧
              task.program.Begins (announceDebts none) key

section Calls

variable {inst : InstanceId} {op : Op} {value : op.Reply}
variable {world world' : World} {key : Announcement}

/- A call keeps what is announced. -/
theorem logged_of_exec
    (hExec : exec inst op world = (.ok value, world'))
    (hAnnounced : world.db.Announced key) :
    world'.db.Announced key := by
  rcases hAnnounced with ⟨row, hRow, hIs⟩
  refine ⟨row, ?_, hIs⟩
  rcases log_of_exec hExec with hSame | ⟨_, _, _, -, hLog⟩
  · rw [hSame]
    exact hRow
  · rw [hLog]
    exact List.mem_append_left _ hRow

/- The rows that a call stores leave it a debt. -/
theorem owed_of_exec
    {role : Role}
    (hAllows : role.Allows op)
    (hExec : exec inst op world = (.ok value, world'))
    {record : MessageRecord}
    (hRecord : record ∈ world'.db.messageRecords)
    (hKey : record.announcement = some key) :
    record ∈ world.db.messageRecords ∨
      op.announcement value = some key := by
  rw [messageRecords_of_exec hExec, List.mem_append] at hRecord
  rcases hRecord with hOld | hNew
  · exact Or.inl hOld
  · right
    cases op with
    | addMessage threadId new =>
        rcases List.mem_singleton.mp hNew with rfl
        cases hAllows with
        | on hStage =>
            cases hStage with
            | openedAsk => cases hKey
            | drivingCell => exact hKey
    | commitAgentAnswer threadId runId contentMd citationIds
        parentId model =>
        cases value with
        | none => cases hNew
        | some row =>
            rcases List.mem_singleton.mp hNew with rfl
            exact hKey
    | _ => cases hNew

end Calls

------------------------------------------------------------
-- Steps
------------------------------------------------------------

/- The call that logs an announcement. -/
theorem log_of_begins
    {task : Task}
    {op : Op}
    {next : Except Exn op.Reply → Driver Unit}
    {key : Announcement}
    (hProgram : task.program = .call op next)
    (hBegins : task.program.Begins (announceDebts none) key) :
    op.Logs key ∧ op.isLog = true := by
  rw [hProgram] at hBegins
  rcases hBegins with ⟨runId, event, rfl, hIs⟩
  exact ⟨⟨runId, event, rfl, hIs⟩, rfl⟩

section Steps

variable {registry : Registry}
variable {system : System} {taskId : TaskId} {fault : Bool}
variable {task : Task} {op : Op}
variable {world' : World} {key : Announcement}

/- A call that logs does not fail. -/
theorem not_log_of_failed
    {exn : Exn}
    (hCall :
      Calls registry Lossless system taskId fault task op
        (.error exn) world') :
    op.isLog = false := by
  rw [Bool.eq_false_iff]
  intro hLog
  have hFault :=
    hCall.permitted task op (call?_of_calls hCall) hLog
  rcases fails_of_calls hCall with hFails | hRefused
  · rw [hFault] at hFails
    cases hFails
  · cases op with
    | appendRunEvent threadId runId event => cases hRefused
    | _ => cases hLog

/- What a task was about to log is in the log behind it. -/
theorem announced_of_logged
    {value : op.Reply}
    (hCall :
      Calls registry Lossless system taskId false task op
        (.ok value) world')
    (hExec :
      exec task.inst op system.world = (.ok value, world'))
    (hLogs : op.Logs key) :
    world'.db.Announced key := by
  rcases hLogs with ⟨runId, event, rfl, hSeq, hName⟩
  rcases
      free_of_next hCall.reachable hCall.present hCall.next with
    ⟨hFree, hRun⟩
  have hLog :=
    appendEvent_of_free
      (wellFormed_of_reachable hCall.reachable) hFree hRun
  have hRow :
      ({ threadId := key.threadId
         runId := runId
         seq := event.seq
         data := event.data
         createdAt := system.world.db.now } :
        RunEventRow) ∈
        (system.world.db.appendEvent key.threadId runId
          event).runEvents := by
    rw [hLog]
    exact List.mem_append_right _ List.mem_cons_self
  cases hExec
  exact ⟨_, hRow, rfl, hSeq, hName⟩

/-
  Behind a call every stored row is announced, or a task
  announces it next: the task itself if the call stored it.
-/
theorem accounted_of_call
    {reply : Except Exn op.Reply}
    {next : Except Exn op.Reply → Driver Unit}
    (hCall :
      Calls registry Lossless system taskId fault task op reply
        world')
    (hProgram : task.program = .call op next)
    (hAccounted : system.Accounted)
    {record : MessageRecord}
    (hRecord : record ∈ world'.db.messageRecords)
    (hKey : record.announcement = some key) :
    world'.db.Announced key ∨
      ∃ otherId other,
        ({ system with world := world' }.setTask taskId
              (some
                { task with
                  program := next reply
                  phase := task.phase.after op reply })).tasks
            otherId =
            some other ∧
          other.program.Begins (announceDebts none) key := by
  have hMine := hAccounted.prompt taskId task hCall.present
  rw [hProgram] at hMine
  rcases hMine with ⟨hPays, -, -⟩
  -- a row that was stored before is announced now, if it is
  -- the task itself that was about to announce it
  have hOld :
      record ∈ system.world.db.messageRecords →
        (system.world.db.Announced key →
            world'.db.Announced key) →
          (op.Logs key → op.isLog = true →
              world'.db.Announced key) →
            world'.db.Announced key ∨
              ∃ otherId other,
                ({ system with world := world' }.setTask taskId
                      (some
                        { task with
                          program := next reply
                          phase :=
                            task.phase.after op reply })).tasks
                    otherId =
                    some other ∧
                  other.program.Begins (announceDebts none)
                    key := by
    intro hMem hKept hNow
    rcases hAccounted.stored record hMem key hKey with
      hLogged | ⟨otherId, other, hOther, hBegins⟩
    · exact Or.inl (hKept hLogged)
    · by_cases hEq : otherId = taskId
      · subst hEq
        rw [hCall.present, Option.some_inj] at hOther
        subst hOther
        rcases log_of_begins hProgram hBegins with ⟨hLogs, hIs⟩
        exact Or.inl (hNow hLogs hIs)
      · exact
          Or.inr
            ⟨otherId, other, present_of_other hEq hOther,
              hBegins⟩
  have hFailed :
      ∀ exn,
        reply = .error exn →
          op.Logs key →
            op.isLog = true → world'.db.Announced key := by
    rintro exn rfl _ hIs
    rw [not_log_of_failed hCall] at hIs
    cases hIs
  have hExecutes := hCall.executes
  cases hExecutes with
  | done hExec =>
      rcases owed_of_exec hCall.allows hExec hRecord hKey with
        hMem | hOwes
      · exact
          hOld hMem (logged_of_exec hExec) fun hLogs _ =>
            announced_of_logged hCall hExec hLogs
      · exact Or.inr ⟨taskId, _, if_pos rfl, hPays _ _ hOwes⟩
  | refused => exact hOld hRecord id (hFailed _ rfl)
  | fault => exact hOld hRecord id (hFailed _ rfl)

/- An event that a task is about to log is its next call. -/
theorem call_of_begins
    {task : Task}
    (hBegins : task.program.Begins (announceDebts none) key) :
    ∃ op, task.op? = some op ∧ op.isLog = true := by
  cases hProgram : task.program with
  | ret result =>
      rw [hProgram] at hBegins
      cases hBegins
  | yield event next =>
      rw [hProgram] at hBegins
      cases hBegins.1
  | call op next =>
      exact
        ⟨op, by rw [Task.op?, hProgram],
          (log_of_begins hProgram hBegins).2⟩

/- Every lossless step accounts for the stored rows. -/
theorem preserves_accounted :
    Preserves registry Lossless System.Accounted where
  request := by
    intro system taskId inst request _ _ hNone hAccounted
    constructor
    · exact
        tasks_of_setTask hAccounted.prompt
          (logs_request registry request)
    · intro record hRecord key hKey
      rcases hAccounted.stored record hRecord key hKey with
        hLogged | ⟨otherId, other, hOther, hBegins⟩
      · exact Or.inl hLogged
      · exact
          Or.inr
            ⟨otherId, other, present_of_added hNone hOther,
              hBegins⟩
  call := by
    intro system taskId fault task op reply world' next hCall
      hProgram hAccounted
    have hMine := hAccounted.prompt taskId task hCall.present
    rw [hProgram] at hMine
    rcases hMine with ⟨-, hOk, hError⟩
    constructor
    · refine tasks_of_setTask hAccounted.prompt ?_
      cases reply with
      | ok value => exact hOk value
      | error exn =>
          apply hError
          change ¬op.isLog = true
          rw [not_log_of_failed hCall]
          rintro ⟨⟩
    · intro record hRecord key hKey
      exact
        accounted_of_call hCall hProgram hAccounted hRecord hKey
  sent := by
    intro system taskId task event next _ hTask hProgram _
      hAccounted
    have hMine := hAccounted.prompt taskId task hTask
    rw [hProgram] at hMine
    constructor
    · exact tasks_of_setTask hAccounted.prompt hMine
    · intro record hRecord key hKey
      rcases hAccounted.stored record hRecord key hKey with
        hLogged | ⟨otherId, other, hOther, hBegins⟩
      · exact Or.inl hLogged
      · refine
          Or.inr
            ⟨otherId, other, present_of_other ?_ hOther,
              hBegins⟩
        rintro rfl
        rw [hTask, Option.some_inj] at hOther
        rw [← hOther, hProgram] at hBegins
        cases hBegins.1
  advance := by
    intro system seconds _ _ hAccounted
    exact ⟨hAccounted.prompt, hAccounted.stored⟩
  heartbeat := by
    intro system inst _ _ hAccounted
    exact ⟨hAccounted.prompt, hAccounted.stored⟩
  sweep := by
    intro system action selects _ _ _ hAccounted
    refine ⟨hAccounted.prompt, ?_⟩
    intro record hRecord
    apply hAccounted.stored record
    rw [← messageRecords_sweep system.world.db selects]
    exact hRecord
  collect := by
    intro system retention _ hLossless _
    cases hLossless
  crash := by
    intro system inst _ hLossless hAccounted
    constructor
    · intro taskId task hTask
      exact
        hAccounted.prompt taskId task (of_survivors hTask).1
    · intro record hRecord key hKey
      rcases hAccounted.stored record hRecord key hKey with
        hLogged | ⟨taskId, task, hTask, hBegins⟩
      · exact Or.inl hLogged
      · refine Or.inr ⟨taskId, task, ?_, hBegins⟩
        simp only [System.survivors, hTask]
        rw [Option.filter_some, if_pos]
        rw [bne_iff_ne]
        intro hInst
        rcases call_of_begins hBegins with ⟨op, hOp, hIs⟩
        rw [hLossless taskId task op hTask hInst hOp] at hIs
        cases hIs

end Steps

------------------------------------------------------------
-- Complete Logs
------------------------------------------------------------

/- The replies of a thread have numbers of their own. -/
theorem strict_ownReplies
    {db : Db}
    (hFormed : db.WellFormed)
    (threadId : ThreadId) :
    (db.ownReplies threadId).Pairwise fun message other =>
      message.seq < other.seq := by
  -- messages of one thread differ in their numbers
  have hSlots :
      db.messages.Pairwise fun message other =>
        message.threadId = other.threadId →
          message.seq ≠ other.seq := by
    have hOrder := hFormed.slotOrder
    rw [Db.slots, List.pairwise_map] at hOrder
    apply hOrder.imp
    rintro message other ⟨-, hSeq⟩ hThread
    exact Nat.ne_of_lt (hSeq hThread)
  have hDiffer :
      (db.threadMessages threadId).Pairwise
        fun message other =>
          message.threadId = other.threadId →
            message.seq ≠ other.seq := by
    apply
      (List.perm_insertionSort _ _).symm.pairwise
        (hSlots.filter _)
    intro message other hNe hThread
    exact (hNe hThread.symm).symm
  have hOrdered := ordered_threadMessages db threadId
  have hBoth :=
    List.Pairwise.and
      (List.Pairwise.filter
        (fun message =>
          message.threadId == threadId && message.role != .user)
        hOrdered)
      (List.Pairwise.filter _ hDiffer)
  apply List.Pairwise.imp_of_mem ?_ hBoth
  intro message other hMem hOther hOrder
  have hOwn := (List.mem_filter.mp hMem).2
  have hOwn' := (List.mem_filter.mp hOther).2
  rw [Bool.and_eq_true, beq_iff_eq] at hOwn hOwn'
  exact
    Nat.lt_of_le_of_ne hOrder.1
      (hOrder.2 (hOwn.1.trans hOwn'.1.symm))

/- The number of a reply determines it within its thread. -/
theorem reply_of_seq
    {db : Db}
    (hFormed : db.WellFormed)
    {threadId : ThreadId}
    {message other : Message}
    (hMem : message ∈ db.ownReplies threadId)
    (hOther : other ∈ db.ownReplies threadId)
    (hSeq : message.seq = other.seq) :
    message = other := by
  have hSymm :
      Std.Symm fun message other : Message =>
        message.seq = other.seq → message = other :=
    ⟨fun _ _ hSame hSeq => (hSame hSeq.symm).symm⟩
  have hApart :
      (db.ownReplies threadId).Pairwise fun message other =>
        message.seq = other.seq → message = other := by
    apply (strict_ownReplies hFormed threadId).imp
    intro message other hLess hSame
    exact absurd hSame (Nat.ne_of_lt hLess)
  have hSame :
      ∀ message ∈ db.ownReplies threadId,
        message.seq = message.seq → message = message :=
    fun _ _ _ => rfl
  exact hApart.forall_of_forall hSame hMem hOther hSeq

/- A reply of a thread has an announcement. -/
theorem announcement_of_reply
    {db : Db}
    {threadId : ThreadId}
    {message : Message}
    (hMem : message ∈ db.ownReplies threadId) :
    message.record ∈ db.messageRecords ∧
      ∃ name,
        message.record.announcement =
            some ⟨threadId, message.seq, name⟩ ∧
          (name = .toolCall ∨ name = .messageCompleted) := by
  rw [Db.ownReplies, List.mem_filter, Bool.and_eq_true,
    beq_iff_eq, bne_iff_ne] at hMem
  rcases hMem with ⟨hShown, rfl, hRole⟩
  rw [Db.threadMessages, bySeq, List.mem_insertionSort] at hShown
  refine
    ⟨List.mem_map_of_mem (List.mem_of_mem_filter hShown), ?_⟩
  unfold MessageRecord.announcement
  change message.role ≠ .user at hRole
  cases hIs : message.role with
  | user => exact absurd hIs hRole
  | tool =>
      refine ⟨.toolCall, ?_, Or.inl rfl⟩
      change
        (match message.role with
          | .user => none
          | .tool => some _
          | .agent => some _) = _
      rw [hIs]
      rfl
  | agent =>
      refine ⟨.messageCompleted, ?_, Or.inr rfl⟩
      change
        (match message.role with
          | .user => none
          | .tool => some _
          | .agent => some _) = _
      rw [hIs]
      rfl

section Complete

open Client

variable {registry : Registry}

/- The events that announce rows are shown. -/
theorem isSome_eventLook
    {interrupting : Bool}
    {data : EventData}
    (hName :
      data.name = .toolCall ∨ data.name = .messageCompleted) :
    (eventLook interrupting data).isSome = true := by
  cases data with
  | toolCall call => rfl
  | messageCompleted text citations => rfl
  | _ => rcases hName with hName | hName <;> cases hName

/- Every stored cell and answer is accounted for. -/
theorem accounted_of_reachable
    {system : System}
    (hReachable : Reachable registry Lossless system) :
    system.Accounted := by
  apply
    preserved_of_reachable preserves_accounted ?_ hReachable
  constructor
  · intro taskId task hTask
    cases hTask
  · intro record hRecord
    cases hRecord

/-
  When no step has lost an event and no task is about to log
  one of the thread, a page that applies all the logged events
  of the thread adds exactly the cells and the answers of the
  thread, each once and in their order.
-/
theorem log_complete
    {system : System}
    (hReachable : Reachable registry Lossless system)
    {threadId : ThreadId}
    (hSettled :
      ∀ taskId task runId event,
        system.tasks taskId = some task →
          task.op? ≠ some (.appendRunEvent threadId runId event))
    {events : List RunEvent}
    (hLogged :
      ∀ event,
        event ∈ events ↔
          ∃ row ∈ system.world.db.runEvents,
            row.threadId = threadId ∧
              event = ⟨row.data, row.seq⟩)
    (hOrder :
      events.Pairwise fun event other => event.seq < other.seq)
    (chat : Chat)
    (hErrors :
      ∀ event ∈ events,
        event.name = .error → chat.interrupting = true) :
    (chat.consume (events.map Item.event)
          false).transcript.looks =
      chat.transcript.looks ++
        (system.world.db.ownReplies threadId).map
          messageLook := by
  have hShown :
      ∀ event ∈ events, ∀ look,
        eventLook chat.interrupting event.data = some look →
          ∃ message ∈ system.world.db.ownReplies threadId,
            message.seq = event.seq ∧
              messageLook message = look := by
    intro event hEvent look hLook
    rcases (hLogged event).mp hEvent with ⟨row, hRow, rfl, rfl⟩
    exact
      shown_of_recorded hReachable
        (recorded_of_reachable hReachable row hRow)
        (hErrors _ hEvent) hLook
  rcases messages_of_shown hShown hOrder with
    ⟨messages, hLooks, hSorted, hMessages, hEvents⟩
  have hFormed := wellFormed_of_reachable hReachable
  have hStrict := strict_ownReplies hFormed threadId
  have hSublist :
      messages.Sublist (system.world.db.ownReplies threadId) :=
    sublist_of_ordered hSorted
      (hStrict.imp Nat.le_of_lt)
      fun message hMem => (hMessages message hMem).1
  -- every reply is shown, for its announcement is in the log
  have hAll :
      ∀ message ∈ system.world.db.ownReplies threadId,
        message ∈ messages := by
    intro message hMem
    rcases announcement_of_reply hMem with
      ⟨hRecord, name, hKey, hName⟩
    rcases
        (accounted_of_reachable hReachable).stored _ hRecord _
          hKey with
      ⟨row, hRow, hThread, hSeq, hIs⟩ |
        ⟨taskId, task, hTask, hBegins⟩
    · have hEvent : RunEvent.mk row.data row.seq ∈ events :=
        (hLogged _).mpr ⟨row, hRow, hThread, rfl⟩
      change row.data.name = name at hIs
      rw [← hIs] at hName
      rcases hEvents _ hEvent (isSome_eventLook hName) with
        ⟨other, hOther, hSame⟩
      have hEq :=
        reply_of_seq hFormed (hMessages other hOther).1 hMem
          (hSame.trans hSeq)
      exact hEq ▸ hOther
    · cases hProgram : task.program with
      | ret result =>
          rw [hProgram] at hBegins
          cases hBegins
      | yield event next =>
          rw [hProgram] at hBegins
          cases hBegins.1
      | call op next =>
          rcases (log_of_begins hProgram hBegins).1 with
            ⟨runId, event, rfl, -⟩
          exact
            absurd (by rw [Task.op?, hProgram])
              (hSettled taskId task runId event hTask)
  have hSublist' :=
    sublist_of_ordered hStrict (hSorted.imp Nat.le_of_lt) hAll
  rw [looks_consume events, ← hLooks,
    hSublist.antisymm hSublist']

end Complete

/- Whether a step loses no event. -/
def System.lossless (system : System) (action : Action) : Bool :=
  match action, system.call? action with
  | .turn _ fault, some (_, op) => !(op.isLog && fault)
  | .crash _, _ => false
  | .collectEvents _, _ => false
  | _, _ => true

theorem lossless_of_test
    {system : System}
    {action : Action}
    (hTest : system.lossless action = true) :
    Lossless system action := by
  unfold System.lossless at hTest
  cases action with
  | turn taskId fault =>
      intro task op hCall hLog
      rw [hCall] at hTest
      change (!(op.isLog && fault)) = true at hTest
      rw [hLog] at hTest
      cases fault with
      | false => rfl
      | true => cases hTest
  | crash inst => cases hTest
  | collectEvents retention => cases hTest
  | _ => exact trivial

/- The whole log of `toldRun` shows its cell and its answer. -/
theorem log_complete_told :
    ∃ system,
      execute (System.step .single) (toldRun ++ turns 1 1)
            .initial =
          some system ∧
        (system.world.db.ownReplies 0).length = 2 ∧
          (askingChat.consume
                ((system.world.db.runEvents.map fun row =>
                  RunEvent.mk row.data row.seq).map
                  Client.Item.event)
                false).transcript.looks =
            askingChat.transcript.looks ++
              (system.world.db.ownReplies 0).map
                Client.messageLook := by
  rcases
      exists_of_execute
        (show
          (execute (System.step .single) (toldRun ++ turns 1 1)
                .initial).map
              (fun system =>
                (system.world.db.runEvents.map
                    RunEventRow.view,
                (system.world.db.ownReplies 0).length,
                (List.range 2).all fun taskId =>
                  (system.tasks taskId).all Task.ended)) =
            some (toldRows, 2, true) by
          decide +kernel) with
    ⟨system, hSystem, hView⟩
  rw [Prod.mk.injEq, Prod.mk.injEq] at hView
  rcases hView with ⟨hRows, hLength, hEnded⟩
  have hReachable : Reachable .single Lossless system :=
    run_of_execute hSystem
      (show
        passes (System.step .single) System.lossless
            (toldRun ++ turns 1 1) .initial =
          true by
        decide +kernel)
      fun _ _ => lossless_of_test
  refine
    ⟨system, hSystem, hLength,
      log_complete hReachable ?_ ?_ (ordered_toldRows hRows)
        askingChat ?_⟩
  · intro taskId task runId event hTask hOp
    have hIs :=
      ended_of_execute hSystem (by decide) hEnded taskId task
        hTask
    unfold Task.ended at hIs
    unfold Task.op? at hOp
    cases hProgram : task.program with
    | ret result =>
        rw [hProgram] at hOp
        cases hOp
    | yield event next =>
        rw [hProgram] at hOp
        cases hOp
    | call op next =>
        rw [hProgram] at hIs
        cases hIs
  · intro event
    rw [List.mem_map]
    constructor
    · rintro ⟨row, hMem, rfl⟩
      exact ⟨row, hMem, (of_toldRows hRows row hMem).1, rfl⟩
    · rintro ⟨row, hMem, -, rfl⟩
      exact ⟨row, hMem, rfl⟩
  · intro event hEvent hError
    rcases List.mem_map.mp hEvent with ⟨row, hMem, rfl⟩
    exact absurd hError (of_toldRows hRows row hMem).2

end LegalAgent
