import LegalAgent.Library.Prompt
import LegalAgent.System.Model

/-
  Tasks that announce what they store.

  A task that has stored the cell of a tool call or the answer
  of a run logs the event of the row with its very next call,
  as long as logging does not fail.

  Key definitions include:
    * `Announcement`
    * `announceDebts`
    * `Driver.Announces`

  Key theorems include:
    * `announces_drive`
    * `logs_consume`
    * `logs_request`
-/

------------------------------------------------------------
-- Announcements
------------------------------------------------------------

namespace LegalAgent

open Library

/- The event that a new row of a thread is announced by. -/
structure Announcement where
  threadId : ThreadId
  seq : Nat
  name : EventName
deriving DecidableEq

/- What a call that stored a cell or an answer has to announce. -/
def Op.announcement :
    (op : Op) → op.Reply → Option Announcement
| .addMessage threadId new, row =>
    if new.role = .user then none
    else some ⟨threadId, row.2, .toolCall⟩
| .commitAgentAnswer threadId .., some row =>
    some ⟨threadId, row.2, .messageCompleted⟩
| _, _ => none

/- Whether a call logs an announcement. -/
def Op.Logs (key : Announcement) (op : Op) : Prop :=
  ∃ runId event,
    op = .appendRunEvent key.threadId runId event ∧
      event.seq = key.seq ∧ event.name = key.name

/-
  The debts of the tasks.  The generators of a thread pay them
  by the events that they yield.
-/
def announceDebts
    (thread : Option ThreadId) :
    Debts Op Op.Reply RunEvent Announcement where
  owes := Op.announcement
  pays := Op.Logs
  shows key event :=
    thread = some key.threadId ∧ event.seq = key.seq ∧
      event.name = key.name
  sure op := op.isLog = true

/- A generator of a thread that announces what it stores. -/
abbrev Driver.Announces
    {α : Type}
    (program : Driver α)
    (threadId : ThreadId) :
    Prop :=
  program.Prompt (announceDebts (some threadId))

/- A program that logs its announcements itself. -/
abbrev Driver.LogsAtOnce
    {α : Type}
    (program : Driver α) :
    Prop :=
  program.Prompt (announceDebts none)

------------------------------------------------------------
-- Rules
------------------------------------------------------------

section Rules

variable {α : Type} {thread : Option ThreadId}

/- A call at the end of a `do` block. -/
theorem prompt_lastCall
    {op : Op}
    (hOwes : ∀ value, op.announcement value = none) :
    (call op : Driver op.Reply).Prompt (announceDebts thread) :=
  Gen.prompt_perform hOwes

/- A call in a `do` block. -/
theorem prompt_skip
    {op : Op}
    {next : op.Reply → Driver α}
    (hOwes : ∀ value, op.announcement value = none)
    (hNext :
      ∀ value, (next value).Prompt (announceDebts thread)) :
    (call op >>= next).Prompt (announceDebts thread) :=
  Gen.prompt_call hOwes hNext

/- An event that is yielded with its number. -/
theorem prompt_numbered
    (data : EventData)
    (threadId : ThreadId) :
    (RunService.emit data threadId).Prompt
      (announceDebts thread) :=
  prompt_skip (fun _ => rfl) fun _ => Gen.prompt_emit _

/- The rule of `except Exception` handlers. -/
theorem prompt_exceptException
    {program handler : Driver α}
    (hProgram : program.Prompt (announceDebts thread))
    (hHandler : handler.Prompt (announceDebts thread)) :
    (RunService.exceptException program handler).Prompt
      (announceDebts thread) := by
  apply Gen.prompt_tryCatch hProgram
  intro exn
  split
  · exact hHandler
  · exact trivial

end Rules

------------------------------------------------------------
-- Drivers
------------------------------------------------------------

section Drivers

variable {threadId : ThreadId} {rs : RunState}
variable {runId : RunId}

/- Every stored cell is announced. -/
theorem announces_handleCalls (calls : List ToolCall) :
    (RunService.handleCalls rs threadId calls).Announces
      threadId := by
  induction calls with
  | nil => exact trivial
  | cons toolCall calls ih =>
      refine Gen.prompt_debt ?_ fun row => ih
      rintro row key ⟨⟩
      exact ⟨rfl, rfl, rfl⟩

theorem announces_handleArticles (refs : List LawRef) :
    (RunService.handleArticles threadId rs refs).Announces
      threadId := by
  induction refs generalizing rs with
  | nil => exact trivial
  | cons ref refs ih =>
      rw [RunService.handleArticles]
      split
      · exact ih
      · refine prompt_skip (fun _ => rfl) ?_
        intro _
        exact Gen.prompt_bind (prompt_numbered _ _) fun _ => ih

theorem announces_handleMessage (message : StreamMessage) :
    (RunService.handleMessage rs threadId message).Announces
      threadId := by
  cases message with
  | ai content calls =>
      refine Gen.prompt_bind (announces_handleCalls calls) ?_
      intro _
      split
      · exact trivial
      · exact trivial
  | tool callId content artifact =>
      have hResult :
          ∀ content,
            (RunService.storeResult rs callId
                content).Announces
              threadId := by
        intro content
        rcases callId with _ | _ | ⟨c, id⟩
        · exact trivial
        · exact trivial
        · exact prompt_lastCall fun _ => rfl
      have hArtifact :
          (RunService.handleArtifact rs threadId
              artifact).Announces
            threadId := by
        unfold RunService.handleArtifact
        split
        · exact announces_handleArticles _
        · exact trivial
      refine prompt_skip (fun _ => rfl) ?_
      intro seq
      refine Gen.prompt_bind (hResult _) ?_
      intro _
      exact Gen.prompt_yield hArtifact

theorem announces_handleChunk
    (messages : List StreamMessage) :
    (RunService.handleChunk threadId rs messages).Announces
      threadId := by
  induction messages generalizing rs with
  | nil => exact trivial
  | cons message messages ih =>
      exact
        Gen.prompt_bind (announces_handleMessage message)
          fun _ => ih

/- The answer of a run is announced. -/
theorem announces_finalize :
    (RunService.finalize rs threadId).Announces threadId := by
  rw [RunService.finalize]
  refine prompt_skip (fun _ => rfl) ?_
  intro linked
  dsimp only
  split
  · refine prompt_skip (fun _ => rfl) ?_
    intro won
    split
    · exact prompt_numbered _ _
    · exact trivial
  · refine Gen.prompt_debt ?_ ?_
    · rintro (_ | row) key ⟨⟩
      exact ⟨rfl, rfl, rfl⟩
    · intro row
      cases row with
      | none => exact trivial
      | some row => exact Gen.prompt_yield (prompt_numbered _ _)

theorem announces_cancelRun :
    (RunService.cancelRun rs threadId).Announces threadId := by
  have hClear :
      (RunService.exceptException
          (call (.clearInterruptedTools threadId))
          (pure ())).Announces
        threadId :=
    prompt_exceptException (prompt_lastCall fun _ => rfl) trivial
  rw [RunService.cancelRun]
  refine Gen.prompt_bind hClear ?_
  intro _
  refine prompt_skip (fun _ => rfl) ?_
  intro _
  refine prompt_skip (fun _ => rfl) ?_
  intro won
  split
  · exact prompt_numbered _ _
  · exact trivial

theorem announces_pauseRun
    (values : Option (List (Option Text))) :
    (RunService.pauseRun rs threadId values).Announces
      threadId := by
  rw [RunService.pauseRun]
  refine prompt_skip (fun _ => rfl) ?_
  intro _
  refine prompt_skip (fun _ => rfl) ?_
  intro _
  refine prompt_skip (fun _ => rfl) ?_
  intro tools
  exact prompt_numbered _ _

theorem announces_isCancelled (cancel : Option FlagId) :
    (RunService.isCancelled cancel).Announces threadId := by
  cases cancel with
  | none => exact trivial
  | some flag => exact prompt_lastCall fun _ => rfl

theorem announces_consumeStream
    (cancel : Option FlagId)
    (script : List GraphStep)
    (state : GraphState) :
    (RunService.consumeStream cancel threadId script state
        rs).Announces
      threadId := by
  induction script generalizing state rs with
  | nil =>
      refine prompt_skip (fun _ => rfl) ?_
      intro _
      exact trivial
  | cons step steps ih =>
      rw [RunService.consumeStream]
      refine prompt_skip (fun _ => rfl) ?_
      intro found
      rcases found with _ | ⟨chunk, state⟩
      · exact trivial
      · refine Gen.prompt_bind (announces_isCancelled cancel) ?_
        intro cancelled
        split
        · exact
            Gen.prompt_bind announces_cancelRun fun _ => trivial
        · cases chunk with
          | interrupt values =>
              exact
                Gen.prompt_bind (announces_pauseRun values)
                  fun _ => trivial
          | updates messages =>
              exact
                Gen.prompt_bind (announces_handleChunk messages)
                  fun _ => ih _

theorem announces_failRun :
    (RunService.failRun rs threadId).Announces threadId := by
  rw [RunService.failRun]
  refine prompt_skip (fun _ => rfl) ?_
  intro won
  split
  · refine prompt_skip (fun _ => rfl) ?_
    intro _
    exact prompt_numbered _ _
  · exact trivial

theorem announces_closeRun :
    (RunService.closeRun rs).Announces threadId := by
  rw [RunService.closeRun]
  refine prompt_skip (fun _ => rfl) ?_
  intro won
  split
  · exact prompt_skip (fun _ => rfl) fun _ => trivial
  · exact trivial

/- A driver announces every cell and its answer. -/
theorem announces_drive
    {start : Driver GraphState}
    (hStart : start.Announces threadId)
    (script : List GraphStep) :
    (RunService.drive start script rs threadId).Announces
      threadId := by
  have hStream :
      ∀ cancel,
        (RunService.driveStream cancel start script rs
            threadId).Announces
          threadId := by
    intro cancel
    apply prompt_exceptException
    · exact
        Gen.prompt_bind hStart fun state =>
          announces_consumeStream cancel script state
    · exact Gen.prompt_bind announces_failRun fun _ => trivial
  have hBody :
      ∀ cancel,
        (RunService.driveBody cancel start script rs
            threadId).Announces
          threadId := by
    intro cancel
    refine Gen.prompt_bind (hStream cancel) ?_
    intro rs'
    cases rs' with
    | none => exact trivial
    | some rs' => exact announces_finalize
  rw [RunService.drive]
  refine prompt_skip (fun _ => rfl) ?_
  intro cancel
  refine Gen.prompt_tryFinally ?_ (prompt_lastCall fun _ => rfl)
  apply Gen.prompt_tryCatch (hBody cancel)
  intro exn
  split
  · exact announces_closeRun
  · exact trivial

/- The question of a run is not announced. -/
theorem announces_storeQuestion (message : Text) :
    (RunService.storeQuestion runId message threadId).Announces
      threadId := by
  apply prompt_exceptException
  · refine prompt_skip (fun _ => rfl) ?_
    intro row
    split
    · exact prompt_skip (fun _ => rfl) fun _ => trivial
    · exact trivial
  · refine prompt_skip (fun _ => rfl) ?_
    intro _
    exact
      Gen.prompt_bind (prompt_numbered _ _) fun _ => trivial

theorem announces_announceRejected (ids : List (Option Text)) :
    (RunService.announceRejected threadId ids).Announces
      threadId := by
  induction ids with
  | nil => exact trivial
  | cons id ids ih =>
      rw [RunService.announceRejected]
      refine prompt_skip (fun _ => rfl) ?_
      intro seq
      exact Gen.prompt_yield ih

theorem announces_rejectRun :
    (RunService.rejectRun runId threadId).Announces
      threadId := by
  rw [RunService.rejectRun]
  refine prompt_skip (fun _ => rfl) ?_
  intro won
  cases won with
  | false => exact trivial
  | true =>
      refine prompt_skip (fun _ => rfl) ?_
      intro _
      refine prompt_skip (fun _ => rfl) ?_
      intro _
      refine prompt_skip (fun _ => rfl) ?_
      intro _
      exact prompt_numbered _ _

theorem announces_approveRun
    (registry : Registry)
    (approved : Option (List Text)) :
    (RunService.approveRun registry runId threadId
        approved).Announces
      threadId := by
  rw [RunService.approveRun]
  refine prompt_skip (fun _ => rfl) ?_
  intro won
  cases won with
  | false => exact trivial
  | true =>
      refine prompt_skip (fun _ => rfl) ?_
      intro _
      refine prompt_skip (fun _ => rfl) ?_
      intro model
      refine prompt_skip (fun _ => rfl) ?_
      intro root
      refine Gen.prompt_bind ?_ fun _ => trivial
      cases approved with
      | none => exact prompt_lastCall fun _ => rfl
      | some approved =>
          rw [RunService.markApproval]
          refine prompt_skip (fun _ => rfl) ?_
          intro rejected
          refine prompt_skip (fun _ => rfl) ?_
          intro _
          exact announces_announceRejected rejected

theorem announces_decide
    (registry : Registry)
    (approve : Bool)
    (approvedIds : Option (List Text)) :
    (RunService.decide registry threadId approve
        approvedIds).Announces
      threadId := by
  have hSet :
      ∀ runId,
        (RunService.approvedSet runId approve
            approvedIds).Announces
          threadId := by
    intro runId
    cases approvedIds with
    | none => exact trivial
    | some ids =>
        exact prompt_skip (fun _ => rfl) fun _ => trivial
  refine prompt_skip (fun _ => rfl) ?_
  intro found
  rcases found with _ | ⟨runId, status⟩
  · exact trivial
  · cases status with
    | awaitingApproval =>
        refine Gen.prompt_bind (hSet runId) ?_
        intro approved
        split
        · exact
            Gen.prompt_bind announces_rejectRun fun _ => trivial
        · exact
            Gen.prompt_bind (announces_approveRun registry _)
              fun _ => trivial
    | _ => exact trivial

theorem announces_resume
    (registry : Registry)
    (approve : Bool)
    (approvedIds : Option (List Text))
    (script : List GraphStep) :
    (RunService.resume registry threadId approve approvedIds
        script).Announces
      threadId := by
  refine
    Gen.prompt_bind
      (announces_decide registry approve approvedIds) ?_
  intro rs
  cases rs with
  | none => exact trivial
  | some rs =>
      exact
        announces_drive (prompt_lastCall fun _ => rfl) script

end Drivers

------------------------------------------------------------
-- Tasks
------------------------------------------------------------

section Tasks

variable {threadId : ThreadId} {runId : RunId}

theorem logs_epilogue
    (sawTerminal : Bool)
    (lastName : Option EventName) :
    (RunManager.epilogue threadId runId sawTerminal
        lastName).LogsAtOnce := by
  refine prompt_skip (fun _ => rfl) ?_
  intro _
  split
  · refine
      Gen.prompt_bind
        (prompt_exceptException (prompt_lastCall fun _ => rfl)
          trivial)
        ?_
    intro run
    split
    · refine prompt_skip (fun _ => rfl) ?_
      intro seq
      exact prompt_lastCall fun _ => rfl
    · exact trivial
  · exact trivial

/- A pump logs what its generator announces. -/
theorem begins_consume
    {key : Announcement}
    {generator : Driver Unit}
    (hBegins :
      generator.Begins (announceDebts (some threadId)) key)
    (sawTerminal : Bool)
    (lastName : Option EventName) :
    (RunManager.consume threadId runId sawTerminal lastName
        generator).Begins
      (announceDebts none) key := by
  cases generator with
  | ret result => cases hBegins
  | call op next => exact hBegins
  | yield event next =>
      rcases hBegins with ⟨hThread, hSeq, hName⟩
      cases hThread
      exact ⟨runId, event, rfl, hSeq, hName⟩

/- A pump logs the announcements of its generator at once. -/
theorem logs_consume
    {generator : Driver Unit}
    (hGenerator : generator.Announces threadId)
    (sawTerminal : Bool)
    (lastName : Option EventName) :
    (RunManager.consume threadId runId sawTerminal lastName
        generator).LogsAtOnce := by
  induction generator generalizing sawTerminal lastName with
  | ret result => exact logs_epilogue sawTerminal lastName
  | call op next ih =>
      rcases hGenerator with ⟨hPays, hOk, hError⟩
      refine ⟨?_, ?_, ?_⟩
      · intro value key hOwes
        exact begins_consume (hPays value key hOwes) _ _
      · intro value
        exact ih _ (hOk value) _ _
      · intro hSure exn
        exact ih _ (hError hSure exn) _ _
  | yield event next ih =>
      refine ⟨?_, ?_, ?_⟩
      · intro value key hOwes
        cases hOwes
      · intro value
        exact ih _ hGenerator _ _
      · intro hSure
        exact absurd rfl hSure

theorem logs_spawnPump
    {generator : Driver Unit}
    (hGenerator : generator.Announces threadId) :
    (RunManager.spawnPump generator threadId
        runId).LogsAtOnce :=
  prompt_skip (fun _ => rfl) fun _ =>
    logs_consume hGenerator false none

theorem logs_start
    (registry : Registry)
    (message : Text)
    (model : Option Text)
    (script : List GraphStep) :
    (RunManager.start registry threadId message model
        script).LogsAtOnce := by
  refine ⟨fun _ _ => by rintro ⟨⟩, ?_, fun _ _ => trivial⟩
  intro runId
  refine ⟨fun _ _ => by rintro ⟨⟩, ?_, fun _ _ => trivial⟩
  intro _
  refine ⟨fun _ _ => by rintro ⟨⟩, ?_, fun _ _ => trivial⟩
  intro seq
  refine
    ⟨fun _ _ => by rintro ⟨⟩, ?_, fun hSure => absurd rfl hSure⟩
  intro _
  apply logs_spawnPump
  refine Gen.prompt_bind (announces_storeQuestion message) ?_
  intro root
  cases root with
  | none => exact trivial
  | some root =>
      exact announces_drive (prompt_lastCall fun _ => rfl) script

theorem logs_resume
    (registry : Registry)
    (approve : Bool)
    (approvedIds : Option (List Text))
    (script : List GraphStep) :
    (RunManager.resume registry threadId approve approvedIds
        script).LogsAtOnce := by
  refine prompt_skip (fun _ => rfl) ?_
  intro found
  rcases found with _ | ⟨runId, status⟩
  · exact trivial
  · cases status with
    | awaitingApproval =>
        apply logs_spawnPump
        exact
          announces_resume registry approve approvedIds script
    | _ => exact trivial

theorem logs_interrupt :
    (RunManager.interrupt runId).LogsAtOnce := by
  have hPush :
      ∀ threadId,
        (RunManager.pushTerminal runId threadId).LogsAtOnce := by
    intro threadId
    refine prompt_skip (fun _ => rfl) ?_
    intro seq
    exact prompt_lastCall fun _ => rfl
  refine prompt_skip (fun _ => rfl) ?_
  intro run
  split
  · exact trivial
  · have hCancel :
        (RunService.requestCancel runId).LogsAtOnce := by
      refine prompt_skip (fun _ => rfl) ?_
      intro flag
      cases flag with
      | none => exact trivial
      | some flag =>
          exact prompt_skip (fun _ => rfl) fun _ => trivial
    refine Gen.prompt_bind hCancel ?_
    intro asked
    split
    · exact trivial
    · refine prompt_skip (fun _ => rfl) ?_
      intro won
      split
      · exact hPush _
      · exact trivial
  · have hPaused :
        ∀ threadId,
          (RunService.interruptPaused threadId
              runId).LogsAtOnce := by
      intro threadId
      refine prompt_skip (fun _ => rfl) ?_
      intro won
      split
      · refine prompt_skip (fun _ => rfl) ?_
        intro _
        refine prompt_skip (fun _ => rfl) ?_
        intro _
        exact prompt_skip (fun _ => rfl) fun _ => trivial
      · exact trivial
    refine Gen.prompt_bind (hPaused _) ?_
    intro won
    split
    · exact hPush _
    · exact trivial
  · exact trivial

theorem logs_sendPage
    (cursor : RunManager.StreamCursor)
    (events : List RunEvent) :
    (RunManager.sendPage cursor events).Prompt
      (announceDebts none) := by
  induction events generalizing cursor with
  | nil => exact trivial
  | cons event events ih =>
      rw [RunManager.sendPage]
      apply Gen.prompt_yield
      split
      · exact trivial
      · exact ih _

theorem logs_stream
    (polls : Nat)
    (cursor : Option Nat) :
    (RunManager.stream runId polls cursor).LogsAtOnce := by
  induction polls generalizing cursor with
  | zero => exact trivial
  | succ polls ih =>
      rw [RunManager.stream]
      refine prompt_skip (fun _ => rfl) ?_
      intro rows
      refine Gen.prompt_bind (logs_sendPage _ rows) ?_
      intro sent
      split
      · exact trivial
      · split
        · refine prompt_skip (fun _ => rfl) ?_
          intro run
          split
          · split
            · exact Gen.prompt_emit _
            · exact ih _
          · exact ih _
        · exact ih _

theorem logs_fork
    (parentId : ThreadId)
    (forkPoint : MessageId) :
    (RunService.fork parentId forkPoint).LogsAtOnce := by
  refine prompt_skip (fun _ => rfl) ?_
  intro threadId
  refine prompt_skip (fun _ => rfl) ?_
  intro messages
  refine prompt_skip (fun _ => rfl) ?_
  intro _
  dsimp only
  split
  · exact prompt_skip (fun _ => rfl) fun _ => trivial
  · exact trivial

/- Every request logs its announcements at once. -/
theorem logs_request
    (registry : Registry)
    (request : Request) :
    (request.program registry).LogsAtOnce := by
  cases request with
  | createThread title =>
      exact prompt_skip (fun _ => rfl) fun _ => trivial
  | fork parentId forkPoint => exact logs_fork parentId forkPoint
  | start threadId message model script =>
      exact logs_start registry message model script
  | resume threadId approve approvedIds script =>
      exact logs_resume registry approve approvedIds script
  | interrupt runId => exact logs_interrupt
  | stream runId polls cursor => exact logs_stream polls cursor

end Tasks

end LegalAgent
