import LegalAgent.Library.Faults
import LegalAgent.Service.RunManager

/-
  What the parts of the tasks call.

  Most parts of a driver make routine calls only.  They ask no
  graph, freeze no article, check and commit no draft, enter
  no stream, and neither pause a run nor handle its cancel
  flag.  Their calls are told once here, and a part
  makes only calls of a kind whenever the kind has all routine
  calls.

  Key definitions include:
    * `Op.routine`
    * `Driver.Routine`

  Key theorems include:
    * `only_of_routine`
    * `only_handleChunk`
    * `only_consumeStream`
    * `only_finalize`
    * `only_decide`
-/

------------------------------------------------------------
-- Kinds of Calls
------------------------------------------------------------

namespace LegalAgent

open Library

/- A call that neither checks a draft nor asks the graph. -/
def Op.aside : Op → Bool
| .getThreadCitations _ | .graphNext .. => false
| _ => true

/- A call that freezes no article and commits no answer. -/
def Op.plain : Op → Bool
| .freezeCitation _ | .commitAgentAnswer .. => false
| .getThreadCitations _ | .graphNext .. => false
| _ => true

/- A plain call is one aside. -/
theorem aside_of_plain
    {op : Op}
    (hPlain : op.plain = true) :
    op.aside = true := by
  cases op <;> first | rfl | cases hPlain

/- A call that checks a draft. -/
def Op.checks : Op → Bool
| .getThreadCitations _ => true
| _ => false

/- A call aside checks no draft. -/
theorem not_checks_of_aside
    {op : Op}
    (hAside : op.aside = true) :
    op.checks = false := by
  cases op <;> first | rfl | cases hAside

/- A call that begins a turn of a run or enters its stream. -/
def Op.enters : Op → Bool
| .openRun .. | .graphInput .. | .graphResume .. => true
| .tryTransition _ .awaitingApproval .running _ => true
| _ => false

/- A plain call that enters no stream. -/
def Op.usual (op : Op) : Bool :=
  op.plain && !op.enters

/- A call that pauses a run or handles its cancel flag. -/
def Op.steers : Op → Bool
| .setRunStatus .. | .cancelsCreate _ | .cancelsGet _ => true
| .flagIsSet _ => true
| _ => false

/- A usual call that steers no run. -/
def Op.routine (op : Op) : Bool :=
  op.usual && !op.steers

theorem plain_of_usual
    {op : Op}
    (hUsual : op.usual = true) :
    op.plain = true :=
  (Bool.and_eq_true_iff.mp hUsual).1

theorem not_enters_of_usual
    {op : Op}
    (hUsual : op.usual = true) :
    op.enters = false := by
  have hNot := (Bool.and_eq_true_iff.mp hUsual).2
  rwa [Bool.not_eq_true'] at hNot

theorem usual_of_routine
    {op : Op}
    (hRoutine : op.routine = true) :
    op.usual = true :=
  (Bool.and_eq_true_iff.mp hRoutine).1

theorem plain_of_routine
    {op : Op}
    (hRoutine : op.routine = true) :
    op.plain = true :=
  plain_of_usual (usual_of_routine hRoutine)

theorem not_enters_of_routine
    {op : Op}
    (hRoutine : op.routine = true) :
    op.enters = false :=
  not_enters_of_usual (usual_of_routine hRoutine)

theorem not_steers_of_routine
    {op : Op}
    (hRoutine : op.routine = true) :
    op.steers = false := by
  have hNot := (Bool.and_eq_true_iff.mp hRoutine).2
  rwa [Bool.not_eq_true'] at hNot

def EventData.announces : EventData → Bool
| .citationAdded _ => true
| _ => false

section Rules

variable {α : Type}
variable {calls : Op → Prop} {events : RunEvent → Prop}

/- The rule of calls at the end of a `do` block. -/
theorem only_lastCall
    {op : Op}
    (hOp : calls op) :
    (call op : Driver op.Reply).Only calls events
      fun _ => True :=
  Gen.only_perform hOp

/- The rule of calls in `do` blocks. -/
theorem only_call
    {done : α → Prop}
    {op : Op}
    {next : op.Reply → Driver α}
    (hOp : calls op)
    (hNext : ∀ value, (next value).Only calls events done) :
    (call op >>= next).Only calls events done :=
  Gen.only_bind (Gen.only_perform hOp) fun value _ =>
    hNext value

/- The rule of yields in `do` blocks. -/
theorem only_yield
    {done : α → Prop}
    {event : RunEvent}
    {next : Unit → Driver α}
    (hEvent : events event)
    (hNext : (next ()).Only calls events done) :
    (Gen.emit event >>= next).Only calls events done :=
  Gen.only_bind (Gen.only_emit hEvent) fun _ _ => hNext

/- The rule of `except Exception` handlers. -/
theorem only_exceptException
    {done : α → Prop}
    {program handler : Driver α}
    (hProgram : program.Only calls events done)
    (hHandler : handler.Only calls events done) :
    (RunService.exceptException program handler).Only calls
      events done := by
  apply Gen.only_tryCatch hProgram
  intro exn
  cases exn.isException
  · exact trivial
  · exact hHandler

/- An event that is yielded with its number. -/
theorem only_numbered
    {data : EventData}
    {threadId : ThreadId}
    (hOp : calls (.nextSeq threadId))
    (hEvent : ∀ seq, events ⟨data, seq⟩) :
    (RunService.emit data threadId).Only calls events
      fun _ => True :=
  only_call hOp fun seq => Gen.only_emit (hEvent seq)

/- A program of routine calls that announces nothing. -/
abbrev Driver.Routine (program : Driver α) : Prop :=
  Gen.Only (fun op => op.routine = true)
    (fun event => event.data.announces = false)
    (fun _ => True) program

/- A program of usual calls that announces nothing. -/
abbrev Driver.Usual (program : Driver α) : Prop :=
  Gen.Only (fun op => op.usual = true)
    (fun event => event.data.announces = false)
    (fun _ => True) program

/- A routine program is a usual one. -/
theorem Driver.Routine.usual
    {program : Driver α}
    (hRoutine : program.Routine) :
    program.Usual :=
  Gen.only_mono hRoutine (fun _ => usual_of_routine)
    (fun _ hEvent => hEvent) fun _ _ => trivial

/- A kind with all routine calls has the routine programs. -/
theorem only_of_routine
    {program : Driver α}
    (hRoutine : program.Routine)
    (hCalls : ∀ op, op.routine = true → calls op)
    (hEvents :
      ∀ event, event.data.announces = false → events event) :
    program.Only calls events fun _ => True :=
  Gen.only_mono hRoutine hCalls hEvents fun _ _ => trivial

end Rules

------------------------------------------------------------
-- Parts of a Driver
------------------------------------------------------------

section Parts

variable {threadId : ThreadId} {runId : RunId}

theorem routine_lastCall
    {op : Op}
    (hOp : op.routine = true) :
    Driver.Routine (call op) :=
  only_lastCall hOp

theorem usual_lastCall
    {op : Op}
    (hOp : op.usual = true) :
    Driver.Usual (call op) :=
  only_lastCall hOp

theorem routine_emit
    {data : EventData}
    (hData : data.announces = false)
    (threadId : ThreadId) :
    (RunService.emit data threadId).Routine :=
  only_numbered rfl fun _ => hData

theorem routine_handleCalls
    (rs : RunState)
    (threadId : ThreadId)
    (calls : List ToolCall) :
    (RunService.handleCalls rs threadId calls).Routine := by
  induction calls with
  | nil => exact trivial
  | cons toolCall calls ih =>
      rw [RunService.handleCalls]
      refine only_call rfl ?_
      intro row
      exact only_yield rfl ih

theorem routine_storeResult
    (rs : RunState)
    (callId : Option Text)
    (content : Content) :
    (RunService.storeResult rs callId content).Routine := by
  match callId with
  | some (c :: id) => exact routine_lastCall rfl
  | some [] => exact trivial
  | none => exact trivial

theorem routine_cancelRun
    (rs : RunState)
    (threadId : ThreadId) :
    (RunService.cancelRun rs threadId).Routine := by
  have hClear :
      (RunService.exceptException
        (call (.clearInterruptedTools threadId))
        (pure ())).Routine :=
    only_exceptException (routine_lastCall rfl) trivial
  rw [RunService.cancelRun]
  refine Gen.only_bind hClear ?_
  intro _ _
  refine only_call rfl ?_
  intro _
  refine only_call rfl ?_
  intro won
  cases won with
  | false => exact trivial
  | true => exact routine_emit rfl threadId

/- What is left of a pause once the status is written. -/
theorem routine_announcePause
    (rs : RunState)
    (threadId : ThreadId)
    (values : Option (List (Option Text))) :
    Driver.Routine
      (do
        call (.setPendingApproval rs.runId .pending)
        let tools ← call (.getPendingToolCalls rs.runId)
        RunService.emit
          (.approvalRequested rs.runId tools
            (interruptDetail values))
          threadId) := by
  refine only_call rfl ?_
  intro _
  refine only_call rfl ?_
  intro tools
  exact routine_emit rfl threadId

theorem usual_pauseRun
    (rs : RunState)
    (threadId : ThreadId)
    (values : Option (List (Option Text))) :
    (RunService.pauseRun rs threadId values).Usual :=
  only_call rfl fun _ =>
    (routine_announcePause rs threadId values).usual

theorem usual_isCancelled (cancel : Option FlagId) :
    (RunService.isCancelled cancel).Usual := by
  cases cancel with
  | none => exact trivial
  | some flag => exact usual_lastCall rfl

theorem routine_failRun
    (rs : RunState)
    (threadId : ThreadId) :
    (RunService.failRun rs threadId).Routine := by
  rw [RunService.failRun]
  refine only_call rfl ?_
  intro won
  cases won with
  | false => exact trivial
  | true =>
      refine only_call rfl ?_
      intro _
      exact routine_emit rfl threadId

theorem routine_closeRun (rs : RunState) :
    (RunService.closeRun rs).Routine := by
  rw [RunService.closeRun]
  refine only_call rfl ?_
  intro won
  cases won with
  | false => exact trivial
  | true => exact only_call rfl fun _ => trivial

theorem routine_storeQuestion
    (runId : RunId)
    (message : Text)
    (threadId : ThreadId) :
    (RunService.storeQuestion runId message
      threadId).Routine := by
  refine only_exceptException ?_ ?_
  · refine only_call rfl ?_
    intro row
    split
    · refine only_call rfl ?_
      intro _
      exact trivial
    · exact trivial
  · refine only_call rfl ?_
    intro _
    exact Gen.only_bind (routine_emit rfl _) fun _ _ => trivial

theorem routine_announceRejected
    (threadId : ThreadId)
    (ids : List (Option Text)) :
    (RunService.announceRejected threadId ids).Routine := by
  induction ids with
  | nil => exact trivial
  | cons id ids ih =>
      rw [RunService.announceRejected]
      refine only_call rfl ?_
      intro seq
      exact only_yield rfl ih

theorem routine_markApproval
    (runId : RunId)
    (threadId : ThreadId)
    (approved : Option (List Text)) :
    (RunService.markApproval runId threadId
      approved).Routine := by
  cases approved with
  | none => exact routine_lastCall rfl
  | some approved =>
      rw [RunService.markApproval]
      refine only_call rfl ?_
      intro rejected
      refine only_call rfl ?_
      intro _
      exact routine_announceRejected threadId rejected

theorem routine_rejectRun
    (runId : RunId)
    (threadId : ThreadId) :
    (RunService.rejectRun runId threadId).Routine := by
  rw [RunService.rejectRun]
  refine only_call rfl ?_
  intro won
  cases won with
  | false => exact trivial
  | true =>
      refine only_call rfl ?_
      intro _
      refine only_call rfl ?_
      intro _
      have hClear :
          (RunService.clearRejectedGraph threadId).Routine :=
        routine_lastCall rfl
      refine Gen.only_bind hClear ?_
      intro _ _
      exact routine_emit rfl threadId

theorem routine_approvedSet
    (runId : RunId)
    (approve : Bool)
    (approvedIds : Option (List Text)) :
    (RunService.approvedSet runId approve
      approvedIds).Routine := by
  cases approvedIds with
  | none => exact trivial
  | some ids => exact only_call rfl fun _ => trivial

------------------------------------------------------------
-- Parts of the Requests
------------------------------------------------------------

theorem routine_epilogue
    (threadId : ThreadId)
    (runId : RunId)
    (sawTerminal : Bool)
    (lastName : Option EventName) :
    (RunManager.epilogue threadId runId sawTerminal
      lastName).Routine := by
  refine only_call rfl ?_
  intro _
  split
  · have hRead :
        (RunService.exceptException (call (.getRun runId))
          (pure none)).Routine :=
      only_exceptException (routine_lastCall rfl) trivial
    refine Gen.only_bind hRead ?_
    intro run _
    split
    · exact only_call rfl fun seq => routine_lastCall rfl
    · exact trivial
  · exact trivial

theorem routine_pushTerminal
    (runId : RunId)
    (threadId : ThreadId) :
    (RunManager.pushTerminal runId threadId).Routine :=
  only_call rfl fun _ => routine_lastCall rfl

/- What an interrupt of a paused run calls. -/
theorem routine_interruptPaused
    (threadId : ThreadId)
    (runId : RunId) :
    (RunService.interruptPaused threadId runId).Routine := by
  refine only_call rfl ?_
  intro won
  cases won with
  | false => exact trivial
  | true =>
      refine only_call rfl ?_
      intro _
      refine only_call rfl ?_
      intro _
      exact only_call rfl fun _ => trivial

theorem usual_interrupt (runId : RunId) :
    (RunManager.interrupt runId).Usual := by
  refine only_call rfl ?_
  intro run
  split
  · exact trivial
  · have hCancel :
        (RunService.requestCancel runId).Usual := by
      refine only_call rfl ?_
      intro flag
      cases flag with
      | none => exact trivial
      | some flag => exact only_call rfl fun _ => trivial
    refine Gen.only_bind hCancel ?_
    intro asked _
    cases asked with
    | true => exact trivial
    | false =>
        refine only_call rfl ?_
        intro won
        cases won with
        | false => exact trivial
        | true => exact (routine_pushTerminal runId _).usual
  · refine
      Gen.only_bind (routine_interruptPaused _ runId).usual ?_
    intro won _
    cases won with
    | false => exact trivial
    | true => exact (routine_pushTerminal runId _).usual
  · exact trivial

theorem routine_fork
    (parentId : ThreadId)
    (forkPoint : MessageId) :
    (RunService.fork parentId forkPoint).Routine := by
  refine only_call rfl ?_
  intro threadId
  refine only_call rfl ?_
  intro messages
  refine only_call rfl ?_
  intro _
  dsimp only
  split
  · exact only_call rfl fun _ => trivial
  · exact trivial

end Parts

------------------------------------------------------------
-- Streams
------------------------------------------------------------

section Streams

variable {calls : Op → Prop}

section Chunks

variable
  (hCalls :
    ∀ op,
      op.aside = true →
        op.enters = false → op.steers = false → calls op)

include hCalls

/- A routine program is of every kind with the calls aside. -/
theorem only_of_aside
    {α : Type}
    {program : Driver α}
    (hRoutine : program.Routine) :
    program.Only calls (fun _ => True) fun _ => True := by
  refine only_of_routine hRoutine ?_ fun _ _ => trivial
  intro op hOp
  exact
    hCalls op (aside_of_plain (plain_of_routine hOp))
      (not_enters_of_routine hOp) (not_steers_of_routine hOp)

theorem only_handleArticles
    (threadId : ThreadId)
    (rs : RunState)
    (refs : List LawRef) :
    (RunService.handleArticles threadId rs refs).Only calls
      (fun _ => True) fun _ => True := by
  induction refs generalizing rs with
  | nil => exact trivial
  | cons ref refs ih =>
      rw [RunService.handleArticles]
      split
      · exact ih rs
      · apply only_call (hCalls _ rfl rfl rfl)
        intro _
        refine
          Gen.only_bind
            (only_numbered (hCalls _ rfl rfl rfl)
              fun _ => trivial)
            ?_
        intro _ _
        exact ih (rs.freeze ref)

theorem only_handleMessage
    (rs : RunState)
    (threadId : ThreadId)
    (message : StreamMessage) :
    (RunService.handleMessage rs threadId message).Only calls
      (fun _ => True) fun _ => True := by
  cases message with
  | ai content toolCalls =>
      rw [RunService.handleMessage]
      apply
        Gen.only_bind
          (only_of_aside hCalls
            (routine_handleCalls rs threadId toolCalls))
      intro _ _
      split <;> exact trivial
  | tool callId content artifact =>
      rw [RunService.handleMessage]
      apply only_call (hCalls _ rfl rfl rfl)
      intro seq
      apply
        Gen.only_bind
          (only_of_aside hCalls
            (routine_storeResult rs callId _))
      intro _ _
      apply only_yield trivial
      unfold RunService.handleArtifact
      cases articlesOf artifact with
      | ok refs =>
          exact only_handleArticles hCalls threadId rs refs
      | error exn => exact trivial

/- A chunk is handled by calls aside. -/
theorem only_handleChunk
    (threadId : ThreadId)
    (rs : RunState)
    (messages : List StreamMessage) :
    (RunService.handleChunk threadId rs messages).Only calls
      (fun _ => True) fun _ => True := by
  induction messages generalizing rs with
  | nil => exact trivial
  | cons message messages ih =>
      rw [RunService.handleChunk]
      apply
        Gen.only_bind
          (only_handleMessage hCalls rs threadId message)
      intro rs' _
      exact ih rs'

end Chunks

/- A stream checks no draft and enters no other stream. -/
theorem only_consumeStream
    (hCalls :
      ∀ op, op.checks = false → op.enters = false → calls op)
    (cancel : Option FlagId)
    (threadId : ThreadId)
    (steps : List GraphStep)
    (state : GraphState)
    (rs : RunState) :
    (RunService.consumeStream cancel threadId steps state
        rs).Only
      calls (fun _ => True) fun _ => True := by
  have hAside :
      ∀ op,
        op.aside = true →
          op.enters = false → op.steers = false → calls op :=
    fun op hOp hEnters _ =>
      hCalls op (not_checks_of_aside hOp) hEnters
  have hUsual :
      ∀ {α : Type} {program : Driver α},
        program.Usual →
          program.Only calls (fun _ => True) fun _ => True := by
    intro α program hProgram
    refine
      Gen.only_mono hProgram ?_ (fun _ _ => trivial)
        fun _ _ => trivial
    intro op hOp
    exact
      hCalls op
        (not_checks_of_aside (aside_of_plain (plain_of_usual hOp)))
        (not_enters_of_usual hOp)
  induction steps generalizing state rs with
  | nil =>
      rw [RunService.consumeStream]
      exact only_call (hCalls _ rfl rfl) fun _ => trivial
  | cons step steps ih =>
      rw [RunService.consumeStream]
      apply only_call (hCalls _ rfl rfl)
      intro reply
      match reply with
      | none => exact trivial
      | some (chunk, state') =>
          apply
            Gen.only_bind (hUsual (usual_isCancelled cancel))
          intro stopped _
          cases stopped with
          | true =>
              exact
                Gen.only_bind
                  (only_of_aside hAside
                    (routine_cancelRun rs threadId))
                  fun _ _ => trivial
          | false =>
              match chunk with
              | .interrupt values =>
                  exact
                    Gen.only_bind
                      (hUsual (usual_pauseRun rs threadId values))
                      fun _ _ => trivial
              | .updates messages =>
                  apply
                    Gen.only_bind
                      (only_handleChunk hAside threadId rs
                        messages)
                  intro rs' _
                  exact ih state' rs'

/- An answer is checked, and else committed by calls aside. -/
theorem only_finalize
    (hCalls :
      ∀ op,
        op.aside = true ∨ op.checks = true →
          op.enters = false → op.steers = false → calls op)
    (threadId : ThreadId)
    (rs : RunState) :
    (RunService.finalize rs threadId).Only calls
      (fun _ => True) fun _ => True := by
  rw [RunService.finalize]
  apply only_call (hCalls _ (Or.inr rfl) rfl rfl)
  intro linked
  dsimp only
  have hAside :
      ∀ op,
        op.aside = true →
          op.enters = false → op.steers = false → calls op :=
    fun op hOp => hCalls op (Or.inl hOp)
  split
  · apply only_call (hAside _ rfl rfl rfl)
    intro won
    cases won with
    | false => exact trivial
    | true =>
        exact
          only_numbered (hAside _ rfl rfl rfl) fun _ => trivial
  · apply only_call (hAside _ rfl rfl rfl)
    intro row
    cases row with
    | none => exact trivial
    | some row =>
        exact
          only_yield trivial
            (only_numbered (hAside _ rfl rfl rfl)
              fun _ => trivial)

end Streams

------------------------------------------------------------
-- Decisions
------------------------------------------------------------

/- A state in which no chunk has been handled. -/
def RunState.New (rs : RunState) : Prop :=
  rs = .fresh rs.runId rs.model rs.parentId

section Decisions

variable {calls : Op → Prop} {events : RunEvent → Prop}
variable (hCalls : ∀ op, op.routine = true → calls op)
variable
  (hEvents :
    ∀ event, event.data.announces = false → events event)
variable
  (hApprove :
    ∀ runId,
      calls
        (.tryTransition runId .awaitingApproval .running false))

include hCalls hEvents hApprove

theorem only_approveRun
    (registry : Registry)
    (runId : RunId)
    (threadId : ThreadId)
    (approved : Option (List Text)) :
    (RunService.approveRun registry runId threadId
        approved).Only
      calls events RunState.New := by
  rw [RunService.approveRun]
  apply only_call (hApprove runId)
  intro won
  cases won with
  | false => exact trivial
  | true =>
      apply only_call (hCalls _ rfl)
      intro _
      apply only_call (hCalls _ rfl)
      intro model
      apply only_call (hCalls _ rfl)
      intro root
      apply
        Gen.only_bind
          (only_of_routine
            (routine_markApproval runId threadId approved)
            hCalls hEvents)
      intro _ _
      exact rfl

theorem only_settle
    (registry : Registry)
    (runId : RunId)
    (threadId : ThreadId)
    (approve : Bool)
    (approvedIds : Option (List Text)) :
    (RunService.settle registry runId threadId approve
        approvedIds).Only
      calls events
      fun decided => ∀ rs, decided = some rs → rs.New := by
  rw [RunService.settle]
  apply
    Gen.only_bind
      (only_of_routine
        (routine_approvedSet runId approve approvedIds) hCalls
        hEvents)
  intro approved _
  split
  · apply
      Gen.only_bind
        (only_of_routine (routine_rejectRun runId threadId)
          hCalls hEvents)
    intro _ _ rs hEq
    cases hEq
  · apply
      Gen.only_bind
        (only_approveRun hCalls hEvents hApprove registry runId
          threadId approved)
    intro rs hNew rs' hEq
    cases hEq
    exact hNew

/- A decision approves at most and begins a new state. -/
theorem only_decide
    (registry : Registry)
    (threadId : ThreadId)
    (approve : Bool)
    (approvedIds : Option (List Text)) :
    (RunService.decide registry threadId approve
        approvedIds).Only
      calls events
      fun decided => ∀ rs, decided = some rs → rs.New := by
  rw [RunService.decide]
  apply only_call (hCalls _ rfl)
  intro active
  split
  · exact
      only_settle hCalls hEvents hApprove registry _ threadId
        approve approvedIds
  · exact trivial

end Decisions

end LegalAgent
