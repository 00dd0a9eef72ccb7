import LegalAgent.Properties.Routine
import LegalAgent.System.Model

/-
  How the tasks of the requests enter a stream.

  A task that starts a run hands its question to the graph,
  and a task that resumes a run lets the graph go on.  Neither
  does what the other does, and no other task does either.

  Key definitions include:
    * `Op.enters`
    * `Request.makes`

  Key theorems include:
    * `makes_request`
-/

------------------------------------------------------------
-- Calls
------------------------------------------------------------

namespace LegalAgent

open Library

/- The calls of the task of a request. -/
def Request.makes : Request → Op → Bool
| .start .., .openRun .. => true
| .start .., .graphInput .. => true
| .resume .., .graphResume .. => true
| .resume .., .tryTransition _ .awaitingApproval .running _ =>
    true
| _, op => !op.enters

/- Whether a request is that of a resumption. -/
def Request.resumes : Request → Bool
| .resume .. => true
| _ => false

/- Every request may do what enters no stream. -/
theorem makes_of_not_enters
    (request : Request)
    {op : Op}
    (hOp : op.enters = false) :
    request.makes op = true := by
  unfold Request.makes
  split <;> first | rfl | simp [hOp]

/- A task that opens a run or asks the graph is no resumption. -/
theorem not_resumes_of_makes
    {request : Request}
    {op : Op}
    (hMakes : request.makes op = true)
    (hOp :
      (∃ threadId model, op = .openRun threadId model) ∨
        ∃ threadId message,
          op = .graphInput threadId message) :
    request.resumes = false := by
  cases request with
  | resume threadId approve approvedIds script =>
      rcases hOp with ⟨_, _, rfl⟩ | ⟨_, _, rfl⟩ <;> cases hMakes
  | _ => rfl

/- A task that approves a run or resumes the graph does. -/
theorem resumes_of_makes
    {request : Request}
    {op : Op}
    (hMakes : request.makes op = true)
    (hOp :
      (∃ runId ended,
          op =
            .tryTransition runId .awaitingApproval .running
              ended) ∨
        ∃ threadId, op = .graphResume threadId) :
    request.resumes = true := by
  cases request with
  | resume threadId approve approvedIds script => rfl
  | _ =>
      rcases hOp with ⟨_, _, rfl⟩ | ⟨_, rfl⟩ <;> cases hMakes

/- A program that makes only calls of a kind. -/
abbrev Driver.Within
    {α : Type}
    (calls : Op → Prop)
    (program : Driver α) :
    Prop :=
  Gen.Only calls (fun _ => True) (fun _ => True) program

section Within

variable {calls : Op → Prop} {α : Type}

theorem within_lastCall
    {op : Op}
    (hOp : calls op) :
    Driver.Within calls (call op) :=
  only_lastCall hOp

theorem within_bind
    {β : Type}
    {program : Driver α}
    {next : α → Driver β}
    (hProgram : program.Within calls)
    (hNext : ∀ value, (next value).Within calls) :
    (program >>= next).Within calls :=
  Gen.only_bind hProgram fun value _ => hNext value

variable (hPlain : ∀ op, op.enters = false → calls op)
variable {threadId : ThreadId} {runId : RunId}

include hPlain

------------------------------------------------------------
-- Streams
------------------------------------------------------------

/- A usual program enters no stream. -/
theorem within_of_usual
    {program : Driver α}
    (hUsual : program.Usual) :
    program.Within calls :=
  Gen.only_mono hUsual
    (fun op hOp => hPlain op (not_enters_of_usual hOp))
    (fun _ _ => trivial) fun _ _ => trivial

/- A routine program enters no stream. -/
theorem within_of_routine
    {program : Driver α}
    (hRoutine : program.Routine) :
    program.Within calls :=
  within_of_usual hPlain hRoutine.usual

theorem within_finalize (rs : RunState) :
    (RunService.finalize rs threadId).Within calls :=
  only_finalize (fun op _ hOp _ => hPlain op hOp) threadId rs

/- A stream makes its entry and calls that enter none. -/
theorem within_drive
    {start : Driver GraphState}
    (hStart : start.Within calls)
    (script : List GraphStep)
    (rs : RunState) :
    (RunService.drive start script rs threadId).Within
      calls := by
  have hBody :
      ∀ cancel,
        (RunService.driveBody cancel start script rs
            threadId).Within
          calls := by
    intro cancel
    have hStream :
        (RunService.driveStream cancel start script rs
            threadId).Within
          calls := by
      refine only_exceptException ?_ ?_
      · apply within_bind hStart
        intro state
        exact
          only_consumeStream (fun op _ hOp => hPlain op hOp)
            cancel threadId script state rs
      · exact
          within_bind
            (within_of_routine hPlain
              (routine_failRun rs threadId))
            fun _ => trivial
    rw [RunService.driveBody]
    apply within_bind hStream
    intro rs'
    cases rs' with
    | none => exact trivial
    | some rs' => exact within_finalize hPlain rs'
  rw [RunService.drive]
  apply only_call (hPlain _ rfl)
  intro cancel
  refine
    Gen.only_tryFinally (Gen.only_tryCatch (hBody cancel) ?_)
      (only_lastCall (hPlain _ rfl))
  intro exn
  split
  · exact within_of_routine hPlain (routine_closeRun rs)
  · exact trivial

------------------------------------------------------------
-- Pumps
------------------------------------------------------------

theorem within_consume
    {generator : Driver Unit}
    (hGenerator : generator.Within calls)
    (sawTerminal : Bool)
    (lastName : Option EventName) :
    (RunManager.consume threadId runId sawTerminal lastName
        generator).Within
      calls := by
  have hEpilogue :
      ∀ sawTerminal lastName,
        (RunManager.epilogue threadId runId sawTerminal
            lastName).Within
          calls :=
    fun sawTerminal lastName =>
      within_of_routine hPlain
        (routine_epilogue threadId runId sawTerminal lastName)
  induction generator generalizing sawTerminal lastName with
  | ret result => exact hEpilogue sawTerminal lastName
  | call op next ih =>
      exact
        ⟨hGenerator.1, fun reply =>
          ih reply (hGenerator.2 reply) sawTerminal lastName⟩
  | yield event next ih =>
      refine ⟨hPlain _ rfl, ?_⟩
      intro reply
      cases reply with
      | ok value => exact ih (.ok ()) (hGenerator.2 (.ok ())) _ _
      | error exn =>
          have hClose :=
            @Gen.only_close _ _ _ _ calls _ RunEvent _
              Exn.generatorExit (fun _ => True)
              (hGenerator.2 (.error .generatorExit))
          exact
            Gen.only_andThen (hEpilogue _ _)
              (fun _ _ => hClose) fun _ => hClose

theorem within_spawnPump
    {generator : Driver Unit}
    (hGenerator : generator.Within calls) :
    (RunManager.spawnPump generator threadId runId).Within
      calls :=
  only_call (hPlain _ rfl) fun _ =>
    within_consume hPlain hGenerator false none

end Within

------------------------------------------------------------
-- Requests
------------------------------------------------------------

/- The first event is handed to a program that goes on. -/
theorem within_firstEvent
    {calls : Op → Prop}
    {next :
      RunEvent → (Except Exn Unit → Driver Unit) →
        Driver Unit}
    {generator : Driver Unit}
    (hGenerator : generator.Within calls)
    (hNext :
      ∀ event resume,
        (∀ reply, (resume reply).Within calls) →
          (next event resume).Within calls) :
    (RunManager.firstEvent next generator).Within calls := by
  induction generator with
  | ret result => exact hGenerator
  | call op resume ih =>
      exact
        ⟨hGenerator.1, fun reply =>
          ih reply (hGenerator.2 reply)⟩
  | yield event resume ih =>
      exact hNext event resume hGenerator.2

section Requests

variable {request : Request} {threadId : ThreadId}

theorem within_start
    (registry : Registry)
    (message : Text)
    (model : Option Text)
    (script : List GraphStep)
    (hRequest :
      request = .start threadId message model script) :
    (RunManager.start registry threadId message model
        script).Within
      fun op => request.makes op = true := by
  have hPlain :
      ∀ op, op.enters = false → request.makes op = true :=
    fun _ => makes_of_not_enters request
  have hRun :
      (RunService.run registry message threadId model
          script).Within
        fun op => request.makes op = true := by
    rw [RunService.run]
    refine only_call (by rw [hRequest]; rfl) ?_
    intro runId
    apply only_call (hPlain _ rfl)
    intro _
    refine
      within_bind
        (only_numbered (hPlain _ rfl) fun _ => trivial) ?_
    intro _
    apply
      within_bind
        (within_of_routine hPlain
          (routine_storeQuestion runId message threadId))
    intro root
    cases root with
    | none => exact trivial
    | some root =>
        refine within_drive hPlain ?_ script _
        exact within_lastCall (by rw [hRequest]; rfl)
  apply within_firstEvent hRun
  intro event resume hResume
  split
  · refine ⟨hPlain _ rfl, ?_⟩
    intro reply
    cases reply with
    | ok value =>
        exact within_spawnPump hPlain (hResume (.ok ()))
    | error exn =>
        exact
          Gen.only_andThen
            (Gen.only_close (hResume (.error .generatorExit)))
            (fun _ _ => trivial) fun _ => trivial
  · exact trivial

theorem within_resume
    (registry : Registry)
    (approve : Bool)
    (approvedIds : Option (List Text))
    (script : List GraphStep)
    (hRequest :
      request = .resume threadId approve approvedIds script) :
    (RunManager.resume registry threadId approve approvedIds
        script).Within
      fun op => request.makes op = true := by
  have hPlain :
      ∀ op, op.enters = false → request.makes op = true :=
    fun _ => makes_of_not_enters request
  have hResume :
      (RunService.resume registry threadId approve approvedIds
          script).Within
        fun op => request.makes op = true := by
    have hDecide :
        (RunService.decide registry threadId approve
            approvedIds).Within
          fun op => request.makes op = true := by
      refine
        Gen.only_mono
          (@only_decide (fun op => request.makes op = true)
            (fun _ => True) ?_ (fun _ _ => trivial) ?_ registry
            threadId approve approvedIds)
          (fun _ hOp => hOp) (fun _ _ => trivial)
          fun _ _ => trivial
      · exact fun op hOp =>
          hPlain op (not_enters_of_routine hOp)
      · intro runId
        rw [hRequest]
        rfl
    rw [RunService.resume]
    apply within_bind hDecide
    intro rs
    cases rs with
    | none => exact trivial
    | some rs =>
        refine within_drive hPlain ?_ script rs
        exact within_lastCall (by rw [hRequest]; rfl)
  apply only_call (hPlain _ rfl)
  intro active
  split
  · exact within_spawnPump hPlain hResume
  · exact trivial

theorem within_stream
    {calls : Op → Prop}
    (hRoutine : ∀ op, op.routine = true → calls op)
    (runId : RunId)
    (polls : Nat)
    (cursor : Option Nat) :
    (RunManager.stream runId polls cursor).Within calls := by
  have hSend :
      ∀ events cursor,
        (RunManager.sendPage cursor events).Within calls := by
    intro events
    induction events with
    | nil => exact fun _ => trivial
    | cons event events ih =>
        intro cursor
        rw [RunManager.sendPage]
        apply only_yield trivial
        split
        · exact trivial
        · exact ih _
  induction polls generalizing cursor with
  | zero => exact trivial
  | succ polls ih =>
      rw [RunManager.stream]
      apply only_call (hRoutine _ rfl)
      intro rows
      apply within_bind (hSend rows _)
      intro sent
      split
      · exact trivial
      · split
        · apply only_call (hRoutine _ rfl)
          intro run
          split
          · split
            · exact Gen.only_emit trivial
            · exact ih sent.last
          · exact ih sent.last
        · exact ih sent.last

/- The task of a request makes the calls of the request. -/
theorem makes_request
    (registry : Registry)
    (request : Request) :
    (request.program registry).Within
      fun op => request.makes op = true := by
  have hPlain :
      ∀ op, op.enters = false → request.makes op = true :=
    fun _ => makes_of_not_enters request
  cases request with
  | createThread title =>
      exact only_call (hPlain _ rfl) fun _ => trivial
  | fork parentId forkPoint =>
      exact
        within_of_routine hPlain
          (routine_fork parentId forkPoint)
  | start threadId message model script =>
      exact within_start registry message model script rfl
  | resume threadId approve approvedIds script =>
      exact
        within_resume registry approve approvedIds script rfl
  | interrupt runId =>
      exact within_of_usual hPlain (usual_interrupt runId)
  | stream runId polls cursor =>
      exact within_stream (fun op hOp =>
          hPlain op (not_enters_of_routine hOp)) runId polls cursor

end Requests

end LegalAgent
