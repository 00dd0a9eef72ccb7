import LegalAgent.Service.RunService

/-
  The tasks of `api/run_manager.py`.

  A pump consumes a generator to its end and logs every event
  it yields; `start` and `resume` spawn pumps, `interrupt`
  stops a run and `stream` replays the log of a run to a
  client.  The events that a task yields itself are those that
  it sends to its client.

  Key definitions include:
    * `RunManager.consume`
    * `RunManager.epilogue`
    * `RunManager.start`
    * `RunManager.resume`
    * `RunManager.interrupt`
    * `RunManager.stream`
-/

------------------------------------------------------------
-- Synthetic Events
------------------------------------------------------------

namespace LegalAgent

open Library

def abnormalEnd : Text :=
  "실행이 비정상 종료되었습니다.".toList

def noTerminalEvent : Text :=
  "run ended without terminal event".toList

/- The error that ends a log without a terminal event. -/
def syntheticTerminal (seq : Nat) : RunEvent where
  data := .error none abnormalEnd (some noTerminalEvent) [] []
  seq := seq

/- The terminal event that reflects a terminal status. -/
def dbTerminalEvent
    (runId : RunId)
    (status : RunStatus)
    (seq : Nat) :
    RunEvent :=
  if status = .error then syntheticTerminal seq
  else ⟨.runDone runId (some status), seq⟩

namespace RunManager

open Gen

------------------------------------------------------------
-- Pumps
------------------------------------------------------------

/-
  The `finally` block of a pump: without a terminal event and
  without a pause, log a synthetic event unless the run has
  ended.
-/
def epilogue
    (threadId : ThreadId)
    (runId : RunId)
    (sawTerminal : Bool)
    (lastName : Option EventName) :
    Driver Unit := do
  call (.activeDiscard runId)
  if !sawTerminal && lastName != some .approvalRequested then
    let run ←
      RunService.exceptException (call (.getRun runId))
        (pure none)
    if run.all fun run => !run.2.terminal then
      let seq ← call (.nextSeq threadId)
      call
        (.appendRunEvent threadId runId (syntheticTerminal seq))

/-
  Consume a generator and log its events.  When an event
  cannot be logged the pump stops, and its generator is closed
  as the last reference to it goes.
-/
def consume
    (threadId : ThreadId)
    (runId : RunId) :
    Bool → Option EventName → Driver Unit → Driver Unit
| sawTerminal, lastName, .ret _ =>
    epilogue threadId runId sawTerminal lastName
| sawTerminal, lastName, .call op next =>
    .call op fun reply =>
      consume threadId runId sawTerminal lastName (next reply)
| sawTerminal, _, .yield event next =>
    .call (.appendRunEvent threadId runId event) fun
      | .ok () =>
          consume threadId runId
            (sawTerminal || event.name.terminal)
            (some event.name) (next (.ok ()))
      | .error _ =>
          (epilogue threadId runId
              (sawTerminal || event.name.terminal)
              (some event.name)).andThen fun _ =>
            (next (.error .generatorExit)).close .generatorExit

/- Register a run as active and consume its generator. -/
def spawnPump
    (generator : Driver Unit)
    (threadId : ThreadId)
    (runId : RunId) :
    Driver Unit := do
  call (.activeAdd runId)
  consume threadId runId false none generator

/- Run a generator up to its first event (`_first_event`). -/
def firstEvent
    (next :
      RunEvent → (Except Exn Unit → Driver Unit) →
        Driver Unit) :
    Driver Unit → Driver Unit
| .ret result => .ret result
| .call op resume =>
    .call op fun reply => firstEvent next (resume reply)
| .yield event resume => next event resume

------------------------------------------------------------
-- Requests
------------------------------------------------------------

/- Start a run in the background. -/
def start
    (registry : Registry)
    (threadId : ThreadId)
    (message : Text)
    (model : Option Text)
    (script : List GraphStep) :
    Driver Unit :=
  firstEvent
    (fun first rest =>
      match first.data with
      | .runStarted runId _ _ =>
          .call (.appendRunEvent threadId runId first) fun
            | .ok () =>
                spawnPump (rest (.ok ())) threadId runId
            | .error exn =>
                ((rest (.error .generatorExit)).close
                  .generatorExit).andThen fun _ => raise exn
      | _ => raise .keyError)
    (RunService.run registry message threadId model script)

/- Resume the paused run of a thread in the background. -/
def resume
    (registry : Registry)
    (threadId : ThreadId)
    (approve : Bool)
    (approvedIds : Option (List Text))
    (script : List GraphStep) :
    Driver Unit := do
  match ← call (.getActiveRun threadId) with
  | some (runId, .awaitingApproval) =>
      spawnPump
        (RunService.resume registry threadId approve approvedIds
          script)
        threadId runId
  | _ => raise .valueError

/- Log the terminal event of a run that no pump drives. -/
def pushTerminal
    (runId : RunId)
    (threadId : ThreadId) :
    Driver Unit := do
  let seq ← call (.nextSeq threadId)
  call
    (.appendRunEvent threadId runId
      ⟨.runDone runId (some .interrupted), seq⟩)

/- Stop a run. -/
def interrupt (runId : RunId) : Driver Unit := do
  match ← call (.getRun runId) with
  | none => raise .keyError
  | some (threadId, .running) =>
      if ← RunService.requestCancel runId then
        pure ()
      else if ← call
          (.tryTransition runId .running .interrupted true) then
        pushTerminal runId threadId
      else
        raise .valueError
  | some (threadId, .awaitingApproval) =>
      if ← RunService.interruptPaused threadId runId then
        pushTerminal runId threadId
      else
        raise .valueError
  | some _ => raise .valueError

------------------------------------------------------------
-- Live Streams
------------------------------------------------------------

/- What a client has received of a log. -/
structure StreamCursor where
  last : Option Nat
  ended : Bool

/- Send a page of the log, at most to a terminal event. -/
def sendPage :
    StreamCursor → List RunEvent → Driver StreamCursor
| cursor, [] => pure cursor
| _, event :: events => do
    Gen.emit event
    if event.name.terminal then
      pure ⟨some event.seq, true⟩
    else
      sendPage ⟨some event.seq, false⟩ events

/-
  Replay the log of a run behind a cursor, polling for new
  events.  After the given number of polls the client leaves.
-/
def stream
    (runId : RunId) :
    Nat → Option Nat → Driver Unit
| 0, _ => raise .generatorExit
| polls + 1, cursor => do
    let rows ← call (.getRunEventsAfter runId cursor)
    let sent ← sendPage ⟨cursor, false⟩ rows
    if sent.ended then
      pure ()
    else if rows.isEmpty then
      match ← call (.getRun runId) with
      | some (_, status) =>
          if status.terminal then
            Gen.emit
              (dbTerminalEvent runId status
                (sent.last.elim 0 (· + 1)))
          else
            stream runId polls sent.last
      | none => stream runId polls sent.last
    else
      stream runId polls sent.last

end RunManager

end LegalAgent
