import LegalAgent.Library.Table
import LegalAgent.Text.Compose

/-
  The conversation store: the rows of its tables and the
  messages of the agent's checkpoints.

  The tables are those of `database/migrations`.  Ids that
  `_uuid` draws are natural numbers, drawn from a counter that
  never repeats a value.  Times are the seconds of the
  database clock.

  Key definitions include:
    * `RunStatus`
    * `Run`
    * `Message`
    * `EventData`
    * `CheckpointMessage`
    * `Db`
-/

------------------------------------------------------------
-- Identifiers And Enumerations
------------------------------------------------------------

namespace LegalAgent

open Library

abbrev ThreadId := Nat
abbrev RunId := Nat
abbrev MessageId := Nat
abbrev Time := Nat

/- The exceptions that the code raises or meets. -/
inductive Exn where
  | activeRunExists
  | runNotRunning
  | valueError
  | keyError
  | typeError
  | database
  | agent
  | generatorExit
deriving DecidableEq, Repr

/- `except Exception` catches all but `GeneratorExit`. -/
def Exn.isException : Exn → Bool
| .generatorExit => false
| _ => true

/- The type `run_status`. -/
inductive RunStatus where
  | running
  | awaitingApproval
  | interrupted
  | completed
  | rejected
  | error
deriving DecidableEq, Repr

/- `ACTIVE_STATUSES`, shared with the partial unique index. -/
def RunStatus.active : RunStatus → Bool
| .running | .awaitingApproval => true
| _ => false

/- `_TERMINAL_STATUSES`. -/
def RunStatus.terminal : RunStatus → Bool
| .completed | .interrupted | .rejected | .error => true
| _ => false

/- A status is terminal exactly when it is not active. -/
@[simp] theorem RunStatus.terminal_eq_not_active
    (status : RunStatus) :
    status.terminal = !status.active := by
  cases status <;> rfl

/- The type `message_role`. -/
inductive MessageRole where
  | user
  | agent
  | tool
deriving DecidableEq, Repr

/- The values of `approval_state`. -/
inductive ApprovalState where
  | pending
  | approved
  | rejected
deriving DecidableEq, Repr

------------------------------------------------------------
-- Messages And Events
------------------------------------------------------------

/- One tool call; the arguments are their JSON text. -/
structure ToolCall where
  id : Option Text
  name : Option Text
  args : Option Text
deriving DecidableEq

/- One block of a message content that is a list. -/
inductive ContentBlock where
  | plain (text : Text)
  | text (text : Option Text)
  | other
deriving DecidableEq

/- The content of a message: nothing, a text or blocks. -/
inductive Content where
  | null
  | str (text : Text)
  | blocks (blocks : List ContentBlock)
deriving DecidableEq

/- An article as the retrieval returns it. -/
structure LawRef where
  id : CitationId
  kind : Text
  title : Text
  ref : Text
  snippet : Text
  url : Text
  uri : Text
  resourceId : Text
  effDate : EffDate
  articleText : Text

/- A row of `citations`. -/
structure Citation where
  kind : Text
  title : Text
  ref : Text
  snippet : Text
  url : Text
  articleText : Text
  lawUri : Text
  resourceId : Text
  effDate : EffDate

/- What the event `citation.added` shows of an article. -/
structure CitationSurface where
  id : CitationId
  kind : Text
  title : Text
  ref : Text
  snippet : Text
  url : Text

/- The detail of an approval request. -/
inductive InterruptDetail where
  | approvalRequired
  | one (value : Text)
  | many (values : List Text)

/- The events of a run with their data. -/
inductive EventData where
  | runStarted
      (runId : RunId)
      (threadId : ThreadId)
      (model : Text)
  | toolCall (call : ToolCall)
  | toolResult
      (id : Option Text)
      (content : Content)
      (rejected : Bool)
  | citationAdded (citation : CitationSurface)
  | approvalRequested
      (runId : RunId)
      (tools : List ToolCall)
      (detail : InterruptDetail)
  | messageCompleted
      (text : Text)
      (citations : List Text)
  | runDone
      (runId : RunId)
      (status : Option RunStatus)
  | error
      (runId : Option RunId)
      (message : Text)
      (reason : Option Text)
      (forged valid : List Text)

/- The name of an event. -/
inductive EventName where
  | runStarted
  | toolCall
  | toolResult
  | citationAdded
  | approvalRequested
  | messageCompleted
  | runDone
  | error
deriving DecidableEq, Repr

def EventData.name : EventData → EventName
| .runStarted .. => .runStarted
| .toolCall .. => .toolCall
| .toolResult .. => .toolResult
| .citationAdded .. => .citationAdded
| .approvalRequested .. => .approvalRequested
| .messageCompleted .. => .messageCompleted
| .runDone .. => .runDone
| .error .. => .error

/- The names in `_TERMINAL`. -/
def EventName.terminal : EventName → Bool
| .runDone | .error => true
| _ => false

/- An event with its number in the thread (`RunEvent`). -/
structure RunEvent where
  data : EventData
  seq : Nat

/- The name of an event. -/
def RunEvent.name (event : RunEvent) : EventName :=
  event.data.name

------------------------------------------------------------
-- Rows
------------------------------------------------------------

/- A row of `threads`. -/
structure Thread where
  title : Option Text
  forkedFrom : Option ThreadId
  forkPoint : Option MessageId
  lastSeq : Nat

/- A row of `runs`. -/
structure Run where
  threadId : ThreadId
  status : RunStatus
  startedAt : Time
  endedAt : Option Time
  heartbeatAt : Time
  model : Option Text

/- A row of `messages`. -/
structure Message where
  id : MessageId
  threadId : ThreadId
  runId : Option RunId
  seq : Nat
  parentId : Option MessageId
  role : MessageRole
  contentMd : Option Text
  toolName : Option Text
  toolArgs : Option Text
  toolResult : Option Content
  approvalState : Option ApprovalState
  toolCallId : Option Text
  model : Option Text

/- A row of `run_events`. -/
structure RunEventRow where
  threadId : ThreadId
  runId : RunId
  seq : Nat
  data : EventData
  createdAt : Time

/- A message of the agent's checkpoint. -/
inductive CheckpointMessage where
  | human (content : Content)
  | ai (id : Nat) (content : Content) (calls : List ToolCall)
  | tool (callId : Option Text) (content : Content)
deriving DecidableEq

/-
  The database: the transcript tables, the event log, the
  checkpoint of every thread, the clock and the supply of
  fresh ids.
-/
structure Db where
  now : Time
  nextId : Nat
  threads : Table ThreadId Thread
  runs : Table RunId Run
  messages : List Message
  messageCitations : List (MessageId × CitationId)
  citations : Table CitationId Citation
  runEvents : List RunEventRow
  checkpoints : ThreadId → List CheckpointMessage

/- The database before the first request. -/
def Db.empty : Db where
  now := 0
  nextId := 0
  threads := Table.empty
  runs := Table.empty
  messages := []
  messageCitations := []
  citations := Table.empty
  runEvents := []
  checkpoints := fun _ => []

/- The status of a run. -/
def Db.status? (db : Db) (runId : RunId) : Option RunStatus :=
  (db.runs.get? runId).map Run.status

/- Whether a run is active. -/
def Db.isActive (db : Db) (runId : RunId) : Bool :=
  (db.status? runId).any RunStatus.active

end LegalAgent
