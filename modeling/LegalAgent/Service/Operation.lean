import LegalAgent.Agent.Graph
import LegalAgent.Library.Generator

/-
  The calls that the services make, and the world they change.

  An `Op` is one call of the repository, of the agent or of
  the state that an instance of the server keeps in memory:
  the cancel flags of `RunService` and the active set of
  `RunManager`.  `exec` executes a call on an instance.

  Key definitions include:
    * `Op`
    * `Op.Reply`
    * `World`
    * `exec`
    * `Driver`
-/

------------------------------------------------------------
-- Operations
------------------------------------------------------------

namespace LegalAgent

open Library

abbrev InstanceId := Nat
abbrev FlagId := Nat

/- The calls of the services. -/
inductive Op where
  | createThread (title : Option Text)
  | forkThread (parentId : ThreadId) (forkPoint : MessageId)
  | getThreadMessages (threadId : ThreadId)
  | setThreadTitleIfEmpty (threadId : ThreadId) (title : Text)
  | nextSeq (threadId : ThreadId)
  | openRun (threadId : ThreadId) (model : Option Text)
  | getRunModel (runId : RunId)
  | setRunStatus
      (runId : RunId)
      (status : RunStatus)
      (ended : Bool)
  | tryTransition
      (runId : RunId)
      (fromStatus toStatus : RunStatus)
      (ended : Bool)
  | getRun (runId : RunId)
  | getActiveRun (threadId : ThreadId)
  | addMessage (threadId : ThreadId) (new : NewMessage)
  | commitAgentAnswer
      (threadId : ThreadId)
      (runId : RunId)
      (contentMd : Text)
      (citationIds : List Text)
      (parentId : Option MessageId)
      (model : Option Text)
  | getTurnRoot (runId : RunId)
  | setToolResult
      (runId : RunId)
      (toolCallId : Text)
      (toolResult : Content)
  | markPartialApproval
      (runId : RunId)
      (rejectedIds : List (Option Text))
      (marker : Text)
  | resolveOrphanToolCells (runId : RunId) (marker : Text)
  | setPendingApproval (runId : RunId) (state : ApprovalState)
  | getPendingToolCalls (runId : RunId)
  | freezeCitation (ref : LawRef)
  | getThreadCitations (threadId : ThreadId)
  | appendRunEvent
      (threadId : ThreadId)
      (runId : RunId)
      (event : RunEvent)
  | getRunEventsAfter (runId : RunId) (cursor : Option Nat)
  | graphInput (threadId : ThreadId) (message : Text)
  | graphResume (threadId : ThreadId)
  | graphNext
      (threadId : ThreadId)
      (state : GraphState)
      (step : Option GraphStep)
  | rejectPending (threadId : ThreadId)
  | clearInterruptedTools (threadId : ThreadId)
  | approvePartial (threadId : ThreadId) (approved : List Text)
  | forkState
      (threadId : ThreadId)
      (transcript : List Message)
  | cancelsCreate (runId : RunId)
  | cancelsSetdefault (runId : RunId)
  | cancelsGet (runId : RunId)
  | cancelsPop (runId : RunId)
  | flagSet (flag : FlagId)
  | flagIsSet (flag : FlagId)
  | activeAdd (runId : RunId)
  | activeDiscard (runId : RunId)

/- What a call replies. -/
@[reducible] def Op.Reply : Op → Type
| .createThread .. => ThreadId
| .forkThread .. => ThreadId
| .getThreadMessages .. => List Message
| .setThreadTitleIfEmpty .. => Bool
| .nextSeq .. => Nat
| .openRun .. => RunId
| .getRunModel .. => Option Text
| .setRunStatus .. => Unit
| .tryTransition .. => Bool
| .getRun .. => Option (ThreadId × RunStatus)
| .getActiveRun .. => Option (RunId × RunStatus)
| .addMessage .. => MessageId × Nat
| .commitAgentAnswer .. => Option (MessageId × Nat)
| .getTurnRoot .. => Option MessageId
| .setToolResult .. => Unit
| .markPartialApproval .. => Unit
| .resolveOrphanToolCells .. => Unit
| .setPendingApproval .. => Unit
| .getPendingToolCalls .. => List ToolCall
| .freezeCitation .. => Unit
| .getThreadCitations .. => List CitationId
| .appendRunEvent .. => Unit
| .getRunEventsAfter .. => List RunEvent
| .graphInput .. => GraphState
| .graphResume .. => GraphState
| .graphNext .. => Option (Chunk × GraphState)
| .rejectPending .. => Unit
| .clearInterruptedTools .. => Unit
| .approvePartial .. => List (Option Text)
| .forkState .. => Unit
| .cancelsCreate .. => Unit
| .cancelsSetdefault .. => Unit
| .cancelsGet .. => Option FlagId
| .cancelsPop .. => Unit
| .flagSet .. => Unit
| .flagIsSet .. => Bool
| .activeAdd .. => Unit
| .activeDiscard .. => Unit

/- A call of the repository, of the agent or of the memory. -/
inductive OpKind where
  | database
  | agent
  | memory
deriving DecidableEq

def Op.kind : Op → OpKind
| .graphInput .. | .graphResume .. | .graphNext ..
| .rejectPending .. | .clearInterruptedTools ..
| .approvePartial .. | .forkState .. => .agent
| .cancelsCreate .. | .cancelsSetdefault .. | .cancelsGet ..
| .cancelsPop .. | .flagSet .. | .flagIsSet ..
| .activeAdd .. | .activeDiscard .. => .memory
| _ => .database

/- The exception of a call that fails for reasons of its own. -/
def OpKind.fault : OpKind → Option Exn
| .database => some .database
| .agent => some .agent
| .memory => none

/- Generators of the services, with the events they yield. -/
abbrev Driver (α : Type) : Type :=
  Gen Op Op.Reply Exn RunEvent α

/- Call an operation in a generator of the services. -/
abbrev call (op : Op) : Driver op.Reply :=
  Gen.perform op

------------------------------------------------------------
-- Worlds
------------------------------------------------------------

/- What one instance of the server keeps in memory. -/
structure Instance where
  cancels : RunId → Option FlagId
  active : List RunId

/-
  The database, the flags, the instances, and the time at
  which each instance sent its last heartbeats.
-/
structure World where
  db : Db
  nextFlag : FlagId
  flags : FlagId → Bool
  instances : InstanceId → Instance
  ticks : InstanceId → Time

/- The world before the first request. -/
def World.empty : World where
  db := .empty
  nextFlag := 0
  flags := fun _ => false
  instances := fun _ => { cancels := fun _ => none, active := [] }
  ticks := fun _ => 0

/- Replace the memory of one instance. -/
def World.setInstance
    (world : World)
    (inst : InstanceId)
    (memory : Instance) :
    World :=
  { world with
    instances := fun other =>
      if other = inst then memory else world.instances other }

/- Execute a statement on the database. -/
def World.onDb
    {α : Type}
    (world : World)
    (statement : Statement α) :
    Except Exn α × World :=
  let (reply, db) := statement.commit world.db
  (reply, { world with db := db })

/- Replace the flag of a run in the memory of an instance. -/
def Instance.setCancel
    (memory : Instance)
    (runId : RunId)
    (flag : Option FlagId) :
    Instance :=
  { memory with
    cancels := fun other =>
      if other = runId then flag else memory.cancels other }

/- Store a new flag, not set, for a run. -/
def World.createCancel
    (world : World)
    (inst : InstanceId)
    (runId : RunId) :
    World :=
  { world.setInstance inst
      ((world.instances inst).setCancel runId
        (some world.nextFlag)) with
    nextFlag := world.nextFlag + 1
    flags := fun flag =>
      if flag = world.nextFlag then false
      else world.flags flag }

/- Execute a call on an instance. -/
def exec
    (inst : InstanceId) :
    (op : Op) → World → Except Exn op.Reply × World
| .createThread title, world =>
    world.onDb (createThread title)
| .forkThread parentId forkPoint, world =>
    world.onDb (forkThread parentId forkPoint)
| .getThreadMessages threadId, world =>
    world.onDb (getThreadMessages threadId)
| .setThreadTitleIfEmpty threadId title, world =>
    world.onDb (setThreadTitleIfEmpty threadId title)
| .nextSeq threadId, world =>
    world.onDb (nextSeq threadId)
| .openRun threadId model, world =>
    world.onDb (openRun threadId model)
| .getRunModel runId, world =>
    world.onDb (getRunModel runId)
| .setRunStatus runId status ended, world =>
    world.onDb (setRunStatus runId status ended)
| .tryTransition runId fromStatus toStatus ended, world =>
    world.onDb (tryTransition runId fromStatus toStatus ended)
| .getRun runId, world =>
    world.onDb (getRun runId)
| .getActiveRun threadId, world =>
    world.onDb (getActiveRun threadId)
| .addMessage threadId new, world =>
    world.onDb (addMessage threadId new)
| .commitAgentAnswer threadId runId contentMd citationIds
    parentId model, world =>
    world.onDb
      (commitAgentAnswer threadId runId contentMd citationIds
        parentId model)
| .getTurnRoot runId, world =>
    world.onDb (getTurnRoot runId)
| .setToolResult runId toolCallId toolResult, world =>
    world.onDb (setToolResult runId toolCallId toolResult)
| .markPartialApproval runId rejectedIds marker, world =>
    world.onDb (markPartialApproval runId rejectedIds marker)
| .resolveOrphanToolCells runId marker, world =>
    world.onDb (resolveOrphanToolCells runId marker)
| .setPendingApproval runId state, world =>
    world.onDb (setPendingApproval runId state)
| .getPendingToolCalls runId, world =>
    world.onDb (getPendingToolCalls runId)
| .freezeCitation ref, world =>
    world.onDb (freezeCitation ref)
| .getThreadCitations threadId, world =>
    world.onDb (getThreadCitations threadId)
| .appendRunEvent threadId runId event, world =>
    world.onDb (appendRunEvent threadId runId event)
| .getRunEventsAfter runId cursor, world =>
    world.onDb (getRunEventsAfter runId cursor)
| .graphInput threadId message, world =>
    world.onDb (graphInput threadId message)
| .graphResume threadId, world =>
    world.onDb (graphResume threadId)
| .graphNext threadId state step, world =>
    world.onDb (graphNext threadId state step)
| .rejectPending threadId, world =>
    world.onDb (rejectPending threadId)
| .clearInterruptedTools threadId, world =>
    world.onDb (clearInterruptedTools threadId)
| .approvePartial threadId approved, world =>
    world.onDb (approvePartial threadId approved)
| .forkState threadId transcript, world =>
    world.onDb (forkState threadId transcript)
| .cancelsCreate runId, world =>
    (.ok (), world.createCancel inst runId)
| .cancelsSetdefault runId, world =>
    match (world.instances inst).cancels runId with
    | none => (.ok (), world.createCancel inst runId)
    | some _ => (.ok (), world)
| .cancelsGet runId, world =>
    (.ok ((world.instances inst).cancels runId), world)
| .cancelsPop runId, world =>
    (.ok (),
      world.setInstance inst
        ((world.instances inst).setCancel runId none))
| .flagSet flag, world =>
    (.ok (),
      { world with
        flags := fun other =>
          if other = flag then true else world.flags other })
| .flagIsSet flag, world =>
    (.ok (world.flags flag), world)
| .activeAdd runId, world =>
    (.ok (),
      world.setInstance inst
        { world.instances inst with
          active := (world.instances inst).active.insert runId })
| .activeDiscard runId, world =>
    (.ok (),
      world.setInstance inst
        { world.instances inst with
          active :=
            (world.instances inst).active.filter
              (· != runId) })

/- A stream without a next step gives no chunk. -/
def givesNoChunk
    (op : Op)
    (reply : Except Exn op.Reply) :
    Prop :=
  match op, reply with
  | .graphNext _ _ none, .ok (some _) => False
  | _, _ => True

/-
  What a call can come back with: calls of the memory do not
  fail, and a failing call raises no `GeneratorExit`.
-/
structure Possible
    (op : Op)
    (reply : Except Exn op.Reply) :
    Prop where
  error :
    ∀ exn, reply = .error exn →
      exn.isException = true ∧ op.kind ≠ .memory
  chunk : givesNoChunk op reply

end LegalAgent
