import LegalAgent.Store.Repository

/-
  The agent of `core/agent.py` and its graph.

  The checkpoint of a thread is a list of messages.  The agent
  node appends an AI message, the tools node appends one tool
  message for each call of that message, and an approval gate
  may interrupt the stream before the tools node.  What the
  language model and the tools return at each node is a script
  of `GraphStep`s.

  Key definitions include:
    * `GraphStep`
    * `GraphState`
    * `answered`
    * `graphNext`
    * `rejectPending`
    * `clearInterruptedTools`
    * `approvePartial`
-/

------------------------------------------------------------
-- Streams
------------------------------------------------------------

namespace LegalAgent

open Library

/-
  The artifact of a tool message: nothing, a live
  `AnswerContext` or the dict that a checkpoint makes of one.
-/
inductive Artifact where
  | absent
  | dict
  | context (articles : List LawRef)

/- What a tool returns for a call. -/
structure ToolAnswer where
  content : Content
  artifact : Artifact

/- A message of a stream chunk. -/
inductive StreamMessage where
  | ai (content : Content) (calls : List ToolCall)
  | tool
      (callId : Option Text)
      (content : Content)
      (artifact : Artifact)

/-
  A chunk of the stream.  The values of an interrupt are
  missing when its payload is not a sequence.
-/
inductive Chunk where
  | interrupt (values : Option (List (Option Text)))
  | updates (messages : List StreamMessage)

/- What the model or the tools do at one node. -/
inductive GraphStep where
  | agent (content : Content) (calls : List ToolCall)
  | tools (answers : ToolCall → ToolAnswer)
  | interrupt (values : Option (List (Option Text)))
  | raised

/- The node that a stream executes next. -/
inductive GraphState where
  | agentNext
  | toolsNext (calls : List ToolCall)
  | ended
deriving DecidableEq

------------------------------------------------------------
-- Checkpoints
------------------------------------------------------------

/- Change the checkpoint of a thread (`update_state`). -/
def Db.updateState
    (db : Db)
    (threadId : ThreadId)
    (change :
      List CheckpointMessage → List CheckpointMessage) :
    Db :=
  { db with
    checkpoints := fun other =>
      if other = threadId then
        change (db.checkpoints threadId)
      else
        db.checkpoints other }

/- The tool calls of a checkpoint message. -/
def CheckpointMessage.calls :
    CheckpointMessage → List ToolCall
| .ai _ _ calls => calls
| _ => []

/- The id of the call that a tool message answers. -/
def CheckpointMessage.answers? :
    CheckpointMessage → Option (Option Text)
| .tool callId _ => some callId
| _ => none

/- Whether a checkpoint message is a question. -/
def CheckpointMessage.isHuman : CheckpointMessage → Bool
| .human _ => true
| _ => false

/- Whether a message is an AI message without calls. -/
def CheckpointMessage.isAnswer : CheckpointMessage → Bool
| .ai _ _ calls => calls.isEmpty
| _ => false

/-
  Whether every tool call has its tool message; otherwise the
  agent node raises `INVALID_CHAT_HISTORY`.
-/
def answered (messages : List CheckpointMessage) : Bool :=
  (messages.flatMap CheckpointMessage.calls).all fun call =>
    (messages.filterMap CheckpointMessage.answers?).contains
      call.id

/- The last message with tool calls. -/
def pendingMessage?
    (messages : List CheckpointMessage) :
    Option CheckpointMessage :=
  messages.reverse.find? fun message =>
    !message.calls.isEmpty

------------------------------------------------------------
-- Graph Execution
------------------------------------------------------------

/- Write the question of a new stream to the checkpoint. -/
def graphInput
    (threadId : ThreadId)
    (message : Text) :
    Statement GraphState :=
  fun db =>
    .ok
      (.agentNext,
        db.updateState threadId fun messages =>
          messages ++ [.human (.str message)])

/-
  The node after which a paused graph goes on; nothing is
  left to do when the last message waits for no node.
-/
def graphResume (threadId : ThreadId) : Statement GraphState :=
  .query fun db =>
    match (db.checkpoints threadId).getLast? with
    | some (.ai _ _ (call :: calls)) =>
        .toolsNext (call :: calls)
    | some (.tool _ _) => .agentNext
    | _ => .ended

/- The tool message that answers a call. -/
def ToolAnswer.message
    (answers : ToolCall → ToolAnswer)
    (call : ToolCall) :
    CheckpointMessage :=
  .tool call.id (answers call).content

/- The stream message that answers a call. -/
def ToolAnswer.streamed
    (answers : ToolCall → ToolAnswer)
    (call : ToolCall) :
    StreamMessage :=
  .tool call.id (answers call).content (answers call).artifact

/-
  Ask the stream for its next chunk.  A stream that ends
  early, by an exception of a node or at the recursion limit,
  raises.
-/
def graphNext
    (threadId : ThreadId)
    (state : GraphState)
    (step : Option GraphStep) :
    Statement (Option (Chunk × GraphState)) :=
  fun db =>
    match state, step with
    | .ended, _ => .ok (none, db)
    | .agentNext, some (.agent content calls) =>
        if answered (db.checkpoints threadId) then
          .ok
            (some
              (.updates [.ai content calls],
                if calls.isEmpty then .ended
                else .toolsNext calls),
              db.drawId.updateState threadId fun messages =>
                messages ++ [.ai db.nextId content calls])
        else
          .error .agent
    | .toolsNext calls, some (.tools answers) =>
        .ok
          (some
            (.updates (calls.map (ToolAnswer.streamed answers)),
              .agentNext),
            db.updateState threadId fun messages =>
              messages ++
                calls.map (ToolAnswer.message answers))
    | .toolsNext _, some (.interrupt values) =>
        .ok (some (.interrupt values, .ended), db)
    | _, _ => .error .agent

------------------------------------------------------------
-- Graph Surgery
------------------------------------------------------------

/- Whether a checkpoint message has the id of another. -/
def CheckpointMessage.sameId :
    CheckpointMessage → CheckpointMessage → Bool
| .ai id _ _, .ai other _ _ => id == other
| _, _ => false

/- Remove the last message with tool calls. -/
def withoutPending
    (messages : List CheckpointMessage) :
    List CheckpointMessage :=
  match pendingMessage? messages with
  | none => messages
  | some pending =>
      messages.filter fun message =>
        !pending.sameId message

def rejectPending (threadId : ThreadId) : Statement Unit :=
  .modify fun db => db.updateState threadId withoutPending

/- The messages up to the last completed answer. -/
def completedTurns
    (messages : List CheckpointMessage) :
    List CheckpointMessage :=
  (messages.reverse.dropWhile fun message =>
    !message.isAnswer).reverse

/-
  The questions and answers of the completed turns, or the
  first question when there is none (`clear_interrupted_tools`).
-/
def withoutInterrupted
    (messages : List CheckpointMessage) :
    List CheckpointMessage :=
  if messages.all fun message => message.calls.isEmpty then
    messages
  else
    let turns := (completedTurns messages).filter
      fun message => message.isHuman || message.isAnswer
    if turns.isEmpty then
      match messages.find? CheckpointMessage.isHuman with
      | none => messages
      | some question => [question]
    else
      turns

def clearInterruptedTools
    (threadId : ThreadId) :
    Statement Unit :=
  .modify fun db => db.updateState threadId withoutInterrupted

/- Keep only some calls of a message. -/
def CheckpointMessage.keepCalls
    (kept : List ToolCall) :
    CheckpointMessage → CheckpointMessage
| .ai id content _ => .ai id content kept
| message => message

/- Whether the user approved a call. -/
def ToolCall.isIn (approved : List Text) (call : ToolCall) : Bool :=
  call.id.any approved.contains

/-
  Keep the approved calls of the pending message and reply
  the ids of the others.  Without an approved call the whole
  message goes.
-/
def approvePartial
    (threadId : ThreadId)
    (approved : List Text) :
    Statement (List (Option Text)) :=
  fun db =>
    match pendingMessage? (db.checkpoints threadId) with
    | none => .ok ([], db)
    | some pending =>
        let kept := pending.calls.filter (ToolCall.isIn approved)
        let rejected :=
          (pending.calls.filter fun call =>
            !call.isIn approved).map ToolCall.id
        if kept.isEmpty then
          .ok (rejected, db.updateState threadId withoutPending)
        else if rejected.isEmpty then
          .ok ([], db)
        else
          .ok
            (rejected,
              db.updateState threadId fun messages =>
                messages.map fun message =>
                  if pending.sameId message then
                    message.keepCalls kept
                  else
                    message)

/-
  Seed the checkpoint of a fork with the questions and
  answers of its transcript.
-/
def forkState
    (threadId : ThreadId)
    (transcript : List Message) :
    Statement Unit :=
  .modify fun db =>
    let seeds := transcript.filterMap fun message =>
      match message.role with
      | .user =>
          some (.human (.str (message.contentMd.getD [])))
      | .agent =>
          some (.ai message.id
            (.str (message.contentMd.getD [])) [])
      | .tool => none
    db.updateState threadId (· ++ seeds)

end LegalAgent
