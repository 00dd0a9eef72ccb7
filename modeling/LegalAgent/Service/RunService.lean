import LegalAgent.Service.Operation

/-
  The generators of `services/run_service.py`.

  `RunService.run` opens a run and drives the agent's stream,
  `RunService.resume` decides an approval pause and drives the
  rest of the stream.  Both persist every chunk before they
  yield its events, and `RunService.finalize` checks the
  citations of the draft and commits the answer.

  Key definitions include:
    * `RunState`
    * `RunService.handleMessage`
    * `RunService.finalize`
    * `RunService.drive`
    * `RunService.run`
    * `RunService.decide`
    * `RunService.resume`
    * `RunService.interruptPaused`
-/

------------------------------------------------------------
-- Texts
------------------------------------------------------------

namespace LegalAgent

open Library

/- The characters that end a line for `str.splitlines`. -/
def isLineBreak (c : Char) : Bool :=
  c.toNat ∈
    [0x0A, 0x0B, 0x0C, 0x0D, 0x1C, 0x1D, 0x1E, 0x85,
      0x2028, 0x2029]

/- The first line that is not blank, cut at 60 characters. -/
def titleFrom (text : Text) : Text :=
  let lines := (text.splitOnP isLineBreak).map Text.strip
  let line := (lines.find? fun line => !line.isEmpty).getD []
  if line.length > 60 then line.take 60 ++ ['…'] else line

/- The length at which a shown tool result is cut. -/
def maxToolResult : Nat := 8000

/- The note behind a tool result that was cut. -/
def omissionNote (length : Nat) : Text :=
  "\n…(표시 생략: 전체 ".toList ++
    Nat.toDigits 10 length ++
    "자 — 전문은 인용 참조)".toList

/- Cut a tool result to what is shown of it. -/
def truncateToolResult : Content → Content
| .str text =>
    if text.length > maxToolResult then
      .str (text.take maxToolResult ++ omissionNote text.length)
    else
      .str text
| content => content

/- The text of a content block. -/
def ContentBlock.plainText : ContentBlock → Text
| .plain content => content
| .text content => content.getD []
| .other => []

/- The plain text of a message content (`_text_of`). -/
def textOf : Content → Text
| .null => []
| .str text => text
| .blocks blocks => blocks.flatMap ContentBlock.plainText

/- The detail of an approval request (`_interrupt_detail`). -/
def interruptDetail
    (values : Option (List (Option Text))) :
    InterruptDetail :=
  match (values.getD []).filterMap id with
  | [] => .approvalRequired
  | [value] => .one value
  | values => .many values

def runError : Text :=
  "실행 중 오류가 발생했습니다.".toList

def forgeryError : Text :=
  "근거 없는 인용이 감지되어 답변을 보류했습니다.".toList

def citeForgery : Text := "cite_forgery".toList

------------------------------------------------------------
-- Run States
------------------------------------------------------------

/- The models that the server offers, one of them default. -/
structure Registry where
  models : List Text
  defaultModel : Text

/- The model of a run, if the server offers the wanted one. -/
def Registry.choose
    (registry : Registry)
    (model : Option Text) :
    Text :=
  (model.filter registry.models.contains).getD
    registry.defaultModel

/- What a driver keeps in memory about its run (`_Run`). -/
structure RunState where
  runId : RunId
  frozen : List CitationId
  citedEff : List (Text × EffDate)
  draft : Text
  parentId : Option MessageId
  model : Option Text

/- The state of a driver that has handled no chunk yet. -/
def RunState.fresh
    (runId : RunId)
    (model : Option Text)
    (parentId : Option MessageId) :
    RunState where
  runId := runId
  frozen := []
  citedEff := []
  draft := []
  parentId := parentId
  model := model

/- What the event `citation.added` shows (`to_citation`). -/
def LawRef.surface (ref : LawRef) : CitationSurface where
  id := ref.id
  kind := ref.kind
  title := ref.title
  ref := ref.ref
  snippet := ref.snippet
  url := ref.url

/- The articles of a live artifact (`_articles_of`). -/
def articlesOf : Artifact → Except Exn (List LawRef)
| .absent => .ok []
| .dict => .error .typeError
| .context articles => .ok articles

/- Remember a frozen article. -/
def RunState.freeze (rs : RunState) (ref : LawRef) : RunState :=
  { rs with
    frozen := ref.id :: rs.frozen
    citedEff := (ref.id.text, ref.effDate) :: rs.citedEff }

/- The cell of a tool call. -/
def RunState.toolCell
    (rs : RunState)
    (call : ToolCall) :
    NewMessage where
  role := .tool
  runId := rs.runId
  parentId := rs.parentId
  contentMd := none
  toolName := call.name
  toolArgs := call.args
  toolCallId := call.id
  model := none

/- The question of a run. -/
def userMessage (runId : RunId) (message : Text) : NewMessage where
  role := .user
  runId := runId
  parentId := none
  contentMd := some message
  toolName := none
  toolArgs := none
  toolCallId := none
  model := none

namespace RunService

open Gen

/- Draw a number and yield an event with it (`_emit`). -/
def emit (data : EventData) (threadId : ThreadId) : Driver Unit := do
  let seq ← call (.nextSeq threadId)
  Gen.emit ⟨data, seq⟩

------------------------------------------------------------
-- Chunks
------------------------------------------------------------

/- Persist and announce the tool calls of a message. -/
def handleCalls
    (rs : RunState)
    (threadId : ThreadId) :
    List ToolCall → Driver Unit
| [] => pure ()
| toolCall :: toolCalls => do
    let row ←
      call (.addMessage threadId (rs.toolCell toolCall))
    Gen.emit ⟨.toolCall toolCall, row.2⟩
    handleCalls rs threadId toolCalls

/- Freeze and announce the articles of a tool result. -/
def handleArticles
    (threadId : ThreadId) :
    RunState → List LawRef → Driver RunState
| rs, [] => pure rs
| rs, ref :: refs =>
    if ref.id ∈ rs.frozen then
      handleArticles threadId rs refs
    else do
      call (.freezeCitation ref)
      emit (.citationAdded ref.surface) threadId
      handleArticles threadId (rs.freeze ref) refs

/- Store the result of a call that has an id. -/
def storeResult
    (rs : RunState)
    (callId : Option Text)
    (content : Content) :
    Driver Unit :=
  match callId with
  | some (c :: id) =>
      call (.setToolResult rs.runId (c :: id) content)
  | _ => pure ()

/- Freeze and announce the articles of a live artifact. -/
def handleArtifact
    (rs : RunState)
    (threadId : ThreadId)
    (artifact : Artifact) :
    Driver RunState :=
  match articlesOf artifact with
  | .ok refs => handleArticles threadId rs refs
  | .error exn => raise exn

/- Persist and announce one message of a chunk. -/
def handleMessage
    (rs : RunState)
    (threadId : ThreadId) :
    StreamMessage → Driver RunState
| .ai content calls => do
    handleCalls rs threadId calls
    if calls.isEmpty && !(textOf content).strip.isEmpty then
      pure { rs with draft := textOf content }
    else
      pure rs
| .tool callId content artifact => do
    let content := truncateToolResult content
    let seq ← call (.nextSeq threadId)
    storeResult rs callId content
    Gen.emit ⟨.toolResult callId content false, seq⟩
    handleArtifact rs threadId artifact

/- Persist and announce the messages of a chunk. -/
def handleChunk
    (threadId : ThreadId) :
    RunState → List StreamMessage → Driver RunState
| rs, [] => pure rs
| rs, message :: messages => do
    let rs ← handleMessage rs threadId message
    handleChunk threadId rs messages

------------------------------------------------------------
-- Final Answers
------------------------------------------------------------

/- The draft with normalised markers, or the notice. -/
def draftBody (draft : Text) : Text :=
  normaliseMarkers
    (if draft.strip.isEmpty then noAnswer else draft)

/- Whether an id is frozen here or linked in the thread. -/
def isValid
    (rs : RunState)
    (linked : List CitationId)
    (id : Text) :
    Bool :=
  ((rs.frozen ++ linked).map CitationId.text).contains id

/- Check the draft and commit it as the answer of the run. -/
def finalize
    (rs : RunState)
    (threadId : ThreadId) :
    Driver Unit := do
  let body := draftBody rs.draft
  let used := citeFindall body
  let linked ← call (.getThreadCitations threadId)
  let forged := used.filter fun id => !isValid rs linked id
  if !forged.isEmpty then
    if ← call
        (.tryTransition rs.runId .running .error true) then
      emit
        (.error (some rs.runId) forgeryError (some citeForgery)
          forged ((rs.frozen ++ linked).map CitationId.text))
        threadId
  else
    let cited := used.eraseDups
    let final := compose body cited rs.citedEff
    match ← call
        (.commitAgentAnswer threadId rs.runId final cited
          rs.parentId rs.model) with
    | none => pure ()
    | some row =>
        Gen.emit ⟨.messageCompleted final cited, row.2⟩
        emit (.runDone rs.runId none) threadId

------------------------------------------------------------
-- Streams
------------------------------------------------------------

/- Swallow the exceptions that `except Exception` catches. -/
def exceptException
    {α : Type}
    (program : Driver α)
    (handler : Driver α) :
    Driver α :=
  program.tryCatch fun exn =>
    if exn.isException then handler else raise exn

/- Whether the user asked to cancel the run. -/
def isCancelled : Option FlagId → Driver Bool
| none => pure false
| some flag => call (.flagIsSet flag)

/- Stop a run whose user asked to cancel it. -/
def cancelRun
    (rs : RunState)
    (threadId : ThreadId) :
    Driver Unit := do
  exceptException
    (call (.clearInterruptedTools threadId))
    (pure ())
  call (.resolveOrphanToolCells rs.runId interruptedTool)
  if ← call
      (.tryTransition rs.runId .running .interrupted true) then
    emit (.runDone rs.runId (some .interrupted)) threadId

/- Pause a run until the user decides about its tools. -/
def pauseRun
    (rs : RunState)
    (threadId : ThreadId)
    (values : Option (List (Option Text))) :
    Driver Unit := do
  call (.setRunStatus rs.runId .awaitingApproval false)
  call (.setPendingApproval rs.runId .pending)
  let tools ← call (.getPendingToolCalls rs.runId)
  emit
    (.approvalRequested rs.runId tools (interruptDetail values))
    threadId

/-
  Handle the chunks of the stream.  The result is the state
  of the driver at the end of the stream, or nothing when the
  run was stopped or paused before.
-/
def consumeStream
    (cancel : Option FlagId)
    (threadId : ThreadId) :
    List GraphStep → GraphState → RunState →
      Driver (Option RunState)
| [], state, rs => do
    let _ ← call (.graphNext threadId state none)
    pure (some rs)
| step :: steps, state, rs => do
    match ← call
        (.graphNext threadId state (some step)) with
    | none => pure (some rs)
    | some (chunk, state) =>
        if ← isCancelled cancel then
          cancelRun rs threadId
          pure none
        else
          match chunk with
          | .interrupt values =>
              pauseRun rs threadId values
              pure none
          | .updates messages =>
              let rs ← handleChunk threadId rs messages
              consumeStream cancel threadId steps state rs

/- End a run whose stream raised an exception. -/
def failRun
    (rs : RunState)
    (threadId : ThreadId) :
    Driver Unit := do
  if ← call
      (.tryTransition rs.runId .running .error true) then
    call (.resolveOrphanToolCells rs.runId interruptedTool)
    emit (.error (some rs.runId) runError none [] []) threadId

/- End a run whose generator was closed. -/
def closeRun (rs : RunState) : Driver Unit := do
  if ← call
      (.tryTransition rs.runId .running .error true) then
    call (.resolveOrphanToolCells rs.runId interruptedTool)
  raise .generatorExit

/- Consume a stream; its exceptions end the run. -/
def driveStream
    (cancel : Option FlagId)
    (start : Driver GraphState)
    (script : List GraphStep)
    (rs : RunState)
    (threadId : ThreadId) :
    Driver (Option RunState) :=
  exceptException
    (do
      let state ← start
      consumeStream cancel threadId script state rs)
    (do
      failRun rs threadId
      pure none)

/- Consume a stream and answer with its last draft. -/
def driveBody
    (cancel : Option FlagId)
    (start : Driver GraphState)
    (script : List GraphStep)
    (rs : RunState)
    (threadId : ThreadId) :
    Driver Unit := do
  match ← driveStream cancel start script rs threadId with
  | none => pure ()
  | some rs => finalize rs threadId

/- Drive a stream to its end or to its next pause. -/
def drive
    (start : Driver GraphState)
    (script : List GraphStep)
    (rs : RunState)
    (threadId : ThreadId) :
    Driver Unit := do
  let cancel ← call (.cancelsGet rs.runId)
  let guarded :=
    (driveBody cancel start script rs threadId).tryCatch
      fun exn =>
        if exn = .generatorExit then closeRun rs
        else raise exn
  guarded.tryFinally (call (.cancelsPop rs.runId))

------------------------------------------------------------
-- Starts
------------------------------------------------------------

/-
  Persist the question of a run and give its thread a title.
  If that fails the run ends with an error, and there is no
  question.
-/
def storeQuestion
    (runId : RunId)
    (message : Text)
    (threadId : ThreadId) :
    Driver (Option MessageId) :=
  exceptException
    (do
      let row ←
        call
          (.addMessage threadId (userMessage runId message))
      if !(titleFrom message).isEmpty then
        let _ ←
          call
            (.setThreadTitleIfEmpty threadId
              (titleFrom message))
      pure (some row.1))
    (do
      let _ ← call (.tryTransition runId .running .error true)
      emit (.error (some runId) runError none [] []) threadId
      pure none)

/- Open a run for a question and drive it. -/
def run
    (registry : Registry)
    (message : Text)
    (threadId : ThreadId)
    (model : Option Text)
    (script : List GraphStep) :
    Driver Unit := do
  let model := registry.choose model
  let runId ← call (.openRun threadId (some model))
  call (.cancelsCreate runId)
  emit (.runStarted runId threadId model) threadId
  match ← storeQuestion runId message threadId with
  | none => pure ()
  | some parent =>
      drive (call (.graphInput threadId message)) script
        (.fresh runId (some model) (some parent)) threadId

------------------------------------------------------------
-- Decisions
------------------------------------------------------------

/- Remove what a rejected run left in the checkpoint. -/
def clearRejectedGraph (threadId : ThreadId) : Driver Unit :=
  call (.rejectPending threadId)

/-
  The tools that a decision approves: all of them, or the
  given ones of the tools that wait.
-/
def approvedSet
    (runId : RunId)
    (approve : Bool)
    (approvedIds : Option (List Text)) :
    Driver (Option (List Text)) :=
  match approvedIds with
  | none => pure (if approve then none else some [])
  | some ids => do
      let pending ← call (.getPendingToolCalls runId)
      pure
        (some
          (ids.filter fun id =>
            (pending.map ToolCall.id).contains (some id)))

/- Announce the tools that a partial approval rejected. -/
def announceRejected
    (threadId : ThreadId) :
    List (Option Text) → Driver Unit
| [] => pure ()
| id :: ids => do
    let seq ← call (.nextSeq threadId)
    Gen.emit ⟨.toolResult id (.str rejectedTool) true, seq⟩
    announceRejected threadId ids

/- End a paused run that the user rejected. -/
def rejectRun
    (runId : RunId)
    (threadId : ThreadId) :
    Driver Unit := do
  if !(← call
      (.tryTransition runId .awaitingApproval .rejected true))
  then
    raise .valueError
  call (.setPendingApproval runId .rejected)
  call (.resolveOrphanToolCells runId rejectedTool)
  clearRejectedGraph threadId
  emit (.runDone runId (some .rejected)) threadId

/-
  Mark the tools of an approval.  A partial one removes the
  rejected calls from the checkpoint first.
-/
def markApproval
    (runId : RunId)
    (threadId : ThreadId)
    (approved : Option (List Text)) :
    Driver Unit :=
  match approved with
  | some approved => do
      let rejected ← call (.approvePartial threadId approved)
      call (.markPartialApproval runId rejected rejectedTool)
      announceRejected threadId rejected
  | none => call (.setPendingApproval runId .approved)

/- Go on with a paused run and mark its tools. -/
def approveRun
    (registry : Registry)
    (runId : RunId)
    (threadId : ThreadId)
    (approved : Option (List Text)) :
    Driver RunState := do
  if !(← call
      (.tryTransition runId .awaitingApproval .running false))
  then
    raise .valueError
  call (.cancelsSetdefault runId)
  let model ← call (.getRunModel runId)
  let root ← call (.getTurnRoot runId)
  markApproval runId threadId approved
  pure
    (.fresh runId (some (model.getD registry.defaultModel))
      root)

/-
  Reject a paused run, or approve it and go on with a new
  state.
-/
def settle
    (registry : Registry)
    (runId : RunId)
    (threadId : ThreadId)
    (approve : Bool)
    (approvedIds : Option (List Text)) :
    Driver (Option RunState) := do
  let approved ← approvedSet runId approve approvedIds
  if approved = some [] then
    rejectRun runId threadId
    pure none
  else
    let rs ← approveRun registry runId threadId approved
    pure (some rs)

/-
  The part of `resume` before the stream: find the paused run
  and decide it.
-/
def decide
    (registry : Registry)
    (threadId : ThreadId)
    (approve : Bool)
    (approvedIds : Option (List Text)) :
    Driver (Option RunState) := do
  match ← call (.getActiveRun threadId) with
  | some (runId, .awaitingApproval) =>
      settle registry runId threadId approve approvedIds
  | _ => raise .valueError

/- Decide an approval pause and drive the rest of the stream. -/
def resume
    (registry : Registry)
    (threadId : ThreadId)
    (approve : Bool)
    (approvedIds : Option (List Text))
    (script : List GraphStep) :
    Driver Unit := do
  match ← decide registry threadId approve approvedIds with
  | none => pure ()
  | some rs =>
      drive (call (.graphResume threadId)) script rs threadId

/- Stop a paused run; the result says whether this call did. -/
def interruptPaused
    (threadId : ThreadId)
    (runId : RunId) :
    Driver Bool := do
  if ← call
      (.tryTransition runId .awaitingApproval .interrupted true)
  then
    call (.setPendingApproval runId .rejected)
    call (.resolveOrphanToolCells runId interruptedTool)
    clearRejectedGraph threadId
    pure true
  else
    pure false

/- Ask the driver of a run on this instance to stop it. -/
def requestCancel (runId : RunId) : Driver Bool := do
  match ← call (.cancelsGet runId) with
  | none => pure false
  | some flag =>
      call (.flagSet flag)
      pure true

/- Branch a thread off, with a checkpoint and a title. -/
def fork
    (parentId : ThreadId)
    (forkPoint : MessageId) :
    Driver Unit := do
  let threadId ← call (.forkThread parentId forkPoint)
  let messages ← call (.getThreadMessages threadId)
  call (.forkState threadId messages)
  let question :=
    ((messages.find? fun message =>
      message.id == forkPoint).bind Message.contentMd).filter
        fun text => !text.strip.isEmpty
  let last :=
    (messages.reverse.find? fun message =>
      message.role == .user &&
        !((message.contentMd.getD []).strip.isEmpty)).bind
          Message.contentMd
  let title := titleFrom ((question.or last).getD [])
  if !title.isEmpty then
    let _ ← call (.setThreadTitleIfEmpty threadId title)

end RunService

end LegalAgent
