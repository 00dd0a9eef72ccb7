import LegalAgent.Store.Schema

/-
  The statements of `repositories/conversation.py`.

  A `Statement` either fails and leaves the database as it
  was, or returns a value and a new database: every method of
  the repository is one autocommit statement or one explicit
  transaction.

  Key definitions include:
    * `Statement`
    * `openRun`
    * `setRunStatus`
    * `tryTransition`
    * `addMessage`
    * `commitAgentAnswer`
    * `sweepRuns`
    * `getThreadCitations`

  Key theorems include:
    * `commit_of_error`
-/

------------------------------------------------------------
-- Statements
------------------------------------------------------------

namespace LegalAgent

open Library

/- A statement: it fails, or it replies and changes the rows. -/
abbrev Statement (α : Type) : Type :=
  Db → Except Exn (α × Db)

/- Execute a statement; a failure rolls its changes back. -/
def Statement.commit
    {α : Type}
    (statement : Statement α)
    (db : Db) :
    Except Exn α × Db :=
  match statement db with
  | .ok (value, db') => (.ok value, db')
  | .error exn => (.error exn, db)

/- A statement that only reads. -/
def Statement.query
    {α : Type}
    (read : Db → α) :
    Statement α :=
  fun db => .ok (read db, db)

/- A statement that cannot fail and replies nothing. -/
def Statement.modify (change : Db → Db) : Statement Unit :=
  fun db => .ok ((), change db)

/- A failed statement changes nothing. -/
theorem commit_of_error
    {α : Type}
    {statement : Statement α}
    {db db' : Db}
    {exn : Exn}
    (hError : statement.commit db = (.error exn, db')) :
    db' = db := by
  unfold Statement.commit at hError
  split at hError
  · cases hError
  · exact (Prod.mk.inj hError).2.symm

------------------------------------------------------------
-- Threads
------------------------------------------------------------

/- The database once its next id is drawn (`_uuid`). -/
def Db.drawId (db : Db) : Db :=
  { db with nextId := db.nextId + 1 }

def createThread (title : Option Text) : Statement ThreadId :=
  fun db =>
    let thread : Thread :=
      { title := title
        forkedFrom := none
        forkPoint := none
        lastSeq := 0 }
    .ok
      (db.nextId,
        { db.drawId with
          threads := db.threads.insert db.nextId thread })

/- Set the title of a thread that has none. -/
def setThreadTitleIfEmpty
    (threadId : ThreadId)
    (title : Text) :
    Statement Bool :=
  fun db =>
    let untitled : ThreadId → Thread → Bool :=
      fun other thread =>
        other == threadId && thread.title.isNone
    .ok
      (db.threads.any untitled,
        { db with
          threads := db.threads.update untitled fun thread =>
            { thread with title := some title } })

/- Draw the next number of a thread. -/
def nextSeq (threadId : ThreadId) : Statement Nat :=
  fun db =>
    match db.threads.get? threadId with
    | none => .error .keyError
    | some thread =>
        .ok
          (thread.lastSeq + 1,
            { db with
              threads :=
                db.threads.update
                  (fun other _ => other == threadId)
                  fun thread =>
                    { thread with
                      lastSeq := thread.lastSeq + 1 } })

------------------------------------------------------------
-- Runs
------------------------------------------------------------

/-
  Whether a thread has an active run besides a given one (the
  index `one_active_run_per_thread` refuses a second).
-/
def Db.activeElsewhere
    (db : Db)
    (threadId : ThreadId)
    (runId : RunId) :
    Bool :=
  db.runs.any fun other run =>
    other != runId && run.threadId == threadId &&
      run.status.active

/- Open a run; the thread must have no active run. -/
def openRun
    (threadId : ThreadId)
    (model : Option Text) :
    Statement RunId :=
  fun db =>
    if (db.threads.get? threadId).isNone then
      .error .database
    else if db.activeElsewhere threadId db.nextId then
      .error .activeRunExists
    else
      let run : Run :=
        { threadId := threadId
          status := .running
          startedAt := db.now
          endedAt := none
          heartbeatAt := db.now
          model := model }
      .ok
        (db.nextId,
          { db.drawId with
            runs := db.runs.insert db.nextId run })

def getRunModel (runId : RunId) : Statement (Option Text) :=
  .query fun db => (db.runs.get? runId).bind Run.model

/- The run with a new status and, if it ended, its end. -/
def Run.transition
    (status : RunStatus)
    (ended : Bool)
    (now : Time)
    (run : Run) :
    Run :=
  { run with
    status := status
    endedAt := if ended then some now else run.endedAt }

/- Write the status of one run. -/
def Db.writeStatus
    (db : Db)
    (runId : RunId)
    (status : RunStatus)
    (ended : Bool) :
    Db :=
  { db with
    runs := db.runs.update
      (fun other _ => other == runId)
      (Run.transition status ended db.now) }

/- Set the status of a run, whatever it is. -/
def setRunStatus
    (runId : RunId)
    (status : RunStatus)
    (ended : Bool) :
    Statement Unit :=
  fun db =>
    match db.runs.get? runId with
    | none => .ok ((), db)
    | some run =>
        if status.active &&
            db.activeElsewhere run.threadId runId then
          .error .database
        else
          .ok ((), db.writeStatus runId status ended)

/- Compare the status of a run and set it. -/
def tryTransition
    (runId : RunId)
    (fromStatus toStatus : RunStatus)
    (ended : Bool) :
    Statement Bool :=
  fun db =>
    match db.runs.get? runId with
    | none => .ok (false, db)
    | some run =>
        if run.status ≠ fromStatus then
          .ok (false, db)
        else if toStatus.active &&
            db.activeElsewhere run.threadId runId then
          .error .database
        else
          .ok (true, db.writeStatus runId toStatus ended)

/- The thread and the status of a run. -/
def getRun
    (runId : RunId) :
    Statement (Option (ThreadId × RunStatus)) :=
  .query fun db =>
    (db.runs.get? runId).map fun run =>
      (run.threadId, run.status)

/- The active run of a thread that started last. -/
def getActiveRun
    (threadId : ThreadId) :
    Statement (Option (RunId × RunStatus)) :=
  .query fun db =>
    ((db.runs.rows.filter fun row =>
        row.2.threadId == threadId && row.2.status.active)
      |>.insertionSort
        (fun row other =>
          other.2.startedAt ≤ row.2.startedAt)
      |>.head?).map
        fun row => (row.1, row.2.status)

/- The rows once the given running runs have heartbeats. -/
def Db.heartbeat (db : Db) (runIds : List RunId) : Db :=
  { db with
    runs := db.runs.update
      (fun runId run =>
        runIds.contains runId && run.status == .running)
      fun run => { run with heartbeatAt := db.now } }

/- Refresh the heartbeats of running runs. -/
def heartbeatRuns (runIds : List RunId) : Statement Unit :=
  .modify fun db => db.heartbeat runIds

------------------------------------------------------------
-- Messages
------------------------------------------------------------

/- The marker of a tool that the user rejected. -/
def rejectedTool : Text :=
  "사용자가 이 도구 실행을 거부했습니다.".toList

/- The marker of a tool that a stop left without result. -/
def interruptedTool : Text :=
  "실행이 중단되어 결과를 받지 못했습니다.".toList

/- The columns of a message that its writer chooses. -/
structure NewMessage where
  role : MessageRole
  runId : RunId
  parentId : Option MessageId
  contentMd : Option Text
  toolName : Option Text
  toolArgs : Option Text
  toolCallId : Option Text
  model : Option Text

/- The row that a new message becomes. -/
def NewMessage.toMessage
    (new : NewMessage)
    (id : MessageId)
    (threadId : ThreadId)
    (seq : Nat) :
    Message where
  id := id
  threadId := threadId
  runId := some new.runId
  seq := seq
  parentId := new.parentId
  role := new.role
  contentMd := new.contentMd
  toolName := new.toolName
  toolArgs := new.toolArgs
  toolResult := none
  approvalState := none
  toolCallId := new.toolCallId
  model := new.model

/- Whether the keys that a message refers to exist. -/
def Db.admits (db : Db) (message : Message) : Bool :=
  (message.runId.all fun runId =>
      (db.runs.get? runId).isSome) &&
    (message.parentId.all fun parentId =>
      parentId != message.id &&
        db.messages.any fun other => other.id == parentId) &&
    db.messages.all fun other =>
      other.threadId != message.threadId ||
        other.seq != message.seq

/- Draw a number and insert a message with it. -/
def insertMessage
    (threadId : ThreadId)
    (new : NewMessage) :
    Statement (MessageId × Nat) :=
  fun db =>
    match nextSeq threadId db.drawId with
    | .error exn => .error exn
    | .ok (seq, db') =>
        let message := new.toMessage db.nextId threadId seq
        if db'.admits message then
          .ok
            ((db.nextId, seq),
              { db' with messages := db'.messages ++ [message] })
        else
          .error .database

/- Persist one message (`seq` and `citation_ids` not given). -/
def addMessage
    (threadId : ThreadId)
    (new : NewMessage) :
    Statement (MessageId × Nat) :=
  insertMessage threadId new

/- The key of a frozen citation with a given text. -/
def Db.citationKey?
    (db : Db)
    (id : Text) :
    Option CitationId :=
  (db.citations.rows.map Prod.fst).find? fun key =>
    key.text == id

/- Link a message with a frozen citation. -/
def linkCitation
    (messageId : MessageId)
    (id : Text)
    (db : Db) :
    Except Exn Db :=
  match db.citationKey? id with
  | none => .error .database
  | some key =>
      if (messageId, key) ∈ db.messageCitations then
        .ok db
      else
        .ok
          { db with
            messageCitations :=
              db.messageCitations ++ [(messageId, key)] }

/- The answer of a run. -/
def agentMessage
    (runId : RunId)
    (contentMd : Text)
    (parentId : Option MessageId)
    (model : Option Text) :
    NewMessage where
  role := .agent
  runId := runId
  parentId := parentId
  contentMd := some contentMd
  toolName := none
  toolArgs := none
  toolCallId := none
  model := model

/-
  Complete a running run and persist its answer, both or
  neither; the reply is `none` when the run is not running.
-/
def commitAgentAnswer
    (threadId : ThreadId)
    (runId : RunId)
    (contentMd : Text)
    (citationIds : List Text)
    (parentId : Option MessageId)
    (model : Option Text) :
    Statement (Option (MessageId × Nat)) :=
  fun db =>
    if db.status? runId ≠ some .running then
      .ok (none, db)
    else
      let answer :=
        agentMessage runId contentMd parentId model
      match insertMessage threadId answer
          (db.writeStatus runId .completed true) with
      | .error exn => .error exn
      | .ok (row, db) =>
          match citationIds.foldlM
              (fun db id => linkCitation row.1 id db) db with
          | .error exn => .error exn
          | .ok db => .ok (some row, db)

/- Messages by their numbers. -/
def bySeq (messages : List Message) : List Message :=
  messages.insertionSort fun message other =>
    message.seq ≤ other.seq

/- The user message of a run. -/
def getTurnRoot (runId : RunId) : Statement (Option MessageId) :=
  .query fun db =>
    (bySeq
      (db.messages.filter fun message =>
        message.runId == some runId &&
          message.role == .user)).head?.map Message.id

------------------------------------------------------------
-- Tool Cells
------------------------------------------------------------

/- Whether a message is a tool cell of a run. -/
def Message.isCellOf
    (runId : RunId)
    (message : Message) :
    Bool :=
  message.runId == some runId && message.role == .tool

/- Whether a message is a tool cell without a result. -/
def Message.isPendingOf
    (runId : RunId)
    (message : Message) :
    Bool :=
  message.isCellOf runId && message.toolResult.isNone

/- Change the messages that a condition selects. -/
def Db.updateMessages
    (db : Db)
    (selects : Message → Bool)
    (change : Message → Message) :
    Db :=
  { db with
    messages := db.messages.map fun message =>
      if selects message then change message else message }

/- What the column `tool_result` keeps of a content. -/
def Content.column : Content → Option Content
| .null => none
| content => some content

/- Set the result of the cell with a tool call id. -/
def setToolResult
    (runId : RunId)
    (toolCallId : Text)
    (toolResult : Content) :
    Statement Unit :=
  .modify fun db =>
    db.updateMessages
      (fun message =>
        message.runId == some runId &&
          message.toolCallId == some toolCallId)
      fun message =>
        { message with toolResult := toolResult.column }

/- Change the cells of a run that have no result. -/
def Db.updatePending
    (db : Db)
    (runId : RunId)
    (change : Message → Message) :
    Db :=
  db.updateMessages (Message.isPendingOf runId) change

/- Reject the cells of a run with given tool call ids. -/
def Db.rejectCells
    (db : Db)
    (runId : RunId)
    (rejectedIds : List (Option Text))
    (marker : Text) :
    Db :=
  db.updateMessages
    (fun message =>
      message.isCellOf runId && message.toolCallId.isSome &&
        rejectedIds.contains message.toolCallId)
    fun message =>
      { message with
        approvalState := some .rejected
        toolResult := some (.str marker) }

/-
  Mark the rejected cells of a partial approval with the
  marker and the other pending cells as approved.
-/
def markPartialApproval
    (runId : RunId)
    (rejectedIds : List (Option Text))
    (marker : Text) :
    Statement Unit :=
  .modify fun db =>
    (db.rejectCells runId rejectedIds marker).updatePending
      runId
      fun message =>
        { message with approvalState := some .approved }

/- Fill the cells without a result with a marker. -/
def resolveOrphanToolCells
    (runId : RunId)
    (marker : Text) :
    Statement Unit :=
  .modify fun db =>
    db.updatePending runId fun message =>
      { message with toolResult := some (.str marker) }

/- Set the approval state of the cells without a result. -/
def setPendingApproval
    (runId : RunId)
    (state : ApprovalState) :
    Statement Unit :=
  .modify fun db =>
    db.updatePending runId fun message =>
      { message with approvalState := some state }

/- The tool call that a cell was made for. -/
def Message.call (message : Message) : ToolCall where
  id := message.toolCallId
  name := message.toolName
  args := message.toolArgs

/- The calls of the cells without a result. -/
def Db.pendingToolCalls
    (db : Db)
    (runId : RunId) :
    List ToolCall :=
  (bySeq
    (db.messages.filter (Message.isPendingOf runId))).map
      Message.call

def getPendingToolCalls
    (runId : RunId) :
    Statement (List ToolCall) :=
  .query fun db => db.pendingToolCalls runId

------------------------------------------------------------
-- Event Log
------------------------------------------------------------

/- The rows with one more event, unless its key is taken. -/
def Db.appendEvent
    (db : Db)
    (threadId : ThreadId)
    (runId : RunId)
    (event : RunEvent) :
    Db :=
  if db.runEvents.any fun row =>
      row.runId == runId && row.seq == event.seq then
    db
  else
    { db with
      runEvents := db.runEvents ++
        [{ threadId := threadId
           runId := runId
           seq := event.seq
           data := event.data
           createdAt := db.now }] }

/- Log an event; a second event with its key is dropped. -/
def appendRunEvent
    (threadId : ThreadId)
    (runId : RunId)
    (event : RunEvent) :
    Statement Unit :=
  .modify fun db => db.appendEvent threadId runId event

/- The page limit of `get_run_events_after`. -/
def pageLimit : Nat := 1000

/- The events of a run behind a cursor, at most one page. -/
def getRunEventsAfter
    (runId : RunId)
    (cursor : Option Nat) :
    Statement (List RunEvent) :=
  .query fun db =>
    (((db.runEvents.filter fun row =>
          row.runId == runId && cursor.all (· < row.seq))
        |>.insertionSort
          fun row other => row.seq ≤ other.seq).take
      pageLimit).map fun row => ⟨row.data, row.seq⟩

/- Whether a row is kept when old logs are deleted. -/
def Db.keepsEvent
    (db : Db)
    (retention : Nat)
    (row : RunEventRow) :
    Bool :=
  match db.runs.get? row.runId with
  | some run =>
      !run.endedAt.any fun ended =>
        decide (ended + retention < db.now)
  | none => !decide (row.createdAt + retention < db.now)

/- The rows without the logs of runs that ended long ago. -/
def Db.collect (db : Db) (retention : Nat) : Db :=
  { db with
    runEvents := db.runEvents.filter (db.keepsEvent retention) }

/- Delete the logs of runs that ended long ago. -/
def gcRunEvents (retention : Nat) : Statement Unit :=
  .modify fun db => db.collect retention

------------------------------------------------------------
-- Sweeps
------------------------------------------------------------

/- Whether the run of a message is among the selected ones. -/
def Db.sweeps
    (db : Db)
    (selects : Run → Bool)
    (message : Message) :
    Bool :=
  message.runId.any fun runId =>
    (db.runs.get? runId).any selects

/-
  The rows once the selected runs are moved to `error` and
  their cells without a result are filled.
-/
def Db.sweep (db : Db) (selects : Run → Bool) : Db :=
  { db with
    runs := db.runs.update (fun _ run => selects run)
      (Run.transition .error true db.now)
    messages := db.messages.map fun message =>
      if message.role == .tool && message.toolResult.isNone &&
          db.sweeps selects message then
        { message with
          toolResult := some (.str interruptedTool) }
      else
        message }

/- Sweep the selected runs in one statement. -/
def sweepRuns (selects : Run → Bool) : Statement Unit :=
  .modify fun db => db.sweep selects

/- End the running runs without a recent heartbeat. -/
def reconcileOrphanRuns (stale : Nat) : Statement Unit :=
  fun db =>
    sweepRuns
      (fun run =>
        run.status == .running &&
          decide (run.heartbeatAt + stale < db.now)) db

/- End the runs that wait too long for an approval. -/
def timeoutStaleApprovals (ttl : Nat) : Statement Unit :=
  fun db =>
    sweepRuns
      (fun run =>
        run.status == .awaitingApproval &&
          decide (run.startedAt + ttl < db.now)) db

/- End the running runs without a heartbeat for `ttl`. -/
def timeoutStaleRuns (ttl : Nat) : Statement Unit :=
  fun db =>
    sweepRuns
      (fun run =>
        run.status == .running &&
          decide (run.heartbeatAt + ttl < db.now)) db

------------------------------------------------------------
-- Citations And Forks
------------------------------------------------------------

/- The row that freezes an article (`_freeze_payload`). -/
def LawRef.freeze (ref : LawRef) : Citation where
  kind := ref.kind
  title := ref.title
  ref := ref.ref
  snippet := ref.snippet
  url := ref.url
  articleText := ref.articleText
  lawUri := ref.uri
  resourceId := ref.resourceId
  effDate := ref.effDate

/- Freeze a citation; the first frozen text stays. -/
def freezeCitation (ref : LawRef) : Statement Unit :=
  .modify fun db =>
    { db with
      citations := db.citations.insert ref.id ref.freeze }

/- Branch off at a message of the parent thread. -/
def forkThread
    (parentId : ThreadId)
    (forkPoint : MessageId) :
    Statement ThreadId :=
  fun db =>
    match db.messages.find? fun message =>
        message.id == forkPoint &&
          message.threadId == parentId with
    | none => .error .keyError
    | some message =>
        let thread : Thread :=
          { title := none
            forkedFrom := some parentId
            forkPoint := some forkPoint
            lastSeq := message.seq }
        .ok
          (db.nextId,
            { db.drawId with
              threads := db.threads.insert db.nextId thread })

/-
  A thread and its ancestors, each with the last number that
  is visible of it.  A thread has fewer ancestors than there
  are threads, which bounds the depth.
-/
def Db.chain
    (db : Db) :
    Nat → ThreadId → Option Nat →
      List (ThreadId × Option Nat)
| 0, _, _ => []
| depth + 1, threadId, cut =>
    match db.threads.get? threadId with
    | none => []
    | some thread =>
        (threadId, cut) ::
          match thread.forkedFrom with
          | none => []
          | some parentId =>
              db.chain depth parentId
                (thread.forkPoint.bind fun forkPoint =>
                  (db.messages.find? fun message =>
                    message.id == forkPoint).map
                      Message.seq)

/- Whether a message is visible in a thread. -/
def Db.visible
    (db : Db)
    (threadId : ThreadId)
    (message : Message) :
    Bool :=
  (db.chain db.threads.rows.length threadId none).any
    fun entry =>
      message.threadId == entry.1 &&
        entry.2.all fun cut => decide (message.seq ≤ cut)

/- The messages of a thread with those of its ancestors. -/
def getThreadMessages
    (threadId : ThreadId) :
    Statement (List Message) :=
  .query fun db =>
    bySeq (db.messages.filter (db.visible threadId))

/- The citations linked with the messages of a thread. -/
def Db.threadCitations
    (db : Db)
    (threadId : ThreadId) :
    List CitationId :=
  ((db.messages.filter (db.visible threadId)).flatMap
      fun message =>
        db.messageCitations.filterMap fun link =>
          if link.1 == message.id then some link.2
          else none).dedup

def getThreadCitations
    (threadId : ThreadId) :
    Statement (List CitationId) :=
  .query fun db => db.threadCitations threadId

end LegalAgent
