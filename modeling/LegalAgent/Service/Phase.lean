import LegalAgent.Service.RunManager
import LegalAgent.Library.Protocol

/-
  The protocol that the tasks of the server follow.

  The phase of a task is a history variable: it records which
  run the task found, what it did to the run, and which number
  it drew last.  No program reads it.  The rules say which
  calls a task makes in a phase and where the replies lead.

  Key definitions include:
    * `Stage`
    * `Stage.Allows`
    * `Stage.after`
    * `Role`
    * `Phase`
    * `serviceProtocol`
-/

------------------------------------------------------------
-- Stages
------------------------------------------------------------

namespace LegalAgent

open Library

/- What a driver still has to store of a chunk. -/
inductive Todo where
  | cell (toolCall : ToolCall)
  | result (callId : Text) (content : Content)
deriving DecidableEq

/-
  Why a task left its run: another party ended the run first,
  another party decided the pause first, an exception passed
  the task, or its consumer is about to close it.
-/
inductive Leaving where
  | beaten
  | lost
  | unsettled
  | dropping
deriving DecidableEq

/-
  The stages of a task that works on a run.

  `opening` precedes the pump of a new run, `opened` and `won`
  precede the stream, with the user message once it is known
  and the rejected calls not yet marked.
  `driving`, `gated` and `finalizing` follow the stream to a
  chunk, to an approval gate and to its end, and `failing`
  follows an exception, of a running or of a paused run.
  `closing` is the stage behind a status change that ended
  the run, with the cells and the graph that are still to be
  cleaned, and `settled` the stage behind the terminal event.
  A task that is `left` without a terminal event may find in
  the epilogue of its pump that it has to log a synthetic one.
-/
inductive Stage where
  | opening
  | opened (root : Option MessageId)
  | erring (ended : Bool)
  | choosing
  | won
      (root : Option (Option MessageId))
      (unmarked : List (Option Text))
  | driving
      (root : Option MessageId)
      (state : Option GraphState)
      (todo : List Todo)
  | gated (root : Option MessageId)
  | finalizing (root : Option MessageId)
  | stopping (cleared resolved : Bool)
  | failing (waiting : Bool)
  | paused (told : Bool)
  | closing (cells graph : Bool)
  | settled
  | left (reason : Leaving) (synthetic : Bool)

/- The work that a chunk leaves to its driver. -/
def StreamMessage.todo : StreamMessage → List Todo
| .ai _ calls => calls.map Todo.cell
| .tool (some (c :: id)) content _ =>
    [.result (c :: id) (truncateToolResult content)]
| .tool _ _ _ => []

/-
  A task logs the events of the run `log` in a thread and
  drives the run `run`.
-/
structure Job where
  log : RunId
  thread : ThreadId
  run : RunId
deriving DecidableEq

/- The cell that a driver makes for a tool call. -/
def Job.toolCell
    (job : Job)
    (root : Option MessageId)
    (toolCall : ToolCall) :
    NewMessage where
  role := .tool
  runId := job.run
  parentId := root
  contentMd := none
  toolName := toolCall.name
  toolArgs := toolCall.args
  toolCallId := toolCall.id
  model := none

/- The calls that a task on a run makes in a stage. -/
inductive Stage.Allows (job : Job) : Stage → Op → Prop where
  | openingCancel :
      Allows job .opening (.cancelsCreate job.run)
  | openingSeq : Allows job .opening (.nextSeq job.thread)
  | openingLog {event}
      (hName : event.name = .runStarted) :
      Allows job .opening
        (.appendRunEvent job.thread job.log event)
  | openingActive : Allows job .opening (.activeAdd job.run)
  | openedAsk {message} :
      Allows job (.opened none)
        (.addMessage job.thread (userMessage job.run message))
  | openedTitle {root title} :
      Allows job (.opened root)
        (.setThreadTitleIfEmpty job.thread title)
  | openedDrive {root} :
      Allows job (.opened (some root)) (.cancelsGet job.run)
  | erringEnd :
      Allows job (.erring false)
        (.tryTransition job.run .running .error true)
  | erringSeq :
      Allows job (.erring true) (.nextSeq job.thread)
  | erringLog {event}
      (hName : event.name = .error) :
      Allows job (.erring true)
        (.appendRunEvent job.thread job.log event)
  | choosingPending :
      Allows job .choosing (.getPendingToolCalls job.run)
  | choosingReject :
      Allows job .choosing
        (.tryTransition job.run .awaitingApproval .rejected true)
  | choosingApprove :
      Allows job .choosing
        (.tryTransition job.run .awaitingApproval .running false)
  | wonCancel {root unmarked} :
      Allows job (.won root unmarked)
        (.cancelsSetdefault job.run)
  | wonModel {root unmarked} :
      Allows job (.won root unmarked) (.getRunModel job.run)
  | wonRoot :
      Allows job (.won none []) (.getTurnRoot job.run)
  | wonPartial {root approved} :
      Allows job (.won root [])
        (.approvePartial job.thread approved)
  | wonMark {root unmarked} :
      Allows job (.won root unmarked)
        (.markPartialApproval job.run unmarked rejectedTool)
  | wonApprove {root} :
      Allows job (.won root [])
        (.setPendingApproval job.run .approved)
  | wonSeq {root} :
      Allows job (.won root []) (.nextSeq job.thread)
  | wonLog {root event}
      (hName : event.name = .toolResult) :
      Allows job (.won root [])
        (.appendRunEvent job.thread job.log event)
  | wonDrive {root} :
      Allows job (.won (some root) []) (.cancelsGet job.run)
  | drivingInput {root message} :
      Allows job (.driving root none [])
        (.graphInput job.thread message)
  | drivingResume {root} :
      Allows job (.driving root none [])
        (.graphResume job.thread)
  | drivingNext {root state step} :
      Allows job (.driving root (some state) [])
        (.graphNext job.thread state step)
  | drivingFlag {root state todo flag} :
      Allows job (.driving root state todo) (.flagIsSet flag)
  | drivingCell {root state todo toolCall} :
      Allows job
        (.driving root state (.cell toolCall :: todo))
        (.addMessage job.thread (job.toolCell root toolCall))
  | drivingResult {root state todo callId content} :
      Allows job
        (.driving root state (.result callId content :: todo))
        (.setToolResult job.run callId content)
  | drivingFreeze {root state todo ref} :
      Allows job (.driving root state todo) (.freezeCitation ref)
  | drivingSeq {root state todo} :
      Allows job (.driving root state todo)
        (.nextSeq job.thread)
  | drivingLog {root state todo event}
      (hName :
        event.name ∈
          [.toolCall, .toolResult, .citationAdded]) :
      Allows job (.driving root state todo)
        (.appendRunEvent job.thread job.log event)
  | drivingClear {root state todo} :
      Allows job (.driving root state todo)
        (.clearInterruptedTools job.thread)
  | drivingFail {root state todo} :
      Allows job (.driving root state todo)
        (.tryTransition job.run .running .error true)
  | gatedFlag {root flag} :
      Allows job (.gated root) (.flagIsSet flag)
  | gatedClear {root} :
      Allows job (.gated root)
        (.clearInterruptedTools job.thread)
  | gatedPause {root} :
      Allows job (.gated root)
        (.setRunStatus job.run .awaitingApproval false)
  | finalizingCited {root} :
      Allows job (.finalizing root)
        (.getThreadCitations job.thread)
  | finalizingForged {root} :
      Allows job (.finalizing root)
        (.tryTransition job.run .running .error true)
  | finalizingCommit {root contentMd citationIds model} :
      Allows job (.finalizing root)
        (.commitAgentAnswer job.thread job.run contentMd
          citationIds root model)
  | stoppingResolve {cleared resolved} :
      Allows job (.stopping cleared resolved)
        (.resolveOrphanToolCells job.run interruptedTool)
  | stoppingEnd {cleared} :
      Allows job (.stopping cleared true)
        (.tryTransition job.run .running .interrupted true)
  | failingEnd {waiting} :
      Allows job (.failing waiting)
        (.tryTransition job.run .running .error true)
  | pausedMark :
      Allows job (.paused false)
        (.setPendingApproval job.run .pending)
  | pausedPending :
      Allows job (.paused false) (.getPendingToolCalls job.run)
  | pausedSeq :
      Allows job (.paused false) (.nextSeq job.thread)
  | pausedLog {event}
      (hName : event.name = .approvalRequested) :
      Allows job (.paused false)
        (.appendRunEvent job.thread job.log event)
  | pausedPop :
      Allows job (.paused true) (.cancelsPop job.run)
  | pausedDiscard :
      Allows job (.paused true) (.activeDiscard job.log)
  | closingMark {graph} :
      Allows job (.closing true graph)
        (.setPendingApproval job.run .rejected)
  | closingResolve {graph marker} :
      Allows job (.closing true graph)
        (.resolveOrphanToolCells job.run marker)
  | closingClear :
      Allows job (.closing false true)
        (.rejectPending job.thread)
  | closingSeq :
      Allows job (.closing false false) (.nextSeq job.thread)
  | closingLog {event}
      (hName :
        event.name ∈ [.messageCompleted, .runDone, .error]) :
      Allows job (.closing false false)
        (.appendRunEvent job.thread job.log event)
  | closingPop :
      Allows job (.closing false false) (.cancelsPop job.run)
  | settledPop :
      Allows job .settled (.cancelsPop job.run)
  | settledDiscard :
      Allows job .settled (.activeDiscard job.log)
  | leftPop {reason synthetic} :
      Allows job (.left reason synthetic) (.cancelsPop job.run)
  | leftDiscard {reason synthetic} :
      Allows job (.left reason synthetic)
        (.activeDiscard job.log)
  | leftRead {reason} :
      Allows job (.left reason false) (.getRun job.log)
  | leftSeq {reason} :
      Allows job (.left reason true) (.nextSeq job.thread)
  | leftLog {reason event}
      (hName : event.name = .error) :
      Allows job (.left reason true)
        (.appendRunEvent job.thread job.log event)
  | leftEnd {reason}
      (hReason : reason = .unsettled ∨ reason = .dropping) :
      Allows job (.left reason false)
        (.tryTransition job.run .running .error true)

/- Whether the epilogue of a pump logs a synthetic event. -/
def needsSynthetic
    (reply : Except Exn (Option (ThreadId × RunStatus))) :
    Bool :=
  match reply with
  | .ok (some (_, status)) => !status.terminal
  | _ => true

/- The stage behind a status change that would end a run. -/
def stageOfEnd
    (closing : Stage)
    (failed : Stage)
    (reply : Except Exn Bool) :
    Stage :=
  match reply with
  | .ok true => closing
  | .ok false => .left .beaten false
  | .error _ => failed

/- The stage that a reply leads to. -/
def Stage.after
    (stage : Stage)
    (op : Op)
    (reply : Except Exn op.Reply) :
    Stage :=
  match stage with
  | .opening =>
      match op, reply with
      | .activeAdd .., .ok _ => .opened none
      | _, .ok _ => .opening
      | _, .error _ => .left .unsettled false
  | .opened root =>
      match op, reply with
      | .addMessage .., .ok row => .opened (some row.1)
      | .addMessage .., .error _ => .erring false
      | .setThreadTitleIfEmpty .., .error _ => .erring false
      | .cancelsGet .., _ => .driving root none []
      | _, .ok _ => .opened root
      | _, .error _ => .left .unsettled false
  | .erring ended =>
      match op, reply with
      | .tryTransition .., .ok _ => .erring true
      | .appendRunEvent .., .ok _ => .settled
      | _, .ok _ => .erring ended
      | _, .error _ => .left .unsettled false
  | .choosing =>
      match op, reply with
      | .tryTransition _ _ .running _, .ok true => .won none []
      | .tryTransition .., .ok true => .closing true true
      | .tryTransition .., .ok false => .left .lost false
      | _, .ok _ => .choosing
      | _, .error _ => .left .lost false
  | .won root unmarked =>
      match op, reply with
      | .getTurnRoot .., .ok root => .won (some root) unmarked
      | .approvePartial .., .ok rejected => .won root rejected
      | .markPartialApproval .., .ok _ => .won root []
      | .cancelsGet .., _ => .driving (root.getD none) none []
      | _, .ok _ => .won root unmarked
      | _, .error _ => .left .unsettled false
  | .driving root state todo =>
      match op, reply with
      | .graphInput .., .ok state => .driving root (some state) []
      | .graphResume .., .ok state =>
          .driving root (some state) []
      | .graphNext .., .ok none => .finalizing root
      | .graphNext .., .ok (some (.interrupt _, _)) =>
          .gated root
      | .graphNext .., .ok (some (.updates messages, state)) =>
          .driving root (some state)
            (messages.flatMap StreamMessage.todo)
      | .addMessage .., .ok _ => .driving root state todo.tail
      | .setToolResult .., .ok _ =>
          .driving root state todo.tail
      | .clearInterruptedTools .., .ok _ => .stopping true false
      | .clearInterruptedTools .., .error _ =>
          .stopping false false
      | .tryTransition .., reply =>
          stageOfEnd (.closing true false)
            (.left .unsettled false) reply
      | .appendRunEvent .., .error _ => .left .dropping false
      | _, .ok _ => .driving root state todo
      | _, .error _ => .failing false
  | .gated root =>
      match op, reply with
      | .clearInterruptedTools .., .ok _ => .stopping true false
      | .clearInterruptedTools .., .error _ =>
          .stopping false false
      | .setRunStatus .., .ok _ => .paused false
      | _, .ok _ => .gated root
      | _, .error _ => .failing false
  | .finalizing root =>
      match op, reply with
      | .tryTransition .., reply =>
          stageOfEnd (.closing false false)
            (.left .unsettled false) reply
      | .commitAgentAnswer .., .ok (some _) =>
          .closing false false
      | .commitAgentAnswer .., .ok none => .left .beaten false
      | _, .ok _ => .finalizing root
      | _, .error _ => .left .unsettled false
  | .stopping cleared resolved =>
      match op, reply with
      | .resolveOrphanToolCells .., .ok _ =>
          .stopping cleared true
      | .tryTransition .., reply =>
          stageOfEnd (.closing false false) (.failing false)
            reply
      | _, .ok _ => .stopping cleared resolved
      | _, .error _ => .failing false
  | .failing waiting =>
      match op, reply with
      | .tryTransition .., reply =>
          stageOfEnd (.closing true false)
            (.left .unsettled false) reply
      | _, _ => .failing waiting
  | .paused told =>
      match op, reply with
      | .appendRunEvent .., .ok _ => .paused true
      | .appendRunEvent .., .error _ => .left .dropping false
      | _, .ok _ => .paused told
      | _, .error _ => .failing true
  | .closing cells graph =>
      match op, reply with
      | .resolveOrphanToolCells .., .ok _ =>
          .closing false graph
      | .rejectPending .., .ok _ => .closing cells false
      | .appendRunEvent _ _ event, .ok _ =>
          if event.name.terminal then .settled
          else .closing cells graph
      | _, .ok _ => .closing cells graph
      | _, .error _ => .left .unsettled false
  | .settled => .settled
  | .left reason synthetic =>
      match op, reply with
      | .getRun .., reply => .left reason (needsSynthetic reply)
      | .nextSeq .., .error _ => .left reason false
      | .appendRunEvent .., _ => .left reason false
      | .tryTransition .., reply =>
          stageOfEnd (.closing true false)
            (.left .unsettled false) reply
      | _, _ => .left reason synthetic

/- Whether a task may end in a stage. -/
def Stage.mayEnd : Stage → Bool
| .paused true | .closing false false | .settled => true
| .left reason _ => reason != .dropping
| _ => false

------------------------------------------------------------
-- Roles
------------------------------------------------------------

/-
  What a task is about: nothing that concerns a run, a run
  that it has not found, a paused run whose log it writes, a
  run that it was asked to stop, or the run of its job.
-/
inductive Role where
  | aside
  | fresh
  | looking
      (log : RunId)
      (threadId : ThreadId)
      (synthetic : Bool)
  | watching (threadId : ThreadId) (runId : RunId)
  | on (job : Job) (stage : Stage)

/- The calls that a task makes in a role. -/
inductive Role.Allows : Role → Op → Prop where
  | asideCreate {title} : Allows .aside (.createThread title)
  | asideFork {parentId forkPoint} :
      Allows .aside (.forkThread parentId forkPoint)
  | asideMessages {threadId} :
      Allows .aside (.getThreadMessages threadId)
  | asideSeed {threadId transcript} :
      Allows .aside (.forkState threadId transcript)
  | asideTitle {threadId title} :
      Allows .aside (.setThreadTitleIfEmpty threadId title)
  | asidePoll {runId cursor} :
      Allows .aside (.getRunEventsAfter runId cursor)
  | asideRead {runId} : Allows .aside (.getRun runId)
  | freshOpen {threadId model} :
      Allows .fresh (.openRun threadId model)
  | freshActive {threadId} :
      Allows .fresh (.getActiveRun threadId)
  | freshRead {runId} : Allows .fresh (.getRun runId)
  | lookingActive {log threadId} :
      Allows (.looking log threadId false)
        (.getActiveRun threadId)
  | lookingAdd {log threadId} :
      Allows (.looking log threadId false) (.activeAdd log)
  | lookingDiscard {log threadId} :
      Allows (.looking log threadId false) (.activeDiscard log)
  | lookingRead {log threadId} :
      Allows (.looking log threadId false) (.getRun log)
  | lookingSeq {log threadId} :
      Allows (.looking log threadId true) (.nextSeq threadId)
  | lookingLog {log threadId event}
      (hName : event.name = .error) :
      Allows (.looking log threadId true)
        (.appendRunEvent threadId log event)
  | watchingGet {threadId runId} :
      Allows (.watching threadId runId) (.cancelsGet runId)
  | watchingSet {threadId runId flag} :
      Allows (.watching threadId runId) (.flagSet flag)
  | watchingRunning {threadId runId} :
      Allows (.watching threadId runId)
        (.tryTransition runId .running .interrupted true)
  | watchingPaused {threadId runId} :
      Allows (.watching threadId runId)
        (.tryTransition runId .awaitingApproval .interrupted
          true)
  | on {job stage op}
      (hAllows : Stage.Allows job stage op) :
      Allows (.on job stage) op

/- The role that a reply leads to. -/
def Role.after
    (role : Role)
    (op : Op)
    (reply : Except Exn op.Reply) :
    Role :=
  match role with
  | .aside => .aside
  | .fresh =>
      match op, reply with
      | .openRun threadId _, .ok runId =>
          .on ⟨runId, threadId, runId⟩ .opening
      | .getActiveRun threadId,
        .ok (some (runId, .awaitingApproval)) =>
          .looking runId threadId false
      | .getRun runId, .ok (some (threadId, _)) =>
          .watching threadId runId
      | _, _ => .fresh
  | .looking log threadId synthetic =>
      match op, reply with
      | .getActiveRun _, .ok (some (runId, .awaitingApproval)) =>
          .on ⟨log, threadId, runId⟩ .choosing
      | .getRun _, reply =>
          .looking log threadId (needsSynthetic reply)
      | .nextSeq _, .error _ => .looking log threadId false
      | .appendRunEvent .., _ => .looking log threadId false
      | _, _ => .looking log threadId synthetic
  | .watching threadId runId =>
      match op, reply with
      | .tryTransition _ .running _ _, .ok true =>
          .on ⟨runId, threadId, runId⟩ (.closing false false)
      | .tryTransition .., .ok true =>
          .on ⟨runId, threadId, runId⟩ (.closing true true)
      | _, _ => .watching threadId runId
  | .on job stage => .on job (stage.after op reply)

/- The job of a role on a run. -/
def Role.job? : Role → Option Job
| .on job _ => some job
| _ => none

/- Whether a task may end in a role. -/
def Role.mayEnd : Role → Bool
| .on _ stage => stage.mayEnd
| _ => true

------------------------------------------------------------
-- Phases
------------------------------------------------------------

/- The role of a task and the number that it drew last. -/
structure Phase where
  role : Role
  drawn : Option Nat

/- The number that a call drew, until it is logged. -/
def drawnAfter
    (drawn : Option Nat)
    (op : Op)
    (reply : Except Exn op.Reply) :
    Option Nat :=
  match op, reply with
  | .nextSeq _, .ok seq => some seq
  | .addMessage .., .ok row => some row.2
  | .commitAgentAnswer .., .ok (some row) => some row.2
  | .appendRunEvent .., _ => none
  | _, _ => drawn

/- An event is logged with the number drawn last. -/
def Op.logsDrawn (drawn : Option Nat) : Op → Prop
| .appendRunEvent _ _ event => drawn = some event.seq
| _ => True

def Phase.after
    (phase : Phase)
    (op : Op)
    (reply : Except Exn op.Reply) :
    Phase where
  role := phase.role.after op reply
  drawn := drawnAfter phase.drawn op reply

/-
  The protocol of the tasks.  A generator yields an event in
  order that its pump logs it; a task without a run yields its
  events to a client.
-/
def serviceProtocol :
    Protocol Op Op.Reply Exn RunEvent Phase where
  allows phase op :=
    phase.role.Allows op ∧ op.logsDrawn phase.drawn
  possible := Possible
  after := Phase.after
  yields phase event :=
    match phase.role with
    | .aside => True
    | .on job stage =>
        Stage.Allows job stage
            (.appendRunEvent job.thread job.log event) ∧
          phase.drawn = some event.seq
    | _ => False
  taken phase event :=
    match phase.role with
    | .on job _ =>
        phase.after
          (.appendRunEvent job.thread job.log event) (.ok ())
    | _ => phase
  closed phase event :=
    match phase.role with
    | .on job _ =>
        phase.after
          (.appendRunEvent job.thread job.log event)
          (.error .database)
    | _ => phase
  stop := .generatorExit

end LegalAgent
