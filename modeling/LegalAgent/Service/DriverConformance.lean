import LegalAgent.Service.Phase

/-
  The tasks of the server follow the service protocol.

  Every lemma walks one program of `RunService` or of
  `RunManager` and says from which stage it starts and in
  which stages it ends, by its value, by an exception, or by
  the exception of a consumer that closed it.

  Key theorems include:
    * `follows_drive`
    * `follows_consume`
    * `follows_start`
    * `follows_resume`
    * `follows_interrupt`
    * `follows_stream`
-/

------------------------------------------------------------
-- Driver Phases
------------------------------------------------------------

namespace LegalAgent

open Library

/- The phase of a task on a run. -/
def Job.at
    (job : Job)
    (stage : Stage)
    (drawn : Option Nat) :
    Phase :=
  ⟨.on job stage, drawn⟩

/- Whether a call logs an event. -/
def Op.isLog : Op → Bool
| .appendRunEvent .. => true
| _ => false

/- A call that logs nothing needs no number. -/
theorem Op.logsDrawn_of_not_log
    {op : Op}
    (hLog : op.isLog = false)
    (drawn : Option Nat) :
    op.logsDrawn drawn := by
  cases op with
  | appendRunEvent threadId runId event => cases hLog
  | _ => trivial

/- The protocol of generators, which leave logs to pumps. -/
def driverProtocol :
    Protocol Op Op.Reply Exn RunEvent Phase :=
  { serviceProtocol with
    allows := fun phase op =>
      serviceProtocol.allows phase op ∧ op.isLog = false }

/- A generator stays within its protocol. -/
abbrev Driver.Follows
    {α : Type}
    (program : Driver α)
    (quiet : Bool)
    (phase : Phase)
    (post : Bool → Except Exn α → Phase → Prop) :
    Prop :=
  Gen.follows driverProtocol program quiet phase post

section Rules

variable {α : Type} {job : Job} {stage : Stage}
variable {drawn : Option Nat} {quiet : Bool}
variable {post : Bool → Except Exn α → Phase → Prop}

/- The rule of a call in a stage that allows it. -/
theorem follows_call
    {op : Op}
    {next : op.Reply → Driver α}
    (hAllows : Stage.Allows job stage op)
    (hLog : op.isLog = false)
    (hOk :
      ∀ value,
        (next value).Follows quiet
          (job.at (stage.after op (.ok value))
            (drawnAfter drawn op (.ok value))) post)
    (hError :
      ∀ exn : Exn,
        exn.isException = true →
        op.kind ≠ .memory →
          post quiet (.error exn)
            (job.at (stage.after op (.error exn))
              (drawnAfter drawn op (.error exn)))) :
    Driver.Follows (call op >>= next) quiet
      (job.at stage drawn) post := by
  have hDrawn := Op.logsDrawn_of_not_log hLog drawn
  refine Gen.follows_perform_bind
    ⟨⟨.on hAllows, hDrawn⟩, hLog⟩ ?_ ?_
  · intro value _
    exact hOk value
  · intro exn hPossible
    rcases hPossible.error exn rfl with ⟨hException, hKind⟩
    exact hError exn hException hKind

/- The rule of a call whose reply is the result. -/
theorem follows_lastCall
    {op : Op}
    {post : Bool → Except Exn op.Reply → Phase → Prop}
    (hAllows : Stage.Allows job stage op)
    (hLog : op.isLog = false)
    (hOk :
      ∀ value,
        post quiet (.ok value)
          (job.at (stage.after op (.ok value))
            (drawnAfter drawn op (.ok value))))
    (hError :
      ∀ exn : Exn,
        exn.isException = true →
        op.kind ≠ .memory →
          post quiet (.error exn)
            (job.at (stage.after op (.error exn))
              (drawnAfter drawn op (.error exn)))) :
    Driver.Follows (call op) quiet (job.at stage drawn)
      post := by
  have hDrawn := Op.logsDrawn_of_not_log hLog drawn
  refine ⟨⟨⟨.on hAllows, hDrawn⟩, hLog⟩, ?_⟩
  intro reply hPossible
  cases reply with
  | ok value => exact hOk value
  | error exn =>
      rcases hPossible.error exn rfl with ⟨hException, hKind⟩
      exact hError exn hException hKind

/- The rule of an event that goes out with the last number. -/
theorem follows_yield
    {event : RunEvent}
    {next : Unit → Driver α}
    (hAllows :
      Stage.Allows job stage
        (.appendRunEvent job.thread job.log event))
    (hTaken :
      (next ()).Follows false
        (job.at
          (stage.after
            (.appendRunEvent job.thread job.log event)
            (.ok ()))
          none) post)
    (hClosed :
      post true (.error .generatorExit)
        (job.at
          (stage.after
            (.appendRunEvent job.thread job.log event)
            (.error .database))
          none)) :
    Driver.Follows (Gen.emit event >>= next) false
      (job.at stage (some event.seq)) post :=
  Gen.follows_emit_bind ⟨hAllows, rfl⟩ hTaken hClosed

/- The rule of `_emit`. -/
theorem follows_emit
    {data : EventData}
    {post : Bool → Except Exn Unit → Phase → Prop}
    (hSeq : Stage.Allows job stage (.nextSeq job.thread))
    (hStays :
      ∀ seq,
        stage.after (.nextSeq job.thread) (.ok seq) = stage)
    (hLog :
      ∀ seq,
        Stage.Allows job stage
          (.appendRunEvent job.thread job.log ⟨data, seq⟩))
    (hTaken :
      ∀ seq,
        post false (.ok ())
          (job.at
            (stage.after
              (.appendRunEvent job.thread job.log ⟨data, seq⟩)
              (.ok ()))
            none))
    (hClosed :
      ∀ seq,
        post true (.error .generatorExit)
          (job.at
            (stage.after
              (.appendRunEvent job.thread job.log ⟨data, seq⟩)
              (.error .database))
            none))
    (hError :
      ∀ exn : Exn,
        exn.isException = true →
          post false (.error exn)
            (job.at
              (stage.after (.nextSeq job.thread) (.error exn))
              drawn)) :
    Driver.Follows (RunService.emit data job.thread) false
      (job.at stage drawn) post := by
  refine follows_call hSeq rfl ?_ ?_
  · intro seq
    rw [hStays seq]
    exact ⟨rfl, ⟨hLog seq, rfl⟩, hTaken seq, hClosed seq⟩
  · intro exn hException _
    exact hError exn hException

end Rules

------------------------------------------------------------
-- Chunks
------------------------------------------------------------

/-
  A stage whose exceptions the driver answers by ending its
  run with an error.
-/
structure Failable (job : Job) (stage : Stage) : Prop where
  allows :
    Stage.Allows job stage
      (.tryTransition job.run .running .error true)
  after :
    ∀ reply,
      stage.after
          (.tryTransition job.run .running .error true)
          reply =
        stageOfEnd (.closing true false)
          (.left .unsettled false) reply

theorem failable_failing (job : Job) (waiting : Bool) :
    Failable job (.failing waiting) :=
  ⟨.failingEnd, fun _ => rfl⟩

theorem failable_driving
    (job : Job)
    (root : Option MessageId)
    (state : Option GraphState)
    (todo : List Todo) :
    Failable job (.driving root state todo) :=
  ⟨.drivingFail, fun _ => rfl⟩

theorem failable_unsettled (job : Job) :
    Failable job (.left .unsettled false) :=
  ⟨.leftEnd (Or.inl rfl), fun _ => rfl⟩

/-
  The phase of a task whose consumer has just closed it: it
  may still try to end its run.
-/
def Closed (job : Job) (phase : Phase) : Prop :=
  ∃ reason drawn,
    phase = job.at (.left reason false) drawn ∧
      (reason = .unsettled ∨ reason = .dropping)

/-
  The postcondition of the programs inside the driver's inner
  `try`: exceptions can be answered, and a closed program is
  about to end its run.
-/
def duringStream
    {α : Type}
    (job : Job)
    (done : α → Phase → Prop) :
    Bool → Except Exn α → Phase → Prop
| false, .ok value, phase => done value phase
| false, .error exn, phase =>
    exn.isException = true ∧
      ∃ stage drawn,
        phase = job.at stage drawn ∧ Failable job stage
| true, .ok _, _ => False
| true, .error exn, phase =>
    exn = .generatorExit ∧ Closed job phase

/- The state of a driver belongs to its job and its root. -/
structure Belongs
    (job : Job)
    (root : Option MessageId)
    (rs : RunState) :
    Prop where
  runId : rs.runId = job.run
  parentId : rs.parentId = root

section Chunks

variable {job : Job} {root : Option MessageId}
variable {state : Option GraphState} {drawn : Option Nat}
variable {rs : RunState}

/- An exception in the middle of a chunk can be answered. -/
theorem duringStream_failing
    {α : Type}
    {done : α → Phase → Prop}
    {exn : Exn}
    {waiting : Bool}
    (hException : exn.isException = true) :
    duringStream job done false (.error exn)
      (job.at (.failing waiting) drawn) :=
  ⟨hException, _, _, rfl, failable_failing job _⟩

/- The rule of `do` blocks inside the inner `try`. -/
theorem follows_duringBind
    {α β : Type}
    {phase : Phase}
    {program : Driver α}
    {next : α → Driver β}
    {done : α → Phase → Prop}
    {done' : β → Phase → Prop}
    (hFirst :
      program.Follows false phase (duringStream job done))
    (hNext :
      ∀ value phase,
        done value phase →
          (next value).Follows false phase
            (duringStream job done')) :
    Driver.Follows (program >>= next) false phase
      (duringStream job done') := by
  apply Gen.follows_bind_of_loud hFirst hNext
  · intro quiet exn phase hPost
    cases quiet with
    | false => exact hPost
    | true => exact hPost
  · intro value phase hPost
    exact hPost

/- The cells of the calls are stored one by one. -/
theorem follows_handleCalls
    (hBelongs : Belongs job root rs)
    (calls : List ToolCall)
    (rest : List Todo) :
    (RunService.handleCalls rs job.thread calls).Follows false
      (job.at
        (.driving root state (calls.map .cell ++ rest)) drawn)
      (duringStream job fun _ phase =>
        ∃ drawn,
          phase = job.at (.driving root state rest) drawn) := by
  induction calls generalizing drawn with
  | nil => exact ⟨drawn, rfl⟩
  | cons toolCall calls ih =>
      have hCell :
          rs.toolCell toolCall = job.toolCell root toolCall := by
        rw [RunState.toolCell, hBelongs.runId,
          hBelongs.parentId]
        rfl
      rw [RunService.handleCalls, hCell]
      refine follows_call .drivingCell rfl ?_ ?_
      · intro row
        refine follows_yield
          (.drivingLog (by simp [RunEvent.name, EventData.name]))
          ?_ ?_
        · exact ih
        · exact ⟨rfl, _, _, rfl, by simp⟩
      · intro exn hException _
        exact duringStream_failing hException

/- Articles are frozen and announced without other work. -/
theorem follows_handleArticles
    (rest : List Todo)
    (refs : List LawRef) :
    (RunService.handleArticles job.thread rs refs).Follows
      false
      (job.at (.driving root state rest) drawn)
      (duringStream job fun rs' phase =>
        rs'.runId = rs.runId ∧ rs'.parentId = rs.parentId ∧
          ∃ drawn,
            phase =
              job.at (.driving root state rest) drawn) := by
  induction refs generalizing rs drawn with
  | nil => exact ⟨rfl, rfl, drawn, rfl⟩
  | cons ref refs ih =>
      rw [RunService.handleArticles]
      split
      · exact ih
      · refine follows_call .drivingFreeze rfl ?_ ?_
        · intro _
          apply Gen.follows_bind
          refine follows_emit .drivingSeq (fun _ => rfl)
            (fun seq =>
              .drivingLog
                (by simp [RunEvent.name, EventData.name]))
            ?_ ?_ ?_
          · intro seq
            exact @ih _ (rs.freeze ref)
          · intro seq
            exact ⟨rfl, _, _, rfl, by simp⟩
          · intro exn hException
            exact
              ⟨hException, _, _, rfl, failable_failing job _⟩
        · intro exn hException _
          exact duringStream_failing hException

/- The result of a call is stored if the call has an id. -/
theorem follows_storeResult
    {seq : Nat}
    (hBelongs : Belongs job root rs)
    (callId : Option Text)
    (content : Content)
    (artifact : Artifact)
    (rest : List Todo) :
    (RunService.storeResult rs callId
        (truncateToolResult content)).Follows false
      (job.at
        (.driving root state
          ((StreamMessage.tool callId content artifact).todo ++
            rest))
        (some seq))
      (duringStream job fun _ phase =>
        phase =
          job.at (.driving root state rest) (some seq)) := by
  match callId with
  | some (c :: id) =>
      rw [RunService.storeResult, hBelongs.runId]
      refine follows_lastCall .drivingResult rfl ?_ ?_
      · intro _
        rfl
      · intro exn hException _
        exact duringStream_failing hException
  | some [] => exact rfl
  | none => exact rfl

/- The articles of an artifact, unless it is a dict. -/
theorem follows_handleArtifact
    (hBelongs : Belongs job root rs)
    (artifact : Artifact)
    (rest : List Todo) :
    (RunService.handleArtifact rs job.thread
        artifact).Follows false
      (job.at (.driving root state rest) drawn)
      (duringStream job fun rs' phase =>
        Belongs job root rs' ∧
          ∃ drawn,
            phase =
              job.at (.driving root state rest) drawn) := by
  rw [RunService.handleArtifact]
  cases hArticles : articlesOf artifact with
  | ok refs =>
      apply Gen.follows_mono
        (follows_handleArticles rest refs)
      intro quiet result phase hPost
      rcases quiet with _ | _ <;> rcases result with exn | rs'
      · exact hPost
      · rcases hPost with ⟨hRun, hParent, hPhase⟩
        exact
          ⟨⟨hRun.trans hBelongs.runId,
            hParent.trans hBelongs.parentId⟩, hPhase⟩
      · exact hPost
      · exact hPost
  | error exn =>
      have hException : exn.isException = true := by
        cases artifact with
        | dict =>
            cases hArticles
            rfl
        | absent => cases hArticles
        | context articles => cases hArticles
      exact ⟨hException, _, _, rfl, failable_driving _ _ _ _⟩

/- A message of a chunk does the work that it leaves. -/
theorem follows_handleMessage
    (hBelongs : Belongs job root rs)
    (message : StreamMessage)
    (rest : List Todo) :
    (RunService.handleMessage rs job.thread message).Follows
      false
      (job.at (.driving root state (message.todo ++ rest))
        drawn)
      (duringStream job fun rs' phase =>
        Belongs job root rs' ∧
          ∃ drawn,
            phase =
              job.at (.driving root state rest) drawn) := by
  cases message with
  | ai content calls =>
      rw [RunService.handleMessage]
      apply follows_duringBind
        (follows_handleCalls hBelongs calls rest)
      intro _ phase hPhase
      split
      · exact ⟨⟨hBelongs.runId, hBelongs.parentId⟩, hPhase⟩
      · exact ⟨hBelongs, hPhase⟩
  | tool callId content artifact =>
      rw [RunService.handleMessage]
      refine follows_call .drivingSeq rfl ?_ ?_
      · intro seq
        apply follows_duringBind
          (follows_storeResult hBelongs callId content
            artifact rest)
        rintro _ _ rfl
        refine follows_yield
          (.drivingLog
            (by simp [RunEvent.name, EventData.name])) ?_ ?_
        · exact follows_handleArtifact hBelongs artifact rest
        · exact ⟨rfl, _, _, rfl, by simp⟩
      · intro exn hException _
        exact duringStream_failing hException

/- A chunk leaves nothing to do. -/
theorem follows_handleChunk
    (hBelongs : Belongs job root rs)
    (messages : List StreamMessage) :
    (RunService.handleChunk job.thread rs messages).Follows
      false
      (job.at
        (.driving root state
          (messages.flatMap StreamMessage.todo)) drawn)
      (duringStream job fun rs' phase =>
        Belongs job root rs' ∧
          ∃ drawn,
            phase =
              job.at (.driving root state []) drawn) := by
  induction messages generalizing rs drawn with
  | nil => exact ⟨hBelongs, drawn, rfl⟩
  | cons message messages ih =>
      rw [RunService.handleChunk]
      apply follows_duringBind
        (follows_handleMessage hBelongs message _)
      rintro rs' _ ⟨hBelongs', drawn', rfl⟩
      exact ih hBelongs'

end Chunks

------------------------------------------------------------
-- Streams
------------------------------------------------------------

/-
  The stages in which a generator leaves its run: the run is
  paused, its terminal event is logged, or the task was beaten
  or passed by an exception.
-/
def Stage.released : Stage → Bool
| .paused true | .settled => true
| .left reason false => reason != .dropping
| _ => false

/- A generator may always end where it is released. -/
theorem Stage.mayEnd_of_released
    {stage : Stage}
    (hReleased : stage.released = true) :
    stage.mayEnd = true := by
  unfold Stage.released at hReleased
  split at hReleased <;> simp_all [Stage.mayEnd]

section Streams

variable {job : Job} {root : Option MessageId}
variable {drawn : Option Nat} {rs : RunState}

/- The phase of a generator that left its run. -/
def Released (job : Job) (phase : Phase) : Prop :=
  ∃ stage drawn,
    phase = job.at stage drawn ∧ stage.released = true

/- A cancelled driver ends its run, if it is still running. -/
theorem follows_cancelRun
    {stage : Stage}
    (hBelongs : Belongs job root rs)
    (hClear :
      Stage.Allows job stage
        (.clearInterruptedTools job.thread))
    (hAfter :
      ∀ reply, ∃ cleared,
        stage.after (.clearInterruptedTools job.thread) reply =
          .stopping cleared false) :
    (RunService.cancelRun rs job.thread).Follows false
      (job.at stage drawn)
      (duringStream job fun _ phase => Released job phase) := by
  rw [RunService.cancelRun, hBelongs.runId]
  have hCleared :
      (RunService.exceptException
          (call (.clearInterruptedTools job.thread))
          (pure ())).Follows false
        (job.at stage drawn)
        (duringStream job fun _ phase =>
          ∃ cleared drawn,
            phase = job.at (.stopping cleared false) drawn) := by
    apply Gen.follows_tryCatch
    refine follows_lastCall hClear rfl ?_ ?_
    · intro value
      rcases hAfter (.ok value) with ⟨cleared, hStage⟩
      rw [hStage]
      exact ⟨cleared, _, rfl⟩
    · intro exn hException _
      rcases hAfter (.error exn) with ⟨cleared, hStage⟩
      rw [hStage]
      simp only [hException, if_true]
      exact ⟨cleared, _, rfl⟩
  apply follows_duringBind hCleared
  rintro _ _ ⟨cleared, drawn, rfl⟩
  refine follows_call .stoppingResolve rfl ?_ ?_
  · intro _
    refine follows_call .stoppingEnd rfl ?_ ?_
    · intro won
      cases won with
      | false => exact ⟨_, _, rfl, rfl⟩
      | true =>
          refine follows_emit .closingSeq (fun _ => rfl)
            (fun seq =>
              .closingLog
                (by simp [RunEvent.name, EventData.name]))
            ?_ ?_ ?_
          · intro seq
            exact ⟨_, _, rfl, rfl⟩
          · intro seq
            exact ⟨rfl, _, _, rfl, by simp⟩
          · intro exn hException
            exact
              ⟨hException, _, _, rfl, failable_unsettled job⟩
    · intro exn hException _
      exact duringStream_failing hException
  · intro exn hException _
    exact duringStream_failing hException

/- A driver pauses its run at an approval gate. -/
theorem follows_pauseRun
    (hBelongs : Belongs job root rs)
    (values : Option (List (Option Text))) :
    (RunService.pauseRun rs job.thread values).Follows false
      (job.at (.gated root) drawn)
      (duringStream job fun _ phase => Released job phase) := by
  rw [RunService.pauseRun, hBelongs.runId]
  refine follows_call .gatedPause rfl ?_ ?_
  · intro _
    refine follows_call .pausedMark rfl ?_ ?_
    · intro _
      refine follows_call .pausedPending rfl ?_ ?_
      · intro tools
        refine follows_emit .pausedSeq (fun _ => rfl)
          (fun seq => .pausedLog rfl) ?_ ?_ ?_
        · intro seq
          exact ⟨_, _, rfl, rfl⟩
        · intro seq
          exact ⟨rfl, _, _, rfl, by simp⟩
        · intro exn hException
          exact duringStream_failing hException
      · intro exn hException _
        exact duringStream_failing hException
    · intro exn hException _
      exact duringStream_failing hException
  · intro exn hException _
    exact duringStream_failing hException

/-
  Where the stream leaves a driver: released, or with a state
  for the final answer.
-/
def StreamDone
    (job : Job)
    (root : Option MessageId) :
    Option RunState → Phase → Prop
| none, phase => Released job phase
| some rs, phase =>
    Belongs job root rs ∧
      ∃ drawn, phase = job.at (.finalizing root) drawn

/- A driver asks whether it is cancelled. -/
theorem follows_isCancelled
    {stage : Stage}
    (hFlag : ∀ flag, Stage.Allows job stage (.flagIsSet flag))
    (hStays :
      ∀ flag value,
        stage.after (.flagIsSet flag) (.ok value) = stage)
    (cancel : Option FlagId) :
    (RunService.isCancelled cancel).Follows false
      (job.at stage drawn)
      (duringStream job fun _ phase =>
        phase = job.at stage drawn) := by
  cases cancel with
  | none => exact rfl
  | some flag =>
      refine follows_lastCall (hFlag flag) rfl ?_ ?_
      · intro value
        rw [hStays flag value]
        rfl
      · intro exn hException hKind
        exact absurd rfl hKind

/- The chunks of a stream, up to its end or a stop. -/
theorem follows_consumeStream
    (hBelongs : Belongs job root rs)
    (cancel : Option FlagId)
    (steps : List GraphStep)
    (state : GraphState) :
    (RunService.consumeStream cancel job.thread steps state
        rs).Follows false
      (job.at (.driving root (some state) []) drawn)
      (duringStream job (StreamDone job root)) := by
  induction steps generalizing state rs drawn with
  | nil =>
      rw [RunService.consumeStream]
      refine Gen.follows_perform_bind
        ⟨⟨.on .drivingNext, trivial⟩, rfl⟩ ?_ ?_
      · intro reply hPossible
        match reply with
        | none => exact ⟨hBelongs, _, rfl⟩
        | some _ => exact absurd hPossible.chunk id
      · intro exn hPossible
        exact duringStream_failing (hPossible.error exn rfl).1
  | cons step steps ih =>
      rw [RunService.consumeStream]
      refine follows_call .drivingNext rfl ?_ ?_
      · intro reply
        match reply with
        | none => exact ⟨hBelongs, _, rfl⟩
        | some (.interrupt values, state') =>
            refine follows_duringBind
              (follows_isCancelled (fun _ => .gatedFlag)
                (fun _ _ => rfl) cancel) ?_
            rintro stopped _ rfl
            split
            · refine follows_duringBind
                (follows_cancelRun hBelongs .gatedClear ?_) ?_
              · intro reply
                cases reply with
                | ok value => exact ⟨true, rfl⟩
                | error exn => exact ⟨false, rfl⟩
              · intro _ phase hReleased
                exact hReleased
            · apply follows_duringBind
                (follows_pauseRun hBelongs values)
              intro _ phase hReleased
              exact hReleased
        | some (.updates messages, state') =>
            refine follows_duringBind
              (follows_isCancelled (fun _ => .drivingFlag)
                (fun _ _ => rfl) cancel) ?_
            rintro stopped _ rfl
            split
            · refine follows_duringBind
                (follows_cancelRun hBelongs .drivingClear ?_) ?_
              · intro reply
                cases reply with
                | ok value => exact ⟨true, rfl⟩
                | error exn => exact ⟨false, rfl⟩
              · intro _ phase hReleased
                exact hReleased
            · apply follows_duringBind
                (follows_handleChunk hBelongs messages)
              rintro rs' _ ⟨hBelongs', drawn', rfl⟩
              exact ih hBelongs' state'
      · intro exn hException _
        exact duringStream_failing hException

end Streams

------------------------------------------------------------
-- Drives
------------------------------------------------------------

/-
  The postcondition of the body of a drive: the generator left
  its run, or its consumer closed it.
-/
def duringDrive
    (job : Job) :
    Bool → Except Exn Unit → Phase → Prop
| false, .ok _, phase => Released job phase
| false, .error exn, phase =>
    exn.isException = true ∧ Released job phase
| true, .ok _, _ => False
| true, .error exn, phase =>
    exn = .generatorExit ∧ Closed job phase

/-
  The postcondition of a generator: it left its run, or it was
  closed and did what remained to do.
-/
def atRelease
    (job : Job) :
    Bool → Except Exn Unit → Phase → Prop
| false, _, phase => Released job phase
| true, _, phase => phase.role.mayEnd = true

section Drives

variable {job : Job} {root : Option MessageId}
variable {drawn : Option Nat} {rs : RunState}

/- A generator that left its run may end. -/
theorem Released.mayEnd
    {phase : Phase}
    (hReleased : Released job phase) :
    phase.role.mayEnd = true := by
  rcases hReleased with ⟨stage, drawn, rfl, hStage⟩
  exact Stage.mayEnd_of_released hStage

/- The terminal event of a run that this task ended. -/
theorem follows_lastEvent
    {data : EventData}
    (hTerminal : data.name = .runDone ∨ data.name = .error) :
    (RunService.emit data job.thread).Follows false
      (job.at (.closing false false) drawn)
      (duringDrive job) := by
  refine follows_emit .closingSeq (fun _ => rfl)
    (fun seq => .closingLog ?_) ?_ ?_ ?_
  · rcases hTerminal with hName | hName <;>
      simp [RunEvent.name, hName]
  · intro seq
    refine ⟨.settled, none, ?_, rfl⟩
    have hEnds :
        (RunEvent.name ⟨data, seq⟩).terminal = true := by
      rcases hTerminal with hName | hName <;>
        simp [RunEvent.name, hName, EventName.terminal]
    simp only [Job.at, Stage.after, hEnds, if_true]
  · intro seq
    exact ⟨rfl, _, _, rfl, by simp⟩
  · intro exn hException
    exact ⟨hException, _, _, rfl, rfl⟩

/- A driver answers an exception by ending its run. -/
theorem follows_failRun
    {stage : Stage}
    (hBelongs : Belongs job root rs)
    (hFailable : Failable job stage) :
    (RunService.failRun rs job.thread).Follows false
      (job.at stage drawn) (duringDrive job) := by
  rw [RunService.failRun, hBelongs.runId]
  refine follows_call hFailable.allows rfl ?_ ?_
  · intro won
    rw [hFailable.after]
    cases won with
    | false => exact ⟨_, _, rfl, rfl⟩
    | true =>
        refine follows_call .closingResolve rfl ?_ ?_
        · intro _
          exact follows_lastEvent (Or.inr rfl)
        · intro exn hException _
          exact ⟨hException, _, _, rfl, rfl⟩
  · intro exn hException _
    rw [hFailable.after]
    exact ⟨hException, _, _, rfl, rfl⟩

/- A closed driver ends its run, if it is still running. -/
theorem follows_closeRun
    {reason : Leaving}
    (hBelongs : Belongs job root rs)
    (hReason : reason = .unsettled ∨ reason = .dropping) :
    (RunService.closeRun rs).Follows true
      (job.at (.left reason false) drawn)
      fun quiet _ phase =>
        quiet = true ∧
          ∃ stage drawn,
            phase = job.at stage drawn ∧
              (stage = .closing false false ∨
                stage.released = true) := by
  rw [RunService.closeRun, hBelongs.runId]
  refine follows_call (.leftEnd hReason) rfl ?_ ?_
  · intro won
    cases won with
    | false => exact ⟨rfl, _, _, rfl, Or.inr rfl⟩
    | true =>
        refine follows_call .closingResolve rfl ?_ ?_
        · intro _
          exact ⟨rfl, _, _, rfl, Or.inl rfl⟩
        · intro exn _ _
          exact ⟨rfl, _, _, rfl, Or.inr rfl⟩
  · intro exn _ _
    exact ⟨rfl, _, _, rfl, Or.inr rfl⟩

/- A driver checks its draft and commits the answer. -/
theorem follows_finalize
    (hBelongs : Belongs job root rs) :
    (RunService.finalize rs job.thread).Follows false
      (job.at (.finalizing root) drawn)
      (duringDrive job) := by
  simp only [RunService.finalize]
  rw [hBelongs.runId, hBelongs.parentId]
  refine follows_call .finalizingCited rfl ?_ ?_
  · intro linked
    split
    · refine follows_call .finalizingForged rfl ?_ ?_
      · intro won
        cases won with
        | false => exact ⟨_, _, rfl, rfl⟩
        | true => exact follows_lastEvent (Or.inr rfl)
      · intro exn hException _
        exact ⟨hException, _, _, rfl, rfl⟩
    · refine follows_call .finalizingCommit rfl ?_ ?_
      · intro row
        cases row with
        | none => exact ⟨_, _, rfl, rfl⟩
        | some row =>
            refine follows_yield
              (.closingLog
                (by simp [RunEvent.name, EventData.name]))
              ?_ ?_
            · exact follows_lastEvent (Or.inl rfl)
            · exact ⟨rfl, _, _, rfl, by simp⟩
      · intro exn hException _
        exact ⟨hException, _, _, rfl, rfl⟩
  · intro exn hException _
    exact ⟨hException, _, _, rfl, rfl⟩

/- The cancel flag of a run that a task leaves is dropped. -/
theorem follows_cancelsPop
    {stage : Stage}
    {quiet : Bool}
    {post : Bool → Except Exn Unit → Phase → Prop}
    (hStage :
      stage = .closing false false ∨ stage.released = true)
    (hPost : post quiet (.ok ()) (job.at stage drawn)) :
    (call (.cancelsPop job.run)).Follows quiet
      (job.at stage drawn) post := by
  have hPop :
      Stage.Allows job stage (.cancelsPop job.run) ∧
        stage.after (.cancelsPop job.run) (.ok ()) =
          stage := by
    rcases hStage with rfl | hReleased
    · exact ⟨.closingPop, rfl⟩
    · unfold Stage.released at hReleased
      split at hReleased
      · exact ⟨.pausedPop, rfl⟩
      · exact ⟨.settledPop, rfl⟩
      · exact ⟨.leftPop, rfl⟩
      · cases hReleased
  refine follows_lastCall hPop.1 rfl ?_ ?_
  · intro _
    rw [hPop.2]
    exact hPost
  · intro exn _ hKind
    exact absurd rfl hKind

/-
  The first checkpoint access of a drive, on which its stream
  goes on.
-/
def Begins
    (job : Job)
    (root : Option MessageId)
    (start : Driver GraphState) :
    Prop :=
  ∀ drawn,
    start.Follows false (job.at (.driving root none []) drawn)
      (duringStream job fun state phase =>
        ∃ drawn,
          phase = job.at (.driving root (some state) []) drawn)

/- The exceptions of a stream are answered. -/
theorem follows_driveStream
    {start : Driver GraphState}
    (hBelongs : Belongs job root rs)
    (hBegins : Begins job root start)
    (cancel : Option FlagId)
    (script : List GraphStep) :
    (RunService.driveStream cancel start script rs
        job.thread).Follows false
      (job.at (.driving root none []) drawn)
      (Gen.thenPost (duringDrive job) fun quiet value phase =>
        quiet = false ∧ StreamDone job root value phase) := by
  have hStream :
      Driver.Follows
        (do
          let state ← start
          RunService.consumeStream cancel job.thread script
            state rs)
        false (job.at (.driving root none []) drawn)
        (duringStream job (StreamDone job root)) := by
    apply follows_duringBind (hBegins drawn)
    rintro state _ ⟨drawn', rfl⟩
    exact follows_consumeStream hBelongs cancel script state
  apply Gen.follows_tryCatch
  apply Gen.follows_mono hStream
  intro quiet result phase hPost
  rcases quiet with _ | _ <;> rcases result with exn | value
  · rcases hPost with
      ⟨hException, stage, drawn', rfl, hFailable⟩
    simp only [hException, if_true]
    apply Gen.follows_bind
    apply Gen.follows_mono
      (follows_failRun hBelongs hFailable)
    intro quiet' result' phase' hPost'
    rcases quiet' with _ | _ <;> rcases result' with exn' | _
    · exact hPost'
    · exact ⟨rfl, hPost'⟩
    · exact hPost'
    · exact absurd hPost' id
  · exact ⟨rfl, hPost⟩
  · rcases hPost with ⟨rfl, hPhase⟩
    exact ⟨rfl, hPhase⟩
  · exact absurd hPost id

/- A stream that ended leads to the final answer. -/
theorem follows_driveBody
    {start : Driver GraphState}
    (hBelongs : Belongs job root rs)
    (hBegins : Begins job root start)
    (cancel : Option FlagId)
    (script : List GraphStep) :
    (RunService.driveBody cancel start script rs
        job.thread).Follows false
      (job.at (.driving root none []) drawn)
      (duringDrive job) := by
  apply Gen.follows_bind
  apply Gen.follows_mono
    (follows_driveStream hBelongs hBegins cancel script)
  intro quiet result phase hPost
  cases result with
  | error exn => exact hPost
  | ok outcome =>
      rcases hPost with ⟨rfl, hDone⟩
      cases outcome with
      | none => exact hDone
      | some rs' =>
          rcases hDone with ⟨hBelongs', drawn', rfl⟩
          exact follows_finalize hBelongs'

/- A drive leaves its run, also when it is closed. -/
theorem follows_drive
    {stage : Stage}
    {start : Driver GraphState}
    (hBelongs : Belongs job root rs)
    (hBegins : Begins job root start)
    (hAllows :
      Stage.Allows job stage (.cancelsGet job.run))
    (hAfter :
      ∀ flag,
        stage.after (.cancelsGet job.run) (.ok flag) =
          .driving root none [])
    (script : List GraphStep) :
    (RunService.drive start script rs job.thread).Follows
      false (job.at stage drawn) (atRelease job) := by
  rw [RunService.drive, hBelongs.runId]
  refine follows_call hAllows rfl ?_ ?_
  · intro cancel
    rw [hAfter cancel]
    apply Gen.follows_tryFinally
    apply Gen.follows_tryCatch
    apply Gen.follows_mono
      (follows_driveBody hBelongs hBegins cancel script)
    intro quiet result phase hPost
    rcases quiet with _ | _ <;> rcases result with exn | value
    · rcases hPost with
        ⟨hException, stage', drawn', rfl, hStage⟩
      have hNotExit : exn ≠ .generatorExit := by
        rintro rfl
        cases hException
      dsimp only
      rw [if_neg hNotExit]
      exact follows_cancelsPop (Or.inr hStage)
        ⟨stage', drawn', rfl, hStage⟩
    · rcases hPost with ⟨stage', drawn', rfl, hStage⟩
      exact follows_cancelsPop (Or.inr hStage)
        ⟨stage', drawn', rfl, hStage⟩
    · rcases hPost with ⟨rfl, reason, drawn', rfl, hReason⟩
      dsimp only
      rw [if_pos rfl]
      apply Gen.follows_mono
        (follows_closeRun hBelongs hReason)
      rintro _ result' _ ⟨rfl, stage', drawn'', rfl, hStage⟩
      apply follows_cancelsPop hStage
      have hEnd : stage'.mayEnd = true := by
        rcases hStage with rfl | hReleased
        · rfl
        · exact Stage.mayEnd_of_released hReleased
      exact hEnd
    · exact absurd hPost id
  · intro exn _ hKind
    exact absurd rfl hKind

end Drives

end LegalAgent
