import LegalAgent.Library.Faults
import LegalAgent.System.WellFormed

/-
  What a generator leaves behind when one of its calls fails
  or when it is closed.

  A generator of `RunService.run` or `RunService.resume` that
  opened or won its run should leave it with a status other
  than `running` and without a cancel flag.  Its `try` blocks
  guard the stream only: a failure between the entry and the
  stream, or of one of the calls that settle the answer,
  leaves the run behind.

  Key definitions include:
    * `Entrance`
    * `ExitStage`
    * `exposed`
    * `Freed`

  Key theorems include:
    * `drive_exits`
    * `exits_free_run`
-/

------------------------------------------------------------
-- Exits
------------------------------------------------------------

namespace LegalAgent

open Library

/- The generators that open or win a run. -/
inductive Entrance where
  | run (message : Text) (model : Option Text)
  | resume (approve : Bool) (approvedIds : Option (List Text))

def Entrance.generator
    (registry : Registry)
    (threadId : ThreadId)
    (script : List GraphStep) :
    Entrance → Driver Unit
| .run message model =>
    RunService.run registry message threadId model script
| .resume approve approvedIds =>
    RunService.resume registry threadId approve approvedIds
      script

/- What executes the calls of the generators of an instance. -/
def driverMachine
    (inst : InstanceId) :
    Machine Op Op.Reply Exn World where
  exec := exec inst
  fault := fun op => op.kind.fault
  stop := .generatorExit

abbrev DriverMoment := Moment Op Op.Reply Exn RunEvent

/- The run that a generator opens or wins in a moment. -/
def claimed : DriverMoment → Option RunId
| .called (.openRun ..) (.ok runId) => some runId
| .called (.tryTransition runId .awaitingApproval _ _)
    (.ok true) =>
    some runId
| _ => none

/- How far a generator has come with its run. -/
inductive ExitStage where
  | before
  | entered
  | rejected
  | driving
deriving DecidableEq

def ExitStage.after : ExitStage → DriverMoment → ExitStage
| .before, .called (.openRun ..) (.ok _) => .entered
| .before,
    .called (.tryTransition _ .awaitingApproval .running _)
      (.ok true) =>
    .entered
| .before,
    .called (.tryTransition _ .awaitingApproval .rejected _)
      (.ok true) =>
    .rejected
| .entered, .called (.cancelsGet _) _ => .driving
| stage, _ => stage

/- The calls that settle an answer or end a failed stream. -/
def Op.settles : Op → Bool
| .getThreadCitations _ => true
| .commitAgentAnswer .. => true
| .tryTransition _ .running .error _ => true
| _ => false

/- Whether a moment fails where nothing guards the run. -/
def ExitStage.unguarded : ExitStage → DriverMoment → Bool
| .entered, moment => moment.failed
| .driving, .called op (.error _) => op.settles
| _, _ => false

/- Whether one of the moments fails unguarded. -/
def exposed : ExitStage → List DriverMoment → Bool
| _, [] => false
| stage, moment :: moments =>
    stage.unguarded moment ||
      exposed (stage.after moment) moments

/- A run is not running and has no cancel flag. -/
def Freed
    (inst : InstanceId)
    (runId : RunId)
    (world : World) :
    Prop :=
  world.db.status? runId ≠ some .running ∧
    (world.instances inst).cancels runId = none

/- The stage after the moments. -/
def ExitStage.through
    (stage : ExitStage)
    (moments : List DriverMoment) :
    ExitStage :=
  moments.foldl ExitStage.after stage

/- Moments one after the other. -/
theorem exposed_append
    (stage : ExitStage)
    (moments more : List DriverMoment) :
    exposed stage (moments ++ more) =
      (exposed stage moments ||
        exposed (stage.through moments) more) := by
  induction moments generalizing stage with
  | nil => rfl
  | cons moment moments ih =>
      simp only [List.cons_append, exposed, ih, Bool.or_assoc]
      rfl

/- Nothing is unguarded once the run was rejected. -/
theorem exposed_rejected (moments : List DriverMoment) :
    exposed .rejected moments = false := by
  induction moments with
  | nil => rfl
  | cons moment moments ih =>
      change (false || exposed .rejected moments) = false
      rw [ih, Bool.or_false]

theorem through_rejected (moments : List DriverMoment) :
    ExitStage.rejected.through moments = .rejected := by
  induction moments with
  | nil => rfl
  | cons moment moments ih => exact ih

/- A stream is driven to the end. -/
theorem exposed_driving_cons
    (moment : DriverMoment)
    (moments : List DriverMoment) :
    exposed .driving (moment :: moments) =
      (ExitStage.driving.unguarded moment ||
        exposed .driving moments) := rfl

theorem exposed_driving_append
    (moments more : List DriverMoment) :
    exposed .driving (moments ++ more) =
      (exposed .driving moments || exposed .driving more) := by
  induction moments with
  | nil => rfl
  | cons moment moments ih =>
      rw [List.cons_append, exposed_driving_cons, ih,
        exposed_driving_cons, Bool.or_assoc]

/- Calls that settle nothing are guarded. -/
theorem exposed_of_settles
    {moments : List DriverMoment}
    (hCalls :
      ∀ op reply,
        Moment.called op reply ∈ moments →
          op.settles = false) :
    exposed .driving moments = false := by
  induction moments with
  | nil => rfl
  | cons moment moments ih =>
      rw [exposed_driving_cons, ih, Bool.or_false]
      · cases moment with
        | called op reply =>
            cases reply with
            | ok value => rfl
            | error exn =>
                exact hCalls op _ List.mem_cons_self
        | taken event => rfl
        | closed event => rfl
      · intro op reply hMem
        exact hCalls op reply (List.mem_cons_of_mem _ hMem)

/- Whether a call is about the cancel flag of a run. -/
def Op.cancels : Op → Bool
| .cancelsCreate _ | .cancelsSetdefault _
| .cancelsGet _ | .cancelsPop _ => true
| _ => false

/- Until the stream is driven every failure is unguarded. -/
theorem exposed_entered
    {moments : List DriverMoment}
    (hCalls :
      ∀ op reply,
        Moment.called op reply ∈ moments →
          op.cancels = false) :
    ExitStage.entered.through moments = .entered ∧
      (exposed .entered moments = true ↔ faults moments ≠ 0) := by
  induction moments with
  | nil => exact ⟨rfl, by simp [exposed]⟩
  | cons moment moments ih =>
      have hAfter : ExitStage.entered.after moment = .entered := by
        cases moment with
        | called op reply =>
            have hOp := hCalls op reply List.mem_cons_self
            cases op <;> first | rfl | cases hOp
        | taken event => rfl
        | closed event => rfl
      rcases
          ih fun op reply hMem =>
            hCalls op reply (List.mem_cons_of_mem _ hMem) with
        ⟨hThrough, hExposed⟩
      constructor
      · rw [ExitStage.through, List.foldl_cons, hAfter]
        exact hThrough
      · rw [exposed, hAfter, Bool.or_eq_true, hExposed,
          faults_cons]
        change moment.failed = true ∨ _ ↔ _
        cases moment.failed <;> simp

------------------------------------------------------------
-- Minor Calls
------------------------------------------------------------

/-
  The calls that change no status and no cancel flag, and
  that settle nothing.
-/
def Op.minor : Op → Bool
| .openRun .. | .setRunStatus .. | .tryTransition ..
| .commitAgentAnswer .. | .getThreadCitations ..
| .cancelsCreate .. | .cancelsSetdefault ..
| .cancelsGet .. | .cancelsPop .. => false
| _ => true

theorem settles_of_minor
    {op : Op}
    (hMinor : op.minor = true) :
    op.settles = false := by
  cases op <;> first | rfl | cases hMinor

theorem cancels_of_minor
    {op : Op}
    (hMinor : op.minor = true) :
    op.cancels = false := by
  cases op <;> first | rfl | cases hMinor

/- The cancel flags after a call that is not about them. -/
theorem cancels_of_exec
    {inst : InstanceId}
    {op : Op}
    {world : World}
    (hOp : op.cancels = false) :
    ((exec inst op world).2.instances inst).cancels =
      (world.instances inst).cancels := by
  cases op with
  | cancelsCreate runId => cases hOp
  | cancelsSetdefault runId => cases hOp
  | cancelsGet runId => cases hOp
  | cancelsPop runId => cases hOp
  | activeAdd runId => simp [exec, World.setInstance]
  | activeDiscard runId => simp [exec, World.setInstance]
  | _ => rfl

/- The statuses after a minor call. -/
theorem status_of_minor
    {inst : InstanceId}
    {op : Op}
    {world : World}
    (hMinor : op.minor = true)
    (runId : RunId) :
    (exec inst op world).2.db.status? runId =
      world.db.status? runId := by
  rcases hExec : exec inst op world with ⟨exn | value, world'⟩
  · rw [world_of_error hExec]
  · have hChanges := changesRuns_of_exec hExec
    cases hChanges with
    | kept hKept hRuns => exact status?_of_runs hRuns runId
    | opened => cases hMinor
    | set => cases hMinor
    | missing => cases hMinor
    | moved => cases hMinor
    | committed => cases hMinor

/- The statuses and the cancel flags are as they were. -/
structure Unchanged
    (inst : InstanceId)
    (world world' : World) :
    Prop where
  status :
    ∀ runId, world'.db.status? runId = world.db.status? runId
  cancels :
    (world'.instances inst).cancels =
      (world.instances inst).cancels

/- The protocol of programs that make minor calls only. -/
def minorProtocol :
    Protocol Op Op.Reply Exn RunEvent Unit where
  allows := fun _ op => op.minor = true
  possible := Possible
  after := fun _ _ _ => ()
  yields := fun _ _ => True
  taken := fun _ _ => ()
  closed := fun _ _ => ()
  stop := .generatorExit

/- How a program of minor calls ends. -/
def minorEnd
    {α : Type}
    (done : α → Prop) :
    Bool → Except Exn α → Unit → Prop
| false, .ok value, _ => done value
| false, .error exn, _ => exn.isException = true
| true, .ok _, _ => False
| true, .error exn, _ => exn = .generatorExit

/- A program makes minor calls only. -/
abbrev Driver.Minor
    {α : Type}
    (program : Driver α)
    (done : α → Prop) :
    Prop :=
  Gen.follows minorProtocol program false () (minorEnd done)

/- Calls of an instance come back as they can. -/
theorem driver_serves (inst : InstanceId) :
    Gen.Serves (driverMachine inst) minorProtocol where
  stop := rfl
  possible := fun op world => exec_possible inst op world
  fault := by
    intro op exn hFault
    have hExecutes :
        Executes inst op .empty true (.error exn) .empty :=
      .fault hFault
    exact hExecutes.possible

/- A program of minor calls changes no status and no flag. -/
theorem runs_minor
    {α : Type}
    {program : Driver α}
    {done : α → Prop}
    {inst : InstanceId}
    {world last : World}
    {moments : List DriverMoment}
    {result : Except Exn α}
    (hMinor : program.Minor done)
    (hRuns :
      Gen.Runs (driverMachine inst) program world moments result
        last) :
    Unchanged inst world last ∧
      (∀ op reply,
        Moment.called op reply ∈ moments →
          op.minor = true) ∧
        (∀ value, result = .ok value → done value) ∧
          ∀ exn,
            result = .error exn →
              faults moments = 0 → exn.isException = true := by
  have hKeeps :
      ∀ (_ : Unit) op middle,
        op.minor = true →
          Unchanged inst world middle →
            Unchanged inst world (exec inst op middle).2 := by
    intro _ op middle hOp hSame
    refine ⟨?_, ?_⟩
    · intro runId
      exact
        (status_of_minor hOp runId).trans (hSame.status runId)
    · exact
        (cancels_of_exec (cancels_of_minor hOp)).trans
          hSame.cancels
  rcases
      Gen.runs_of_follows (Unchanged inst world)
        (driver_serves inst) hMinor hKeeps hRuns
        ⟨fun _ => rfl, rfl⟩ with
    ⟨hLast, hCalls, quiet, _, hPost, hQuiet⟩
  refine ⟨hLast, ?_, ?_, ?_⟩
  · intro op reply hMem
    rcases hCalls op reply hMem with ⟨_, hOp⟩
    exact hOp
  · rintro value rfl
    cases quiet with
    | false => exact hPost
    | true => exact absurd hPost id
  · rintro exn rfl hNone
    cases quiet with
    | false => exact hPost
    | true =>
        rcases hQuiet rfl with hFalse | hFault
        · cases hFalse
        · omega

section Minor

variable {α β : Type} {done : α → Prop}

/- The rule of a minor call. -/
theorem minor_call
    {op : Op}
    {next : op.Reply → Driver α}
    (hOp : op.minor = true)
    (hNext : ∀ value, (next value).Minor done) :
    Driver.Minor (call op >>= next) done := by
  refine Gen.follows_perform_bind hOp ?_ ?_
  · intro value _
    exact hNext value
  · intro exn hPossible
    exact (hPossible.error exn rfl).1

theorem minor_lastCall
    {op : Op}
    (hOp : op.minor = true) :
    Driver.Minor (call op) fun _ => True := by
  refine ⟨hOp, ?_⟩
  intro reply hPossible
  cases reply with
  | ok value => exact trivial
  | error exn => exact (hPossible.error exn rfl).1

/- The rule of a yield. -/
theorem minor_yield
    {event : RunEvent}
    {next : Unit → Driver α}
    (hNext : (next ()).Minor done) :
    Driver.Minor (Gen.emit event >>= next) done :=
  Gen.follows_emit_bind trivial hNext rfl

/- The rule of `do` blocks. -/
theorem minor_bind
    {program : Driver β}
    {next : β → Driver α}
    {first : β → Prop}
    (hFirst : program.Minor first)
    (hNext : ∀ value, first value → (next value).Minor done) :
    Driver.Minor (program >>= next) done := by
  apply Gen.follows_bind_of_loud hFirst
  · intro value phase hPost
    exact hNext value hPost
  · intro quiet exn phase hPost
    cases quiet with
    | false => exact hPost
    | true => exact hPost
  · intro value phase hPost
    exact hPost

theorem minor_emit
    (data : EventData)
    (threadId : ThreadId) :
    (RunService.emit data threadId).Minor fun _ => True :=
  minor_call rfl fun _ => ⟨rfl, trivial, trivial, rfl⟩

theorem minor_handleCalls
    (rs : RunState)
    (threadId : ThreadId)
    (calls : List ToolCall) :
    (RunService.handleCalls rs threadId calls).Minor
      fun _ => True := by
  induction calls with
  | nil => exact trivial
  | cons toolCall calls ih =>
      rw [RunService.handleCalls]
      apply minor_call rfl
      intro row
      exact minor_yield ih

theorem minor_handleArticles
    (threadId : ThreadId)
    (rs : RunState)
    (refs : List LawRef) :
    (RunService.handleArticles threadId rs refs).Minor
      fun rs' => rs'.runId = rs.runId := by
  induction refs generalizing rs with
  | nil => exact rfl
  | cons ref refs ih =>
      rw [RunService.handleArticles]
      split
      · exact ih rs
      · apply minor_call rfl
        intro _
        apply minor_bind (minor_emit _ threadId)
        intro _ _
        exact ih (rs.freeze ref)

theorem minor_handleArtifact
    (rs : RunState)
    (threadId : ThreadId)
    (artifact : Artifact) :
    (RunService.handleArtifact rs threadId artifact).Minor
      fun rs' => rs'.runId = rs.runId := by
  unfold RunService.handleArtifact
  cases hArticles : articlesOf artifact with
  | ok refs => exact minor_handleArticles threadId rs refs
  | error exn =>
      cases artifact with
      | dict =>
          cases hArticles
          exact rfl
      | absent => cases hArticles
      | context articles => cases hArticles

theorem minor_storeResult
    (rs : RunState)
    (callId : Option Text)
    (content : Content) :
    (RunService.storeResult rs callId content).Minor
      fun _ => True := by
  match callId with
  | some (c :: id) => exact minor_lastCall rfl
  | some [] => exact trivial
  | none => exact trivial

theorem minor_handleMessage
    (rs : RunState)
    (threadId : ThreadId)
    (message : StreamMessage) :
    (RunService.handleMessage rs threadId message).Minor
      fun rs' => rs'.runId = rs.runId := by
  cases message with
  | ai content calls =>
      rw [RunService.handleMessage]
      apply minor_bind (minor_handleCalls rs threadId calls)
      intro _ _
      split
      · exact rfl
      · exact rfl
  | tool callId content artifact =>
      rw [RunService.handleMessage]
      apply minor_call rfl
      intro seq
      apply minor_bind (minor_storeResult rs callId _)
      intro _ _
      exact
        minor_yield (minor_handleArtifact rs threadId artifact)

/- The messages of a chunk are handled by minor calls. -/
theorem minor_handleChunk
    (threadId : ThreadId)
    (rs : RunState)
    (messages : List StreamMessage) :
    (RunService.handleChunk threadId rs messages).Minor
      fun rs' => rs'.runId = rs.runId := by
  induction messages generalizing rs with
  | nil => exact rfl
  | cons message messages ih =>
      rw [RunService.handleChunk]
      apply
        minor_bind
          (minor_handleMessage rs threadId message)
      intro rs' hRun
      rw [← hRun]
      exact ih rs'

theorem minor_isCancelled (cancel : Option FlagId) :
    (RunService.isCancelled cancel).Minor fun _ => True := by
  cases cancel with
  | none => exact trivial
  | some flag => exact minor_lastCall rfl

theorem minor_approvedSet
    (runId : RunId)
    (approve : Bool)
    (approvedIds : Option (List Text)) :
    (RunService.approvedSet runId approve approvedIds).Minor
      fun _ => True := by
  cases approvedIds with
  | none => exact trivial
  | some ids =>
      apply minor_call rfl
      intro pending
      exact trivial

theorem minor_announceRejected
    (threadId : ThreadId)
    (ids : List (Option Text)) :
    (RunService.announceRejected threadId ids).Minor
      fun _ => True := by
  induction ids with
  | nil => exact trivial
  | cons id ids ih =>
      rw [RunService.announceRejected]
      apply minor_call rfl
      intro seq
      exact minor_yield ih

theorem minor_markApproval
    (runId : RunId)
    (threadId : ThreadId)
    (approved : Option (List Text)) :
    (RunService.markApproval runId threadId approved).Minor
      fun _ => True := by
  cases approved with
  | none => exact minor_lastCall rfl
  | some approved =>
      rw [RunService.markApproval]
      apply minor_call rfl
      intro rejected
      apply minor_call rfl
      intro _
      exact minor_announceRejected threadId rejected

end Minor

------------------------------------------------------------
-- Status Changes
------------------------------------------------------------

section Changes

variable {inst : InstanceId} {runId : RunId}
variable {world world' : World}

/- A run is running. -/
def Running (runId : RunId) (world : World) : Prop :=
  world.db.status? runId = some .running

/- A run that was tried to end is not running. -/
theorem not_running_of_end
    {status : RunStatus}
    {ended won : Bool}
    (hStatus : status ≠ .running)
    (hExec :
      exec inst (.tryTransition runId .running status ended)
          world =
        (.ok won, world')) :
    ¬Running runId world' := by
  intro hRunning
  rcases of_tryTransition (statement_of_onDb hExec) with
    ⟨-, hNot, hSame⟩ | ⟨-, run, hRun, -, -, hWritten⟩
  · rw [Running, hSame] at hRunning
    exact hNot hRunning
  · have hSet :=
      status?_of_written hRun (congrArg Db.runs hWritten)
    rw [Running, hSet, Option.some_inj] at hRunning
    exact hStatus hRunning

/- The status of a run after a change that won. -/
theorem status_of_won
    {fromStatus toStatus : RunStatus}
    {ended : Bool}
    (hExec :
      exec inst
          (.tryTransition runId fromStatus toStatus ended)
          world =
        (.ok true, world')) :
    world'.db.status? runId = some toStatus := by
  rcases of_tryTransition (statement_of_onDb hExec) with
    ⟨hFalse, -⟩ | ⟨-, run, hRun, -, -, hWritten⟩
  · cases hFalse
  · exact status?_of_written hRun (congrArg Db.runs hWritten)

/- A run whose answer was tried to commit is not running. -/
theorem not_running_of_commit
    {threadId : ThreadId}
    {contentMd : Text}
    {citationIds : List Text}
    {parentId : Option MessageId}
    {model : Option Text}
    {row : Option (MessageId × Nat)}
    (hExec :
      exec inst
          (.commitAgentAnswer threadId runId contentMd
            citationIds parentId model)
          world =
        (.ok row, world')) :
    ¬Running runId world' := by
  intro hRunning
  rcases of_commitAgentAnswer (statement_of_onDb hExec) with
    ⟨-, hNot, hSame⟩ |
      ⟨messageId, seq, links, db₁, -, -, hInsert, hDb⟩
  · rw [Running, hSame] at hRunning
    exact hNot hRunning
  · have hRuns :
        world'.db.runs =
          (world.db.writeStatus runId .completed true).runs := by
      rw [hDb, ← runs_of_insertMessage hInsert]
    rw [Running, status?_of_runs hRuns, status?_writeStatus,
      if_pos rfl] at hRunning
    cases hStatus : world.db.status? runId <;>
      rw [hStatus] at hRunning <;> cases hRunning

/- A paused run is not running. -/
theorem not_running_of_pause
    {ended : Bool}
    (hExec :
      exec inst (.setRunStatus runId .awaitingApproval ended)
          world =
        (.ok (), world')) :
    ¬Running runId world' := by
  intro hRunning
  rcases of_setRunStatus (statement_of_onDb hExec) with
    ⟨hNone, hSame⟩ | ⟨run, hRun, -, hWritten⟩
  · rw [Running, hSame, Db.status?, hNone] at hRunning
    cases hRunning
  · have hSet :=
      status?_of_written hRun (congrArg Db.runs hWritten)
    rw [Running, hSet] at hRunning
    cases hRunning

/- What does not change a status keeps a run running. -/
theorem Unchanged.running
    (hSame : Unchanged inst world world') :
    Running runId world' ↔ Running runId world := by
  rw [Running, hSame.status, Running]

end Changes

------------------------------------------------------------
-- Guarded Programs
------------------------------------------------------------

section Guards

variable {α β : Type} {inst : InstanceId} {runId : RunId}
variable {world last : World} {moments : List DriverMoment}

/- A call in a `do` block replies, or it ends the block. -/
theorem runs_driverCall
    {op : Op}
    {next : op.Reply → Driver α}
    {result : Except Exn α}
    (hRuns :
      Gen.Runs (driverMachine inst) (call op >>= next) world
        moments result last) :
    (∃ exn : Exn,
        result = .error exn ∧
          moments = [.called op (.error exn)] ∧ last = world ∧
            exn.isException = true ∧ op.kind ≠ .memory) ∨
      ∃ value middle after,
        moments = .called op (.ok value) :: after ∧
          exec inst op world = (.ok value, middle) ∧
            Gen.Runs (driverMachine inst) (next value) middle
              after result last := by
  rcases Gen.runs_call hRuns with
    ⟨exn, rfl, rfl, hFailed⟩ |
      ⟨value, middle, after, rfl, hExec, hNext⟩
  · left
    rcases hFailed with hExec | ⟨hFault, rfl⟩
    · have hPossible := exec_possible inst op world
      have hOp : exec inst op world = (.error exn, last) := hExec
      rw [hOp] at hPossible
      rcases hPossible.error exn rfl with ⟨hException, hKind⟩
      exact
        ⟨exn, rfl, rfl, world_of_error hOp, hException, hKind⟩
    · rcases
          ((driver_serves inst).fault op exn hFault).error exn rfl with
        ⟨hException, hKind⟩
      exact ⟨exn, rfl, rfl, rfl, hException, hKind⟩
  · exact Or.inr ⟨value, middle, after, rfl, hExec, hNext⟩

/-
  How a program inside the inner `try` ends: nothing that
  settles the answer failed, and an exception that is no
  failure finds the run running.
-/
structure Exits
    (runId : RunId)
    (done : α → World → Prop)
    (moments : List DriverMoment)
    (result : Except Exn α)
    (last : World) :
    Prop where
  guarded : exposed .driving moments = false
  value : ∀ value, result = .ok value → done value last
  raised :
    ∀ exn,
      result = .error exn →
        faults moments = 0 →
          Running runId last ∧ exn.isException = true

/- A program ends so however it runs. -/
def Driver.Guards
    (inst : InstanceId)
    (runId : RunId)
    (program : Driver α)
    (world : World)
    (done : α → World → Prop) :
    Prop :=
  ∀ moments result last,
    Gen.Runs (driverMachine inst) program world moments result
        last →
      Exits runId done moments result last

theorem guards_pure
    {done : α → World → Prop}
    {value : α}
    (hDone : done value world) :
    Driver.Guards inst runId (pure value) world done := by
  intro moments result last hRuns
  rcases Gen.runs_ret hRuns with ⟨rfl, rfl, rfl⟩
  refine ⟨rfl, ?_, ?_⟩
  · intro value' hEq
    cases hEq
    exact hDone
  · intro exn hEq
    cases hEq

/- The rule of `do` blocks. -/
theorem guards_bind
    {program : Driver β}
    {next : β → Driver α}
    {first : β → World → Prop}
    {done : α → World → Prop}
    (hFirst : Driver.Guards inst runId program world first)
    (hNext :
      ∀ value middle,
        first value middle →
          Driver.Guards inst runId (next value) middle done) :
    Driver.Guards inst runId (program >>= next) world
      done := by
  intro moments result last hRuns
  rcases Gen.runs_bind hRuns with
    ⟨exn, rfl, hFailed⟩ |
      ⟨before, after, value, middle, rfl, hBefore, hAfter⟩
  · have hExits := hFirst _ _ _ hFailed
    refine ⟨hExits.guarded, ?_, ?_⟩
    · intro value hEq
      cases hEq
    · intro exn' hEq
      cases hEq
      exact hExits.raised exn rfl
  · have hExits := hFirst _ _ _ hBefore
    have hRest :=
      hNext value middle (hExits.value value rfl) _ _ _ hAfter
    refine ⟨?_, hRest.value, ?_⟩
    · rw [exposed_driving_append, hExits.guarded, hRest.guarded]
      rfl
    · intro exn hEq hNone
      rw [faults_append] at hNone
      exact hRest.raised exn hEq (Nat.eq_zero_of_add_eq_zero hNone).2

/- The rule of a call that settles nothing. -/
theorem guards_call
    {op : Op}
    {next : op.Reply → Driver α}
    {done : α → World → Prop}
    (hOp : op.settles = false)
    (hNext :
      ∀ value middle,
        exec inst op world = (.ok value, middle) →
          Driver.Guards inst runId (next value) middle done) :
    Driver.Guards inst runId (call op >>= next) world
      done := by
  intro moments result last hRuns
  rcases runs_driverCall hRuns with
    ⟨exn, rfl, rfl, rfl, -, -⟩ |
      ⟨value, middle, after, rfl, hExec, hAfter⟩
  · refine ⟨?_, ?_, ?_⟩
    · simp only [exposed, ExitStage.unguarded, hOp,
        Bool.or_false]
    · intro value hEq
      cases hEq
    · intro exn' _ hNone
      simp at hNone
  · have hRest := hNext value middle hExec _ _ _ hAfter
    refine ⟨hRest.guarded, hRest.value, ?_⟩
    intro exn hEq hNone
    exact hRest.raised exn hEq (by simpa using hNone)

/- Minor calls leave a running run running. -/
theorem guards_minor
    {program : Driver α}
    {done : α → Prop}
    (hMinor : program.Minor done)
    (hRunning : Running runId world) :
    Driver.Guards inst runId program world fun value last =>
      done value ∧ Running runId last := by
  intro moments result last hRuns
  rcases runs_minor hMinor hRuns with
    ⟨hSame, hCalls, hValue, hRaised⟩
  have hLast := hSame.running.mpr hRunning
  refine ⟨?_, ?_, ?_⟩
  · exact
      exposed_of_settles fun op reply hMem =>
        settles_of_minor (hCalls op reply hMem)
  · intro value hEq
    exact ⟨hValue value hEq, hLast⟩
  · intro exn hEq hNone
    exact ⟨hLast, hRaised exn hEq hNone⟩

/- Straight minor calls raise nothing by themselves. -/
theorem guards_straight
    {program : Driver α}
    (hMinor : program.Minor fun _ => True)
    (hStraight : program.Straight)
    (hNot : ¬Running runId world) :
    Driver.Guards inst runId program world fun _ last =>
      ¬Running runId last := by
  intro moments result last hRuns
  rcases runs_minor hMinor hRuns with ⟨hSame, hCalls, -, -⟩
  refine ⟨?_, ?_, ?_⟩
  · exact
      exposed_of_settles fun op reply hMem =>
        settles_of_minor (hCalls op reply hMem)
  · intro _ _ hLast
    exact hNot (hSame.running.mp hLast)
  · intro exn hEq hNone
    rcases Gen.runs_straight hStraight hRuns with
      ⟨value, hOk, -⟩ | ⟨exn', -, hOne⟩
    · rw [hOk] at hEq
      cases hEq
    · omega

/- A straight call in a `do` block. -/
theorem straight_call
    {op : Op}
    {next : op.Reply → Driver α}
    (hNext : ∀ value, (next value).Straight) :
    (call op >>= next).Straight :=
  Gen.straight_bind (Gen.straight_perform op) hNext

theorem straight_emit
    (data : EventData)
    (threadId : ThreadId) :
    (RunService.emit data threadId).Straight :=
  straight_call fun _ => Gen.straight_emit _

------------------------------------------------------------
-- Streams
------------------------------------------------------------

variable {rs : RunState} {threadId : ThreadId}

/- A driver stops its run when the user asked to cancel it. -/
theorem guards_cancelRun
    (hRun : rs.runId = runId)
    (hRunning : Running runId world) :
    Driver.Guards inst runId (RunService.cancelRun rs threadId)
      world fun _ last => ¬Running runId last := by
  have hClear :
      (RunService.exceptException
          (call (.clearInterruptedTools threadId))
          (pure ())).Minor fun _ => True := by
    apply Gen.follows_tryCatch
    refine ⟨rfl, ?_⟩
    intro reply hPossible
    cases reply with
    | ok value => exact trivial
    | error exn =>
        have hException := (hPossible.error exn rfl).1
        change
          Driver.Minor
            (if exn.isException = true then pure ()
              else Gen.raise exn)
            _
        rw [if_pos hException]
        exact trivial
  rw [RunService.cancelRun, hRun]
  apply guards_bind (guards_minor hClear hRunning)
  rintro _ cleared ⟨-, hCleared⟩
  apply guards_call rfl
  intro _ resolved hResolve
  apply guards_call rfl
  intro won ended hEnd
  have hNot := not_running_of_end (by decide) hEnd
  cases won with
  | false => exact guards_pure hNot
  | true =>
      exact
        guards_straight (minor_emit _ threadId)
          (straight_emit _ threadId) hNot

/- A driver pauses its run. -/
theorem guards_pauseRun
    (hRun : rs.runId = runId)
    (values : Option (List (Option Text))) :
    Driver.Guards inst runId
      (RunService.pauseRun rs threadId values) world
      fun _ last => ¬Running runId last := by
  rw [RunService.pauseRun, hRun]
  apply guards_call rfl
  intro _ paused hPause
  refine
    guards_straight ?_ ?_ (not_running_of_pause hPause)
  · apply minor_call rfl
    intro _
    apply minor_call rfl
    intro tools
    exact minor_emit _ threadId
  · apply straight_call
    intro _
    apply straight_call
    intro tools
    exact straight_emit _ threadId

/- Where a stream leaves the run. -/
def streamEnd (runId : RunId) : Option RunState → World → Prop
| some rs, world => rs.runId = runId ∧ Running runId world
| none, world => ¬Running runId world

/- A call of the stream leaves a running run running. -/
theorem guards_minorCall
    {op : Op}
    {next : op.Reply → Driver α}
    {done : α → World → Prop}
    (hOp : op.minor = true)
    (hRunning : Running runId world)
    (hNext :
      ∀ value middle,
        Running runId middle →
          Driver.Guards inst runId (next value) middle done) :
    Driver.Guards inst runId (call op >>= next) world
      done := by
  apply guards_call (settles_of_minor hOp)
  intro value middle hExec
  apply hNext value middle
  have hStatus := @status_of_minor inst op world hOp runId
  rw [hExec] at hStatus
  exact hStatus.trans hRunning

/- The chunks of a stream, up to its end or to a stop. -/
theorem guards_consumeStream
    (hRun : rs.runId = runId)
    (hRunning : Running runId world)
    (cancel : Option FlagId)
    (steps : List GraphStep)
    (state : GraphState) :
    Driver.Guards inst runId
      (RunService.consumeStream cancel threadId steps state rs)
      world (streamEnd runId) := by
  induction steps generalizing state rs world with
  | nil =>
      rw [RunService.consumeStream]
      apply guards_minorCall rfl hRunning
      intro _ middle hMiddle
      exact guards_pure ⟨hRun, hMiddle⟩
  | cons step steps ih =>
      rw [RunService.consumeStream]
      apply guards_minorCall rfl hRunning
      intro reply middle hMiddle
      cases reply with
      | none => exact guards_pure ⟨hRun, hMiddle⟩
      | some next =>
          rcases next with ⟨chunk, state'⟩
          apply
            guards_bind
              (guards_minor (minor_isCancelled cancel)
                hMiddle)
          rintro stopped asked ⟨-, hAsked⟩
          cases stopped with
          | true =>
              apply guards_bind (guards_cancelRun hRun hAsked)
              intro _ last hNot
              exact guards_pure hNot
          | false =>
              cases chunk with
              | interrupt values =>
                  apply
                    guards_bind (guards_pauseRun hRun values)
                  intro _ last hNot
                  exact guards_pure hNot
              | updates messages =>
                  apply
                    guards_bind
                      (guards_minor
                        (minor_handleChunk threadId rs messages)
                        hAsked)
                  rintro rs' handled ⟨hSame, hHandled⟩
                  exact ih (hSame.trans hRun) hHandled state'

------------------------------------------------------------
-- Drives
------------------------------------------------------------

/-
  How the body of a drive ends: it was closed where that is
  guarded, or the run is still running if and only if a call
  failed that settles the answer.
-/
def Settled
    (runId : RunId)
    (moments : List DriverMoment)
    (result : Except Exn α)
    (last : World) :
    Prop :=
  (result = .error .generatorExit ∧ faults moments = 1 ∧
      exposed .driving moments = false) ∨
    (result ≠ .error .generatorExit ∧
      (Running runId last ↔ exposed .driving moments = true))

/- Straight minor calls after the run has ended. -/
theorem settled_straight
    {program : Driver α}
    {result : Except Exn α}
    (hMinor : program.Minor fun _ => True)
    (hStraight : program.Straight)
    (hNot : ¬Running runId world)
    (hRuns :
      Gen.Runs (driverMachine inst) program world moments result
        last) :
    Settled runId moments result last := by
  have hExits :=
    guards_straight hMinor hStraight hNot _ _ _ hRuns
  rcases runs_minor hMinor hRuns with ⟨hSame, -, -, -⟩
  have hLast : ¬Running runId last := by
    rw [hSame.running]
    exact hNot
  by_cases hClosed : result = .error .generatorExit
  · left
    rcases Gen.runs_straight hStraight hRuns with
      ⟨value, hOk, -⟩ | ⟨exn, -, hOne⟩
    · rw [hOk] at hClosed
      cases hClosed
    · exact ⟨hClosed, hOne, hExits.guarded⟩
  · right
    refine ⟨hClosed, ?_⟩
    rw [hExits.guarded]
    simp [hLast]

theorem settled_pure
    {value : α}
    {result : Except Exn α}
    (hNot : ¬Running runId world)
    (hRuns :
      Gen.Runs (driverMachine inst)
        (pure value : Driver α) world moments result last) :
    Settled runId moments result last := by
  rcases Gen.runs_ret hRuns with ⟨rfl, rfl, rfl⟩
  exact Or.inr ⟨nofun, by simp [hNot, exposed]⟩

/- Moments before that are guarded change nothing. -/
theorem settled_after
    {before after : List DriverMoment}
    {result : Except Exn α}
    (hBefore : exposed .driving before = false)
    (hSingle : faults (before ++ after) ≤ 1)
    (hSettled : Settled runId after result last) :
    Settled runId (before ++ after) result last := by
  unfold Settled at hSettled ⊢
  rw [exposed_driving_append, hBefore, Bool.false_or]
  rw [faults_append] at hSingle ⊢
  rcases hSettled with ⟨hClosed, hOne, hGuarded⟩ | hOpen
  · exact Or.inl ⟨hClosed, by omega, hGuarded⟩
  · exact Or.inr hOpen

/- A call that settles the answer is followed by the rest. -/
theorem settled_call
    {op : Op}
    {next : op.Reply → Driver α}
    {result : Except Exn α}
    (hOp : op.settles = true)
    (hRunning : Running runId world)
    (hNext :
      ∀ value middle,
        exec inst op world = (.ok value, middle) →
          ∀ after,
            Gen.Runs (driverMachine inst) (next value) middle
                after result last →
              Settled runId after result last)
    (hRuns :
      Gen.Runs (driverMachine inst) (call op >>= next) world
        moments result last) :
    Settled runId moments result last := by
  rcases runs_driverCall hRuns with
    ⟨exn, rfl, rfl, rfl, hException, -⟩ |
      ⟨value, middle, after, rfl, hExec, hAfter⟩
  · right
    constructor
    · intro hEq
      cases hEq
      cases hException
    · simp [exposed, ExitStage.unguarded, hOp, hRunning]
  · have hSettled := hNext value middle hExec after hAfter
    unfold Settled at hSettled ⊢
    rw [faults_cons, failed_ok]
    exact hSettled

/- A driver checks its draft and commits the answer. -/
theorem settled_finalize
    {result : Except Exn Unit}
    (hRun : rs.runId = runId)
    (hRunning : Running runId world)
    (hRuns :
      Gen.Runs (driverMachine inst)
        (RunService.finalize rs threadId) world moments result
        last) :
    Settled runId moments result last := by
  simp only [RunService.finalize] at hRuns
  rw [hRun] at hRuns
  refine settled_call rfl hRunning ?_ hRuns
  intro linked middle hCited after hAfter
  have hMiddle : Running runId middle := by
    cases hCited
    exact hRunning
  split at hAfter
  · refine settled_call rfl hMiddle ?_ hAfter
    intro won ended hEnd rest hRest
    have hNot := not_running_of_end (by decide) hEnd
    cases won with
    | false =>
        exact settled_pure hNot hRest
    | true =>
        exact
          settled_straight (minor_emit _ threadId)
            (straight_emit _ threadId) hNot hRest
  · refine settled_call rfl hMiddle ?_ hAfter
    intro row ended hCommit rest hRest
    have hNot := not_running_of_commit hCommit
    cases row with
    | none =>
        exact settled_pure hNot hRest
    | some row =>
        refine settled_straight ?_ ?_ hNot hRest
        · exact minor_yield (minor_emit _ threadId)
        · exact
            Gen.straight_bind (Gen.straight_emit _) fun _ =>
              straight_emit _ threadId

/- A moment before that does not fail changes nothing. -/
theorem settled_cons
    {op : Op}
    {value : op.Reply}
    {result : Except Exn α}
    (hSettled : Settled runId moments result last) :
    Settled runId (.called op (.ok value) :: moments) result
      last := by
  unfold Settled at hSettled ⊢
  rw [faults_cons, failed_ok]
  exact hSettled

/- A driver answers an exception by ending its run. -/
theorem settled_failRun
    {result : Except Exn Unit}
    (hRun : rs.runId = runId)
    (hRunning : 0 < faults moments → Running runId world)
    (hRuns :
      Gen.Runs (driverMachine inst)
        (RunService.failRun rs threadId) world moments result
        last) :
    Settled runId moments result last := by
  rw [RunService.failRun, hRun] at hRuns
  rcases runs_driverCall hRuns with
    ⟨exn, rfl, rfl, rfl, hException, -⟩ |
      ⟨won, ended, after, rfl, hEnd, hAfter⟩
  · right
    constructor
    · intro hEq
      cases hEq
      cases hException
    · simp [exposed, ExitStage.unguarded, Op.settles,
        hRunning]
  · have hNot := not_running_of_end (by decide) hEnd
    apply settled_cons
    cases won with
    | false => exact settled_pure hNot hAfter
    | true =>
        refine settled_straight ?_ ?_ hNot hAfter
        · exact minor_call rfl fun _ => minor_emit _ threadId
        · exact straight_call fun _ => straight_emit _ threadId

/- A result that is not closed may be replaced by another. -/
theorem settled_result
    {result : Except Exn α}
    {result' : Except Exn β}
    (hClosed :
      result = .error .generatorExit ↔
        result' = .error .generatorExit)
    (hSettled : Settled runId moments result last) :
    Settled runId moments result' last := by
  unfold Settled at hSettled ⊢
  rw [← hClosed, ne_eq, ← hClosed]
  exact hSettled

/-
  The exceptions of a stream end the run; without one the
  stream was stopped or goes on to the answer.
-/
theorem runs_driveStream
    {start : Driver GraphState}
    {result : Except Exn (Option RunState)}
    (hRun : rs.runId = runId)
    (hRunning : Running runId world)
    (hStart : start.Minor fun _ => True)
    (cancel : Option FlagId)
    (script : List GraphStep)
    (hSingle : faults moments ≤ 1)
    (hRuns :
      Gen.Runs (driverMachine inst)
        (RunService.driveStream cancel start script rs threadId)
        world moments result last) :
    (∃ rs',
        result = .ok (some rs') ∧ rs'.runId = runId ∧
          Running runId last ∧ exposed .driving moments = false) ∨
      (∀ rs', result ≠ .ok (some rs')) ∧
        Settled runId moments result last := by
  rcases Gen.runs_andThen hRuns with
    ⟨before, after, ended, middle, rfl, hBody, hRest⟩
  have hExits :
      Exits runId (streamEnd runId) before ended middle := by
    refine
      guards_bind (guards_minor hStart hRunning) ?_ _ _ _ hBody
    rintro state begun ⟨-, hBegun⟩
    exact guards_consumeStream hRun hBegun cancel script state
  match ended with
  | .ok (some rs') =>
      rcases Gen.runs_ret hRest with ⟨rfl, rfl, rfl⟩
      rcases hExits.value _ rfl with ⟨hSame, hLast⟩
      rw [List.append_nil]
      exact Or.inl ⟨rs', rfl, hSame, hLast, hExits.guarded⟩
  | .ok none =>
      rcases Gen.runs_ret hRest with ⟨rfl, rfl, rfl⟩
      have hNot : ¬Running runId last := hExits.value _ rfl
      rw [List.append_nil]
      refine Or.inr ⟨nofun, Or.inr ⟨nofun, ?_⟩⟩
      rw [hExits.guarded]
      simp [hNot]
  | .error exn =>
      right
      by_cases hException : exn.isException = true
      · simp only [hException, if_true] at hRest
        have hMiddle :
            0 < faults after → Running runId middle := by
          intro hFault
          rw [faults_append] at hSingle
          exact (hExits.raised exn rfl (by omega)).1
        rcases Gen.runs_bind hRest with
          ⟨exn', rfl, hFail⟩ |
            ⟨first, more, _, failed, rfl, hFail, hNone⟩
        · refine ⟨nofun, ?_⟩
          apply settled_after hExits.guarded hSingle
          refine settled_result ?_
            (settled_failRun hRun hMiddle hFail)
          simp
        · rcases Gen.runs_ret hNone with ⟨rfl, rfl, rfl⟩
          rw [List.append_nil] at hSingle hMiddle ⊢
          refine ⟨nofun, ?_⟩
          apply settled_after hExits.guarded hSingle
          refine settled_result ?_
            (settled_failRun hRun hMiddle hFail)
          simp
      · simp only [hException] at hRest
        rcases Gen.runs_ret hRest with ⟨rfl, rfl, rfl⟩
        rw [List.append_nil] at hSingle ⊢
        have hClosed : exn = .generatorExit := by
          cases exn <;> first | rfl | exact absurd rfl hException
        have hFault : faults before ≠ 0 := by
          intro hNone
          exact hException (hExits.raised exn rfl hNone).2
        refine ⟨nofun, Or.inl ⟨by rw [hClosed], ?_, ?_⟩⟩
        · omega
        · exact hExits.guarded

/- A stream that ended leads to the final answer. -/
theorem settled_driveBody
    {start : Driver GraphState}
    {result : Except Exn Unit}
    (hRun : rs.runId = runId)
    (hRunning : Running runId world)
    (hStart : start.Minor fun _ => True)
    (cancel : Option FlagId)
    (script : List GraphStep)
    (hSingle : faults moments ≤ 1)
    (hRuns :
      Gen.Runs (driverMachine inst)
        (RunService.driveBody cancel start script rs threadId)
        world moments result last) :
    Settled runId moments result last := by
  rcases Gen.runs_bind hRuns with
    ⟨exn, rfl, hFailed⟩ |
      ⟨before, after, value, middle, rfl, hStream, hRest⟩
  · rcases runs_driveStream hRun hRunning hStart cancel script
        hSingle hFailed with
      ⟨rs', hEq, -⟩ | ⟨-, hSettled⟩
    · cases hEq
    · exact settled_result (by simp) hSettled
  · have hBefore : faults before ≤ 1 := by
      rw [faults_append] at hSingle
      omega
    rcases runs_driveStream hRun hRunning hStart cancel script
        hBefore hStream with
      ⟨rs', hEq, hSame, hMiddle, hGuarded⟩ | ⟨hNone, hSettled⟩
    · cases hEq
      exact
        settled_after hGuarded hSingle
          (settled_finalize hSame hMiddle hRest)
    · match value with
      | some rs' => exact absurd rfl (hNone rs')
      | none =>
          rcases Gen.runs_ret hRest with ⟨rfl, rfl, rfl⟩
          rw [List.append_nil]
          exact settled_result (by simp) hSettled

/- Without a failure nothing fails unguarded. -/
theorem exposed_of_faults
    (stage : ExitStage)
    (hNone : faults moments = 0) :
    exposed stage moments = false := by
  induction moments generalizing stage with
  | nil => rfl
  | cons moment moments ih =>
      rw [faults_cons] at hNone
      have hFailed : moment.failed = false := by
        cases hMoment : moment.failed with
        | false => rfl
        | true => simp [hMoment] at hNone
      rw [exposed, ih _ (by omega), Bool.or_false]
      cases stage with
      | entered => exact hFailed
      | driving =>
          cases moment with
          | called op reply =>
              cases reply with
              | ok value => rfl
              | error exn => cases hFailed
          | taken event => rfl
          | closed event => cases hFailed
      | before => rfl
      | rejected => rfl

/- A closed driver whose calls do not fail ends its run. -/
theorem runs_closeRun
    {result : Except Exn Unit}
    (hRun : rs.runId = runId)
    (hNone : faults moments = 0)
    (hRuns :
      Gen.Runs (driverMachine inst) (RunService.closeRun rs)
        world moments result last) :
    ¬Running runId last := by
  rw [RunService.closeRun, hRun] at hRuns
  rcases runs_driverCall hRuns with
    ⟨exn, rfl, rfl, rfl, -, -⟩ |
      ⟨won, ended, after, rfl, hEnd, hAfter⟩
  · simp at hNone
  · have hNot := not_running_of_end (by decide) hEnd
    cases won with
    | false =>
        rcases Gen.runs_ret hAfter with ⟨rfl, rfl, rfl⟩
        exact hNot
    | true =>
        rcases runs_driverCall hAfter with
          ⟨exn, rfl, rfl, rfl, -, -⟩ |
            ⟨_, resolved, rest, rfl, hResolve, hRest⟩
        · simp at hNone
        · rcases Gen.runs_ret hRest with ⟨rfl, rfl, rfl⟩
          have hStatus :=
            @status_of_minor inst
              (.resolveOrphanToolCells runId interruptedTool)
              ended rfl runId
          rw [hResolve] at hStatus
          rw [Running, hStatus]
          exact hNot

/- The cancel flag of the run is dropped at the end. -/
theorem runs_cancelsPop
    {result : Except Exn Unit}
    {ended : Except Exn Unit}
    {next : Except Exn Unit → Driver Unit}
    (hRuns :
      Gen.Runs (driverMachine inst)
        ((call (.cancelsPop runId)).andThen next) world moments
        result last)
    (hEnded : next (.ok ()) = .ret ended) :
    moments = [.called (.cancelsPop runId) (.ok ())] ∧
      (last.instances inst).cancels runId = none ∧
        (Running runId last ↔ Running runId world) := by
  rcases Gen.runs_andThen hRuns with
    ⟨before, after, popped, middle, rfl, hPop, hRest⟩
  cases hPop with
  | executed hExec hNext =>
      cases hExec
      rcases Gen.runs_ret hNext with ⟨rfl, rfl, rfl⟩
      rw [hEnded] at hRest
      rcases Gen.runs_ret hRest with ⟨rfl, rfl, rfl⟩
      refine ⟨rfl, ?_, Iff.rfl⟩
      simp [World.setInstance, Instance.setCancel]
  | fault hFault hNext => cases hFault

/-
  A drive of a running run drops the cancel flag, and the run
  is still running if and only if something failed unguarded.
-/
theorem drive_exits
    {start : Driver GraphState}
    {result : Except Exn Unit}
    (hRun : rs.runId = runId)
    (hRunning : Running runId world)
    (hStart : start.Minor fun _ => True)
    (script : List GraphStep)
    (hSingle : faults moments ≤ 1)
    (hRuns :
      Gen.Runs (driverMachine inst)
        (RunService.drive start script rs threadId) world
        moments result last) :
    (last.instances inst).cancels runId = none ∧
      (Running runId last ↔ exposed .entered moments = true) := by
  rw [RunService.drive, hRun] at hRuns
  rcases runs_driverCall hRuns with
    ⟨exn, rfl, rfl, rfl, -, hKind⟩ |
      ⟨cancel, middle, after, rfl, hGet, hAfter⟩
  · exact absurd rfl hKind
  · cases hGet
    rw [faults_cons, failed_ok] at hSingle
    have hDriving :
        exposed .entered
            (.called (.cancelsGet runId)
                (.ok ((world.instances inst).cancels runId)) ::
              after) =
          exposed .driving after := rfl
    rw [hDriving]
    rcases Gen.runs_andThen hAfter with
      ⟨body, pop, ended, closed, rfl, hBody, hPop⟩
    rcases runs_cancelsPop hPop rfl with ⟨rfl, hFlag, hSame⟩
    refine ⟨hFlag, ?_⟩
    rw [hSame, exposed_driving_append]
    have hPopped :
        exposed .driving
            [.called (.cancelsPop runId) (.ok ())] =
          false := rfl
    rw [hPopped, Bool.or_false]
    have hOnce : faults body ≤ 1 := by
      rw [faults_append] at hSingle
      omega
    rcases Gen.runs_andThen hBody with
      ⟨first, more, caught, stopped, rfl, hFirst, hMore⟩
    have hBefore : faults first ≤ 1 := by
      rw [faults_append] at hOnce
      omega
    have hSettled :=
      settled_driveBody hRun hRunning hStart _ script hBefore
        hFirst
    rw [exposed_driving_append]
    cases caught with
    | ok value =>
        rcases Gen.runs_ret hMore with ⟨rfl, rfl, rfl⟩
        rcases hSettled with ⟨hEq, -⟩ | ⟨-, hIff⟩
        · cases hEq
        · rw [hIff]
          simp [exposed]
    | error exn =>
        by_cases hClosed : exn = .generatorExit
        · rcases hSettled with ⟨-, hOne, hGuarded⟩ | ⟨hNot, -⟩
          · have hNone : faults more = 0 := by
              rw [faults_append] at hOnce
              omega
            simp only [hClosed, if_true] at hMore
            have hEnd := runs_closeRun hRun hNone hMore
            rw [hGuarded, exposed_of_faults _ hNone]
            simp [hEnd]
          · exact absurd (congrArg Except.error hClosed) hNot
        · simp only [hClosed, if_false] at hMore
          rcases Gen.runs_ret hMore with ⟨rfl, rfl, rfl⟩
          rcases hSettled with ⟨hEq, -⟩ | ⟨-, hIff⟩
          · exact absurd (Except.error.inj hEq) hClosed
          · rw [hIff]
            simp [exposed]

------------------------------------------------------------
-- Entrances
------------------------------------------------------------

/- Moments before the stream go on unless one of them fails. -/
theorem exposed_entered_append
    {before after : List DriverMoment}
    (hCalls :
      ∀ op reply,
        Moment.called op reply ∈ before →
          op.cancels = false) :
    exposed .entered (before ++ after) = true ↔
      faults before ≠ 0 ∨ exposed .entered after = true := by
  rcases exposed_entered hCalls with ⟨hThrough, hExposed⟩
  rw [exposed_append, hThrough, Bool.or_eq_true, hExposed]

/- Minor calls before the run is claimed. -/
theorem exposed_before
    {before : List DriverMoment}
    (hCalls :
      ∀ op reply,
        Moment.called op reply ∈ before → op.minor = true)
    (after : List DriverMoment) :
    ExitStage.before.through (before ++ after) =
        ExitStage.before.through after ∧
      exposed .before (before ++ after) =
          exposed .before after ∧
        ∀ moment ∈ before, claimed moment = none := by
  induction before with
  | nil => exact ⟨rfl, rfl, fun _ hMem => nomatch hMem⟩
  | cons moment before ih =>
      rcases
          ih fun op reply hMem =>
            hCalls op reply (List.mem_cons_of_mem _ hMem) with
        ⟨hThrough, hExposed, hNone⟩
      have hStays :
          ExitStage.before.after moment = .before ∧
            claimed moment = none := by
        cases moment with
        | called op reply =>
            have hOp := hCalls op reply List.mem_cons_self
            cases op <;> first | exact ⟨rfl, rfl⟩ | cases hOp
        | taken event => exact ⟨rfl, rfl⟩
        | closed event => exact ⟨rfl, rfl⟩
      refine ⟨?_, ?_, ?_⟩
      · rw [List.cons_append, ExitStage.through,
          List.foldl_cons, hStays.1]
        exact hThrough
      · rw [List.cons_append, exposed, hStays.1, hExposed]
        rfl
      · intro other hMem
        rcases List.mem_cons.mp hMem with rfl | hOld
        · exact hStays.2
        · exact hNone other hOld

/- A stream that is entered is not rejected. -/
theorem through_entered (moments : List DriverMoment) :
    ExitStage.entered.through moments ≠ .rejected := by
  have hStays :
      ∀ stage moment,
        stage = ExitStage.entered ∨ stage = .driving →
          stage.after moment = .entered ∨
            stage.after moment = .driving := by
    rintro stage moment (rfl | rfl)
    · cases moment with
      | called op reply => cases op <;> simp [ExitStage.after]
      | taken event => exact Or.inl rfl
      | closed event => exact Or.inl rfl
    · exact Or.inr rfl
  have hThrough :
      ∀ stage,
        stage = ExitStage.entered ∨ stage = .driving →
          stage.through moments ≠ .rejected := by
    induction moments with
    | nil => rintro stage (rfl | rfl) <;> nofun
    | cons moment moments ih =>
        intro stage hStage
        exact ih _ (hStays stage moment hStage)
  exact hThrough .entered (Or.inl rfl)

/- The two parts of `storeQuestion`. -/
theorem storeQuestion_eq
    (runId : RunId)
    (message : Text)
    (threadId : ThreadId) :
    ∃ body,
      RunService.storeQuestion runId message threadId =
          RunService.exceptException body
            (do
              let _ ←
                call (.tryTransition runId .running .error true)
              RunService.emit
                (.error (some runId) runError none [] []) threadId
              pure none) ∧
        body.Straight ∧
          body.Minor fun value => value.isSome = true := by
  refine ⟨_, rfl, ?_, ?_⟩
  · apply straight_call
    intro row
    split
    · exact straight_call fun _ => trivial
    · exact trivial
  · apply minor_call rfl
    intro row
    split
    · exact minor_call rfl fun _ => rfl
    · exact rfl

/- The moments of calls that leave the cancel flags alone. -/
structure Flagless
    (inst : InstanceId)
    (world : World)
    (moments : List DriverMoment)
    (last : World) :
    Prop where
  calls :
    ∀ op reply,
      Moment.called op reply ∈ moments → op.cancels = false
  cancels :
    (last.instances inst).cancels =
      (world.instances inst).cancels

theorem Flagless.append
    {middle : World}
    {before after : List DriverMoment}
    (hBefore : Flagless inst world before middle)
    (hAfter : Flagless inst middle after last) :
    Flagless inst world (before ++ after) last where
  calls := by
    intro op reply hMem
    rcases List.mem_append.mp hMem with hFirst | hLast
    · exact hBefore.calls op reply hFirst
    · exact hAfter.calls op reply hLast
  cancels := hAfter.cancels.trans hBefore.cancels

theorem flagless_nil (world : World) :
    Flagless inst world [] world where
  calls := fun _ _ hMem => nomatch hMem
  cancels := rfl

theorem flagless_cons
    {op : Op}
    {reply : Except Exn op.Reply}
    {middle : World}
    (hOp : op.cancels = false)
    (hExec :
      (middle.instances inst).cancels =
        (world.instances inst).cancels)
    (hAfter : Flagless inst middle moments last) :
    Flagless inst world (.called op reply :: moments) last where
  calls := by
    intro op' reply' hMem
    rcases List.mem_cons.mp hMem with hEq | hOld
    · cases hEq
      exact hOp
    · exact hAfter.calls op' reply' hOld
  cancels := hAfter.cancels.trans hExec

/- Minor calls leave the cancel flags alone. -/
theorem flagless_minor
    {program : Driver α}
    {done : α → Prop}
    {result : Except Exn α}
    (hMinor : program.Minor done)
    (hRuns :
      Gen.Runs (driverMachine inst) program world moments result
        last) :
    Flagless inst world moments last := by
  rcases runs_minor hMinor hRuns with ⟨hSame, hCalls, -, -⟩
  refine ⟨?_, hSame.cancels⟩
  intro op reply hMem
  exact cancels_of_minor (hCalls op reply hMem)

/- The question of a run is stored, or something failed. -/
theorem runs_storeQuestion
    {message : Text}
    {result : Except Exn (Option MessageId)}
    (hRuns :
      Gen.Runs (driverMachine inst)
        (RunService.storeQuestion runId message threadId) world
        moments result last) :
    Flagless inst world moments last ∧
      ((∃ parent,
          result = .ok (some parent) ∧ faults moments = 0 ∧
            Unchanged inst world last) ∨
        (∀ parent, result ≠ .ok (some parent)) ∧
          faults moments ≠ 0) := by
  rcases storeQuestion_eq runId message threadId with
    ⟨body, hEq, hStraight, hMinor⟩
  rw [hEq] at hRuns
  rcases Gen.runs_andThen hRuns with
    ⟨before, after, ended, middle, rfl, hBody, hRest⟩
  have hBefore := flagless_minor hMinor hBody
  rcases runs_minor hMinor hBody with ⟨hSame, -, hSome, -⟩
  rw [faults_append]
  rcases Gen.runs_straight hStraight hBody with
    ⟨value, rfl, hNone⟩ | ⟨exn, rfl, hOne⟩
  · rcases Gen.runs_ret hRest with ⟨rfl, rfl, rfl⟩
    rcases Option.isSome_iff_exists.mp (hSome _ rfl) with
      ⟨parent, rfl⟩
    rw [List.append_nil]
    exact ⟨hBefore, Or.inl ⟨parent, rfl, hNone, hSame⟩⟩
  · have hHandled :
        Flagless inst middle after last ∧
          ∀ parent, result ≠ .ok (some parent) := by
      by_cases hException : exn.isException = true
      · simp only [hException, if_true] at hRest
        rcases runs_driverCall hRest with
          ⟨exn', rfl, rfl, rfl, -, -⟩ |
            ⟨won, tried, more, rfl, hTry, hMore⟩
        · exact
            ⟨flagless_cons rfl rfl (flagless_nil _), nofun⟩
        · have hTried :=
            @cancels_of_exec inst
              (.tryTransition runId .running .error true)
              middle rfl
          rw [hTry] at hTried
          rcases Gen.runs_bind hMore with
            ⟨exn', rfl, hEmit⟩ |
              ⟨first, rest, _, sent, rfl, hEmit, hNone⟩
          · exact
              ⟨flagless_cons rfl hTried
                (flagless_minor (minor_emit _ threadId) hEmit),
                nofun⟩
          · rcases Gen.runs_ret hNone with ⟨rfl, rfl, rfl⟩
            rw [List.append_nil]
            exact
              ⟨flagless_cons rfl hTried
                (flagless_minor (minor_emit _ threadId) hEmit),
                nofun⟩
      · simp only [hException] at hRest
        rcases Gen.runs_ret hRest with ⟨rfl, rfl, rfl⟩
        exact ⟨flagless_nil _, nofun⟩
    exact
      ⟨hBefore.append hHandled.1,
        Or.inr ⟨hHandled.2, by omega⟩⟩

/- A generator that stops before its stream keeps the flag. -/
theorem freed_of_stopped
    {flag : FlagId}
    (hFlag :
      (world.instances inst).cancels runId = some flag)
    (hFlagless : Flagless inst world moments last)
    (hFault : faults moments ≠ 0) :
    Freed inst runId last ↔ exposed .entered moments = false := by
  have hExposed := (exposed_entered hFlagless.calls).2.mpr hFault
  rw [hExposed]
  simp only [Bool.true_eq_false, iff_false]
  rintro ⟨-, hNone⟩
  rw [hFlagless.cancels, hFlag] at hNone
  cases hNone

/- A generator that drives its stream. -/
theorem freed_of_driven
    {middle : World}
    {before after : List DriverMoment}
    {start : Driver GraphState}
    {script : List GraphStep}
    {result : Except Exn Unit}
    (hFlagless : Flagless inst world before middle)
    (hNone : faults before = 0)
    (hRun : rs.runId = runId)
    (hRunning : Running runId middle)
    (hStart : start.Minor fun _ => True)
    (hSingle : faults (before ++ after) ≤ 1)
    (hDrive :
      Gen.Runs (driverMachine inst)
        (RunService.drive start script rs threadId) middle after
        result last) :
    Freed inst runId last ↔
      exposed .entered (before ++ after) = false := by
  rw [faults_append, hNone, Nat.zero_add] at hSingle
  rcases
      drive_exits hRun hRunning hStart script hSingle hDrive with
    ⟨hFlag, hIff⟩
  rw [← Bool.not_eq_true, exposed_entered_append hFlagless.calls]
  simp only [hNone, ne_eq, not_true_eq_false, false_or, ← hIff]
  exact ⟨fun hFreed => hFreed.1, fun hNot => ⟨hNot, hFlag⟩⟩

/- A run that was just opened. -/
theorem running_of_open
    {model : Option Text}
    {opened : RunId}
    {middle : World}
    (hFresh : world.db.runs.get? world.db.nextId = none)
    (hExec :
      exec inst (.openRun threadId model) world =
        (.ok opened, middle)) :
    Running opened middle := by
  rcases of_openRun (statement_of_onDb hExec) with
    ⟨rfl, -, -, hDb⟩
  rw [Running, Db.status?, hDb]
  dsimp only
  rw [Table.get?_insert hFresh, if_pos rfl]
  rfl

/- A generator of `RunService.run` that opened its run. -/
theorem run_frees
    {registry : Registry}
    {message : Text}
    {model : Option Text}
    {script : List GraphStep}
    {result : Except Exn Unit}
    (hFresh : world.db.runs.get? world.db.nextId = none)
    (hSingle : faults moments ≤ 1)
    (hRuns :
      Gen.Runs (driverMachine inst)
        (RunService.run registry message threadId model script)
        world moments result last)
    (hClaimed : moments.findSome? claimed = some runId) :
    (Freed inst runId last ↔ exposed .before moments = false) ∧
      ExitStage.before.through moments ≠ .rejected := by
  rcases runs_driverCall hRuns with
    ⟨exn, rfl, rfl, rfl, -, -⟩ |
      ⟨opened, middle, after, rfl, hOpen, hAfter⟩
  · cases hClaimed
  have hRunning := running_of_open hFresh hOpen
  have hEq : opened = runId := Option.some_inj.mp hClaimed
  subst hEq
  rcases runs_driverCall hAfter with
    ⟨exn, rfl, rfl, rfl, -, hKind⟩ |
      ⟨_, created, rest, rfl, hCreate, hRest⟩
  · exact absurd rfl hKind
  rw [faults_cons, failed_ok, faults_cons, failed_ok] at hSingle
  refine ⟨?_, through_entered _⟩
  change _ ↔ exposed .entered rest = false
  obtain ⟨flag, hFlag⟩ :
      ∃ flag,
        (created.instances inst).cancels opened = some flag := by
    cases hCreate
    exact
      ⟨middle.nextFlag, by
        simp [World.createCancel, World.setInstance,
          Instance.setCancel]⟩
  have hCreated : Running opened created := by
    cases hCreate
    exact hRunning
  rcases Gen.runs_bind hRest with
    ⟨exn, rfl, hEmit⟩ |
      ⟨before, more, _, announced, rfl, hEmit, hMore⟩
  · apply
      freed_of_stopped hFlag
        (flagless_minor (minor_emit _ threadId) hEmit)
    rcases Gen.runs_straight (straight_emit _ threadId) hEmit
      with ⟨_, hOk, -⟩ | ⟨exn', -, hOne⟩
    · cases hOk
    · omega
  have hAnnounce := flagless_minor (minor_emit _ threadId) hEmit
  have hNoFault : faults before = 0 := by
    rcases Gen.runs_straight (straight_emit _ threadId) hEmit
      with ⟨_, -, hNone⟩ | ⟨exn', hError, -⟩
    · exact hNone
    · cases hError
  have hAnnounced : Running opened announced :=
    (runs_minor (minor_emit _ threadId) hEmit).1.running.mpr
      hCreated
  rcases Gen.runs_bind hMore with
    ⟨exn, rfl, hQuestion⟩ |
      ⟨asked, drive, parent, stored, rfl, hQuestion, hDrive⟩
  · rcases runs_storeQuestion hQuestion with
      ⟨hFlagless, ⟨parent, hOk, -⟩ | ⟨-, hFault⟩⟩
    · cases hOk
    · apply freed_of_stopped hFlag (hAnnounce.append hFlagless)
      rw [faults_append]
      omega
  rcases runs_storeQuestion hQuestion with ⟨hFlagless, hStored⟩
  rcases hStored with ⟨root, hOk, hNone, hSame⟩ | ⟨hNot, hFault⟩
  · cases hOk
    rw [← List.append_assoc] at hSingle ⊢
    refine
      freed_of_driven (hAnnounce.append hFlagless) ?_ rfl
        (hSame.running.mpr hAnnounced) (minor_lastCall rfl)
        hSingle hDrive
    rw [faults_append, hNoFault, hNone]
  · cases parent with
    | some root => exact absurd rfl (hNot root)
    | none =>
        rcases Gen.runs_ret hDrive with ⟨rfl, rfl, rfl⟩
        rw [List.append_nil]
        apply
          freed_of_stopped hFlag (hAnnounce.append hFlagless)
        rw [faults_append]
        omega

/- A run has a cancel flag once its default is set. -/
theorem flag_of_setdefault
    (hExec :
      exec inst (.cancelsSetdefault runId) world =
        (.ok (), last)) :
    ∃ flag, (last.instances inst).cancels runId = some flag := by
  simp only [exec] at hExec
  split at hExec
  · cases hExec
    exact
      ⟨world.nextFlag, by
        simp [World.createCancel, World.setInstance,
          Instance.setCancel]⟩
  · rename_i flag hFlag
    cases hExec
    exact ⟨flag, hFlag⟩

theorem running_of_setdefault
    (hExec :
      exec inst (.cancelsSetdefault runId) world =
        (.ok (), last)) :
    Running runId last ↔ Running runId world := by
  simp only [exec] at hExec
  split at hExec <;> cases hExec <;> exact Iff.rfl

theorem straight_announceRejected
    (threadId : ThreadId)
    (ids : List (Option Text)) :
    (RunService.announceRejected threadId ids).Straight := by
  induction ids with
  | nil => exact trivial
  | cons id ids ih =>
      rw [RunService.announceRejected]
      refine straight_call fun seq => ?_
      exact Gen.straight_bind (Gen.straight_emit _) fun _ => ih

theorem straight_markApproval
    (runId : RunId)
    (threadId : ThreadId)
    (approved : Option (List Text)) :
    (RunService.markApproval runId threadId
      approved).Straight := by
  cases approved with
  | none => exact Gen.straight_perform _
  | some approved =>
      rw [RunService.markApproval]
      refine straight_call fun rejected => ?_
      refine straight_call fun _ => ?_
      exact straight_announceRejected threadId rejected

/- How the part of `resume` before the stream can end. -/
inductive Decides
    (inst : InstanceId)
    (world : World)
    (moments : List DriverMoment)
    (result : Except Exn (Option RunState))
    (last : World) :
    Prop where
  | unclaimed
      (hNone : moments.findSome? claimed = none)
      (hResult : ∃ exn, result = .error exn)
  | rejected
      {run : RunId}
      (hClaimed : moments.findSome? claimed = some run)
      (hThrough :
        ExitStage.before.through moments = .rejected)
      (hExposed : exposed .before moments = false)
      (hNot : ¬Running run last)
      (hFlags :
        (last.instances inst).cancels =
          (world.instances inst).cancels)
      (hResult : ∀ rs, result ≠ .ok (some rs))
  | approved
      {run : RunId}
      {flag : FlagId}
      {middle : World}
      {before entered : List DriverMoment}
      (hMoments : moments = before ++ entered)
      (hClaimed : before.findSome? claimed = some run)
      (hBefore :
        ∀ more,
          ExitStage.before.through (before ++ more) =
              ExitStage.entered.through more ∧
            exposed .before (before ++ more) =
              exposed .entered more)
      (hFlag : (middle.instances inst).cancels run = some flag)
      (hFlagless : Flagless inst middle entered last)
      (hResult :
        (∃ rs,
            result = .ok (some rs) ∧ rs.runId = run ∧
              faults entered = 0 ∧ Running run last) ∨
          (∃ exn, result = .error exn) ∧ faults entered ≠ 0)

/- Minor calls may come before a decision. -/
theorem Decides.after
    {middle : World}
    {before after : List DriverMoment}
    {result : Except Exn (Option RunState)}
    (hBefore :
      ∀ op reply,
        Moment.called op reply ∈ before → op.minor = true)
    (hFlags :
      (middle.instances inst).cancels =
        (world.instances inst).cancels)
    (hDecides : Decides inst middle after result last) :
    Decides inst world (before ++ after) result last := by
  have hFirst :
      ∀ more : List DriverMoment,
        (before ++ more).findSome? claimed =
          more.findSome? claimed := by
    intro more
    rcases exposed_before hBefore more with ⟨-, -, hNone⟩
    rw [List.findSome?_append,
      List.findSome?_eq_none_iff.mpr hNone, Option.none_or]
  cases hDecides with
  | unclaimed hNone hResult =>
      exact .unclaimed ((hFirst after).trans hNone) hResult
  | rejected hClaimed hThrough hExposed hNot hSame hResult =>
      rcases exposed_before hBefore after with
        ⟨hStage, hGuard, -⟩
      exact
        .rejected ((hFirst after).trans hClaimed)
          (hStage.trans hThrough) (hGuard.trans hExposed) hNot
          (hSame.trans hFlags) hResult
  | @approved run flag middle' first entered hMoments hClaimed
      hEnter hFlag hFlagless hResult =>
      have hSplit : before ++ after = before ++ first ++ entered := by
        rw [hMoments, List.append_assoc]
      refine
        .approved hSplit ((hFirst first).trans hClaimed) ?_ hFlag
          hFlagless hResult
      · intro more
        rcases exposed_before hBefore (first ++ more) with
          ⟨hStage, hGuard, -⟩
        rw [List.append_assoc, hStage, hGuard]
        exact hEnter more

/- A run that is rejected. -/
theorem runs_rejectRun
    {result : Except Exn (Option RunState)}
    (hRuns :
      Gen.Runs (driverMachine inst)
        (do
          RunService.rejectRun runId threadId
          pure none)
        world moments result last) :
    Decides inst world moments result last := by
  have hRejects :
      ∀ (moments : List DriverMoment)
        (result : Except Exn Unit),
        Gen.Runs (driverMachine inst)
            (RunService.rejectRun runId threadId) world moments
            result last →
          Decides inst world moments
            (result.map fun _ => none) last := by
    intro moments result hRuns
    rcases runs_driverCall hRuns with
      ⟨exn, rfl, rfl, rfl, -, -⟩ |
        ⟨won, middle, after, rfl, hTry, hAfter⟩
    · exact .unclaimed rfl ⟨exn, rfl⟩
    cases won with
    | false =>
        rcases Gen.runs_ret hAfter with ⟨rfl, rfl, rfl⟩
        exact .unclaimed rfl ⟨_, rfl⟩
    | true =>
        have hMinor :
            Driver.Minor
              (do
                call (.setPendingApproval runId .rejected)
                call (.resolveOrphanToolCells runId rejectedTool)
                RunService.clearRejectedGraph threadId
                RunService.emit
                  (.runDone runId (some .rejected)) threadId)
              fun _ => True := by
          refine minor_call rfl fun _ => ?_
          refine minor_call rfl fun _ => ?_
          exact minor_call rfl fun _ => minor_emit _ threadId
        rcases runs_minor hMinor hAfter with ⟨hSame, -, -, -⟩
        have hFlags :=
          @cancels_of_exec inst
            (.tryTransition runId .awaitingApproval .rejected
              true) world rfl
        rw [hTry] at hFlags
        have hMiddle : ¬Running runId middle := by
          rw [Running, status_of_won hTry]
          nofun
        refine
          .rejected rfl ?_ ?_ ?_ (hSame.cancels.trans hFlags) ?_
        · exact through_rejected after
        · exact exposed_rejected after
        · rw [hSame.running]
          exact hMiddle
        · cases result <;> nofun
  rcases Gen.runs_bind hRuns with
    ⟨exn, rfl, hReject⟩ |
      ⟨before, after, _, middle, rfl, hReject, hNone⟩
  · exact hRejects _ _ hReject
  · rcases Gen.runs_ret hNone with ⟨rfl, rfl, rfl⟩
    rw [List.append_nil]
    exact hRejects _ _ hReject

/- A run that is approved. -/
theorem runs_approveRun
    {registry : Registry}
    {approved : Option (List Text)}
    {result : Except Exn (Option RunState)}
    (hRuns :
      Gen.Runs (driverMachine inst)
        (do
          let rs ←
            RunService.approveRun registry runId threadId
              approved
          pure (some rs))
        world moments result last) :
    Decides inst world moments result last := by
  have hApproves :
      ∀ (moments : List DriverMoment)
        (result : Except Exn RunState),
        Gen.Runs (driverMachine inst)
            (RunService.approveRun registry runId threadId
              approved) world moments result last →
          Decides inst world moments (result.map some) last := by
    intro moments result hRuns
    rcases runs_driverCall hRuns with
      ⟨exn, rfl, rfl, rfl, -, -⟩ |
        ⟨won, middle, after, rfl, hTry, hAfter⟩
    · exact .unclaimed rfl ⟨exn, rfl⟩
    cases won with
    | false =>
        rcases Gen.runs_ret hAfter with ⟨rfl, rfl, rfl⟩
        exact .unclaimed rfl ⟨_, rfl⟩
    | true =>
        have hMiddle : Running runId middle :=
          status_of_won hTry
        rcases runs_driverCall hAfter with
          ⟨exn, rfl, rfl, rfl, -, hKind⟩ |
            ⟨_, flagged, rest, rfl, hSet, hRest⟩
        · exact absurd rfl hKind
        obtain ⟨flag, hFlag⟩ :
            ∃ flag,
              (flagged.instances inst).cancels runId =
                some flag :=
          flag_of_setdefault hSet
        have hFlagged : Running runId flagged :=
          (running_of_setdefault hSet).mpr hMiddle
        have hMinor :
            Driver.Minor
              (do
                let model ← call (.getRunModel runId)
                let root ← call (.getTurnRoot runId)
                RunService.markApproval runId threadId approved
                pure
                  (RunState.fresh runId
                    (some (model.getD registry.defaultModel))
                    root))
              fun rs => rs.runId = runId := by
          refine minor_call rfl fun _ => ?_
          refine minor_call rfl fun _ => ?_
          apply
            minor_bind
              (minor_markApproval runId threadId approved)
          intro _ _
          exact rfl
        have hStraight :
            Gen.Straight
              (do
                let model ← call (.getRunModel runId)
                let root ← call (.getTurnRoot runId)
                RunService.markApproval runId threadId approved
                pure
                  (RunState.fresh runId
                    (some (model.getD registry.defaultModel))
                    root)) := by
          refine straight_call fun _ => ?_
          refine straight_call fun _ => ?_
          exact
            Gen.straight_bind
              (straight_markApproval runId threadId approved)
              fun _ => trivial
        rcases runs_minor hMinor hRest with ⟨hSame, -, hDone, -⟩
        have hSplit :
            (.called
                  (.tryTransition runId .awaitingApproval
                    .running false)
                  (.ok true) ::
                .called (.cancelsSetdefault runId) (.ok ()) ::
                  rest :
              List DriverMoment) =
              [.called
                  (.tryTransition runId .awaitingApproval
                    .running false)
                  (.ok true),
                .called (.cancelsSetdefault runId) (.ok ())] ++
                rest := rfl
        refine
          .approved hSplit rfl (fun more => ⟨rfl, rfl⟩) hFlag
            (flagless_minor hMinor hRest) ?_
        rcases Gen.runs_straight hStraight hRest with
          ⟨rs, rfl, hNone⟩ | ⟨exn, rfl, hOne⟩
        · exact
            Or.inl
              ⟨rs, rfl, hDone rs rfl, hNone,
                hSame.running.mpr hFlagged⟩
        · exact Or.inr ⟨⟨exn, rfl⟩, by omega⟩
  rcases Gen.runs_bind hRuns with
    ⟨exn, rfl, hApprove⟩ |
      ⟨before, after, rs, middle, rfl, hApprove, hSome⟩
  · exact hApproves _ _ hApprove
  · rcases Gen.runs_ret hSome with ⟨rfl, rfl, rfl⟩
    rw [List.append_nil]
    exact hApproves _ _ hApprove

/- The part of `resume` before the stream. -/
theorem runs_decide
    {registry : Registry}
    {approve : Bool}
    {approvedIds : Option (List Text)}
    {result : Except Exn (Option RunState)}
    (hRuns :
      Gen.Runs (driverMachine inst)
        (RunService.decide registry threadId approve
          approvedIds)
        world moments result last) :
    Decides inst world moments result last := by
  rcases runs_driverCall hRuns with
    ⟨exn, rfl, rfl, rfl, -, -⟩ |
      ⟨active, middle, after, rfl, hActive, hAfter⟩
  · exact .unclaimed rfl ⟨exn, rfl⟩
  have hMinor :
      ∀ op reply,
        Moment.called op reply ∈
            ([.called (.getActiveRun threadId) (.ok active)] :
              List DriverMoment) →
          op.minor = true := by
    intro op reply hMem
    cases List.mem_singleton.mp hMem
    rfl
  have hFlags :=
    @cancels_of_exec inst (.getActiveRun threadId) world rfl
  rw [hActive] at hFlags
  apply Decides.after hMinor hFlags
  split at hAfter
  · rename_i run
    rcases Gen.runs_bind hAfter with
      ⟨exn, rfl, hSet⟩ |
        ⟨before, more, approved, chosen, rfl, hSet, hMore⟩
    · rcases
          runs_minor (minor_approvedSet run approve approvedIds)
            hSet with
        ⟨-, hCalls, -, -⟩
      refine .unclaimed ?_ ⟨exn, rfl⟩
      rcases exposed_before hCalls [] with ⟨-, -, hNone⟩
      exact List.findSome?_eq_none_iff.mpr hNone
    · rcases
          runs_minor (minor_approvedSet run approve approvedIds)
            hSet with
        ⟨hSame, hCalls, -, -⟩
      apply Decides.after hCalls hSame.cancels
      split at hMore
      · exact runs_rejectRun hMore
      · exact runs_approveRun hMore
  · rcases Gen.runs_ret hAfter with ⟨rfl, rfl, rfl⟩
    exact .unclaimed rfl ⟨_, rfl⟩

/- A generator of `RunService.resume` that won its run. -/
theorem resume_frees
    {registry : Registry}
    {approve : Bool}
    {approvedIds : Option (List Text)}
    {script : List GraphStep}
    {result : Except Exn Unit}
    (hSingle : faults moments ≤ 1)
    (hRuns :
      Gen.Runs (driverMachine inst)
        (RunService.resume registry threadId approve approvedIds
          script)
        world moments result last)
    (hClaimed : moments.findSome? claimed = some runId) :
    Freed inst runId last ↔
      exposed .before moments = false ∧
        (ExitStage.before.through moments = .rejected →
          (world.instances inst).cancels runId = none) := by
  rcases Gen.runs_bind hRuns with
    ⟨exn, rfl, hFailed⟩ |
      ⟨first, drive, value, middle, rfl, hDecide, hDrive⟩
  · cases runs_decide hFailed with
    | unclaimed hNone _ =>
        rw [hNone] at hClaimed
        cases hClaimed
    | rejected hRun hThrough hExposed hNot hFlags _ =>
        rw [hRun, Option.some_inj] at hClaimed
        subst hClaimed
        simp only [hThrough, hExposed, true_and, true_implies]
        rw [Freed, hFlags]
        exact and_iff_right hNot
    | approved hMoments hRun hBefore hFlag hFlagless hResult =>
        rw [hMoments, List.findSome?_append, hRun,
          Option.some_or, Option.some_inj] at hClaimed
        subst hClaimed
        rw [hMoments, (hBefore _).1, (hBefore _).2]
        rcases hResult with ⟨rs, hOk, -⟩ | ⟨-, hFault⟩
        · cases hOk
        · rw [freed_of_stopped hFlag hFlagless hFault]
          simp [through_entered]
  · cases runs_decide hDecide with
    | unclaimed _ hError =>
        rcases hError with ⟨exn, hError⟩
        cases hError
    | rejected hRun hThrough hExposed hNot hFlags hNone =>
        match value with
        | some rs => exact absurd rfl (hNone rs)
        | none =>
            rcases Gen.runs_ret hDrive with ⟨rfl, rfl, rfl⟩
            rw [List.append_nil] at hClaimed ⊢
            rw [hRun, Option.some_inj] at hClaimed
            subst hClaimed
            simp only [hThrough, hExposed, true_and,
              true_implies]
            rw [Freed, hFlags]
            exact and_iff_right hNot
    | approved hMoments hRun hBefore hFlag hFlagless hResult =>
        subst hMoments
        rw [List.append_assoc] at hClaimed hSingle ⊢
        rw [List.findSome?_append, hRun, Option.some_or,
          Option.some_inj] at hClaimed
        subst hClaimed
        rw [(hBefore _).1, (hBefore _).2]
        rcases hResult with
          ⟨rs, hOk, hSame, hNone, hRunning⟩ | ⟨⟨exn, hError⟩, -⟩
        · cases hOk
          rw [faults_append] at hSingle
          rw [freed_of_driven hFlagless hNone hSame hRunning
            (minor_lastCall rfl) (by omega) hDrive]
          simp [through_entered]
        · cases hError

/-
  For every stream and every place where a call fails or the
  generator is closed: a generator that has claimed its run
  leaves it without the status `running` and without a cancel
  flag if and only if nothing failed unguarded and a rejected
  run had no flag before.
-/
theorem exits_free_run
    {registry : Registry}
    {allowed : System → Action → Prop}
    {system : System}
    (hReachable : Reachable registry allowed system)
    {entrance : Entrance}
    {script : List GraphStep}
    {result : Except Exn Unit}
    (hRuns :
      Gen.Runs (driverMachine inst)
        (entrance.generator registry threadId script)
        system.world moments result last)
    (hSingle : faults moments ≤ 1)
    (hClaimed : moments.findSome? claimed = some runId) :
    Freed inst runId last ↔
      exposed .before moments = false ∧
        (ExitStage.before.through moments = .rejected →
          (system.world.instances inst).cancels runId =
            none) := by
  cases entrance with
  | run message model =>
      have hFormed := wellFormed_of_reachable hReachable
      rcases
          run_frees hFormed.freshRun hSingle hRuns hClaimed with
        ⟨hFreed, hThrough⟩
      rw [hFreed]
      simp [hThrough]
  | resume approve approvedIds =>
      exact resume_frees hSingle hRuns hClaimed

end Guards

------------------------------------------------------------
-- Recorded Exits
------------------------------------------------------------

/- A thread without messages. -/
def blankThread : List Action :=
  [.request 0 0 (.createThread none)] ++ turns 0 1

/- A generator that answers a question in the blank thread. -/
def answering (system : System) (plan : List Bool) :
    List DriverMoment × Except Exn Unit × World :=
  (Entrance.generator .single 0
      [.agent (.str "a".toList) []]
      (.run "q".toList none)).record
    (driverMachine 0) plan system.world

/- The ninth step of the generator, the agent's, fails. -/
def failingAgent : List Bool :=
  List.replicate 8 false ++ [true]

/- A generator whose agent raises frees its run. -/
theorem exits_free_run_answered :
    ∃ system,
      Reachable .single (fun _ _ => True) system ∧
        (answering system failingAgent).1.findSome? claimed =
            some 1 ∧
          faults (answering system failingAgent).1 = 1 ∧
            Freed 0 1 (answering system failingAgent).2.2 := by
  obtain ⟨system, hSystem, hView⟩ :=
    exists_of_execute
      (show
        (execute (System.step .single) blankThread
            .initial).map (fun system =>
              let moments := (answering system failingAgent).1
              (moments.findSome? claimed, faults moments,
                exposed .before moments,
                ExitStage.before.through moments)) =
          some (some 1, 1, false, .driving) by
        decide +kernel)
  simp only [Prod.mk.injEq] at hView
  rcases hView with ⟨hClaimed, hOne, hExposed, hThrough⟩
  have hReachable : Reachable .single (fun _ _ => True) system :=
    execution_of_execute hSystem
  refine ⟨system, hReachable, hClaimed, hOne, ?_⟩
  refine
    (exits_free_run hReachable (Gen.runs_record _ failingAgent _)
      (Nat.le_of_eq hOne) hClaimed).mpr ⟨hExposed, ?_⟩
  intro hRejected
  have hDriving := hThrough.symm.trans hRejected
  cases hDriving

/- A generator whose first number cannot be drawn does not. -/
theorem exits_leave_run :
    ¬ ∀ (registry : Registry) (system : System)
        (inst : InstanceId) (threadId : ThreadId)
        (entrance : Entrance) (script : List GraphStep)
        (moments : List DriverMoment)
        (result : Except Exn Unit) (last : World)
        (runId : RunId),
      Reachable registry (fun _ _ => True) system →
        Gen.Runs (driverMachine inst)
            (entrance.generator registry threadId script)
            system.world moments result last →
          faults moments ≤ 1 →
            moments.findSome? claimed = some runId →
              Freed inst runId last := by
  intro hFrees
  obtain ⟨system, hSystem, hView⟩ :=
    exists_of_execute
      (show
        (execute (System.step .single) blankThread
            .initial).map (fun system =>
              let run := answering system [false, false, true]
              (run.1.findSome? claimed, faults run.1,
                run.2.2.db.status? 1)) =
          some (some 1, 1, some .running) by
        decide +kernel)
  simp only [Prod.mk.injEq] at hView
  rcases hView with ⟨hClaimed, hOne, hRunning⟩
  have hFreed :=
    hFrees .single system 0 0 (.run "q".toList none)
      [.agent (.str "a".toList) []] _ _ _ 1
      (execution_of_execute hSystem) (Gen.runs_record _ _ _)
      (Nat.le_of_eq hOne) hClaimed
  exact hFreed.1 hRunning

end LegalAgent
