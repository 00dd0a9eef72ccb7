import LegalAgent.Properties.Reconnection

/-
  Live streams of a log.

  With one pump for each run, the numbers of the events in a
  log increase, and a stream that pages through the log behind
  its cursor skips nothing.  As long as no stream finds the
  status of its run ended, a stream ends with the terminal
  event of the log.

  Key definitions include:
    * `Complete`
    * `OnePump`
    * `Watched`
    * `Session`

  Key theorems include:
    * `stream_complete`
-/

------------------------------------------------------------
-- Conditions
------------------------------------------------------------

namespace LegalAgent

open Library

/-
  A client received the log up to its terminal event, and
  behind it no event with the number of a logged one.
-/
def Complete
    (db : Db)
    (runId : RunId)
    (sent : List RunEvent) :
    Prop :=
  ∃ synthetic,
    sent = throughTerminal (db.runLog runId) ++ synthetic ∧
      ∀ event ∈ synthetic, ∀ row ∈ db.runEvents,
        db.hasRun runId row.threadId → row.seq ≠ event.seq

/- Every run has the pump of its start only, and logs are kept. -/
def OnePump (_ : System) : Action → Prop
| .request _ _ (.resume ..) | .request _ _ (.interrupt _)
| .collectEvents _ => False
| _ => True

/- Whether a request is a stream. -/
def Request.streams : Request → Bool
| .stream .. => true
| _ => false

/- The run whose log a request streams from the beginning. -/
def Request.streamed : Request → Option RunId
| .stream runId _ none => some runId
| _ => none

/- Whether a task has returned. -/
def Task.returned (task : Task) : Bool :=
  match task.program with
  | .ret (.ok ()) => true
  | _ => false

/- Whether a stream finds that its run has ended. -/
def System.readsEnded
    (system : System)
    (action : Action) :
    Bool :=
  match system.call? action with
  | some (task, .getRun runId) =>
      task.request.streams &&
        (system.world.db.status? runId).any RunStatus.terminal
  | _ => false

/- The steps of one pump without a stream that finds an end. -/
structure Watched (system : System) (action : Action) : Prop where
  pump : OnePump system action
  reads : system.readsEnded action = false

instance
    (system : System) :
    DecidablePred (OnePump system)
| .request _ _ (.createThread _) => isTrue trivial
| .request _ _ (.fork ..) => isTrue trivial
| .request _ _ (.start ..) => isTrue trivial
| .request _ _ (.resume ..) => isFalse id
| .request _ _ (.interrupt _) => isFalse id
| .request _ _ (.stream ..) => isTrue trivial
| .turn .. => isTrue trivial
| .advance _ => isTrue trivial
| .heartbeat _ => isTrue trivial
| .reconcile _ => isTrue trivial
| .timeoutApprovals _ => isTrue trivial
| .timeoutRuns _ => isTrue trivial
| .collectEvents _ => isFalse id
| .crash _ => isTrue trivial

instance
    (system : System)
    (action : Action) :
    Decidable (Watched system action) :=
  decidable_of_iff
    (OnePump system action ∧ system.readsEnded action = false)
    ⟨fun hBoth => ⟨hBoth.1, hBoth.2⟩,
      fun hWatched => ⟨hWatched.pump, hWatched.reads⟩⟩

------------------------------------------------------------
-- Numbers
------------------------------------------------------------

section Roles

variable {role : Role} {op : Op} {value : op.Reply}

/- The number of a phase was held before, or has been drawn. -/
theorem drawn_after
    {drawn : Option Nat}
    {seq : Nat}
    (hDrawn : drawnAfter drawn op (.ok value) = some seq) :
    (drawn = some seq ∧ op.logs = false) ∨
      ∃ threadId, op.drew value = some (threadId, seq) := by
  cases op with
  | nextSeq threadId =>
      cases hDrawn
      exact Or.inr ⟨threadId, rfl⟩
  | addMessage threadId new =>
      cases hDrawn
      exact Or.inr ⟨threadId, rfl⟩
  | commitAgentAnswer threadId =>
      cases value with
      | none => exact Or.inl ⟨hDrawn, rfl⟩
      | some row =>
          cases hDrawn
          exact Or.inr ⟨threadId, rfl⟩
  | appendRunEvent => cases hDrawn
  | _ => exact Or.inl ⟨hDrawn, rfl⟩

/- A number held behind a failure was held before. -/
theorem drawn_failed
    {drawn : Option Nat}
    {seq : Nat}
    {exn : Exn}
    (hDrawn : drawnAfter drawn op (.error exn) = some seq) :
    drawn = some seq := by
  cases op with
  | appendRunEvent => cases hDrawn
  | _ => exact hDrawn

/- A task on a run draws numbers of the thread of its job. -/
theorem thread_of_drew
    {job : Job}
    {stage : Stage}
    {threadId : ThreadId}
    {seq : Nat}
    (hAllows : Stage.Allows job stage op)
    (hDrew : op.drew value = some (threadId, seq)) :
    threadId = job.thread := by
  cases hAllows with
  | finalizingCommit =>
      cases value with
      | none => cases hDrew
      | some row =>
          cases hDrew
          rfl
  | _ => cases hDrew <;> rfl

/- A task on a run logs the events of its job. -/
theorem job_of_logs
    {job : Job}
    {stage : Stage}
    {threadId : ThreadId}
    {runId : RunId}
    {event : RunEvent}
    (hAllows :
      Stage.Allows job stage
        (.appendRunEvent threadId runId event)) :
    threadId = job.thread ∧ runId = job.log := by
  cases hAllows <;> exact ⟨rfl, rfl⟩

end Roles

/-
  A task of the starts and streams: one without a run, one on
  the run that it opened, or one that is about to open a run.
-/
def Task.Starts (task : Task) : Prop :=
  match task.phase.role with
  | .aside | .on .. => True
  | .fresh =>
      task.phase.drawn = none ∧
        (task.ended = true ∨
          ∃ threadId model next,
            task.program = .call (.openRun threadId model) next ∧
              ∀ exn, ∃ result, next (.error exn) = .ret result)
  | _ => False

/-
  Logged numbers were drawn, the numbers of a log increase,
  and a pump holds a number behind all that its run has
  logged.  Different pumps log different runs.
-/
def numberOutline : Outline World Task where
  globally := fun world =>
    (∀ row ∈ world.db.runEvents,
        row.seq ≤ world.db.lastSeq row.threadId) ∧
      ∀ runId,
        (world.db.runLog runId).Pairwise fun event other =>
          event.seq < other.seq
  locally := fun world task =>
    task.Starts ∧
      ∀ job seq,
        task.phase.role.job? = some job →
          task.phase.drawn = some seq →
            seq ≤ world.db.lastSeq job.thread ∧
              ∀ event ∈ world.db.runLog job.log,
                event.seq < seq
  mutually := fun task other =>
    ∀ job job',
      task.phase.role.job? = some job →
        other.phase.role.job? = some job' → job.log ≠ job'.log

section Calls

variable {registry : Registry}
variable {allowed : System → Action → Prop}
variable {system : System} {taskId : TaskId} {task : Task}
variable {op : Op} {value : op.Reply} {world' : World}

/- The log of a run after a call. -/
theorem runLog_of_exec
    (hExec :
      exec task.inst op system.world = (.ok value, world'))
    (runId : RunId) :
    world'.db.runLog runId = system.world.db.runLog runId ∨
      ∃ threadId event,
        op = .appendRunEvent threadId runId event ∧
          world'.db.runLog runId =
            system.world.db.runLog runId ++ [event] := by
  rcases log_of_exec hExec with
    hLog | ⟨threadId, logged, event, rfl, hLog⟩
  · left
    rw [Db.runLog, hLog, Db.runLog]
  · by_cases hEq : logged = runId
    · subst hEq
      right
      refine ⟨threadId, event, rfl, ?_⟩
      rw [Db.runLog, hLog, List.filter_append, List.map_append,
        Db.runLog]
      simp
    · left
      rw [Db.runLog, hLog, List.filter_append, List.map_append,
        Db.runLog]
      simp [hEq]

/- The events of a log belong to the thread of its run. -/
theorem seq_le_of_runLog
    {db : Db}
    (hFormed : db.WellFormed)
    (hLogged :
      ∀ row ∈ db.runEvents, row.seq ≤ db.lastSeq row.threadId)
    {runId : RunId}
    {threadId : ThreadId}
    (hRun : db.hasRun runId threadId)
    {event : RunEvent}
    (hMem : event ∈ db.runLog runId) :
    event.seq ≤ db.lastSeq threadId := by
  rcases List.mem_map.mp hMem with ⟨row, hRow, rfl⟩
  rcases List.mem_filter.mp hRow with ⟨hRow, hEq⟩
  have hThread := hFormed.eventRuns row hRow
  rw [beq_iff_eq] at hEq
  rw [hEq, Db.hasRun, hRun, Option.some_inj] at hThread
  rw [hThread]
  exact hLogged row hRow

/- The job that a task logs for. -/
theorem job_of_starts
    (hCall :
      Calls registry allowed system taskId false task op
        (.ok value) world')
    (hStarts : task.Starts)
    {threadId : ThreadId}
    {runId : RunId}
    {event : RunEvent}
    (hOp : op = .appendRunEvent threadId runId event) :
    ∃ job,
      task.phase.role.job? = some job ∧ threadId = job.thread ∧
        runId = job.log ∧ task.phase.drawn = some event.seq := by
  subst hOp
  have hAllows := hCall.allows
  have hDrawn : task.phase.drawn = some event.seq := hCall.drawn
  unfold Task.Starts at hStarts
  cases hRole : task.phase.role with
  | on job stage =>
      rw [hRole] at hAllows
      cases hAllows with
      | on hStage =>
          rcases job_of_logs hStage with ⟨rfl, rfl⟩
          exact ⟨job, rfl, rfl, rfl, hDrawn⟩
  | aside =>
      rw [hRole] at hAllows
      cases hAllows
  | fresh =>
      rw [hRole] at hAllows
      cases hAllows
  | looking =>
      rw [hRole] at hStarts
      cases hStarts
  | watching =>
      rw [hRole] at hStarts
      cases hStarts

/- A task of a start stays one. -/
theorem starts_of_call
    {task : Task}
    {op : Op}
    {next : Except Exn op.Reply → Driver Unit}
    (hProgram : task.program = .call op next)
    (hStarts : task.Starts)
    (reply : Except Exn op.Reply) :
    Task.Starts
      { task with
        program := next reply
        phase := task.phase.after op reply } := by
  unfold Task.Starts at hStarts ⊢
  cases hRole : task.phase.role with
  | fresh =>
      rw [hRole] at hStarts
      rcases hStarts with ⟨hNone, hEnded | hOpens⟩
      · rw [Task.ended, hProgram] at hEnded
        cases hEnded
      · rcases hOpens with ⟨threadId, model, next', hOpen, hRet⟩
        rw [hProgram] at hOpen
        cases hOpen
        simp only [Phase.after, hRole]
        cases reply with
        | ok runId => trivial
        | error exn =>
            refine ⟨hNone, Or.inl ?_⟩
            rcases hRet exn with ⟨result, hResult⟩
            rw [Task.ended, hResult]
  | aside =>
      simp only [Phase.after, hRole]
      trivial
  | on job stage =>
      simp only [Phase.after, hRole]
      trivial
  | looking =>
      rw [hRole] at hStarts
      cases hStarts
  | watching =>
      rw [hRole] at hStarts
      cases hStarts

/- The job of a task of a start is kept, or it is new. -/
theorem job_after
    {task : Task}
    {op : Op}
    {reply : Except Exn op.Reply}
    {job : Job}
    {next : Except Exn op.Reply → Driver Unit}
    (hProgram : task.program = .call op next)
    (hStarts : task.Starts)
    (hJob : (task.phase.role.after op reply).job? = some job) :
    task.phase.role.job? = some job ∨
      task.phase.role.job? = none ∧ task.phase.drawn = none ∧
        ∃ threadId model,
          op = .openRun threadId model ∧
            reply ≍ (Except.ok job.log : Except Exn RunId) := by
  unfold Task.Starts at hStarts
  cases hRole : task.phase.role with
  | on job' stage =>
      rw [hRole] at hJob
      exact Or.inl hJob
  | aside =>
      rw [hRole] at hJob
      cases hJob
  | fresh =>
      rw [hRole] at hJob hStarts
      rcases hStarts with ⟨hNone, hEnded | hOpens⟩
      · rw [Task.ended, hProgram] at hEnded
        cases hEnded
      · rcases hOpens with ⟨threadId, model, next', hOpen, -⟩
        rw [hProgram] at hOpen
        cases hOpen
        refine Or.inr ⟨rfl, hNone, ?_⟩
        cases reply with
        | error exn => cases hJob
        | ok runId =>
            cases hJob
            exact ⟨_, _, rfl, HEq.rfl⟩
  | looking =>
      rw [hRole] at hStarts
      cases hStarts
  | watching =>
      rw [hRole] at hStarts
      cases hStarts

/- A task on a run is at a stage that allows its calls. -/
theorem stage_of_job
    {role : Role}
    {job : Job}
    (hJob : role.job? = some job)
    {op : Op}
    (hAllows : role.Allows op) :
    ∃ stage, Stage.Allows job stage op := by
  cases hAllows with
  | on hStage =>
      cases hJob
      exact ⟨_, hStage⟩
  | _ => cases hJob

/- A task on a run knows the run that it logs for. -/
theorem known_of_job
    {db : Db}
    {role : Role}
    {job : Job}
    (hJob : role.job? = some job)
    (hKnown : role.Known db) :
    db.hasRun job.log job.thread := by
  cases role with
  | on job' stage =>
      cases hJob
      exact hKnown.2
  | _ => cases hJob

/- A number that is drawn is not logged by the same call. -/
theorem drew_of_logs
    {seq : ThreadId × Nat}
    (hDrew : op.drew value = some seq) :
    op.logs = false := by
  cases op with
  | appendRunEvent => cases hDrew
  | _ => rfl

/- The log of a run after a call that logs nothing. -/
theorem runLog_of_quiet
    (hExec :
      exec task.inst op system.world = (.ok value, world'))
    (hLogs : op.logs = false)
    (runId : RunId) :
    world'.db.runLog runId = system.world.db.runLog runId := by
  rcases runLog_of_exec hExec runId with
    hSame | ⟨threadId, event, rfl, -⟩
  · exact hSame
  · cases hLogs

/- A successful call keeps the numbers of the logs. -/
theorem keeps_numbers
    {next : Except Exn op.Reply → Driver Unit}
    (hCall :
      Calls registry allowed system taskId false task op
        (.ok value) world')
    (hExec :
      exec task.inst op system.world = (.ok value, world'))
    (hProgram : task.program = .call op next)
    (hHolds : numberOutline.Holds system.world system.tasks) :
    numberOutline.Keeps system.tasks taskId system.world task
      world'
      { task with
        program := next (.ok value)
        phase := task.phase.after op (.ok value) } := by
  rcases hHolds.locally taskId task hCall.present with
    ⟨hStarts, hNumber⟩
  rcases hHolds.globally with ⟨hLogged, hSorted⟩
  have hFormed := wellFormed_of_reachable hCall.reachable
  have hMono := fun threadId =>
    (lastSeq_of_exec hExec threadId).1
  refine ⟨⟨?_, ?_⟩, ⟨starts_of_call hProgram hStarts _, ?_⟩, ?_⟩
  · intro row hRow
    rcases log_of_exec hExec with
      hLog | ⟨threadId, runId, event, hOp, hLog⟩
    · rw [hLog] at hRow
      exact Nat.le_trans (hLogged row hRow) (hMono _)
    · rw [hLog] at hRow
      rcases List.mem_append.mp hRow with hOld | hNew
      · exact Nat.le_trans (hLogged row hOld) (hMono _)
      · rcases job_of_starts hCall hStarts hOp with
          ⟨job, hJob, rfl, -, hDrawn⟩
        rw [List.mem_singleton.mp hNew]
        exact
          Nat.le_trans (hNumber job event.seq hJob hDrawn).1
            (hMono _)
  · intro runId
    rcases runLog_of_exec hExec runId with
      hSame | ⟨threadId, event, hOp, hLog⟩
    · rw [hSame]
      exact hSorted runId
    · rcases job_of_starts hCall hStarts hOp with
        ⟨job, hJob, -, rfl, hDrawn⟩
      rw [hLog]
      refine
        List.pairwise_append.mpr
          ⟨hSorted _, List.pairwise_singleton _ _, ?_⟩
      intro old hOld new hNew
      rw [List.mem_singleton.mp hNew]
      exact (hNumber job event.seq hJob hDrawn).2 old hOld
  · intro job seq hJob hDrawn
    rcases job_after hProgram hStarts hJob with
      hOld | ⟨-, hNone, threadId, model, rfl, -⟩
    · rcases drawn_after hDrawn with
        ⟨hHeld, hLogs⟩ | ⟨threadId, hDrew⟩
      · rcases hNumber job seq hOld hHeld with ⟨hLe, hBehind⟩
        refine ⟨Nat.le_trans hLe (hMono _), ?_⟩
        rw [runLog_of_quiet hExec hLogs]
        exact hBehind
      · rcases stage_of_job hOld hCall.allows with
          ⟨stage, hStage⟩
        cases thread_of_drew hStage hDrew
        rcases (lastSeq_of_exec hExec job.thread).2 seq hDrew with
          ⟨hSeq, hLast⟩
        refine ⟨Nat.le_of_eq hLast.symm, ?_⟩
        rw [runLog_of_quiet hExec (drew_of_logs hDrew)]
        intro event hMem
        have hRun :=
          known_of_job hOld
            (known_of_reachable hCall.reachable hCall.present)
        have hLe := seq_le_of_runLog hFormed hLogged hRun hMem
        rw [hSeq]
        exact Nat.lt_succ_of_le hLe
    · have hHeld : task.phase.drawn = some seq := hDrawn
      rw [hNone] at hHeld
      cases hHeld
  · intro otherId other hNe hPresent hOther hBoth
    refine ⟨⟨hOther.1, ?_⟩, ?_⟩
    · intro job' seq hJob' hDrawn
      rcases hOther.2 job' seq hJob' hDrawn with ⟨hLe, hBehind⟩
      refine ⟨Nat.le_trans hLe (hMono _), ?_⟩
      rcases runLog_of_exec hExec job'.log with
        hSame | ⟨threadId, event, hOp, -⟩
      · rw [hSame]
        exact hBehind
      · rcases job_of_starts hCall hStarts hOp with
          ⟨job, hJob, -, hLog, -⟩
        exact absurd hLog.symm (hBoth.1 job job' hJob hJob')
    · have hApart :
          ∀ job job',
            (task.phase.role.after op (.ok value)).job? =
                some job →
              other.phase.role.job? = some job' →
                job.log ≠ job'.log := by
        intro job job' hJob hJob'
        rcases job_after hProgram hStarts hJob with
          hOld | ⟨-, -, threadId, model, rfl, hReply⟩
        · exact hBoth.1 job job' hOld hJob'
        · have hValue : value = job.log := by
            have hEq := eq_of_heq hReply
            exact Except.ok.inj hEq
          rcases of_openRun (statement_of_onDb hExec) with
            ⟨hNext, -, -, -⟩
          have hRun :=
            known_of_job hJob'
              (known_of_reachable hCall.reachable hPresent)
          rw [← hValue, hNext]
          intro hEq
          rw [Db.hasRun, ← hEq, hFormed.freshRun] at hRun
          cases hRun
      exact
        ⟨hApart, fun job' job hJob' hJob =>
          (hApart job job' hJob hJob').symm⟩

/- A call that fails keeps the numbers of the logs. -/
theorem keeps_numbers_failed
    {exn : Exn}
    {next : Except Exn op.Reply → Driver Unit}
    (hPresent : system.tasks taskId = some task)
    (hProgram : task.program = .call op next)
    (hHolds : numberOutline.Holds system.world system.tasks) :
    numberOutline.Keeps system.tasks taskId system.world task
      system.world
      { task with
        program := next (.error exn)
        phase := task.phase.after op (.error exn) } := by
  rcases hHolds.locally taskId task hPresent with
    ⟨hStarts, hNumber⟩
  have hOld :
      ∀ job,
        (task.phase.role.after op (.error exn)).job? = some job →
          task.phase.role.job? = some job := by
    intro job hJob
    rcases job_after hProgram hStarts hJob with
      hOld | ⟨-, -, threadId, model, rfl, hReply⟩
    · exact hOld
    · cases eq_of_heq hReply
  refine
    ⟨hHolds.globally, ⟨starts_of_call hProgram hStarts _, ?_⟩,
      ?_⟩
  · intro job seq hJob hDrawn
    exact hNumber job seq (hOld job hJob) (drawn_failed hDrawn)
  · intro otherId other hNe hOtherTask hOther hBoth
    refine ⟨hOther, ?_, ?_⟩
    · intro job job' hJob hJob'
      exact hBoth.1 job job' (hOld job hJob) hJob'
    · intro job' job hJob' hJob
      exact hBoth.2 job' job hJob' (hOld job hJob)

end Calls

/- A request has no run yet. -/
theorem job_of_request
    (registry : Registry)
    (inst : InstanceId)
    (request : Request) :
    (request.task registry inst).phase.role.job? = none := by
  cases request <;> rfl

/- Every step of one pump keeps the numbers of the logs. -/
theorem sustains_numbers
    (registry : Registry) :
    Sustains registry Watched numberOutline where
  request := by
    intro system taskId inst request hAllowed _
    refine ⟨?_, ?_⟩
    · cases request with
      | start threadId message model script =>
          exact
            ⟨rfl, Or.inr ⟨_, _, _, rfl, fun exn => ⟨_, rfl⟩⟩⟩
      | resume => exact absurd hAllowed.pump id
      | interrupt => exact absurd hAllowed.pump id
      | createThread => exact trivial
      | fork => exact trivial
      | stream => exact trivial
    · intro job seq hJob
      rw [job_of_request] at hJob
      cases hJob
  alone := by
    intro inst request other
    constructor
    · intro job job' hJob
      rw [job_of_request] at hJob
      cases hJob
    · intro job job' _ hJob
      rw [job_of_request] at hJob
      cases hJob
  call := by
    intro system taskId fault task op reply world' next hCall
      hProgram hHolds
    cases hCall.executes with
    | done hExec => exact keeps_numbers hCall hExec hProgram hHolds
    | refused =>
        exact
          keeps_numbers_failed hCall.present hProgram hHolds
    | fault =>
        exact
          keeps_numbers_failed hCall.present hProgram hHolds
  sent := by
    intro system taskId task event next _ hTask hProgram hRole
      hHolds
    rcases hHolds.locally taskId task hTask with ⟨-, hNumber⟩
    refine ⟨hHolds.globally, ⟨?_, hNumber⟩, ?_⟩
    · unfold Task.Starts
      rw [hRole]
      trivial
    · exact fun _ _ _ _ hOther hBoth => ⟨hOther, hBoth⟩
  advance := by
    intro system seconds _ _ hHolds
    exact ⟨hHolds.globally, fun _ hTask => hTask⟩
  heartbeat := by
    intro system inst _ _ hHolds
    exact ⟨hHolds.globally, fun _ hTask => hTask⟩
  sweep := by
    intro system action selects _ _ _ hHolds
    exact ⟨hHolds.globally, fun _ hTask => hTask⟩
  collect := by
    intro system retention _ hAllowed _
    exact absurd hAllowed.pump id
  crash := by
    intro system inst _ hHolds
    exact ⟨hHolds.globally, fun _ _ hTask => hTask⟩

/- With one pump the numbers of a log increase. -/
theorem runLog_sorted
    {registry : Registry}
    {system : System}
    (hReachable : Reachable registry Watched system)
    (runId : RunId) :
    (system.world.db.runLog runId).Pairwise fun event other =>
      event.seq < other.seq :=
  (holds_of_reachable (sustains_numbers registry)
    ⟨(fun _ hRow => nomatch hRow), fun _ => List.Pairwise.nil⟩
    hReachable).globally.2 runId

------------------------------------------------------------
-- Sessions
------------------------------------------------------------

/- A stream behind a page, with its polls that are left. -/
def streamRest
    (runId : RunId)
    (polls : Nat)
    (empty : Bool)
    (sent : RunManager.StreamCursor) :
    Driver Unit :=
  if sent.ended then
    pure ()
  else if empty then do
    match ← call (.getRun runId) with
    | some (_, status) =>
        if status.terminal then
          Gen.emit
            (dbTerminalEvent runId status
              (sent.last.elim 0 (· + 1)))
        else
          RunManager.stream runId polls sent.last
    | none => RunManager.stream runId polls sent.last
  else
    RunManager.stream runId polls sent.last

/-
  How far a stream from the beginning of a log has come: what
  it sent is the beginning of the log, it is about to read the
  log, to send a page or to ask for the status, or it has
  failed, or it has sent the terminal event.
-/
inductive Session
    (runId : RunId)
    (log sent : List RunEvent) :
    Driver Unit → Prop where
  | polling
      {polls : Nat}
      (hLog : sent <+: log)
      (hNone : ∀ event ∈ sent, event.name.terminal = false) :
      Session runId log sent
        (RunManager.stream runId polls (lastEventId sent))
  | paging
      {polls : Nat}
      {event : RunEvent}
      {events : List RunEvent}
      (hLog : sent ++ event :: events <+: log)
      (hNone : ∀ event ∈ sent, event.name.terminal = false) :
      Session runId log sent
        (RunManager.sendPage ⟨lastEventId sent, false⟩
            (event :: events) >>=
          streamRest runId polls false)
  | asking
      {polls : Nat}
      (hLog : sent <+: log)
      (hNone : ∀ event ∈ sent, event.name.terminal = false) :
      Session runId log sent
        (streamRest runId polls true ⟨lastEventId sent, false⟩)
  | failed (exn : Exn) : Session runId log sent (.ret (.error exn))
  | complete
      (hLog : sent <+: log)
      (hEnds : EndsOnce sent) :
      Session runId log sent (.ret (.ok ()))

/- A session goes on when its log grows. -/
theorem Session.grow
    {runId : RunId}
    {log more sent : List RunEvent}
    {program : Driver Unit}
    (hSession : Session runId log sent program)
    (hGrows : log <+: more) :
    Session runId more sent program := by
  cases hSession with
  | polling hLog hNone => exact .polling (hLog.trans hGrows) hNone
  | paging hLog hNone => exact .paging (hLog.trans hGrows) hNone
  | asking hLog hNone => exact .asking (hLog.trans hGrows) hNone
  | failed exn => exact .failed exn
  | complete hLog hEnds => exact .complete (hLog.trans hGrows) hEnds

/- The last number behind a received event. -/
theorem lastEventId_concat
    (sent : List RunEvent)
    (event : RunEvent) :
    lastEventId (sent ++ [event]) = some event.seq := by
  simp [lastEventId]

/- A session that sends an event. -/
theorem session_sent
    {runId : RunId}
    {log sent : List RunEvent}
    {event : RunEvent}
    {next : Except Exn Unit → Driver Unit}
    (hSession : Session runId log sent (.yield event next)) :
    Session runId log (sent ++ [event]) (next (.ok ())) := by
  generalize hProgram : Gen.yield event next = program at hSession
  cases hSession with
  | @polling polls hLog hNone => cases polls <;> cases hProgram
  | @paging polls first events hLog hNone =>
      cases hProgram
      have hPrefix : sent ++ [event] ++ events <+: log := by
        rw [List.append_assoc]
        exact hLog
      have hSent : sent ++ [event] <+: log :=
        (List.prefix_append _ _).trans hPrefix
      change
        Session runId log (sent ++ [event])
          ((if event.name.terminal = true then
                pure ⟨some event.seq, true⟩
              else
                RunManager.sendPage ⟨some event.seq, false⟩
                  events) >>=
            streamRest runId polls false)
      by_cases hTerminal : event.name.terminal = true
      · rw [if_pos hTerminal]
        exact .complete hSent ⟨sent, event, rfl, hTerminal, hNone⟩
      · rw [if_neg hTerminal]
        rw [Bool.not_eq_true] at hTerminal
        have hNone' :
            ∀ other ∈ sent ++ [event],
              other.name.terminal = false := by
          intro other hMem
          rcases List.mem_append.mp hMem with hOld | hNew
          · exact hNone other hOld
          · rw [List.mem_singleton.mp hNew]
            exact hTerminal
        rw [← lastEventId_concat sent event]
        cases events with
        | nil => exact .polling hSent hNone'
        | cons other events => exact .paging hPrefix hNone'
  | asking => cases hProgram
  | failed => cases hProgram
  | complete => cases hProgram

section Reads

variable {registry : Registry}
variable {system : System} {taskId : TaskId} {task : Task}
variable {runId : RunId} {world' : World}

/- A session that makes a call which comes back. -/
theorem session_called
    {op : Op}
    {value : op.Reply}
    {next : Except Exn op.Reply → Driver Unit}
    (hCall :
      Calls registry Watched system taskId false task op
        (.ok value) world')
    (hExec :
      exec task.inst op system.world = (.ok value, world'))
    (hStreams : task.request.streams = true)
    (hSession :
      Session runId (system.world.db.runLog runId) task.sent
        (.call op next)) :
    Session runId (world'.db.runLog runId) task.sent
      (next (.ok value)) := by
  have hSorted := runLog_sorted hCall.reachable runId
  have hSeqs :=
    seqs_of_reachable hCall.reachable runId
  have hReplay :
      system.world.db.replay runId =
        system.world.db.runLog runId :=
    inOrder_of_sorted hSorted
  generalize hProgram : Gen.call op next = program at hSession
  cases hSession with
  | @polling polls hLog hNone =>
      cases polls with
      | zero => cases hProgram
      | succ polls =>
          cases hProgram
          rcases hLog with ⟨rest, hRest⟩
          have hPage :=
            page_of_prefix hSeqs (hReplay.trans hRest.symm)
          simp only [exec, World.onDb, Statement.commit, hPage]
            at hExec
          cases hExec
          change
            Session runId (system.world.db.runLog runId) task.sent
              (RunManager.sendPage
                  ⟨lastEventId task.sent, false⟩
                  (rest.take pageLimit) >>=
                streamRest runId polls
                  (rest.take pageLimit).isEmpty)
          have hPrefix :
              task.sent ++ rest.take pageLimit <+:
                system.world.db.runLog runId := by
            rw [← hRest]
            exact
              (List.prefix_append_right_inj _).mpr
                (List.take_prefix _ _)
          cases hTake : rest.take pageLimit with
          | nil =>
              exact .asking ⟨rest, hRest⟩ hNone
          | cons event events =>
              rw [hTake] at hPrefix
              exact .paging hPrefix hNone
  | @asking polls hLog hNone =>
      cases hProgram
      have hReads := hCall.permitted.reads
      rw [System.readsEnded, call?_of_calls hCall] at hReads
      dsimp only at hReads
      rw [hStreams, Bool.true_and] at hReads
      have hValue :
          value =
            (system.world.db.runs.get? runId).map fun run =>
              (run.threadId, run.status) := by
        cases hExec
        rfl
      have hWorld : world' = system.world := by
        cases hExec
        rfl
      rw [hWorld]
      cases hRun : system.world.db.runs.get? runId with
      | none =>
          rw [hRun, Option.map_none] at hValue
          subst hValue
          exact .polling hLog hNone
      | some run =>
          rw [hRun, Option.map_some] at hValue
          subst hValue
          rw [Db.status?, hRun] at hReads
          have hActive : run.status.terminal = false := hReads
          change
            Session runId _ task.sent
              (if run.status.terminal = true then
                  Gen.emit
                    (dbTerminalEvent runId run.status
                      ((lastEventId task.sent).elim 0 (· + 1)))
                else
                  RunManager.stream runId polls
                    (lastEventId task.sent))
          rw [hActive, if_neg Bool.false_ne_true]
          exact .polling hLog hNone
  | paging => cases hProgram
  | failed => cases hProgram
  | complete => cases hProgram

/- A session that makes a call which fails. -/
theorem session_failed
    {log sent : List RunEvent}
    {op : Op}
    {exn : Exn}
    {next : Except Exn op.Reply → Driver Unit}
    (hSession : Session runId log sent (.call op next)) :
    Session runId log sent (next (.error exn)) := by
  generalize hProgram : Gen.call op next = program at hSession
  cases hSession with
  | @polling polls hLog hNone =>
      cases polls with
      | zero => cases hProgram
      | succ polls =>
          cases hProgram
          exact .failed exn
  | asking =>
      cases hProgram
      exact .failed exn
  | paging => cases hProgram
  | failed => cases hProgram
  | complete => cases hProgram

/- A log only grows by a call. -/
theorem runLog_grows
    {op : Op}
    {value : op.Reply}
    (hExec :
      exec task.inst op system.world = (.ok value, world'))
    (runId : RunId) :
    system.world.db.runLog runId <+: world'.db.runLog runId := by
  rcases runLog_of_exec hExec runId with
    hSame | ⟨threadId, event, -, hLog⟩
  · exact ⟨[], by rw [List.append_nil, hSame]⟩
  · rw [hLog]
    exact List.prefix_append _ _

end Reads

/- Streams from the beginning of a log are sessions. -/
def sessionOutline : Outline World Task where
  globally := fun _ => True
  locally := fun world task =>
    ∀ runId,
      task.request.streamed = some runId →
        Session runId (world.db.runLog runId) task.sent
          task.program
  mutually := fun _ _ => True

theorem streams_of_streamed
    {request : Request}
    {runId : RunId}
    (hStreamed : request.streamed = some runId) :
    request.streams = true := by
  cases request <;> first | rfl | cases hStreamed

/- Every step of one pump keeps the sessions. -/
theorem sustains_sessions
    (registry : Registry) :
    Sustains registry Watched sessionOutline where
  request := by
    intro system taskId inst request _ _ runId hStreamed
    cases request with
    | stream streamed polls cursor =>
        cases cursor with
        | none =>
            cases hStreamed
            exact
              .polling List.nil_prefix fun _ hMem => nomatch hMem
        | some last => cases hStreamed
    | _ => cases hStreamed
  alone := fun _ _ _ => ⟨trivial, trivial⟩
  call := by
    intro system taskId fault task op reply world' next hCall
      hProgram hHolds
    have hMine := hHolds.locally taskId task hCall.present
    cases hCall.executes with
    | done hExec =>
        refine ⟨trivial, ?_, ?_⟩
        · intro runId hRequest
          have hSession := hMine runId hRequest
          rw [hProgram] at hSession
          have hStreams := streams_of_streamed hRequest
          have hNext :=
            session_called hCall hExec hStreams hSession
          exact hNext
        · intro otherId other _ _ hOther _
          refine ⟨?_, trivial, trivial⟩
          intro runId hRequest
          exact
            (hOther runId hRequest).grow
              (runLog_grows hExec runId)
    | refused =>
        refine
          ⟨trivial, ?_, fun _ _ _ _ hOther hBoth =>
            ⟨hOther, hBoth⟩⟩
        intro runId hRequest
        have hSession := hMine runId hRequest
        rw [hProgram] at hSession
        exact session_failed hSession
    | fault =>
        refine
          ⟨trivial, ?_, fun _ _ _ _ hOther hBoth =>
            ⟨hOther, hBoth⟩⟩
        intro runId hRequest
        have hSession := hMine runId hRequest
        rw [hProgram] at hSession
        exact session_failed hSession
  sent := by
    intro system taskId task event next _ hTask hProgram _ hHolds
    refine
      ⟨trivial, ?_, fun _ _ _ _ hOther hBoth =>
        ⟨hOther, hBoth⟩⟩
    intro runId hRequest
    have hSession :=
      hHolds.locally taskId task hTask runId hRequest
    rw [hProgram] at hSession
    exact session_sent hSession
  advance := by
    intro system seconds _ _ _
    exact ⟨trivial, fun _ hTask => hTask⟩
  heartbeat := by
    intro system inst _ _ _
    exact ⟨trivial, fun _ hTask => hTask⟩
  sweep := by
    intro system action selects _ _ _ _
    exact ⟨trivial, fun _ hTask => hTask⟩
  collect := by
    intro system retention _ hAllowed _
    exact absurd hAllowed.pump id
  crash := by
    intro system inst _ _
    exact ⟨trivial, fun _ _ hTask => hTask⟩

------------------------------------------------------------
-- Complete Streams
------------------------------------------------------------

/- A beginning that ends once is what a log is sent through. -/
theorem throughTerminal_of_initial
    {sent log : List RunEvent}
    (hLog : sent <+: log)
    (hEnds : EndsOnce sent) :
    throughTerminal log = sent := by
  rcases hLog with ⟨rest, rfl⟩
  rcases hEnds with ⟨before, last, rfl, hLast, hBefore⟩
  induction before with
  | nil => simp [throughTerminal, hLast]
  | cons event before ih =>
      rw [List.forall_mem_cons] at hBefore
      have hRest := ih hBefore.2
      simp only [List.cons_append, throughTerminal, hBefore.1]
      simpa using hRest

/-
  In every run with one pump for each run in which no stream
  finds that its run has ended, a stream from the beginning
  that returns has sent the log up to its terminal event, each
  event once and in order, and no event of its own.
-/
theorem stream_complete
    {registry : Registry}
    {system : System}
    (hReachable : Reachable registry Watched system)
    {taskId : TaskId}
    {task : Task}
    {runId : RunId}
    (hTask : system.tasks taskId = some task)
    (hStreamed : task.request.streamed = some runId)
    (hReturned : task.returned = true) :
    Complete system.world.db runId task.sent ∧
      EndsOnce task.sent := by
  have hSession :=
    (holds_of_reachable (sustains_sessions registry) trivial
      hReachable).locally taskId task hTask runId hStreamed
  unfold Task.returned at hReturned
  generalize task.program = program at hSession hReturned
  cases hSession with
  | complete hLog hEnds =>
      refine ⟨⟨[], ?_, fun _ hMem => nomatch hMem⟩, hEnds⟩
      rw [throughTerminal_of_initial hLog hEnds, List.append_nil]
  | @polling polls => cases polls <;> cases hReturned
  | paging => cases hReturned
  | asking => cases hReturned
  | failed => cases hReturned

/-
  A stream that sends each event while the pump of its run
  goes on.
-/
def promptStream : List Action :=
  [.request 0 0 (.createThread none)] ++ turns 0 1 ++
    [.request 1 0
      (.start 0 [] none [.agent (.str []) []])] ++
    turns 1 6 ++ [.request 2 0 (.stream 1 9 none)] ++
    turns 2 4 ++ turns 1 8 ++ turns 2 2 ++ turns 1 3 ++
    turns 2 2

theorem stream_complete_prompt :
    ∃ system task,
      execute (System.step .single) promptStream .initial =
          some system ∧
        system.tasks 2 = some task ∧
          Complete system.world.db 1 task.sent ∧
            task.sent.length = 3 := by
  rcases
      exists_of_execute
        (show
          (execute (System.step .single) promptStream
              .initial).map (fun system =>
                (system.tasks 2).map fun task =>
                  (task.request.streamed, task.returned,
                    task.sent.length)) =
            some (some (some 1, true, 3)) by
          decide +kernel) with
    ⟨system, hSystem, hView⟩
  rcases Option.map_eq_some_iff.mp hView with
    ⟨task, hTask, hView⟩
  simp only [Prod.mk.injEq] at hView
  rcases hView with ⟨hStreamed, hReturned, hLength⟩
  have hPasses :
      passes (System.step .single)
          (fun system action => decide (Watched system action))
          promptStream .initial =
        true := by
    decide +kernel
  have hReachable : Reachable .single Watched system :=
    run_of_execute hSystem hPasses fun _ _ hTest =>
      of_decide_eq_true hTest
  exact
    ⟨system, task, hSystem, hTask,
      (stream_complete hReachable hTask hStreamed hReturned).1,
      hLength⟩

/-
  A stream polls between the commit of the answer and the
  events that announce it.
-/
def earlyStream : List Action :=
  [.request 0 0 (.createThread none)] ++ turns 0 1 ++
    [.request 1 0
      (.start 0 [] none [.agent (.str []) []])] ++
    turns 1 13 ++ [.request 2 0 (.stream 1 5 none)] ++
    turns 2 5 ++ turns 1 5

/- It ends without the answer. -/
theorem stream_skips_answer :
    ¬ ∀ (registry : Registry) (system : System)
        (taskId : TaskId) (task : Task) (runId : RunId),
      Reachable registry OnePump system →
        system.tasks taskId = some task →
          task.request.streamed = some runId →
            task.returned = true →
              Complete system.world.db runId task.sent := by
  intro hComplete
  rcases
      exists_of_execute
        (show
          (execute (System.step .single) earlyStream
              .initial).map (fun system =>
                ((system.tasks 2).map fun task =>
                    (task.request.streamed, task.returned,
                      task.sent.map RunEvent.seq),
                  (throughTerminal
                    (system.world.db.runLog 1)).map
                      RunEvent.seq)) =
            some (some (some 1, true, [1, 2]), [1, 3, 4]) by
          decide +kernel) with
    ⟨system, hSystem, hView⟩
  simp only [Prod.mk.injEq] at hView
  rcases hView with ⟨hView, hLog⟩
  rcases Option.map_eq_some_iff.mp hView with
    ⟨task, hTask, hView⟩
  simp only [Prod.mk.injEq] at hView
  rcases hView with ⟨hStreamed, hReturned, hSent⟩
  have hPasses :
      passes (System.step .single)
          (fun system action => decide (OnePump system action))
          earlyStream .initial =
        true := by
    decide +kernel
  have hReachable : Reachable .single OnePump system :=
    run_of_execute hSystem hPasses fun _ _ hTest =>
      of_decide_eq_true hTest
  rcases
      hComplete .single system 2 task 1 hReachable hTask hStreamed
        hReturned with
    ⟨synthetic, hEq, -⟩
  have hSeqs := congrArg (List.map RunEvent.seq) hEq
  rw [List.map_append, hSent, hLog] at hSeqs
  have hLength := congrArg List.length hSeqs
  simp only [List.length_append, List.length_cons,
    List.length_nil] at hLength
  omega

end LegalAgent
