import LegalAgent.Properties.PosedCalls
import LegalAgent.Properties.Surgery

/-
  What a paused run shows of its calls.

  The cells of a run without a result and the last message of
  its checkpoint show the same calls whenever the run waits
  for an approval, as long as no other task changes the
  checkpoint of a thread with an active run, and only running
  runs are paused.

  Key definitions include:
    * `Db.Posed`
    * `Task.Viewed`
    * `Answering`
    * `Sheltered`

  Key theorems include:
    * `kept_of_untouched`
    * `sustains_posedOutline`
    * `posed_of_reachable`
-/

------------------------------------------------------------
-- Sheltered Checkpoints
------------------------------------------------------------

namespace LegalAgent

open Library

/- What is true of the calls of the runs of a database. -/
structure Db.Posed (db : Db) : Prop where
  named : ∀ runId, db.Named runId []
  posed :
    ∀ runId threadId,
      db.hasRun runId threadId →
        db.status? runId = some .awaitingApproval →
          Poses (db.checkpoints threadId) (db.waits runId)
  housed :
    ∀ runId threadId,
      db.hasRun runId threadId →
        (db.threads.get? threadId).isSome = true

/- What is true of the calls of the run of a task. -/
structure Task.Viewed (db : Db) (task : Task) : Prop where
  makes :
    task.program.Within fun op => task.request.makes op = true
  ended :
    ∀ job cells graph,
      task.phase.role = .on job (.closing cells graph) →
        db.isActive job.run = false
  named :
    ∀ job stage,
      task.phase.role = .on job stage →
        stage.writes = true →
          db.Named job.run stage.cells
  views :
    ∀ job stage,
      task.phase.role = .on job stage →
        stage.writes = true →
          db.status? job.run = some .running →
            stage.Views (db.waits job.run)
              (db.checkpoints job.thread)
              task.request.resumes

/-
  The calls that an agent step asks for have ids, different
  from those of the other calls of the run, and the tools
  answer every call.
-/
structure Answering
    (system : System)
    (action : Action) :
    Prop where
  named :
    ∀ task job stage threadId content calls,
      system.call? action =
          some
            (task,
              .graphNext threadId .agentNext
                (some (.agent content calls))) →
        task.phase.role = .on job stage →
          system.world.db.Named job.run calls
  answers :
    ∀ task threadId calls answers,
      system.call? action =
          some
            (task,
              .graphNext threadId (.toolsNext calls)
                (some (.tools answers))) →
        ∀ call ∈ calls, (answers call).content ≠ .null

/-
  Only running runs are paused, and while a run is active only
  its own tasks change the checkpoint of its thread.
-/
structure Sheltered
    (system : System)
    (action : Action) :
    Prop where
  paused : Paused system action
  alone :
    ∀ task op runId threadId,
      system.call? action = some (task, op) →
        (exec task.inst op
                system.world).2.db.checkpoints threadId ≠
            system.world.db.checkpoints threadId →
          system.world.db.hasRun runId threadId →
            system.world.db.isActive runId = true →
              task.phase.role.job?.map Job.run = some runId
  answering : Answering system action

------------------------------------------------------------
-- Untouched Runs
------------------------------------------------------------

section Untouched

variable {inst : InstanceId} {world world' : World}
variable {role : Role} {op : Op} {value : op.Reply}
variable {runId : RunId} {threadId : ThreadId}

/- A call that writes one of the sides is one of a job. -/
theorem on_of_touches
    (hAllows : role.Allows op)
    (hJob :
      op.editsCells? = some runId ∨
        role.job?.map Job.run = some runId ∧
          op.graph? ≠ none) :
    ∃ job stage,
      role = .on job stage ∧ job.run = runId ∧
        (stage.writes = true ∨
          ∃ cells graph, stage = .closing cells graph) := by
  cases hAllows with
  | @on job stage _ hStage =>
      refine ⟨job, stage, rfl, ?_, ?_⟩
      · rcases hJob with hEdits | ⟨hRun, -⟩
        · cases hStage <;> cases hEdits <;> rfl
        · exact Option.some_inj.mp hRun
      · cases hStage <;>
          first
          | exact Or.inl rfl
          | exact Or.inr ⟨_, _, rfl⟩
          | (rcases hJob with hEdits | ⟨-, hGraph⟩
             · cases hEdits
             · exact absurd rfl hGraph)
  | _ =>
      rcases hJob with hEdits | ⟨hRun, -⟩
      · cases hEdits
      · cases hRun

/-
  A call keeps the two sides of an active run that its task
  does not write.
-/
theorem kept_of_untouched
    (hAllows : role.Allows op)
    (hExec : exec inst op world = (.ok value, world'))
    (hEnded :
      ∀ job cells graph,
        role = .on job (.closing cells graph) →
          world.db.isActive job.run = false)
    (hAlone :
      world'.db.checkpoints threadId ≠
          world.db.checkpoints threadId →
        role.job?.map Job.run = some runId)
    (hActive : world.db.isActive runId = true)
    (hOther : role.writer? ≠ some runId) :
    world'.db.waits runId = world.db.waits runId ∧
      world'.db.cellIds runId = world.db.cellIds runId ∧
        world'.db.checkpoints threadId =
          world.db.checkpoints threadId := by
  have hUntouched :
      ¬(op.editsCells? = some runId ∨
          role.job?.map Job.run = some runId ∧
            op.graph? ≠ none) := by
    intro hTouches
    rcases on_of_touches hAllows hTouches with
      ⟨job, stage, rfl, rfl, hWrites | ⟨cells, graph, rfl⟩⟩
    · exact hOther (writer?_of_writes hWrites)
    · rw [hEnded job cells graph rfl] at hActive
      cases hActive
  have hEdits : op.editsCells? ≠ some runId :=
    fun hEdits => hUntouched (Or.inl hEdits)
  refine
    ⟨(waits_of_exec hExec hEdits).1,
      (waits_of_exec hExec hEdits).2, ?_⟩
  by_contra hChanged
  refine hUntouched (Or.inr ⟨hAlone hChanged, ?_⟩)
  intro hGraph
  exact
    hChanged (checkpoints_of_exec hExec (by rw [hGraph]; nofun))

/- The active status of a run behind a call, and before it. -/
theorem status_before
    {db db' : Db}
    {status : RunStatus}
    (hChanges : ChangesRuns db db' op value)
    (hFresh : db.runs.get? db.nextId = none)
    (hAllows : role.Allows op)
    (hStatus : db'.status? runId = some status)
    (hActive : status.active = true) :
    db.status? runId = some status ∨
      op.begins value = some runId ∨
        status = .awaitingApproval ∧
          ∃ ended, op = .setRunStatus runId status ended := by
  have hWritten :
      ∀ other after ended run,
        db.runs.get? other = some run →
          db'.runs = (db.writeStatus other after ended).runs →
            db.status? runId = some status ∨
              (runId = other ∧ after = status) := by
    intro other after ended run hRun hRuns
    by_cases hEq : runId = other
    · subst hEq
      rw [status?_of_written hRun hRuns, Option.some_inj]
        at hStatus
      exact Or.inr ⟨rfl, hStatus⟩
    · left
      rwa [status?_of_other hRuns hEq] at hStatus
  cases hChanges with
  | opened hThread hAlone hRuns =>
      by_cases hEq : runId = db.nextId
      · right
        left
        rw [hEq]
        rfl
      · left
        rw [Db.status?, hRuns, Table.get?_insert hFresh,
          if_neg hEq] at hStatus
        exact hStatus
  | set hRun hAlone hRuns =>
      rcases pause_of_allows hAllows with ⟨rfl, rfl, -⟩
      rcases hWritten _ _ _ _ hRun hRuns with
        hSame | ⟨rfl, rfl⟩
      · exact Or.inl hSame
      · exact Or.inr (Or.inr ⟨rfl, _, rfl⟩)
  | moved hRun hFrom hAlone hRuns =>
      rcases hWritten _ _ _ _ hRun hRuns with
        hSame | ⟨rfl, rfl⟩
      · exact Or.inl hSame
      · right
        left
        cases transition_of_allows hAllows with
        | approve => rfl
        | _ => cases hActive
  | committed hRun hFrom hRuns =>
      rcases hWritten _ _ _ _ hRun hRuns with
        hSame | ⟨rfl, rfl⟩
      · exact Or.inl hSame
      · cases hActive
  | missing _ hRuns =>
      left
      rwa [status?_of_runs hRuns] at hStatus
  | kept _ hRuns =>
      left
      rwa [status?_of_runs hRuns] at hStatus

/- A run that a call ended is not active. -/
theorem ended_of_changes
    {db db' : Db}
    (hChanges : ChangesRuns db db' op value)
    (hEnded : op.ended value = some runId) :
    db'.isActive runId = false := by
  cases hChanges with
  | moved hRun _ _ hRuns =>
      simp only [Op.ended] at hEnded
      split at hEnded
      · cases hEnded
      · rename_i hNot
        cases hEnded
        rw [Db.isActive, status?_of_written hRun hRuns]
        simpa using hNot
  | committed hRun _ hRuns =>
      cases hEnded
      rw [Db.isActive, status?_of_written hRun hRuns]
      rfl
  | kept hKept _ =>
      cases op with
      | tryTransition runId fromStatus toStatus ended =>
          cases value with
          | true => cases hKept
          | false => cases hEnded
      | commitAgentAnswer =>
          cases value with
          | none => cases hEnded
          | some row => cases hKept
      | _ => cases hEnded
  | _ => cases hEnded

/- A closing task was closing before, or it ended its run. -/
theorem ended_of_closing
    {job : Job}
    {cells graph : Bool}
    (hAllows : role.Allows op)
    (hAfter :
      role.after op (.ok value) =
        .on job (.closing cells graph)) :
    (∃ cells graph, role = .on job (.closing cells graph)) ∨
      op.ended value = some job.run := by
  cases hAllows with
  | @on job' stage _ hStage =>
      rcases Role.on.inj hAfter with ⟨rfl, hClosing⟩
      cases hStage with
      | closingLog =>
          left
          exact ⟨_, _, rfl⟩
      | drivingNext =>
          rcases value with _ | ⟨chunk, state⟩
          · cases hClosing
          · cases chunk <;> cases hClosing
      | finalizingCommit =>
          right
          cases value with
          | none => cases hClosing
          | some row => rfl
      | _ =>
          first
            | exact Or.inl ⟨_, _, rfl⟩
            | cases hClosing
            | (cases value
               · cases hClosing
               · first
                   | exact Or.inr rfl
                   | cases hClosing)
  | watchingRunning =>
      cases value with
      | false => cases hAfter
      | true =>
          cases hAfter
          exact Or.inr rfl
  | watchingPaused =>
      cases value with
      | false => cases hAfter
      | true =>
          cases hAfter
          exact Or.inr rfl
  | freshActive =>
      rcases value with _ | ⟨_, status⟩
      · cases hAfter
      · cases status <;> cases hAfter
  | freshRead => rcases value with _ | _ <;> cases hAfter
  | lookingActive =>
      rcases value with _ | ⟨_, status⟩
      · cases hAfter
      · cases status <;> cases hAfter
  | _ => cases hAfter

/- A call keeps the threads. -/
theorem isSome_thread_of_exec
    (hExec : exec inst op world = (.ok value, world'))
    (hSome : (world.db.threads.get? threadId).isSome = true) :
    (world'.db.threads.get? threadId).isSome = true := by
  have hUpdate :
      ∀ selects change,
        ((world.db.threads.update selects change).get?
            threadId).isSome =
          true := by
    intro selects change
    rw [Table.get?_update, Option.isSome_map]
    exact hSome
  have hInsert :
      ∀ key thread,
        ((world.db.threads.insert key thread).get?
            threadId).isSome =
          true := by
    intro key thread
    cases hKey : world.db.threads.get? key with
    | some old =>
        rw [Table.insert_of_get? hKey]
        exact hSome
    | none =>
        rw [Table.get?_insert hKey]
        split
        · rfl
        · exact hSome
  cases op with
  | createThread title =>
      cases hExec
      exact hInsert _ _
  | forkThread parentId forkPoint =>
      rcases of_forkThread (statement_of_onDb hExec) with
        ⟨-, message, -, -, -, hDb⟩
      rw [hDb]
      exact hInsert _ _
  | setThreadTitleIfEmpty titledId title =>
      cases hExec
      exact hUpdate _ _
  | nextSeq other =>
      rcases of_nextSeq (statement_of_onDb hExec) with
        ⟨_, -, -, hDb⟩
      rw [hDb]
      exact hUpdate _ _
  | addMessage other new =>
      rcases value with ⟨messageId, seq⟩
      rcases of_insertMessage (statement_of_onDb hExec) with
        ⟨-, thread, db₁, -, -, hNext, -, hDb⟩
      rcases of_nextSeq hNext with ⟨_, -, -, rfl⟩
      rw [hDb]
      exact hUpdate _ _
  | commitAgentAnswer other runId contentMd citationIds parentId
      model =>
      rcases of_commitAgentAnswer (statement_of_onDb hExec) with
        ⟨rfl, -, hDb⟩ |
          ⟨messageId, seq, links, db₁, rfl, -, hInsert', hDb⟩
      · rw [hDb]
        exact hSome
      · rcases of_insertMessage hInsert' with
          ⟨-, thread, db₂, -, -, hNext, -, rfl⟩
        rcases of_nextSeq hNext with ⟨_, -, -, rfl⟩
        rw [hDb]
        exact hUpdate _ _
  | _ =>
      rw [(frames_of_exec hExec).threads rfl]
      exact hSome

end Untouched

------------------------------------------------------------
-- Calm Changes
------------------------------------------------------------

/- Changes that no active run can tell from its calls. -/
structure Calm (db db' : Db) : Prop where
  cellIds : ∀ runId, db'.cellIds runId = db.cellIds runId
  checkpoints : db'.checkpoints = db.checkpoints
  threads : db'.threads = db.threads
  runs :
    ∀ runId threadId,
      db'.hasRun runId threadId → db.hasRun runId threadId
  active :
    ∀ runId status,
      status.active = true →
        db'.status? runId = some status →
          db.status? runId = some status ∧
            db'.waits runId = db.waits runId

section Calm

variable {db db' : Db}

/- Changes that keep the messages and the statuses are calm. -/
theorem calm_of_same
    (hMessages : db'.messages = db.messages)
    (hCheckpoints : db'.checkpoints = db.checkpoints)
    (hThreads : db'.threads = db.threads)
    (hRuns :
      ∀ runId threadId,
        db'.hasRun runId threadId → db.hasRun runId threadId)
    (hStatus : ∀ runId, db'.status? runId = db.status? runId) :
    Calm db db' where
  cellIds runId := by rw [Db.cellIds, hMessages, Db.cellIds]
  checkpoints := hCheckpoints
  threads := hThreads
  runs := hRuns
  active := by
    intro runId status _ hAfter
    refine ⟨(hStatus runId).symm.trans hAfter, ?_⟩
    rw [Db.waits, hMessages, Db.waits]

/- Sweeps are calm. -/
theorem calm_sweep
    (db : Db)
    (selects : Run → Bool) :
    Calm db (db.sweep selects) where
  cellIds runId := cellIds_sweep db selects
  checkpoints := rfl
  threads := rfl
  runs _ _ := hasRun_of_updated (runs_sweep db selects) fun _ => rfl
  active := by
    intro runId status hActive hAfter
    rw [status?_sweep] at hAfter
    rcases Option.map_eq_some_iff.mp hAfter with
      ⟨run, hGet, hStatus⟩
    split at hStatus
    · rw [← hStatus] at hActive
      cases hActive
    · rename_i hSpared
      refine ⟨?_, waits_sweep ?_⟩
      · rw [Db.status?, hGet, ← hStatus]
        rfl
      · rw [hGet, Option.any_some]
        simpa using hSpared

/- A run with an active status is active. -/
theorem isActive_of_status
    {runId : RunId}
    {status : RunStatus}
    (hStatus : db.status? runId = some status)
    (hActive : status.active = true) :
    db.isActive runId = true := by
  rw [Db.isActive, hStatus]
  exact hActive

theorem posed_of_calm
    (hCalm : Calm db db')
    (hPosed : db.Posed) :
    db'.Posed where
  named runId :=
    named_of_cellIds (hCalm.cellIds runId) (hPosed.named runId)
  posed := by
    intro runId threadId hRun hStatus
    rcases hCalm.active runId _ rfl hStatus with ⟨hWas, hWaits⟩
    rw [hWaits, hCalm.checkpoints]
    exact
      hPosed.posed runId threadId (hCalm.runs _ _ hRun) hWas
  housed := by
    intro runId threadId hRun
    rw [hCalm.threads]
    exact hPosed.housed runId threadId (hCalm.runs _ _ hRun)

theorem viewed_of_calm
    {task : Task}
    (hCalm : Calm db db')
    (hViewed : task.Viewed db) :
    task.Viewed db' where
  makes := hViewed.makes
  ended := by
    intro job cells graph hRole
    rw [Bool.eq_false_iff]
    intro hActive
    rw [Db.isActive, Option.any_eq_true] at hActive
    rcases hActive with ⟨status, hStatus, hOpen⟩
    have hWas := (hCalm.active job.run status hOpen hStatus).1
    have hNot := hViewed.ended job cells graph hRole
    rw [isActive_of_status hWas hOpen] at hNot
    cases hNot
  named := by
    intro job stage hRole hWrites
    exact
      named_of_cellIds (hCalm.cellIds job.run)
        (hViewed.named job stage hRole hWrites)
  views := by
    intro job stage hRole hWrites hStatus
    rcases hCalm.active job.run _ rfl hStatus with
      ⟨hWas, hWaits⟩
    rw [hWaits, hCalm.checkpoints]
    exact hViewed.views job stage hRole hWrites hWas

end Calm

------------------------------------------------------------
-- Preservation
------------------------------------------------------------

section Calls

variable {registry : Registry} {system : System}
variable {taskId : TaskId} {task : Task}
variable {op : Op} {value : op.Reply} {world' : World}

/-
  A call keeps the two sides of an active run of which another
  task, or none, is the writer.
-/
theorem kept_of_call
    (hCall :
      Calls registry Sheltered system taskId false task op
        (.ok value) world')
    (hExec :
      exec task.inst op system.world = (.ok value, world'))
    (hMine : task.Viewed system.world.db)
    {runId : RunId}
    {threadId : ThreadId}
    (hRun : system.world.db.hasRun runId threadId)
    (hActive : system.world.db.isActive runId = true)
    (hOther : task.phase.role.writer? ≠ some runId) :
    world'.db.waits runId = system.world.db.waits runId ∧
      world'.db.cellIds runId =
          system.world.db.cellIds runId ∧
        world'.db.checkpoints threadId =
          system.world.db.checkpoints threadId := by
  refine
    kept_of_untouched hCall.allows hExec hMine.ended ?_ hActive
      hOther
  intro hChanged
  refine
    hCall.permitted.alone task op runId threadId
      (call?_of_calls hCall) ?_ hRun hActive
  rw [hExec]
  exact hChanged

/- The calls that an agent step asks for have new ids. -/
theorem named_of_call
    (hCall :
      Calls registry Sheltered system taskId false task op
        (.ok value) world')
    {job : Job}
    {stage : Stage}
    (hRole : task.phase.role = .on job stage)
    (threadId : ThreadId)
    (content : Content)
    (calls : List ToolCall)
    (hOp :
      op =
        .graphNext threadId .agentNext
          (some (.agent content calls))) :
    system.world.db.Named job.run calls := by
  subst hOp
  exact
    hCall.permitted.answering.named task job stage threadId
      content calls (call?_of_calls hCall) hRole

/- A call of a job is allowed in the stage of the job. -/
theorem stage_of_call
    {reply : Except Exn op.Reply}
    {fault : Bool}
    {allowed : System → Action → Prop}
    (hCall :
      Calls registry allowed system taskId fault task op reply
        world')
    {job : Job}
    {stage : Stage}
    (hRole : task.phase.role = .on job stage) :
    Stage.Allows job stage op := by
  have hAllows := hCall.allows
  rw [hRole] at hAllows
  cases hAllows with
  | on hStage => exact hStage

/- The calls of every run keep different ids. -/
theorem named_done
    (hCall :
      Calls registry Sheltered system taskId false task op
        (.ok value) world')
    (hExec :
      exec task.inst op system.world = (.ok value, world'))
    (hMine : task.Viewed system.world.db)
    (hPosed : system.world.db.Posed)
    (runId : RunId) :
    world'.db.Named runId [] := by
  by_cases hAdds :
      ∃ threadId new,
        op = .addMessage threadId new ∧
          new.role = .tool ∧ new.runId = runId
  · rcases hAdds with ⟨threadId, new, rfl, hTool, rfl⟩
    rcases
        driving_of_opensCell hCall.allows (by
          rw [Op.opensCell, if_pos hTool]) with
      ⟨job, root, state, todo, hRole, hRun⟩
    have hAfter :=
      named_after (stage_of_call hCall hRole) hExec
        (named_of_call hCall hRole)
        (hMine.named job _ hRole rfl)
    rw [← hRun]
    exact named_nil hAfter
  · refine named_of_cellIds ?_ (hPosed.named runId)
    apply cellIds_of_exec hExec
    intro threadId new hOp hTool hRun
    exact hAdds ⟨threadId, new, hOp, hTool, hRun⟩

/- A run is paused while it is running. -/
theorem running_of_pause
    {runId : RunId}
    {status : RunStatus}
    {ended : Bool}
    {reply : Unit}
    (hCall :
      Calls registry Sheltered system taskId false task
        (.setRunStatus runId status ended) (.ok reply) world')
    (hExec :
      exec task.inst (.setRunStatus runId status ended)
          system.world =
        (.ok reply, world'))
    {threadId : ThreadId}
    (hRun : system.world.db.hasRun runId threadId) :
    system.world.db.status? runId = some .running := by
  cases changesRuns_of_exec hExec with
  | set hGet hAlone _ =>
      rw [Db.status?, hGet, Option.map_some,
        running_of_paused hCall hCall.permitted.paused hGet
          hAlone]
  | missing hNone _ =>
      rw [Db.hasRun, hNone] at hRun
      cases hRun
  | kept hKept _ => cases hKept

/- The paused runs still pose their calls. -/
theorem posed_done
    (hCall :
      Calls registry Sheltered system taskId false task op
        (.ok value) world')
    (hExec :
      exec task.inst op system.world = (.ok value, world'))
    (hMine : task.Viewed system.world.db)
    (hPosed : system.world.db.Posed) :
    world'.db.Posed := by
  have hFormed := wellFormed_of_reachable hCall.reachable
  have hChanges := changesRuns_of_exec hExec
  refine ⟨named_done hCall hExec hMine hPosed, ?_, ?_⟩
  · intro runId threadId hRun hStatus
    rcases status_before hChanges hFormed.freshRun hCall.allows
        hStatus rfl with
      hWas | hBegins | ⟨-, ended, rfl⟩
    · rcases hasRun_before hChanges hFormed.freshRun hRun with
        hHad | ⟨rfl, -⟩
      -- the run waited before, so the task does not write it
      · have hOther : task.phase.role.writer? ≠ some runId := by
          intro hWriter
          rcases
              written_of_reachable hCall.reachable hCall.present
                hWriter with
            ⟨status, hWritten, hMay⟩
          rw [hWas] at hWritten
          cases hWritten
          cases hMay
        rcases
            kept_of_call hCall hExec hMine hHad
              (isActive_of_status hWas rfl) hOther with
          ⟨hWaits, -, hMessages⟩
        rw [hWaits, hMessages]
        exact hPosed.posed runId threadId hHad hWas
      · rw [Db.status?, hFormed.freshRun] at hWas
        cases hWas
    · rcases
          mayBeWritten_of_begins hChanges hFormed.freshRun hBegins with
        ⟨status, hWritten, hMay⟩
      rw [hStatus] at hWritten
      cases hWritten
      cases hMay
    -- the task has just paused the run
    · rcases pause_of_allows hCall.allows with
        ⟨-, -, job, root, hRole, rfl⟩
      have hKnown :=
        hasRun_of_job (congrArg Role.job? hRole)
          (known_of_reachable hCall.reachable hCall.present)
      have hSame : threadId = job.thread := by
        rcases hasRun_before hChanges hFormed.freshRun hRun with
          hHad | ⟨hNew, -⟩
        · rw [Db.hasRun, hKnown, Option.some_inj] at hHad
          exact hHad.symm
        · rw [Db.hasRun, hNew, hFormed.freshRun] at hKnown
          cases hKnown
      have hRunning := running_of_pause hCall hExec hKnown
      subst hSame
      rw [(waits_of_exec hExec (by rintro ⟨⟩)).1,
        checkpoints_of_exec hExec (by rintro ⟨⟩)]
      exact hMine.views job _ hRole rfl hRunning
  · intro runId threadId hRun
    rcases hasRun_before hChanges hFormed.freshRun hRun with
      hHad | ⟨-, -, hThread⟩
    · exact
        isSome_thread_of_exec hExec
          (hPosed.housed runId threadId hHad)
    · exact isSome_thread_of_exec hExec hThread

/- A run that has ended stays so. -/
theorem isActive_of_ended
    (hCall :
      Calls registry Sheltered system taskId false task op
        (.ok value) world')
    (hExec :
      exec task.inst op system.world = (.ok value, world'))
    {runId : RunId}
    {threadId : ThreadId}
    (hRun : system.world.db.hasRun runId threadId)
    (hEnded : system.world.db.isActive runId = false) :
    world'.db.isActive runId = false := by
  rw [Bool.eq_false_iff]
  intro hActive
  have hFresh :=
    (wellFormed_of_reachable hCall.reachable).freshRun
  rcases isActive_before (changesRuns_of_exec hExec) hFresh
      hCall.allows hActive with
    hWas | rfl | ⟨status, ended, rfl⟩
  · rw [hEnded] at hWas
    cases hWas
  · rw [Db.hasRun, hFresh] at hRun
    cases hRun
  · have hRunning := running_of_pause hCall hExec hRun
    rw [isActive_of_status hRunning rfl] at hEnded
    cases hEnded

/- How a task begins to write a run. -/
inductive BeginsWriting
    (db : Db)
    (job : Job) :
    (op : Op) → op.Reply → Stage → Prop where
  | opened {model}
      (hRun : job.run = db.nextId) :
      BeginsWriting db job (.openRun job.thread model) job.run
        .opening
  | approved {ended} :
      BeginsWriting db job
        (.tryTransition job.run .awaitingApproval .running ended)
        true (.won none [])

/- A task that writes wrote before, or it begins to. -/
theorem writes_or_begins
    (hCall :
      Calls registry Sheltered system taskId false task op
        (.ok value) world')
    (hExec :
      exec task.inst op system.world = (.ok value, world'))
    {job : Job}
    {stage : Stage}
    (hRole :
      task.phase.role.after op (.ok value) = .on job stage)
    (hWrites : stage.writes = true) :
    (∃ before,
        task.phase.role = .on job before ∧
          before.writes = true ∧
            op.wroteRuns value = false ∧
              stage = before.after op (.ok value)) ∨
      BeginsWriting system.world.db job op value stage := by
  have hAllows := hCall.allows
  generalize task.phase.role = role at hRole hAllows ⊢
  cases hAllows with
  | @on job' before _ hStage =>
      rcases Role.on.inj hRole with ⟨rfl, rfl⟩
      rcases writes_after hStage hWrites with
        ⟨hBefore, hKept⟩ | hBegins
      · exact Or.inl ⟨before, rfl, hBefore, hKept, rfl⟩
      · right
        cases hStage with
        | choosingApprove =>
            cases value with
            | false => cases hBegins
            | true => exact .approved
        | _ => cases hBegins
  | freshOpen =>
      cases hRole
      right
      cases changesRuns_of_exec hExec with
      | opened => exact .opened rfl
      | kept hKept _ => cases hKept
  | freshActive =>
      rcases value with _ | ⟨_, status⟩
      · cases hRole
      · cases status <;> cases hRole
  | freshRead => rcases value with _ | _ <;> cases hRole
  | lookingActive =>
      rcases value with _ | ⟨_, status⟩
      · cases hRole
      · cases status with
        | awaitingApproval =>
            cases hRole
            cases hWrites
        | _ => cases hRole
  | watchingRunning =>
      cases value with
      | false => cases hRole
      | true =>
          cases hRole
          cases hWrites
  | watchingPaused =>
      cases value with
      | false => cases hRole
      | true =>
          cases hRole
          cases hWrites
  | _ => cases hRole

/- What a task that begins to write a run sees of its calls. -/
theorem views_of_begins
    {request : Request}
    {job : Job}
    {stage : Stage}
    {inst : InstanceId}
    {world : World}
    (hFormed : world.db.WellFormed)
    (hExec : exec inst op world = (.ok value, world'))
    (hPosed : world.db.Posed)
    (hMakes : request.makes op = true)
    (hRun : world'.db.hasRun job.run job.thread)
    (hBegins : BeginsWriting world.db job op value stage) :
    stage.Views (world'.db.waits job.run)
      (world'.db.checkpoints job.thread) request.resumes := by
  cases hBegins with
  | opened hNew =>
      refine
        ⟨not_resumes_of_makes hMakes (Or.inl ⟨_, _, rfl⟩), ?_⟩
      rw [(waits_of_exec hExec (by rintro ⟨⟩)).1]
      refine (waits_of_fresh hFormed ?_).1
      rw [hNew]
      exact hFormed.freshRun
  | approved =>
      refine
        ⟨resumes_of_makes hMakes (Or.inl ⟨_, _, rfl⟩), ?_⟩
      have hChanges := changesRuns_of_exec hExec
      have hWas :
          world.db.status? job.run = some .awaitingApproval := by
        cases hChanges with
        | moved hGet hStatus _ _ =>
            rw [Db.status?, hGet, Option.map_some, hStatus]
        | kept hKept _ => cases hKept
      have hHad : world.db.hasRun job.run job.thread := by
        rcases hasRun_before hChanges hFormed.freshRun hRun with
          hHad | ⟨hNew, -⟩
        · exact hHad
        · rw [hNew, Db.status?, hFormed.freshRun] at hWas
          cases hWas
      left
      rw [keptCalls_nil, (waits_of_exec hExec (by rintro ⟨⟩)).1,
        checkpoints_of_exec hExec (by rintro ⟨⟩)]
      exact hPosed.posed job.run job.thread hHad hWas

/- The task of a call still sees the calls of its run. -/
theorem viewed_done
    {next : Except Exn op.Reply → Driver Unit}
    (hCall :
      Calls registry Sheltered system taskId false task op
        (.ok value) world')
    (hExec :
      exec task.inst op system.world = (.ok value, world'))
    (hProgram : task.program = .call op next)
    (hMine : task.Viewed system.world.db)
    (hPosed : system.world.db.Posed) :
    Task.Viewed world'.db
      { task with
        program := next (.ok value)
        phase := task.phase.after op (.ok value) } := by
  have hFormed := wellFormed_of_reachable hCall.reachable
  have hKnown :=
    known_of_reachable hCall.reachable hCall.present
  have hMakes := hMine.makes
  rw [hProgram] at hMakes
  have hMono :
      ∀ runId threadId,
        system.world.db.hasRun runId threadId →
          world'.db.hasRun runId threadId :=
    fun _ _ =>
      hasRun_of_changes (changesRuns_of_exec hExec)
        hFormed.freshRun
  have hAfter :=
    known_after hExec hFormed.freshRun hMono hCall.allows hKnown
  refine ⟨hMakes.2 (.ok value), ?_, ?_, ?_⟩
  · intro job cells graph hRole
    rcases ended_of_closing hCall.allows hRole with
      ⟨cells', graph', hWas⟩ | hEnded
    · exact
        isActive_of_ended hCall hExec
          (hasRun_of_job (congrArg Role.job? hWas) hKnown)
          (hMine.ended job cells' graph' hWas)
    · exact
        ended_of_changes (changesRuns_of_exec hExec) hEnded
  · intro job stage hRole hWrites
    rcases writes_or_begins hCall hExec hRole hWrites with
      ⟨before, hBefore, hWrote, -, rfl⟩ | hBegins
    · exact
        named_after (stage_of_call hCall hBefore) hExec
          (named_of_call hCall hBefore)
          (hMine.named job before hBefore hWrote)
    · have hNamed := named_done hCall hExec hMine hPosed job.run
      cases hBegins <;> exact hNamed
  · intro job stage hRole hWrites hStatus
    rcases writes_or_begins hCall hExec hRole hWrites with
      ⟨before, hBefore, hWrote, hKept, rfl⟩ | hBegins
    · have hWas :
          system.world.db.status? job.run = some .running := by
        rw [← hStatus]
        exact
          (status?_of_runs ((frames_of_exec hExec).runs hKept)
            job.run).symm
      refine
        views_after (stage_of_call hCall hBefore) hExec hWrote
          hWrites hMakes.1
          (named_cells (hMine.named job before hBefore hWrote))
          ?_ (hMine.views job before hBefore hWrote hWas)
      rintro calls answers rfl
      exact
        hCall.permitted.answering.answers task job.thread calls
          answers (call?_of_calls hCall)
    · exact
        views_of_begins hFormed hExec hPosed hMakes.1
          (hasRun_of_job (congrArg Role.job? hRole) hAfter)
          hBegins

/- A failure leaves a writer nothing to store or to see. -/
theorem stage_failed
    {job : Job}
    {stage : Stage}
    {exn : Exn}
    (hStage : Stage.Allows job stage op)
    (hKind : op.kind ≠ .memory) :
    (stage.after op (.error exn)).cells = [] ∧
      ∀ waits messages resumes,
        (stage.after op (.error exn)).Views waits messages
          resumes := by
  cases hStage <;>
    first
    | exact ⟨rfl, fun _ _ _ => trivial⟩
    | exact absurd rfl hKind

/- A failure closes no task. -/
theorem not_closing_failed
    {role : Role}
    {job : Job}
    {exn : Exn}
    {cells graph : Bool}
    (hAllows : role.Allows op) :
    role.after op (.error exn) ≠
      .on job (.closing cells graph) := by
  intro hAfter
  cases hAllows with
  | on hStage =>
      rcases Role.on.inj hAfter with ⟨-, hClosing⟩
      cases hStage <;> cases hClosing
  | _ => cases hAfter

/- The task of a failed call still sees the calls of its run. -/
theorem viewed_failed
    {fault : Bool}
    {exn : Exn}
    {next : Except Exn op.Reply → Driver Unit}
    (hCall :
      Calls registry Sheltered system taskId fault task op
        (.error exn) world')
    (hProgram : task.program = .call op next)
    (hMine : task.Viewed system.world.db) :
    Task.Viewed system.world.db
      { task with
        program := next (.error exn)
        phase := task.phase.after op (.error exn) } := by
  have hMakes := hMine.makes
  rw [hProgram] at hMakes
  have hKind := (hCall.executes.possible.error exn rfl).2
  have hBefore :
      ∀ job stage,
        task.phase.role.after op (.error exn) = .on job stage →
          stage.writes = true →
            ∃ before,
              task.phase.role = .on job before ∧
                before.writes = true ∧
                  stage = before.after op (.error exn) := by
    intro job stage hRole hWrites
    have hAllows := hCall.allows
    generalize task.phase.role = role at hRole hAllows ⊢
    cases hAllows with
    | @on job' before _ hStage =>
        rcases Role.on.inj hRole with ⟨rfl, rfl⟩
        exact ⟨before, rfl, writes_failed hStage hWrites, rfl⟩
    | _ => cases hRole
  refine ⟨hMakes.2 (.error exn), ?_, ?_, ?_⟩
  · intro job cells graph hRole
    exact absurd hRole (not_closing_failed hCall.allows)
  · intro job stage hRole hWrites
    rcases hBefore job stage hRole hWrites with
      ⟨before, hRole', hWrote, rfl⟩
    rw [(stage_failed (stage_of_call hCall hRole') hKind).1]
    exact named_nil (hMine.named job before hRole' hWrote)
  · intro job stage hRole hWrites _
    rcases hBefore job stage hRole hWrites with
      ⟨before, hRole', hWrote, rfl⟩
    exact
      (stage_failed (stage_of_call hCall hRole') hKind).2 _ _ _

/- Another task still sees the calls of its run. -/
theorem viewed_other
    (hCall :
      Calls registry Sheltered system taskId false task op
        (.ok value) world')
    (hExec :
      exec task.inst op system.world = (.ok value, world'))
    (hMine : task.Viewed system.world.db)
    {otherId : TaskId}
    {other : Task}
    (hNe : otherId ≠ taskId)
    (hOther : system.tasks otherId = some other)
    (hTheirs : other.Viewed system.world.db) :
    other.Viewed world'.db := by
  have hFormed := wellFormed_of_reachable hCall.reachable
  have hChanges := changesRuns_of_exec hExec
  have hKnown := known_of_reachable hCall.reachable hOther
  have hAlone :
      ∀ job stage,
        other.phase.role = .on job stage →
          stage.writes = true →
            task.phase.role.writer? ≠ some job.run := by
    intro job stage hRole hWrites hWriter
    refine
      hNe
        (writers_of_reachable hCall.reachable hOther
          hCall.present ?_ hWriter)
    rw [hRole]
    exact writer?_of_writes hWrites
  refine ⟨hTheirs.makes, ?_, ?_, ?_⟩
  · intro job cells graph hRole
    exact
      isActive_of_ended hCall hExec
        (hasRun_of_job (congrArg Role.job? hRole) hKnown)
        (hTheirs.ended job cells graph hRole)
  · intro job stage hRole hWrites
    refine
      named_of_cellIds ?_ (hTheirs.named job stage hRole hWrites)
    apply cellIds_of_exec hExec
    rintro threadId new rfl hTool hRun
    rcases
        driving_of_opensCell hCall.allows (by
          rw [Op.opensCell, if_pos hTool]) with
      ⟨job', root, state, todo, hRole', hRun'⟩
    apply hAlone job stage hRole hWrites
    rw [hRole', ← hRun, ← hRun']
    rfl
  · intro job stage hRole hWrites hStatus
    have hWriter :
        other.phase.role.writer? = some job.run := by
      rw [hRole]
      exact writer?_of_writes hWrites
    have hWas :
        system.world.db.status? job.run = some .running := by
      rcases status_before hChanges hFormed.freshRun
          hCall.allows hStatus rfl with
        hWas | hBegins | ⟨hNot, -⟩
      · exact hWas
      · exact
          absurd hBegins
            (not_begins_of_written hChanges hFormed.freshRun
              (written_of_reachable hCall.reachable hOther
                hWriter))
      · cases hNot
    rcases
        kept_of_call hCall hExec hMine
          (hasRun_of_job (congrArg Role.job? hRole) hKnown)
          (isActive_of_status hWas rfl)
          (hAlone job stage hRole hWrites) with
      ⟨hWaits, -, hMessages⟩
    rw [hWaits, hMessages]
    exact hTheirs.views job stage hRole hWrites hWas

end Calls

/-
  The paused runs pose their calls, and each task sees the
  calls of its run.
-/
def posedOutline : Outline World Task where
  globally world := world.db.Posed
  locally world task := task.Viewed world.db
  mutually _ _ := True

/- A task of a request has no run at first. -/
theorem viewed_request
    (registry : Registry)
    (db : Db)
    (inst : InstanceId)
    (request : Request) :
    (request.task registry inst).Viewed db := by
  have hIdle := idle_request registry inst request
  have hNone :
      ∀ job stage,
        (request.task registry inst).phase.role ≠
          .on job stage := by
    intro job stage hRole
    rw [hRole] at hIdle
    cases hIdle
  exact
    ⟨makes_request registry request,
      fun job _ _ hRole => absurd hRole (hNone job _),
      fun job stage hRole => absurd hRole (hNone job stage),
      fun job stage hRole => absurd hRole (hNone job stage)⟩

/- Every sheltered step keeps the paused runs posed. -/
theorem sustains_posedOutline
    {registry : Registry} :
    Sustains registry Sheltered posedOutline where
  request := by
    intro system taskId inst request _ _
    exact viewed_request registry _ inst request
  alone := fun _ _ _ => ⟨trivial, trivial⟩
  call := by
    intro system taskId fault task op reply world' next hCall
      hProgram hHolds
    have hMine : task.Viewed system.world.db :=
      hHolds.locally taskId task hCall.present
    have hExecutes := hCall.executes
    cases hExecutes with
    | done hExec =>
        refine
          ⟨posed_done hCall hExec hMine hHolds.globally,
            viewed_done hCall hExec hProgram hMine
              hHolds.globally, ?_⟩
        intro otherId other hNe hOther hTheirs _
        exact
          ⟨viewed_other hCall hExec hMine hNe hOther hTheirs,
            trivial, trivial⟩
    | refused hExec =>
        exact
          ⟨hHolds.globally, viewed_failed hCall hProgram hMine,
            fun _ _ _ _ hTheirs _ =>
              ⟨hTheirs, trivial, trivial⟩⟩
    | fault hFault =>
        exact
          ⟨hHolds.globally, viewed_failed hCall hProgram hMine,
            fun _ _ _ _ hTheirs _ =>
              ⟨hTheirs, trivial, trivial⟩⟩
  sent := by
    intro system taskId task event next _ hTask hProgram _ hHolds
    have hMine : task.Viewed system.world.db :=
      hHolds.locally taskId task hTask
    have hMakes := hMine.makes
    rw [hProgram] at hMakes
    exact
      ⟨hHolds.globally,
        ⟨hMakes.2 (.ok ()), hMine.ended, hMine.named,
          hMine.views⟩,
        fun _ _ _ _ hTheirs _ => ⟨hTheirs, trivial, trivial⟩⟩
  advance := by
    intro system seconds _ _ hHolds
    have hCalm :
        Calm system.world.db
          { system.world.db with
            now := system.world.db.now + seconds } :=
      calm_of_same rfl rfl rfl (fun _ _ hRun => hRun)
        fun _ => rfl
    exact
      ⟨posed_of_calm hCalm hHolds.globally,
        fun _ => viewed_of_calm hCalm⟩
  heartbeat := by
    intro system inst _ _ hHolds
    have hCalm :
        Calm system.world.db
          (system.world.db.heartbeat
            (system.world.instances inst).active) :=
      calm_of_same rfl rfl rfl
        (fun _ _ =>
          hasRun_of_updated (runs_heartbeat _ _) fun _ => rfl)
        (status?_heartbeat _ _)
    exact
      ⟨posed_of_calm hCalm hHolds.globally,
        fun _ => viewed_of_calm hCalm⟩
  sweep := by
    intro system action selects _ _ _ hHolds
    have hCalm := calm_sweep system.world.db selects
    exact
      ⟨posed_of_calm hCalm hHolds.globally,
        fun _ => viewed_of_calm hCalm⟩
  collect := by
    intro system retention _ _ hHolds
    have hCalm :
        Calm system.world.db
          (system.world.db.collect retention) :=
      calm_of_same rfl rfl rfl (fun _ _ hRun => hRun)
        fun _ => rfl
    exact
      ⟨posed_of_calm hCalm hHolds.globally,
        fun _ => viewed_of_calm hCalm⟩
  crash := by
    intro system inst _ hHolds
    exact ⟨hHolds.globally, fun _ _ hMine => hMine⟩

/- A paused run poses its calls in every reachable system. -/
theorem posed_of_reachable
    {registry : Registry}
    {system : System}
    (hReachable : Reachable registry Sheltered system) :
    system.world.db.Posed := by
  refine
    (holds_of_reachable sustains_posedOutline ?_
      hReachable).globally
  refine ⟨?_, ?_, ?_⟩
  · intro runId
    exact ⟨List.nodup_nil, nofun⟩
  · intro runId threadId hRun
    cases hRun
  · intro runId threadId hRun
    cases hRun

end LegalAgent
