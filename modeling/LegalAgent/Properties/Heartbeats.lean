import LegalAgent.Properties.Status

/-
  Live runs and the sweeps of stale ones.

  The maintenance loop of an instance sends heartbeats for the
  running runs in its active set, and sweeps the runs whose
  last heartbeat is too old.  A run is safe as long as its
  instance has it in the active set, and its last heartbeat is
  fresh enough at the last heartbeat of the instance.

  Key definitions include:
    * `Timed`
    * `World.guards`
    * `Role.pumps?`
    * `Heeded`

  Key theorems include:
    * `live_run_kept`
-/

------------------------------------------------------------
-- Time
------------------------------------------------------------

namespace LegalAgent

open Library

/-
  The instances that tick send heartbeats at least once every
  `beat` seconds, and sweeps spare the runs with a heartbeat
  in the last `stale` seconds.
-/
def Timed
    (ticking : InstanceId → Prop)
    (beat stale : Nat)
    (system : System) :
    Action → Prop
| .advance seconds =>
    ∀ inst,
      ticking inst →
        system.world.db.now + seconds ≤
          system.world.ticks inst + beat
| .reconcile ttl | .timeoutRuns ttl => ttl = stale
| _ => True

/-
  Whether the last heartbeat of a run lasts until the next
  heartbeat of an instance is due.
-/
def World.warm
    (world : World)
    (beat stale : Nat)
    (inst : InstanceId)
    (runId : RunId) :
    Prop :=
  ∀ run,
    world.db.runs.get? runId = some run →
      world.ticks inst + beat ≤ run.heartbeatAt + stale

/- Whether an instance keeps a run alive. -/
def World.guards
    (world : World)
    (beat stale : Nat)
    (inst : InstanceId)
    (runId : RunId) :
    Prop :=
  runId ∈ (world.instances inst).active ∧
    world.warm beat stale inst runId

/- The stages in which a pump consumes the generator of a run. -/
def Stage.pumps : Stage → Bool
| .opening => false
| stage => stage.writes

/- The run whose generator the pump of a role consumes. -/
def Role.pumps? : Role → Option RunId
| .on job stage => if stage.pumps then some job.run else none
| _ => none

/-
  The steps of the timed model in which a run is resumed only
  where an instance guards it, is warm when its pump starts,
  and is discarded by no other task of its instance.
-/
structure Heeded
    (ticking : InstanceId → Prop)
    (beat stale : Nat)
    (system : System)
    (action : Action) :
    Prop where
  timed : Timed ticking beat stale system action
  resumed :
    ∀ task runId,
      system.call? action =
          some
            (task,
              .tryTransition runId .awaitingApproval .running
                false) →
        ticking task.inst →
          system.world.db.status? runId =
              some .awaitingApproval →
            system.world.guards beat stale task.inst runId
  started :
    ∀ task job,
      system.call? action = some (task, .activeAdd job.run) →
        task.phase.role = .on job .opening →
          ticking task.inst →
            system.world.warm beat stale task.inst job.run
  discarded :
    ∀ task runId,
      system.call? action = some (task, .activeDiscard runId) →
        ∀ otherId other,
          system.tasks otherId = some other →
            other.inst = task.inst →
              other.phase.role.pumps? ≠ some runId

------------------------------------------------------------
-- Pumps
------------------------------------------------------------

section Roles

variable {role : Role} {op : Op} {value : op.Reply}
variable {runId : RunId}

/- A pump that consumes a generator drives the run. -/
theorem writer_of_pumps
    (hPumps : role.pumps? = some runId) :
    role.writer? = some runId := by
  cases role with
  | on job stage =>
      simp only [Role.pumps?] at hPumps
      split at hPumps
      · rename_i hStage
        rw [Role.writer?, if_pos]
        · exact hPumps
        · cases stage with
          | opening => cases hStage
          | _ => exact hStage
      · cases hPumps
  | _ => cases hPumps

/-
  A pump that consumes a generator did so before, or was just
  started, or has just resumed the run.
-/
theorem pumps_after
    (hAllows : role.Allows op)
    (hPumps : (role.after op (.ok value)).pumps? = some runId) :
    (role.pumps? = some runId ∧ op.wroteRuns value = false ∧
        ∀ other, op ≠ .activeDiscard other) ∨
      (∃ job,
          role = .on job .opening ∧ op = .activeAdd job.run ∧
            job.run = runId) ∨
        op =
            .tryTransition runId .awaitingApproval .running
              false ∧
          op.wroteRuns value = true := by
  cases hAllows with
  | on hStage =>
      simp only [Role.after, Role.pumps?] at hPumps
      split at hPumps
      · rename_i hStill
        cases hPumps
        cases hStage with
        | openingActive =>
            exact Or.inr (Or.inl ⟨_, rfl, rfl, rfl⟩)
        | choosingApprove =>
            cases value with
            | false => cases hStill
            | true => exact Or.inr (Or.inr ⟨rfl, rfl⟩)
        | drivingNext => exact Or.inl ⟨rfl, rfl, by rintro _ ⟨⟩⟩
        | finalizingCommit => cases value <;> cases hStill
        | closingLog =>
            simp only [Stage.after] at hStill
            split at hStill <;> cases hStill
        | _ =>
            first
              | exact Or.inl ⟨rfl, rfl, by rintro _ ⟨⟩⟩
              | cases hStill
              | (cases value <;> cases hStill)
      · cases hPumps
  | freshActive =>
      rcases value with _ | ⟨_, status⟩
      · cases hPumps
      · cases status <;> cases hPumps
  | freshRead => rcases value with _ | _ <;> cases hPumps
  | lookingActive =>
      rcases value with _ | ⟨_, status⟩
      · cases hPumps
      · cases status <;> cases hPumps
  | watchingRunning => cases value <;> cases hPumps
  | watchingPaused => cases value <;> cases hPumps
  | _ => cases hPumps

/- A pump that consumes behind a failure did so before. -/
theorem pumps_failed
    {exn : Exn}
    (hAllows : role.Allows op)
    (hPumps :
      (role.after op (.error exn)).pumps? = some runId) :
    role.pumps? = some runId := by
  cases hAllows with
  | on hStage =>
      cases hStage <;> first | exact hPumps | cases hPumps
  | _ => cases hPumps

end Roles

------------------------------------------------------------
-- Runs
------------------------------------------------------------

section Runs

variable {db db' : Db} {role : Role} {op : Op}
variable {value : op.Reply} {runId : RunId}

/- The heartbeat of a run after a call. -/
theorem heartbeatAt_of_changes
    (hChanges : ChangesRuns db db' op value)
    (hFresh : db.runs.get? db.nextId = none)
    {run' : Run}
    (hRun' : db'.runs.get? runId = some run') :
    (∃ run,
        db.runs.get? runId = some run ∧
          run'.heartbeatAt = run.heartbeatAt) ∨
      db.runs.get? runId = none ∧ run'.heartbeatAt = db.now := by
  have hWritten :
      ∀ other status ended,
        db'.runs = (db.writeStatus other status ended).runs →
          ∃ run,
            db.runs.get? runId = some run ∧
              run'.heartbeatAt = run.heartbeatAt := by
    intro other status ended hRuns
    rw [hRuns, get?_writeStatus] at hRun'
    split at hRun'
    · rcases Option.map_eq_some_iff.mp hRun' with
        ⟨run, hRun, rfl⟩
      exact ⟨run, hRun, rfl⟩
    · exact ⟨run', hRun', rfl⟩
  cases hChanges with
  | opened hThread hAlone hRuns =>
      rw [hRuns, Table.get?_insert hFresh] at hRun'
      split at hRun'
      · rename_i hEq
        cases hRun'
        right
        rw [hEq]
        exact ⟨hFresh, rfl⟩
      · exact Or.inl ⟨run', hRun', rfl⟩
  | set _ _ hRuns => exact Or.inl (hWritten _ _ _ hRuns)
  | moved _ _ _ hRuns => exact Or.inl (hWritten _ _ _ hRuns)
  | committed _ _ hRuns => exact Or.inl (hWritten _ _ _ hRuns)
  | missing _ hRuns =>
      rw [hRuns] at hRun'
      exact Or.inl ⟨run', hRun', rfl⟩
  | kept _ hRuns =>
      rw [hRuns] at hRun'
      exact Or.inl ⟨run', hRun', rfl⟩

/- A driven run that is running behind a call was running. -/
theorem running_of_changes
    (hChanges : ChangesRuns db db' op value)
    (hFresh : db.runs.get? db.nextId = none)
    (hAllows : role.Allows op)
    (hWritten : db.mayBeWritten runId)
    (hRunning : db'.status? runId = some .running) :
    db.status? runId = some .running := by
  have hOther :
      ∀ other status ended,
        db'.runs = (db.writeStatus other status ended).runs →
          runId ≠ other → db.status? runId = some .running := by
    intro other status ended hRuns hNe
    rwa [status?_of_other hRuns hNe] at hRunning
  have hSame :
      ∀ other status ended run,
        db.runs.get? other = some run →
          db'.runs = (db.writeStatus other status ended).runs →
            status ≠ .running →
              db.status? runId = some .running := by
    intro other status ended run hRun hRuns hStatus
    by_cases hEq : runId = other
    · subst hEq
      rw [status?_of_written hRun hRuns, Option.some_inj]
        at hRunning
      exact absurd hRunning hStatus
    · exact hOther other status ended hRuns hEq
  cases hChanges with
  | opened hThread hAlone hRuns =>
      by_cases hEq : runId = db.nextId
      · rcases hWritten with ⟨status, hStatus, -⟩
        rw [hEq, Db.status?, hFresh] at hStatus
        cases hStatus
      · rw [Db.status?, hRuns, Table.get?_insert hFresh,
          if_neg hEq] at hRunning
        exact hRunning
  | set hRun _ hRuns =>
      rcases pause_of_allows hAllows with ⟨rfl, -, -⟩
      exact hSame _ _ _ _ hRun hRuns (by rintro ⟨⟩)
  | @moved other fromStatus toStatus ended run hRun hStatus _
      hRuns =>
      by_cases hEq : runId = other
      · subst hEq
        rcases hWritten with ⟨status, hBefore, hMay⟩
        rw [status?_of_written hRun hRuns, Option.some_inj]
          at hRunning
        rw [Db.status?, hRun, Option.map_some, hStatus,
          Option.some_inj] at hBefore
        subst hBefore
        subst hRunning
        cases transition_of_allows hAllows
        cases hMay
      · exact hOther _ _ _ hRuns hEq
  | committed hRun _ hRuns =>
      exact hSame _ _ _ _ hRun hRuns (by rintro ⟨⟩)
  | missing _ hRuns =>
      rwa [status?_of_runs hRuns runId] at hRunning
  | kept _ hRuns =>
      rwa [status?_of_runs hRuns runId] at hRunning

end Runs

------------------------------------------------------------
-- Guarded Runs
------------------------------------------------------------

variable {registry : Registry}
variable {ticking : InstanceId → Prop} {beat stale : Nat}

/-
  Instances tick in time, and guard the running runs whose
  pumps they execute.
-/
def guardOutline
    (ticking : InstanceId → Prop)
    (beat stale : Nat) :
    Outline World Task where
  globally := fun world =>
    (∀ inst,
        ticking inst → world.db.now ≤ world.ticks inst + beat) ∧
      ∀ runId run,
        world.db.runs.get? runId = some run →
          run.heartbeatAt ≤ world.db.now
  locally := fun world task =>
    ticking task.inst →
      ∀ runId,
        task.phase.role.pumps? = some runId →
          world.db.status? runId = some .running →
            world.guards beat stale task.inst runId
  mutually := fun _ _ => True

section Calls

variable {system : System} {taskId : TaskId} {task : Task}
variable {op : Op} {value : op.Reply} {world' : World}

/- A call keeps a run warm. -/
theorem warm_of_exec
    {allowed : System → Action → Prop}
    (hCall :
      Calls registry allowed system taskId false task op
        (.ok value) world')
    (hExec :
      exec task.inst op system.world = (.ok value, world'))
    {inst : InstanceId}
    {runId : RunId}
    (hStatus : (system.world.db.status? runId).isSome = true)
    (hWarm : system.world.warm beat stale inst runId) :
    world'.warm beat stale inst runId := by
  have hFormed := wellFormed_of_reachable hCall.reachable
  intro run' hRun'
  rw [(memory_of_exec hExec).1]
  rcases heartbeatAt_of_changes (changesRuns_of_exec hExec)
      hFormed.freshRun hRun' with
    ⟨run, hRun, hEq⟩ | ⟨hNone, -⟩
  · rw [hEq]
    exact hWarm run hRun
  · rw [Db.status?, hNone] at hStatus
    cases hStatus

/- A call keeps a run guarded that no call discards. -/
theorem guards_of_exec
    {allowed : System → Action → Prop}
    (hCall :
      Calls registry allowed system taskId false task op
        (.ok value) world')
    (hExec :
      exec task.inst op system.world = (.ok value, world'))
    {inst : InstanceId}
    {runId : RunId}
    (hStatus : (system.world.db.status? runId).isSome = true)
    (hKept : ¬(op = .activeDiscard runId ∧ task.inst = inst))
    (hGuards : system.world.guards beat stale inst runId) :
    world'.guards beat stale inst runId := by
  constructor
  · exact
      ((memory_of_exec hExec).2 inst runId
        hGuards.1).resolve_left hKept
  · exact warm_of_exec hCall hExec hStatus hGuards.2

/- A pump that consumes a generator has a run. -/
theorem status_of_pumps
    {allowed : System → Action → Prop}
    (hReachable : Reachable registry allowed system)
    (hTask : system.tasks taskId = some task)
    {runId : RunId}
    (hPumps : task.phase.role.pumps? = some runId) :
    system.world.db.mayBeWritten runId :=
  written_of_reachable hReachable hTask (writer_of_pumps hPumps)

/- The run of a status is in the table. -/
theorem isSome_of_mayBeWritten
    {db : Db}
    {runId : RunId}
    (hWritten : db.mayBeWritten runId) :
    (db.status? runId).isSome = true := by
  rcases hWritten with ⟨status, hStatus, -⟩
  rw [hStatus]
  rfl

/- A pump that consumes a generator guards its run. -/
theorem guards_of_pumps
    (hCall :
      Calls registry (Heeded ticking beat stale) system taskId
        false task op (.ok value) world')
    (hExec :
      exec task.inst op system.world = (.ok value, world'))
    (hMine :
      (guardOutline ticking beat stale).locally system.world
        task)
    (hTicking : ticking task.inst)
    {runId : RunId}
    (hPumps :
      (task.phase.role.after op (.ok value)).pumps? =
        some runId)
    (hRunning : world'.db.status? runId = some .running) :
    world'.guards beat stale task.inst runId := by
  have hNext := call?_of_calls hCall
  rcases pumps_after hCall.allows hPumps with
    ⟨hBefore, hRuns, hDiscard⟩ | ⟨job, hRole, rfl, rfl⟩ |
      ⟨rfl, hWrote⟩
  · have hSame := (frames_of_exec hExec).runs hRuns
    rw [status?_of_runs hSame runId] at hRunning
    refine
      guards_of_exec hCall hExec
        (by rw [hRunning]; rfl)
        (fun hEq => hDiscard runId hEq.1)
        (hMine hTicking runId hBefore hRunning)
  · have hStatus :
        (system.world.db.status? job.run).isSome = true := by
      refine
        isSome_of_mayBeWritten
          (written_of_reachable hCall.reachable hCall.present ?_)
      rw [hRole]
      rfl
    constructor
    · cases hExec
      simp [World.setInstance]
    · exact
        warm_of_exec hCall hExec hStatus
          (hCall.permitted.started task job hNext hRole
            hTicking)
  · have hAwaiting :
        system.world.db.status? runId =
          some .awaitingApproval := by
      cases changesRuns_of_exec hExec with
      | moved hRun hStatus _ _ =>
          rw [Db.status?, hRun, Option.map_some, hStatus]
      | kept hKept _ =>
          rw [hWrote] at hKept
          cases hKept
    exact
      guards_of_exec hCall hExec
        (by rw [hAwaiting]; rfl)
        (fun hEq => by cases hEq.1)
        (hCall.permitted.resumed task runId hNext hTicking
          hAwaiting)

/- A call of one task keeps the guards of the others. -/
theorem guards_of_other
    (hCall :
      Calls registry (Heeded ticking beat stale) system taskId
        false task op (.ok value) world')
    (hExec :
      exec task.inst op system.world = (.ok value, world'))
    {otherId : TaskId}
    {other : Task}
    (hOther : system.tasks otherId = some other)
    (hMine :
      (guardOutline ticking beat stale).locally system.world
        other) :
    (guardOutline ticking beat stale).locally world' other := by
  intro hTicking runId hPumps hRunning
  have hFormed := wellFormed_of_reachable hCall.reachable
  have hWritten :=
    status_of_pumps hCall.reachable hOther hPumps
  have hBefore :=
    running_of_changes (changesRuns_of_exec hExec)
      hFormed.freshRun hCall.allows hWritten hRunning
  refine
    guards_of_exec hCall hExec
      (isSome_of_mayBeWritten hWritten) ?_
      (hMine hTicking runId hPumps hBefore)
  rintro ⟨rfl, hInst⟩
  exact
    hCall.permitted.discarded task runId (call?_of_calls hCall)
      otherId other hOther hInst.symm hPumps

end Calls

/- Heartbeats keep the running runs guarded. -/
theorem bears_heartbeat
    (hBeat : beat ≤ stale)
    {world : World}
    (inst : InstanceId)
    (hGlobally :
      (guardOutline ticking beat stale).globally world) :
    (guardOutline ticking beat stale).Bears world
      (world.heartbeat inst) := by
  rcases hGlobally with ⟨hTicks, hPast⟩
  have hRuns :
      ∀ runId,
        (world.heartbeat inst).db.runs.get? runId =
          (world.db.runs.get? runId).map fun run =>
            if (world.instances inst).active.contains runId &&
                run.status == .running then
              { run with heartbeatAt := world.db.now }
            else
              run :=
    get?_heartbeat world.db (world.instances inst).active
  refine ⟨⟨?_, ?_⟩, ?_⟩
  · intro other hTicking
    simp only [World.heartbeat]
    split
    · exact Nat.le_add_right _ _
    · exact hTicks other hTicking
  · intro runId run' hRun'
    rw [hRuns] at hRun'
    rcases Option.map_eq_some_iff.mp hRun' with ⟨run, hRun, rfl⟩
    split
    · exact Nat.le_refl _
    · exact hPast runId run hRun
  · intro task hMine hTicking runId hPumps hRunning
    have hStatus :
        (world.heartbeat inst).db.status? runId =
          world.db.status? runId :=
      status?_heartbeat world.db (world.instances inst).active
        runId
    rw [hStatus] at hRunning
    rcases hMine hTicking runId hPumps hRunning with
      ⟨hActive, hWarm⟩
    refine ⟨hActive, ?_⟩
    intro run' hRun'
    rw [hRuns] at hRun'
    rcases Option.map_eq_some_iff.mp hRun' with ⟨run, hRun, rfl⟩
    rw [Db.status?, hRun, Option.map_some, Option.some_inj]
      at hRunning
    have hBefore := hWarm run hRun
    simp only [World.heartbeat]
    by_cases hInst : task.inst = inst
    · have hSent :
          ((world.instances inst).active.contains runId &&
              run.status == .running) =
            true := by
        rw [hRunning]
        simpa [hInst] using hActive
      rw [if_pos hInst, if_pos hSent]
      exact Nat.add_le_add_left hBeat _
    · rw [if_neg hInst]
      split
      · exact
          hBefore.trans
            (Nat.add_le_add_right (hPast runId run hRun) _)
      · exact hBefore

/- Sweeps keep the running runs guarded. -/
theorem bears_sweep
    {world : World}
    (selects : Run → Bool)
    (hGlobally :
      (guardOutline ticking beat stale).globally world) :
    (guardOutline ticking beat stale).Bears world
      { world with db := world.db.sweep selects } := by
  rcases hGlobally with ⟨hTicks, hPast⟩
  have hHeartbeat :
      ∀ runId run',
        (world.db.sweep selects).runs.get? runId = some run' →
          ∃ run,
            world.db.runs.get? runId = some run ∧
              run'.heartbeatAt = run.heartbeatAt := by
    intro runId run' hRun'
    rw [get?_sweep] at hRun'
    rcases Option.map_eq_some_iff.mp hRun' with ⟨run, hRun, rfl⟩
    refine ⟨run, hRun, ?_⟩
    split <;> rfl
  refine ⟨⟨hTicks, ?_⟩, ?_⟩
  · intro runId run' hRun'
    rcases hHeartbeat runId run' hRun' with ⟨run, hRun, hEq⟩
    rw [hEq]
    exact hPast runId run hRun
  · intro task hMine hTicking runId hPumps hRunning
    have hBefore : world.db.status? runId = some .running := by
      change (world.db.sweep selects).status? runId = _
        at hRunning
      rw [status?_sweep] at hRunning
      rcases Option.map_eq_some_iff.mp hRunning with
        ⟨run, hRun, hEq⟩
      split at hEq
      · cases hEq
      · rw [Db.status?, hRun, Option.map_some, hEq]
    rcases hMine hTicking runId hPumps hBefore with
      ⟨hActive, hWarm⟩
    refine ⟨hActive, ?_⟩
    intro run' hRun'
    rcases hHeartbeat runId run' hRun' with ⟨run, hRun, hEq⟩
    rw [hEq]
    exact hWarm run hRun

/- Every heeded step keeps the running runs guarded. -/
theorem sustains_guardOutline
    (hBeat : beat ≤ stale) :
    Sustains registry (Heeded ticking beat stale)
      (guardOutline ticking beat stale) where
  request := by
    intro system taskId inst request _ _ _ runId hPumps
    cases request <;> cases hPumps
  alone := fun _ _ _ => ⟨trivial, trivial⟩
  call := by
    intro system taskId fault task op reply world' next hCall _
      hHolds
    have hMine :=
      hHolds.locally taskId task hCall.present
    have hExecutes := hCall.executes
    have hFailed :
        ∀ exn,
          reply = .error exn →
            world' = system.world →
              (guardOutline ticking beat stale).Keeps
                system.tasks taskId system.world task world'
                { task with
                  program := next reply
                  phase := task.phase.after op reply } := by
      intro exn hReply hWorld
      subst hReply
      subst hWorld
      refine
        ⟨hHolds.globally, ?_, fun _ _ _ _ hOther _ =>
          ⟨hOther, trivial, trivial⟩⟩
      intro hTicking runId hPumps hRunning
      exact
        hMine hTicking runId (pumps_failed hCall.allows hPumps)
          hRunning
    cases hExecutes with
    | @done value _ hExec =>
        have hFormed := wellFormed_of_reachable hCall.reachable
        rcases hHolds.globally with ⟨hTicks, hPast⟩
        have hNow := (frames_of_exec hExec).now
        refine ⟨⟨?_, ?_⟩, ?_, ?_⟩
        · intro inst hTicking
          rw [hNow, (memory_of_exec hExec).1]
          exact hTicks inst hTicking
        · intro runId run' hRun'
          rw [hNow]
          rcases heartbeatAt_of_changes
              (changesRuns_of_exec hExec) hFormed.freshRun
              hRun' with
            ⟨run, hRun, hEq⟩ | ⟨-, hEq⟩
          · rw [hEq]
            exact hPast runId run hRun
          · exact Nat.le_of_eq hEq
        · intro hTicking runId hPumps hRunning
          exact
            guards_of_pumps hCall hExec hMine hTicking hPumps
              hRunning
        · intro otherId other _ hOther hLocally _
          exact
            ⟨guards_of_other hCall hExec hOther hLocally,
              trivial, trivial⟩
    | refused hExec => exact hFailed _ rfl rfl
    | fault hFault => exact hFailed _ rfl rfl
  sent := by
    intro system taskId task event next _ hTask _ _ hHolds
    exact
      ⟨hHolds.globally, hHolds.locally taskId task hTask,
        fun _ _ _ _ hOther hBoth => ⟨hOther, hBoth⟩⟩
  advance := by
    intro system seconds _ hAllowed hHolds
    rcases hHolds.globally with ⟨hTicks, hPast⟩
    refine ⟨⟨hAllowed.timed, ?_⟩, fun _ hMine => hMine⟩
    intro runId run hRun
    exact Nat.le_add_right_of_le (hPast runId run hRun)
  heartbeat := by
    intro system inst _ _ hHolds
    exact bears_heartbeat hBeat inst hHolds.globally
  sweep := by
    intro system action selects _ _ _ hHolds
    exact bears_sweep selects hHolds.globally
  collect := fun _ _ _ hHolds =>
    ⟨hHolds.globally, fun _ hMine => hMine⟩
  crash := by
    intro system inst _ hHolds
    refine ⟨hHolds.globally, ?_⟩
    intro task hNe hMine hTicking runId hPumps hRunning
    rcases hMine hTicking runId hPumps hRunning with
      ⟨hActive, hWarm⟩
    refine ⟨?_, hWarm⟩
    simpa [World.crash, World.setInstance, hNe] using hActive

------------------------------------------------------------
-- Live Runs
------------------------------------------------------------

/-
  No sweep of stale runs ends a running run whose pump still
  consumes its generator on an instance that ticks, as long as
  every step is heeded.
-/
theorem live_run_kept
    (hBeat : 3 * beat ≤ stale)
    {system next : System}
    (hReachable :
      Reachable registry (Heeded ticking beat stale) system)
    {taskId : TaskId}
    {task : Task}
    {runId : RunId}
    (hTask : system.tasks taskId = some task)
    (hTicking : ticking task.inst)
    (hPumps : task.phase.role.pumps? = some runId)
    (hRunning : system.world.db.status? runId = some .running)
    {action : Action}
    (hAction :
      action = .reconcile stale ∨ action = .timeoutRuns stale)
    (hStep : system.step registry action = some next) :
    next.world.db.status? runId = some .running := by
  have hSustains :
      Sustains registry (Heeded ticking beat stale)
        (guardOutline ticking beat stale) :=
    sustains_guardOutline (by omega)
  have hHolds :=
    holds_of_reachable hSustains
      ⟨fun _ _ => Nat.zero_le _, fun _ _ hRun => nomatch hRun⟩
      hReachable
  have hNow := hHolds.globally.1 task.inst hTicking
  rcases
      hHolds.locally taskId task hTask hTicking runId hPumps
        hRunning with
    ⟨-, hWarm⟩
  rcases Option.map_eq_some_iff.mp hRunning with
    ⟨run, hRun, hStatus⟩
  have hFresh :
      (run.status == .running &&
          decide
            (run.heartbeatAt + stale < system.world.db.now)) =
        false := by
    have hLe := hWarm run hRun
    rw [Bool.and_eq_false_iff, decide_eq_false_iff_not,
      Nat.not_lt]
    exact Or.inr (hNow.trans hLe)
  have hSwept :
      next.world.db =
        system.world.db.sweep fun run =>
          run.status == .running &&
            decide
              (run.heartbeatAt + stale <
                system.world.db.now) := by
    rcases hAction with rfl | rfl
    · cases hStep
      rfl
    · cases hStep
      rfl
  rw [hSwept, status?_sweep, hRun, Option.map_some, hFresh]
  simp [hStatus]

/- The first instance ticks. -/
def firstTicks (inst : InstanceId) : Prop := inst = 0

/- A number of seconds with a heartbeat of the first instance. -/
def seconds (number : Nat) : List Action :=
  (List.replicate number
    [Action.advance 1, Action.heartbeat 0]).flatten

/- Whether a step is in time for the first instance. -/
def System.inTime (system : System) : Action → Bool
| .advance seconds =>
    decide
      (system.world.db.now + seconds ≤ system.world.ticks 0 + 1)
| .reconcile ttl | .timeoutRuns ttl => ttl == 3
| _ => true

/- A step in time is one of the timed model. -/
theorem timed_of_inTime
    {system : System}
    {action : Action}
    (hInTime : system.inTime action = true) :
    Timed firstTicks 1 3 system action := by
  cases action with
  | advance seconds =>
      rintro inst rfl
      simpa [System.inTime] using hInTime
  | reconcile ttl => exact beq_iff_eq.mp hInTime
  | timeoutRuns ttl => exact beq_iff_eq.mp hInTime
  | _ => trivial

/- Whether a step resumes or discards no run. -/
def System.steady (system : System) (action : Action) : Bool :=
  match system.call? action with
  | some (_, .tryTransition _ .awaitingApproval ..) => false
  | some (_, .activeDiscard _) => false
  | some (task, .activeAdd runId) =>
      (system.world.db.runs.get? runId).all fun run =>
        decide
          (system.world.ticks task.inst + 1 ≤
            run.heartbeatAt + 3)
  | _ => true

/- A steady step in time is heeded. -/
theorem heeded_of_steady
    {system : System}
    {action : Action}
    (hInTime : system.inTime action = true)
    (hSteady : system.steady action = true) :
    Heeded firstTicks 1 3 system action where
  timed := timed_of_inTime hInTime
  resumed := by
    intro task runId hCall
    rw [System.steady, hCall] at hSteady
    cases hSteady
  started := by
    intro task job hCall _ _ run hRun
    rw [System.steady, hCall] at hSteady
    simpa [hRun] using hSteady
  discarded := by
    intro task runId hCall
    rw [System.steady, hCall] at hSteady
    cases hSteady

/- A run whose stream has begun, five seconds later. -/
def drivenRun : List Action :=
  [.request 0 0 (.createThread none)] ++ turns 0 1 ++
    [.request 1 0
      (.start 0 [] none [.agent (.str []) []])] ++
    turns 1 8 ++ seconds 5

/- The driven run is spared by a sweep of another instance. -/
theorem live_run_kept_driven :
    ∃ system,
      execute (System.step .single) drivenRun .initial =
          some system ∧
        system.world.db.now = 5 ∧
          ∀ next,
            system.step .single (.reconcile 3) = some next →
              next.world.db.status? 1 = some .running := by
  rcases
      exists_of_execute
        (show
          (execute (System.step .single) drivenRun .initial).map
              (fun system =>
                (system.world.db.now,
                  system.world.db.status? 1,
                  (system.tasks 1).map fun task =>
                    (task.inst, task.phase.role.pumps?))) =
            some (5, some .running, some (0, some 1)) by
          decide +kernel) with
    ⟨system, hSystem, hView⟩
  simp only [Prod.mk.injEq] at hView
  rcases hView with ⟨hNow, hStatus, hPump⟩
  rcases Option.map_eq_some_iff.mp hPump with
    ⟨task, hTask, hPumps⟩
  have hPasses :
      passes (System.step .single)
          (fun system action =>
            system.inTime action && system.steady action)
          drivenRun .initial =
        true := by
    decide +kernel
  have hReachable :
      Reachable .single (Heeded firstTicks 1 3) system := by
    apply run_of_execute hSystem hPasses
    intro state action hTest
    rw [Bool.and_eq_true] at hTest
    exact heeded_of_steady hTest.1 hTest.2
  refine ⟨system, hSystem, hNow, ?_⟩
  intro next hStep
  exact
    live_run_kept (by decide) hReachable hTask
      (congrArg Prod.fst hPumps) (congrArg Prod.snd hPumps)
      hStatus (Or.inl rfl) hStep

/- A run that is approved after a long pause. -/
def approvedLate : List Action :=
  pausedRun ++ seconds 5 ++
    [.request 2 0 (.resume 0 true none [])] ++ turns 2 4

/- A run that is resumed after a long pause may be swept. -/
theorem live_run_swept :
    ¬ ∀ (registry : Registry) (ticking : InstanceId → Prop)
        (beat stale : Nat) (system next : System)
        (taskId : TaskId) (task : Task) (runId : RunId),
      3 * beat ≤ stale →
        Reachable registry (Timed ticking beat stale) system →
          system.tasks taskId = some task →
            ticking task.inst →
              task.phase.role.pumps? = some runId →
                system.world.db.status? runId =
                    some .running →
                  system.step registry (.reconcile stale) =
                      some next →
                    next.world.db.status? runId =
                      some .running := by
  intro hKept
  rcases
      exists_of_execute
        (show
          (execute (System.step .single) approvedLate
              .initial).map
              (fun system =>
                (system.world.db.status? 1,
                  (system.tasks 2).map fun task =>
                    (task.inst, task.phase.role.pumps?))) =
            some (some .running, some (0, some 1)) by
          decide +kernel) with
    ⟨system, hSystem, hView⟩
  rcases
      exists_of_execute
        (show
          (execute (System.step .single)
              (approvedLate ++ [.reconcile 3]) .initial).map
              (fun system => system.world.db.status? 1) =
            some (some .error) by
          decide +kernel) with
    ⟨next, hNext, hError⟩
  simp only [Prod.mk.injEq] at hView
  rcases hView with ⟨hStatus, hPump⟩
  rcases Option.map_eq_some_iff.mp hPump with
    ⟨task, hTask, hPumps⟩
  have hPasses :
      passes (System.step .single) System.inTime approvedLate
          .initial =
        true := by
    decide +kernel
  have hReachable :
      Reachable .single (Timed firstTicks 1 3) system :=
    run_of_execute hSystem hPasses fun _ _ => timed_of_inTime
  rw [execute_append, hSystem] at hNext
  have hStep :
      system.step .single (.reconcile 3) = some next := hNext
  have hRunning :=
    hKept .single firstTicks 1 3 system next 2 task 1
      (by decide) hReachable hTask (congrArg Prod.fst hPumps)
      (congrArg Prod.snd hPumps) hStatus hStep
  rw [hError] at hRunning
  cases hRunning

end LegalAgent
