import LegalAgent.Properties.ActiveRuns
import LegalAgent.Properties.Heartbeats
import LegalAgent.Properties.Interrupts
import LegalAgent.Properties.PausedCalls

/-
  The recovery of runs that lost their workers.

  A running run on which no task works any more is in no active
  set, gets no heartbeat, and is ended by the first sweep that
  comes late enough.

  Key definitions include:
    * `World.Adrift`
    * `Task.Aloof`
    * `adriftOutline`

  Key theorems include:
    * `sustains_adriftOutline`
    * `orphan_recovered`
-/

------------------------------------------------------------
-- Runs Adrift
------------------------------------------------------------

namespace LegalAgent

open Library

/-
  A run that is running without a heartbeat since a given time,
  or that has ended; the latter if it is known to be over.
-/
structure World.Adrift
    (world : World)
    (runId : RunId)
    (seen : Time)
    (isOver : Prop) :
    Prop where
  settled :
    ∃ status,
      world.db.status? runId = some status ∧
        status ≠ .awaitingApproval
  silent :
    world.db.status? runId = some .running →
      ∀ inst, runId ∉ (world.instances inst).active
  stale :
    world.db.status? runId = some .running →
      ∀ run,
        world.db.runs.get? runId = some run →
          run.heartbeatAt ≤ seen
  isOver : isOver → world.db.status? runId ≠ some .running

/-
  A task that does not write a run, and does not concern it
  while it is running, unless the task has ended.
-/
def Task.Aloof
    (task : Task)
    (world : World)
    (runId : RunId) :
    Prop :=
  task.phase.role.writer? ≠ some runId ∧
    (world.db.status? runId = some .running →
      task.phase.role.concerns runId → task.ended = true)

/- A run adrift, from which every task keeps away. -/
def adriftOutline
    (runId : RunId)
    (seen : Time)
    (isOver : Prop) :
    Outline World Task where
  globally world := world.Adrift runId seen isOver
  locally world task := task.Aloof world runId
  mutually _ _ := True

section Calls

variable {db db' : Db} {role : Role}
variable {op : Op} {value : op.Reply} {runId : RunId}

/- The run that a call begins was not there, or it waited. -/
theorem status_of_begins
    (hChanges : ChangesRuns db db' op value)
    (hFresh : db.runs.get? db.nextId = none)
    (hBegins : op.begins value = some runId) :
    db.status? runId = none ∨
      db.status? runId = some .awaitingApproval := by
  cases hChanges with
  | opened hThread hAlone hRuns =>
      cases hBegins
      left
      rw [Db.status?, hFresh]
      rfl
  | @moved other fromStatus toStatus ended run hRun hStatus =>
      cases fromStatus <;> cases toStatus <;> cases hBegins
      right
      rw [Db.status?, hRun, Option.map_some, hStatus]
  | set => cases hBegins
  | missing => cases hBegins
  | committed => cases hBegins
  | kept hKept =>
      rw [Op.begins_of_kept hKept] at hBegins
      cases hBegins

/- A task whose call failed concerns no other run. -/
theorem concerns_failed
    {exn : Exn}
    (hAllows : role.Allows op)
    (hConcerns : (role.after op (.error exn)).concerns runId) :
    role.concerns runId := by
  cases hAllows with
  | on hStage => exact hConcerns
  | lookingActive | lookingAdd | lookingDiscard | lookingRead
  | lookingSeq | lookingLog => exact hConcerns
  | _ => cases hConcerns

/- A running run is not found by a task that looks for one. -/
theorem not_running_of_found
    {inst : InstanceId}
    {world world' : World}
    {threadId : ThreadId}
    (hExec :
      exec inst (.getActiveRun threadId) world =
        (.ok (some (runId, .awaitingApproval)), world')) :
    world.db.status? runId ≠ some .running := by
  rcases of_getActiveRun (statement_of_onDb hExec) with
    ⟨-, run, hRun, -, hStatus, -⟩
  rw [Db.status?, hRun, Option.map_some, hStatus]
  rintro ⟨⟩

/-
  A task that concerns a run behind a call did so before, as
  long as the run is running all the time.
-/
theorem concerns_before
    {inst : InstanceId}
    {world world' : World}
    (hExec : exec inst op world = (.ok value, world'))
    (hFresh : world.db.runs.get? world.db.nextId = none)
    (hAllows : role.Allows op)
    (hBefore : world.db.status? runId = some .running)
    (hAfter : world'.db.status? runId = some .running)
    (hConcerns : (role.after op (.ok value)).concerns runId) :
    role.concerns runId := by
  have hAllows' := hAllows
  cases hAllows with
  | on hStage => exact hConcerns
  | lookingAdd | lookingDiscard | lookingRead | lookingSeq
  | lookingLog => exact hConcerns
  | lookingActive =>
      rcases value with _ | ⟨other, status⟩
      · exact hConcerns
      · cases status with
        | awaitingApproval =>
            rcases hConcerns with rfl | hLog
            · exact absurd hBefore (not_running_of_found hExec)
            · exact hLog
        | _ => exact hConcerns
  | freshOpen =>
      rcases of_openRun (statement_of_onDb hExec) with ⟨rfl, -⟩
      have hRun : world.db.nextId = runId := by
        rcases hConcerns with hEq | hEq <;> exact hEq
      rw [← hRun, Db.status?, hFresh] at hBefore
      cases hBefore
  | freshActive =>
      rcases value with _ | ⟨other, status⟩
      · cases hConcerns
      · cases status with
        | awaitingApproval =>
            cases hConcerns
            exact absurd hBefore (not_running_of_found hExec)
        | _ => cases hConcerns
  | freshRead => rcases value with _ | _ <;> cases hConcerns
  | @watchingRunning threadId other =>
      cases value with
      | false => cases hConcerns
      | true =>
          have hRun : other = runId := by
            rcases hConcerns with hEq | hEq <;> exact hEq
          subst hRun
          exact
            absurd hAfter
              (not_running_of_ends hExec hAllows' rfl)
  | @watchingPaused threadId other =>
      cases value with
      | false => cases hConcerns
      | true =>
          have hRun : other = runId := by
            rcases hConcerns with hEq | hEq <;> exact hEq
          subst hRun
          cases changesRuns_of_exec hExec with
          | moved hRun hStatus =>
              rw [Db.status?, hRun, Option.map_some, hStatus]
                at hBefore
              cases hBefore
          | kept hKept => cases hKept
  | _ => cases hConcerns

/- A run that no task writes neither waits nor is begun. -/
theorem settled_of_changes
    (hChanges : ChangesRuns db db' op value)
    (hFresh : db.runs.get? db.nextId = none)
    (hAllows : role.Allows op)
    (hWriter : role.writer? ≠ some runId)
    (hSettled :
      ∃ status,
        db.status? runId = some status ∧
          status ≠ .awaitingApproval) :
    ∃ status,
      db'.status? runId = some status ∧
        status ≠ .awaitingApproval := by
  rcases hSettled with ⟨status, hStatus, hNe⟩
  have hOther :
      ∀ other status' ended,
        db'.runs = (db.writeStatus other status' ended).runs →
          (other = runId → status' ≠ .awaitingApproval) →
            ∃ status,
              db'.status? runId = some status ∧
                status ≠ .awaitingApproval := by
    intro other status' ended hRuns hWritten
    by_cases hEq : runId = other
    · rcases Option.map_eq_some_iff.mp hStatus with
        ⟨run, hRun, -⟩
      rw [hEq] at hRun ⊢
      exact
        ⟨status', status?_of_written hRun hRuns,
          hWritten hEq.symm⟩
    · exact
        ⟨status, by rw [status?_of_other hRuns hEq, hStatus],
          hNe⟩
  cases hChanges with
  | opened hThread hAlone hRuns =>
      refine ⟨status, ?_, hNe⟩
      rw [Db.status?, hRuns, Table.get?_insert hFresh, if_neg]
      · exact hStatus
      · rintro rfl
        rw [Db.status?, hFresh] at hStatus
        cases hStatus
  | set hRun hAlone hRuns =>
      rcases pause_of_allows hAllows with
        ⟨-, -, job, root, rfl, rfl⟩
      apply hOther _ _ _ hRuns
      intro hEq
      exact absurd (congrArg some hEq) hWriter
  | moved hRun hBefore hAlone hRuns =>
      apply hOther _ _ _ hRuns
      intro _
      cases transition_of_allows hAllows <;> rintro ⟨⟩
  | committed hRun hBefore hRuns =>
      exact hOther _ _ _ hRuns fun _ => by rintro ⟨⟩
  | missing _ hRuns =>
      exact ⟨status, by rw [status?_of_runs hRuns, hStatus], hNe⟩
  | kept _ hRuns =>
      exact ⟨status, by rw [status?_of_runs hRuns, hStatus], hNe⟩

end Calls

/- The next call of a task that has not ended. -/
theorem not_ended_of_calls
    {registry : Registry}
    {allowed : System → Action → Prop}
    {system : System}
    {taskId : TaskId}
    {fault : Bool}
    {task : Task}
    {op : Op}
    {reply : Except Exn op.Reply}
    {world' : World}
    (hCall :
      Calls registry allowed system taskId fault task op reply
        world') :
    task.ended = false := by
  have hNext := hCall.next
  unfold Task.op? at hNext
  unfold Task.ended
  split at hNext
  · rename_i hProgram
    rw [hProgram]
  · cases hNext

section Steps

variable {registry : Registry}
variable {allowed : System → Action → Prop}
variable {system : System} {taskId : TaskId}
variable {task : Task} {op : Op} {value : op.Reply}
variable {world' : World} {runId : RunId} {seen : Time}
variable {isOver : Prop}

/- A run adrift that is running behind a call was running. -/
theorem running_of_adrift
    (hCall :
      Calls registry allowed system taskId false task op
        (.ok value) world')
    (hExec :
      exec task.inst op system.world = (.ok value, world'))
    (hAdrift : system.world.Adrift runId seen isOver)
    (hRunning : world'.db.status? runId = some .running) :
    system.world.db.status? runId = some .running := by
  have hFresh :=
    (wellFormed_of_reachable hCall.reachable).freshRun
  have hChanges := changesRuns_of_exec hExec
  rcases running_before hChanges hFresh hCall.allows hRunning
    with hWas | hBegins
  · exact hWas
  · rcases hAdrift.settled with ⟨status, hStatus, hNe⟩
    rcases status_of_begins hChanges hFresh hBegins with
      hNone | hWaits
    · rw [hNone] at hStatus
      cases hStatus
    · rw [hWaits, Option.some_inj] at hStatus
      exact absurd hStatus.symm hNe

/- A call of a task that keeps away leaves a run adrift. -/
theorem adrift_of_call
    (hCall :
      Calls registry allowed system taskId false task op
        (.ok value) world')
    (hExec :
      exec task.inst op system.world = (.ok value, world'))
    (hAloof : task.Aloof system.world runId)
    (hAdrift : system.world.Adrift runId seen isOver) :
    world'.Adrift runId seen isOver := by
  have hFresh :=
    (wellFormed_of_reachable hCall.reachable).freshRun
  have hChanges := changesRuns_of_exec hExec
  have hEnded := not_ended_of_calls hCall
  constructor
  · exact
      settled_of_changes hChanges hFresh hCall.allows hAloof.1
        hAdrift.settled
  · intro hRunning inst hActive
    have hBefore := running_of_adrift hCall hExec hAdrift hRunning
    rcases active_of_exec hExec hActive with
      ⟨hMem, -⟩ | ⟨hRegisters, -⟩
    · exact hAdrift.silent hBefore inst hMem
    · have hConcerns :=
        (concerns_of_registers hCall.allows hRegisters).2
      rw [hAloof.2 hBefore hConcerns] at hEnded
      cases hEnded
  · intro hRunning run' hRun'
    have hBefore := running_of_adrift hCall hExec hAdrift hRunning
    rcases heartbeatAt_of_changes hChanges hFresh hRun' with
      ⟨run, hRun, hEq⟩ | ⟨hNone, -⟩
    · rw [hEq]
      exact hAdrift.stale hBefore run hRun
    · rw [Db.status?, hNone] at hBefore
      cases hBefore
  · intro hOver hRunning
    exact
      hAdrift.isOver hOver
        (running_of_adrift hCall hExec hAdrift hRunning)

/- The task that made a call keeps away behind it. -/
theorem aloof_of_call
    (hCall :
      Calls registry allowed system taskId false task op
        (.ok value) world')
    (hExec :
      exec task.inst op system.world = (.ok value, world'))
    (hAloof : task.Aloof system.world runId)
    (hAdrift : system.world.Adrift runId seen isOver)
    (next : Driver Unit) :
    ({ task with
        program := next
        phase := task.phase.after op (.ok value) } :
      Task).Aloof
      world' runId := by
  have hFresh :=
    (wellFormed_of_reachable hCall.reachable).freshRun
  have hChanges := changesRuns_of_exec hExec
  constructor
  · intro hWriter
    rcases writer_after hCall.allows hWriter with
      ⟨hWrites, -⟩ | hBegins
    · exact hAloof.1 hWrites
    · rcases hAdrift.settled with ⟨status, hStatus, hNe⟩
      rcases status_of_begins hChanges hFresh hBegins with
        hNone | hWaits
      · rw [hNone] at hStatus
        cases hStatus
      · rw [hWaits, Option.some_inj] at hStatus
        exact hNe hStatus.symm
  · intro hRunning hConcerns
    have hBefore := running_of_adrift hCall hExec hAdrift hRunning
    have hDid :=
      concerns_before hExec hFresh hCall.allows hBefore hRunning
        hConcerns
    have hEnded := not_ended_of_calls hCall
    rw [hAloof.2 hBefore hDid] at hEnded
    cases hEnded

/- The heartbeats of an instance leave a run adrift. -/
theorem adrift_heartbeat
    {world : World}
    (hAdrift : world.Adrift runId seen isOver)
    (inst : InstanceId) :
    (world.heartbeat inst).Adrift runId seen isOver := by
  have hStatus :
      (world.heartbeat inst).db.status? runId =
        world.db.status? runId :=
    status?_heartbeat _ _ _
  constructor
  · rw [hStatus]
    exact hAdrift.settled
  · rw [hStatus]
    exact hAdrift.silent
  · rw [hStatus]
    intro hRunning run' hRun'
    change
      (world.db.heartbeat (world.instances inst).active).runs.get?
          runId =
        some run' at hRun'
    rw [get?_heartbeat] at hRun'
    rcases Option.map_eq_some_iff.mp hRun' with ⟨run, hRun, rfl⟩
    rw [if_neg]
    · exact hAdrift.stale hRunning run hRun
    · intro hSent
      rw [Bool.and_eq_true, List.contains_iff_mem] at hSent
      exact hAdrift.silent hRunning inst hSent.1
  · rw [hStatus]
    exact hAdrift.isOver

/- A run that is running behind a sweep was running. -/
theorem running_of_swept
    {db : Db}
    {selects : Run → Bool}
    (hAfter :
      (db.sweep selects).status? runId = some .running) :
    db.status? runId = some .running := by
  rw [status?_sweep] at hAfter
  rcases Option.map_eq_some_iff.mp hAfter with ⟨run, hRun, hEq⟩
  split at hEq
  · cases hEq
  · rw [Db.status?, hRun, Option.map_some, hEq]

/- A sweep leaves a run adrift, or it ends it. -/
theorem adrift_sweep
    {world : World}
    (hAdrift : world.Adrift runId seen isOver)
    (selects : Run → Bool) :
    ({ world with db := world.db.sweep selects } :
      World).Adrift runId seen isOver := by
  constructor
  · rcases hAdrift.settled with ⟨status, hStatus, hNe⟩
    rcases Option.map_eq_some_iff.mp hStatus with ⟨run, hRun, rfl⟩
    refine ⟨if selects run then .error else run.status, ?_, ?_⟩
    · change (world.db.sweep selects).status? runId = _
      rw [status?_sweep, hRun]
      rfl
    · split
      · rintro ⟨⟩
      · exact hNe
  · intro hAfter
    exact hAdrift.silent (running_of_swept hAfter)
  · intro hAfter run' hRun'
    change (world.db.sweep selects).runs.get? runId = _ at hRun'
    rw [get?_sweep] at hRun'
    rcases Option.map_eq_some_iff.mp hRun' with ⟨run, hRun, rfl⟩
    have hLe :=
      hAdrift.stale (running_of_swept hAfter) run hRun
    split
    · exact hLe
    · exact hLe
  · intro hOver hAfter
    exact hAdrift.isOver hOver (running_of_swept hAfter)

/- A crash leaves a run adrift. -/
theorem adrift_crash
    {world : World}
    (hAdrift : world.Adrift runId seen isOver)
    (inst : InstanceId) :
    (world.crash inst).Adrift runId seen isOver := by
  refine
    ⟨hAdrift.settled, ?_, hAdrift.stale, hAdrift.isOver⟩
  intro hRunning other hActive
  simp only [World.crash, World.setInstance] at hActive
  split at hActive
  · cases hActive
  · exact hAdrift.silent hRunning other hActive

/- A task whose call failed keeps away as before. -/
theorem aloof_failed
    {fault : Bool}
    {exn : Exn}
    (hCall :
      Calls registry allowed system taskId fault task op
        (.error exn) world')
    (hAloof : task.Aloof system.world runId)
    (program : Driver Unit) :
    Task.Aloof
      { task with
        program := program
        phase := task.phase.after op (.error exn) }
      system.world runId := by
  constructor
  · intro hWriter
    exact hAloof.1 (writer_failed hCall.allows hWriter)
  · intro hRunning hConcerns
    have hEnded := not_ended_of_calls hCall
    rw [hAloof.2 hRunning
      (concerns_failed hCall.allows hConcerns)] at hEnded
    cases hEnded

end Steps

variable {registry : Registry}
variable {allowed : System → Action → Prop}

/- No step of the server takes a run that is adrift in again. -/
theorem sustains_adriftOutline
    (runId : RunId)
    (seen : Time)
    (isOver : Prop) :
    Sustains registry allowed
      (adriftOutline runId seen isOver) where
  request := by
    intro system taskId inst request _ _
    cases request <;>
      exact ⟨by rintro ⟨⟩, fun _ => by rintro ⟨⟩⟩
  alone := fun _ _ _ => ⟨trivial, trivial⟩
  call := by
    intro system taskId fault task op reply world' next hCall _
      hHolds
    have hMine := hHolds.locally taskId task hCall.present
    apply keeps_of_apart (fun _ _ => trivial) hCall hHolds
    · rintro exn rfl
      exact aloof_failed hCall hMine _
    · rintro value rfl rfl hExec
      refine
        ⟨adrift_of_call hCall hExec hMine hHolds.globally,
          aloof_of_call hCall hExec hMine hHolds.globally _, ?_⟩
      intro other hOther
      refine ⟨hOther.1, fun hRunning => ?_⟩
      exact
        hOther.2
          (running_of_adrift hCall hExec hHolds.globally
            hRunning)
  sent := by
    intro system taskId task event next _ hTask _ hRole hHolds
    refine
      ⟨hHolds.globally, ⟨?_, ?_⟩, fun _ _ _ _ hOther _ =>
        ⟨hOther, trivial, trivial⟩⟩
    · rw [hRole]
      rintro ⟨⟩
    · intro _ hConcerns
      rw [hRole] at hConcerns
      cases hConcerns
  advance := by
    intro system seconds _ _ hHolds
    have hAdrift := hHolds.globally
    exact
      ⟨⟨hAdrift.settled, hAdrift.silent, hAdrift.stale,
          hAdrift.isOver⟩,
        fun _ hLocally => hLocally⟩
  heartbeat := by
    intro system inst _ _ hHolds
    refine ⟨adrift_heartbeat hHolds.globally inst, ?_⟩
    intro task hLocally
    refine ⟨hLocally.1, ?_⟩
    have hStatus :
        (system.world.heartbeat inst).db.status? runId =
          system.world.db.status? runId :=
      status?_heartbeat _ _ _
    rw [hStatus]
    exact hLocally.2
  sweep := by
    intro system action selects _ _ _ hHolds
    exact
      ⟨adrift_sweep hHolds.globally selects,
        fun _ hLocally =>
          ⟨hLocally.1, fun hAfter =>
            hLocally.2 (running_of_swept hAfter)⟩⟩
  collect := by
    intro system retention _ _ hHolds
    have hAdrift := hHolds.globally
    exact
      ⟨⟨hAdrift.settled, hAdrift.silent, hAdrift.stale,
          hAdrift.isOver⟩,
        fun _ hLocally => hLocally⟩
  crash := by
    intro system inst _ hHolds
    exact
      ⟨adrift_crash hHolds.globally inst,
        fun task _ hLocally => hLocally⟩

------------------------------------------------------------
-- Recovery
------------------------------------------------------------

/- The threads of the runs are there. -/
def Db.Housed (db : Db) : Prop :=
  ∀ runId threadId,
    db.hasRun runId threadId →
      (db.threads.get? threadId).isSome = true

/- Every step keeps the threads of the runs. -/
theorem keeps_housed :
    KeptInDb registry allowed Db.Housed where
  exec := by
    intro system taskId task op value world' hCall hExec hHoused
      runId threadId hRun
    have hFresh :=
      (wellFormed_of_reachable hCall.reachable).freshRun
    apply isSome_thread_of_exec hExec
    rcases
        hasRun_before (changesRuns_of_exec hExec) hFresh hRun
      with
      hHad | ⟨-, -, hThread⟩
    · exact hHoused runId threadId hHad
    · exact hThread
  advance _ _ hHoused := hHoused
  heartbeat := by
    intro db runIds hHoused runId threadId hRun
    apply hHoused runId threadId
    exact hasRun_of_updated (runs_heartbeat _ _) (fun _ => rfl) hRun
  sweep := by
    intro db selects hHoused runId threadId hRun
    apply hHoused runId threadId
    exact hasRun_of_updated (runs_sweep _ _) (fun _ => rfl) hRun
  collect _ _ hHoused := hHoused

/- No heartbeat of a run lies in the future. -/
def Db.Beaten (db : Db) : Prop :=
  ∀ runId run,
    db.runs.get? runId = some run → run.heartbeatAt ≤ db.now

/- Every step keeps the heartbeats in the past. -/
theorem keeps_beaten :
    KeptInDb registry allowed Db.Beaten where
  exec := by
    intro system taskId task op value world' hCall hExec hPast
      runId run' hRun'
    have hFresh :=
      (wellFormed_of_reachable hCall.reachable).freshRun
    rw [(frames_of_exec hExec).now]
    rcases
        heartbeatAt_of_changes (changesRuns_of_exec hExec) hFresh
          hRun' with
      ⟨run, hRun, hEq⟩ | ⟨-, hEq⟩
    · rw [hEq]
      exact hPast runId run hRun
    · exact Nat.le_of_eq hEq
  advance := by
    intro db seconds hPast runId run hRun
    exact Nat.le_add_right_of_le (hPast runId run hRun)
  heartbeat := by
    intro db runIds hPast runId run' hRun'
    rw [get?_heartbeat] at hRun'
    rcases Option.map_eq_some_iff.mp hRun' with ⟨run, hRun, rfl⟩
    change _ ≤ db.now
    split
    · exact Nat.le_refl _
    · exact hPast runId run hRun
  sweep := by
    intro db selects hPast runId run' hRun'
    rw [get?_sweep] at hRun'
    rcases Option.map_eq_some_iff.mp hRun' with ⟨run, hRun, rfl⟩
    have hLe := hPast runId run hRun
    split
    · exact hLe
    · exact hLe
  collect _ _ hPast := hPast

section Recovery

variable {system later next : System} {runId : RunId}
variable {stale : Nat}

/- A run on which no task works any more is adrift. -/
theorem adrift_of_gone
    (hReachable : Reachable registry allowed system)
    (hRunning : system.world.db.status? runId = some .running)
    (hGone :
      ∀ taskId task,
        system.tasks taskId = some task →
          task.phase.role.concerns runId → task.ended = true) :
    (adriftOutline runId system.world.db.now False).Holds
      system.world system.tasks where
  globally := by
    have hEnrolled : system.Enrolled :=
      preserved_of_reachable preserves_enrolled
        { pledged := fun _ _ hTask => by cases hTask
          active := fun _ _ hActive => by cases hActive }
        hReachable
    have hPast : system.world.db.Beaten :=
      preserved_of_reachable (preserves_of_kept keeps_beaten)
        (fun _ _ hRun => by cases hRun) hReachable
    refine
      ⟨⟨_, hRunning, by rintro ⟨⟩⟩, ?_,
        fun _ => hPast runId, False.elim⟩
    intro _ inst hActive
    rcases hEnrolled.active inst runId hActive with
      ⟨taskId, task, hTask, hAttends⟩
    have hNot := not_ended_of_attends hAttends
    rw [hGone taskId task hTask hAttends.concerns] at hNot
    cases hNot
  locally := by
    intro taskId task hTask
    refine ⟨?_, fun _ => hGone taskId task hTask⟩
    intro hWriter
    have hConforms := conforms_of_reachable hReachable
    cases hRole : task.phase.role with
    | on job stage =>
        rw [hRole, Role.writer?] at hWriter
        split at hWriter
        · rename_i hStage
          have hEnded : task.ended = true := by
            apply hGone taskId task hTask
            rw [hRole]
            exact Or.inl (Option.some_inj.mp hWriter)
          have hMay :=
            mayEnd_of_ended (hConforms taskId task hTask) hEnded
          rw [hRole] at hMay
          cases stage with
          | left => cases hStage
          | paused => cases hStage
          | closing => cases hStage
          | settled => cases hStage
          | _ => cases hMay
        · cases hWriter
    | _ =>
        rw [hRole] at hWriter
        cases hWriter
  mutually := fun _ _ _ _ _ _ _ => trivial

/- A run adrift is over once a late sweep has passed. -/
theorem over_of_swept
    {seen : Time}
    (hHolds :
      (adriftOutline runId seen False).Holds later.world
        later.tasks)
    (hLate : seen + stale < later.world.db.now)
    (hSwept : later.step registry (.reconcile stale) = some next) :
    next.world.db.status? runId ≠ some .running := by
  cases hSwept
  change
    (later.world.db.sweep _).status? runId ≠ some .running
  rw [status?_sweep]
  intro hRunning
  rcases Option.map_eq_some_iff.mp hRunning with
    ⟨run, hRun, hEq⟩
  split at hEq
  · cases hEq
  · rename_i hSpared
    apply hSpared
    have hBeat :=
      hHolds.globally.stale
        (by rw [Db.status?, hRun, Option.map_some, hEq]) run hRun
    rw [hEq, Bool.and_eq_true, decide_eq_true_eq]
    exact
      ⟨rfl,
        Nat.lt_of_le_of_lt (Nat.add_le_add_right hBeat stale)
          hLate⟩

/- The cells of a swept run have results. -/
theorem filled_of_swept
    {db : Db}
    {selects : Run → Bool}
    {run : Run}
    (hRun : db.runs.get? runId = some run)
    (hSelects : selects run = true)
    {message : Message}
    (hMem : message ∈ (db.sweep selects).messages)
    (hOwn : message.runId = some runId)
    (hRole : message.role = .tool) :
    message.toolResult.isSome = true := by
  rcases List.mem_map.mp hMem with ⟨before, -, rfl⟩
  split at hOwn
  · rename_i hFilled
    rw [if_pos hFilled]
    rfl
  · rename_i hKept
    rw [if_neg hKept] at hRole ⊢
    by_contra hNone
    apply hKept
    rw [Db.sweeps, hOwn, Option.any_some, hRun, Option.any_some,
      hSelects, hRole]
    simpa using hNone

/- A sweep leaves the thread of a swept run without a run. -/
theorem alone_of_swept
    {db : Db}
    {selects : Run → Bool}
    {run : Run}
    {threadId : ThreadId}
    (hFormed : db.WellFormed)
    (hRun : db.runs.get? runId = some run)
    (hActive : run.status.active = true)
    (hSelects : selects run = true)
    (hHas : (db.sweep selects).hasRun runId threadId) :
    (db.sweep selects).activeElsewhere threadId
        (db.sweep selects).nextId =
      false := by
  have hThread : run.threadId = threadId := by
    have hBefore : db.hasRun runId threadId :=
      hasRun_of_updated (runs_sweep _ _) (fun _ => rfl) hHas
    rw [Db.hasRun, hRun] at hBefore
    exact Option.some_inj.mp hBefore
  rw [Bool.eq_false_iff]
  intro hElsewhere
  rw [Db.activeElsewhere, Table.any_eq_true_iff] at hElsewhere
  rcases hElsewhere with ⟨other, run', hOther, hFound⟩
  simp only [Bool.and_eq_true, beq_iff_eq] at hFound
  rw [get?_sweep] at hOther
  rcases Option.map_eq_some_iff.mp hOther with
    ⟨before, hBefore, rfl⟩
  split at hFound
  · cases hFound.2
  · rename_i hSpared
    have hSame : runId = other :=
      hFormed.alone runId other run before hRun hBefore
        (hThread.trans hFound.1.2.symm) hActive hFound.2
    subst hSame
    rw [hRun, Option.some_inj] at hBefore
    rw [← hBefore] at hSpared
    exact hSpared hSelects

/- A run is opened in a thread without an active run. -/
theorem isOk_openRun
    {db : Db}
    {threadId : ThreadId}
    {model : Option Text}
    (hThread : (db.threads.get? threadId).isSome = true)
    (hAlone : db.activeElsewhere threadId db.nextId = false) :
    (openRun threadId model db).isOk = true := by
  rw [Option.isSome_iff_exists] at hThread
  rcases hThread with ⟨thread, hThread⟩
  unfold openRun
  rw [hThread, hAlone]
  rfl

/-
  A running run is over for good after the first sweep that
  comes late enough, once every task that works on it has ended
  or was lost in a crash, whatever happens in between.  If the
  sweep ends it, then as an error, with all its cells filled,
  and its thread is free for a new run.
-/
theorem orphan_recovered
    (hReachable : Reachable registry allowed system)
    (hRunning : system.world.db.status? runId = some .running)
    (hGone :
      ∀ taskId task,
        system.tasks taskId = some task →
          task.phase.role.concerns runId → task.ended = true)
    (hLater :
      Execution (System.step registry) allowed system later)
    (hLate :
      system.world.db.now + stale < later.world.db.now)
    (hAllowed : allowed later (.reconcile stale))
    (hSwept :
      later.step registry (.reconcile stale) = some next) :
    (∀ final,
        Execution (System.step registry) allowed next final →
          ∃ status,
            final.world.db.status? runId = some status ∧
              status.terminal = true) ∧
      (later.world.db.status? runId = some .running →
        next.world.db.status? runId = some .error ∧
          (∀ message ∈ next.world.db.messages,
              message.runId = some runId →
                message.role = .tool →
                  message.toolResult.isSome = true) ∧
          ∀ threadId model,
            next.world.db.hasRun runId threadId →
              (openRun threadId model
                  next.world.db).isOk = true) := by
  have hHolds :=
    holds_of_execution (sustains_adriftOutline runId _ False)
      hReachable (adrift_of_gone hReachable hRunning hGone)
      hLater
  have hLaterReachable := hReachable.trans hLater
  have hNext :
      Execution (System.step registry) allowed later next :=
    .tail .refl ⟨_, hAllowed, hSwept⟩
  have hOver := over_of_swept hHolds hLate hSwept
  have hAfter :=
    holds_of_execution (sustains_adriftOutline runId _ False)
      hLaterReachable hHolds hNext
  constructor
  · intro final hFinal
    have hFinally :=
      holds_of_execution (sustains_adriftOutline runId _ True)
        (hLaterReachable.trans hNext)
        ⟨⟨hAfter.globally.settled, hAfter.globally.silent,
            hAfter.globally.stale, fun _ => hOver⟩,
          hAfter.locally, hAfter.mutually⟩
        hFinal
    rcases hFinally.globally.settled with ⟨status, hStatus, hNe⟩
    refine ⟨status, hStatus, ?_⟩
    have hNot := hFinally.globally.isOver trivial
    rw [hStatus] at hNot
    cases status with
    | running => exact absurd rfl hNot
    | awaitingApproval => exact absurd rfl hNe
    | _ => rfl
  · intro hStill
    rcases Option.map_eq_some_iff.mp hStill with
      ⟨run, hRun, hStatus⟩
    have hSelects :
        (run.status == .running &&
            decide
              (run.heartbeatAt + stale < later.world.db.now)) =
          true := by
      have hBeat := hHolds.globally.stale hStill run hRun
      rw [hStatus, Bool.and_eq_true, decide_eq_true_eq]
      exact
        ⟨rfl,
          Nat.lt_of_le_of_lt (Nat.add_le_add_right hBeat stale)
            hLate⟩
    have hHoused : next.world.db.Housed :=
      preserved_of_reachable (preserves_of_kept keeps_housed)
        (fun _ _ hHas => by cases hHas)
        (hLaterReachable.trans hNext)
    have hFormed := wellFormed_of_reachable hLaterReachable
    cases hSwept
    refine ⟨?_, ?_, ?_⟩
    · change (later.world.db.sweep _).status? runId = _
      rw [status?_sweep, hRun, Option.map_some, if_pos hSelects]
    · intro message hMem hOwn hRole
      exact filled_of_swept hRun hSelects hMem hOwn hRole
    · intro threadId model hHas
      exact
        isOk_openRun (hHoused runId threadId hHas)
          (alone_of_swept hFormed hRun
            (by rw [hStatus]; rfl) hSelects hHas)

end Recovery

/- A run whose instance crashes while a tool is called. -/
def orphanedRun : List Action :=
  [.request 0 0 (.createThread none)] ++ turns 0 1 ++
    [.request 1 0
      (.start 0 "질문".toList none
        [.agent (.str []) (toolCalls ["a"])])] ++
    turns 1 14 ++ [.crash 0]

/- The heartbeats of another instance, and half a minute. -/
def quietHalfMinute : List Action := [.heartbeat 1, .advance 31]

/-
  The run of `orphanedRun` is ended, with its cell filled, and
  its thread is free.
-/
theorem orphan_recovered_crashed :
    ∃ system later next,
      execute (System.step .single) orphanedRun .initial =
          some system ∧
        execute (System.step .single) quietHalfMinute system =
            some later ∧
          later.step .single (.reconcile 30) = some next ∧
            next.world.db.status? 1 = some .error ∧
              (∀ message ∈ next.world.db.messages,
                  message.runId = some 1 →
                    message.role = .tool →
                      message.toolResult.isSome = true) ∧
                (openRun 0 none next.world.db).isOk = true := by
  have hView :
      ((execute (System.step .single) orphanedRun
          .initial).bind fun system =>
        (execute (System.step .single) quietHalfMinute
            system).bind fun later =>
          (later.step .single (.reconcile 30)).map fun next =>
            decide
                (system.world.db.status? 1 = some .running) &&
              decide
                (later.world.db.status? 1 = some .running) &&
              decide
                (system.world.db.now + 30 <
                  later.world.db.now) &&
              decide
                ((next.world.db.runs.get? 1).map
                  Run.threadId = some 0) &&
              (List.range 2).all fun taskId =>
                (system.tasks taskId).all Task.ended) =
        some true := by
    decide +kernel
  simp only [Option.bind_eq_some_iff, Option.map_eq_some_iff,
    Bool.and_eq_true, decide_eq_true_eq] at hView
  rcases hView with
    ⟨system, hSystem, later, hLater, next, hNext,
      ⟨⟨⟨hRunning, hStill⟩, hLate⟩, hHas⟩, hEnded⟩
  have hReachable :
      Reachable .single (fun _ _ => True) system :=
    execution_of_execute hSystem
  have hGone :
      ∀ taskId task,
        system.tasks taskId = some task → task.ended = true :=
    ended_of_execute hSystem (by decide) hEnded
  have hRecovered :=
    orphan_recovered hReachable hRunning
      (fun taskId task hTask _ => hGone taskId task hTask)
      (execution_of_execute hLater) hLate trivial hNext
  rcases hRecovered.2 hStill with ⟨hError, hFilled, hFree⟩
  exact
    ⟨system, later, next, hSystem, hLater, hNext, hError,
      hFilled, hFree 0 none (Option.map_eq_some_iff.mpr hHas)⟩

end LegalAgent
