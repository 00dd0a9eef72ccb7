import LegalAgent.Library.Pledge
import LegalAgent.Properties.CancelFlags
import LegalAgent.Properties.ToolCells

/-
  Interrupts that were acknowledged.

  A running run has a driver, unless the last one was lost to
  a failure.  An interrupt that returned has either ended its
  run or set the flag of the run's driver.  The driver looks at
  the flag before it would pause the run, and ends the run
  instead.

  Key definitions include:
    * `Role.drives?`
    * `Abandons`
    * `System.Driven`
    * `Acknowledged`
    * `Heeds`
    * `System.Heeded`

  Key theorems include:
    * `preserves_driven`
    * `stops_interrupt`
    * `minding_of_call`
    * `preserves_heeded`
    * `heeded_of_stops`
    * `acknowledged_heeded`
-/

------------------------------------------------------------
-- Drivers
------------------------------------------------------------

namespace LegalAgent

open Library

/-
  The stages in which a task drives its run, or is about to
  end it since its consumer closes it.
-/
def Stage.drives : Stage → Bool
| .left reason _ => reason == .dropping
| stage => stage.writes

/- The run that a role drives. -/
def Role.drives? : Role → Option RunId
| .on job stage => if stage.drives then some job.run else none
| _ => none

/- A task that left its run drives it only to be closed. -/
theorem dropping_of_drives
    {reason : Leaving}
    {synthetic : Bool}
    (hDrives : (Stage.left reason synthetic).drives = true) :
    reason = .dropping := by
  simpa [Stage.drives] using hDrives

section Roles

variable {role : Role} {op : Op} {value : op.Reply}
variable {runId : RunId}

/- A driver leaves its run when it would end or pause it. -/
theorem leaves_drive
    (hAllows : role.Allows op)
    (hDrives : role.drives? = some runId)
    (hGives : (role.after op (.ok value)).drives? ≠ some runId) :
    op.endsRunning = some runId ∨
      ∃ status ended, op = .setRunStatus runId status ended := by
  cases hAllows with
  | @on job stage _ hStage =>
      have hRun : stage.drives = true ∧ job.run = runId := by
        simp only [Role.drives?] at hDrives
        split at hDrives
        · rename_i hStage
          exact ⟨hStage, Option.some_inj.mp hDrives⟩
        · cases hDrives
      rcases hRun with ⟨hOpen, rfl⟩
      cases hStage with
      | gatedPause => exact Or.inr ⟨_, _, rfl⟩
      | drivingNext =>
          rcases value with _ | ⟨_ | _, _⟩ <;>
            exact absurd rfl hGives
      | leftRead | leftSeq | leftLog | leftPop | leftDiscard =>
          rcases dropping_of_drives hOpen with rfl
          exact absurd rfl hGives
      | _ =>
          first
            | exact Or.inl rfl
            | exact absurd rfl hGives
            | cases hOpen
  | _ => cases hDrives

/- A task that begins to write a run drives it. -/
theorem drives_of_begins
    (hAllows : role.Allows op)
    (hBegins : op.begins value = some runId) :
    (role.after op (.ok value)).drives? = some runId := by
  cases hAllows with
  | on hStage =>
      cases hStage with
      | choosingApprove =>
          cases value with
          | false => cases hBegins
          | true => exact hBegins
      | _ => cases hBegins
  | freshOpen => exact hBegins
  | _ => cases hBegins

end Roles

------------------------------------------------------------
-- Running Runs
------------------------------------------------------------

section Calls

variable {db db' : Db} {role : Role}
variable {op : Op} {value : op.Reply} {runId : RunId}

/- A run that is running behind a call was so or was begun. -/
theorem running_before
    (hChanges : ChangesRuns db db' op value)
    (hFresh : db.runs.get? db.nextId = none)
    (hAllows : role.Allows op)
    (hRunning : db'.status? runId = some .running) :
    db.status? runId = some .running ∨
      op.begins value = some runId := by
  cases hChanges with
  | opened hThread hAlone hRuns =>
      by_cases hEq : runId = db.nextId
      · exact Or.inr (congrArg some hEq.symm)
      · left
        rw [Db.status?, hRuns, Table.get?_insert hFresh,
          if_neg hEq] at hRunning
        exact hRunning
  | @set other status ended run hRun _ hRuns =>
      rcases pause_of_allows hAllows with ⟨rfl, -, -⟩
      left
      by_cases hEq : runId = other
      · rw [hEq, status?_of_written hRun hRuns] at hRunning
        cases hRunning
      · rwa [status?_of_other hRuns hEq] at hRunning
  | @moved other fromStatus toStatus ended run hRun hStatus _
      hRuns =>
      by_cases hEq : runId = other
      · subst hEq
        rw [status?_of_written hRun hRuns, Option.some_inj]
          at hRunning
        subst hRunning
        cases transition_of_allows hAllows
        exact Or.inr rfl
      · left
        rwa [status?_of_other hRuns hEq] at hRunning
  | @committed threadId other contentMd citationIds parentId
      model row run hRun _ hRuns =>
      left
      by_cases hEq : runId = other
      · rw [hEq, status?_of_written hRun hRuns] at hRunning
        cases hRunning
      · rwa [status?_of_other hRuns hEq] at hRunning
  | missing _ hRuns =>
      left
      rwa [status?_of_runs hRuns runId] at hRunning
  | kept _ hRuns =>
      left
      rwa [status?_of_runs hRuns runId] at hRunning

/- A run is not running behind a call that would end it. -/
theorem not_running_of_ends
    {inst : InstanceId}
    {world world' : World}
    (hExec : exec inst op world = (.ok value, world'))
    (hAllows : role.Allows op)
    (hEnds : op.endsRunning = some runId) :
    world'.db.status? runId ≠ some .running := by
  cases op with
  | tryTransition other fromStatus toStatus ended =>
      cases fromStatus with
      | running =>
          cases hEnds
          rcases of_tryTransition (statement_of_onDb hExec) with
            ⟨-, hNot, hDb⟩ | ⟨-, run, hRun, -, -, hDb⟩
          · rwa [hDb]
          · rw [hDb, status?_writeStatus, if_pos rfl, Db.status?,
              hRun]
            cases transition_of_allows hAllows <;> simp
      | _ => cases hEnds
  | commitAgentAnswer threadId other contentMd citationIds
      parentId model =>
      cases hEnds
      have hChanges := changesRuns_of_exec hExec
      rcases of_commitAgentAnswer (statement_of_onDb hExec) with
        ⟨rfl, hNot, hDb⟩ | ⟨_, _, _, _, rfl, -, -, -⟩
      · rwa [hDb]
      · cases hChanges with
        | committed hRun _ hRuns =>
            rw [status?_of_written hRun hRuns]
            rintro ⟨⟩
        | kept hKept => cases hKept
  | _ => cases hEnds

end Calls

------------------------------------------------------------
-- Abandoned Runs
------------------------------------------------------------

/- Whether no task but a given one drives a run. -/
def System.sole
    (system : System)
    (taskId : TaskId)
    (runId : RunId) :
    Prop :=
  ∀ other task,
    other ≠ taskId →
      system.tasks other = some task →
        task.phase.role.drives? ≠ some runId

/-
  The steps at which a running run loses its last driver: a
  failure that takes the driver off its run, or a crash.
-/
inductive Abandons
    (system : System) :
    Action → RunId → Prop where
  | failed {taskId fault task op runId}
      (hCall :
        system.call? (.turn taskId fault) = some (task, op))
      (hDrives : task.phase.role.drives? = some runId)
      (hFails :
        fault = true ∨
          (exec task.inst op system.world).1.isOk = false)
      (hGives :
        ∀ exn,
          (task.phase.role.after op (.error exn)).drives? ≠
            some runId)
      (hRunning :
        system.world.db.status? runId = some .running)
      (hSole : system.sole taskId runId) :
      Abandons system (.turn taskId fault) runId
  | crashed {inst taskId task runId}
      (hTask : system.tasks taskId = some task)
      (hDrives : task.phase.role.drives? = some runId)
      (hRunning :
        system.world.db.status? runId = some .running)
      (hLost :
        ∀ other task,
          system.survivors inst other = some task →
            task.phase.role.drives? ≠ some runId) :
      Abandons system (.crash inst) runId

/- No step takes the last driver off a running run. -/
def Steered (system : System) (action : Action) : Prop :=
  ∀ runId, ¬Abandons system action runId

/- Every running run has a driver. -/
def System.Driven (system : System) : Prop :=
  ∀ runId,
    system.world.db.status? runId = some .running →
      ∃ taskId task,
        system.tasks taskId = some task ∧
          task.phase.role.drives? = some runId

/- A driver of a run, if it is not a given task. -/
theorem driven_elsewhere
    {system : System}
    {runId : RunId}
    (taskId : TaskId)
    (hSole : ¬system.sole taskId runId) :
    ∃ other task,
      other ≠ taskId ∧
        system.tasks other = some task ∧
          task.phase.role.drives? = some runId := by
  unfold System.sole at hSole
  push Not at hSole
  exact hSole

/- The only task that may drive a running run does. -/
theorem drives_of_driven
    {system : System}
    {taskId : TaskId}
    {task : Task}
    {runId : RunId}
    (hDriven : system.Driven)
    (hTask : system.tasks taskId = some task)
    (hSole : system.sole taskId runId)
    (hRunning :
      system.world.db.status? runId = some .running) :
    task.phase.role.drives? = some runId := by
  rcases hDriven runId hRunning with
    ⟨other, task', hOther, hDrives⟩
  by_cases hEq : other = taskId
  · subst hEq
    rw [hTask, Option.some_inj] at hOther
    rw [hOther]
    exact hDrives
  · exact absurd hDrives (hSole other task' hEq hOther)

section Steps

variable {registry : Registry}
variable {system : System} {taskId : TaskId} {fault : Bool}
variable {task : Task} {op : Op} {value : op.Reply}
variable {exn : Exn} {world' : World} {runId : RunId}

/-
  A run that is running behind a call of its only driver is
  still driven by it.
-/
theorem drives_of_done
    (hDriven : system.Driven)
    (hCall :
      Calls registry Steered system taskId false task op
        (.ok value) world')
    (hExec :
      exec task.inst op system.world = (.ok value, world'))
    (hSole : system.sole taskId runId)
    (hRunning : world'.db.status? runId = some .running) :
    (task.phase.role.after op (.ok value)).drives? =
      some runId := by
  have hFresh :=
    (wellFormed_of_reachable hCall.reachable).freshRun
  have hChanges := changesRuns_of_exec hExec
  rcases running_before hChanges hFresh hCall.allows hRunning
    with hWas | hBegins
  · have hDrives :=
      drives_of_driven hDriven hCall.present hSole hWas
    by_contra hGives
    rcases leaves_drive hCall.allows hDrives hGives with
      hEnds | ⟨status, ended, rfl⟩
    · exact
        not_running_of_ends hExec hCall.allows hEnds hRunning
    · rcases pause_of_allows hCall.allows with ⟨rfl, -, -⟩
      rcases Option.map_eq_some_iff.mp hWas with ⟨run, hRun, -⟩
      cases hChanges with
      | set hRun _ hRuns =>
          rw [status?_of_written hRun hRuns] at hRunning
          cases hRunning
      | missing hNone _ =>
          rw [hNone] at hRun
          cases hRun
      | kept hKept _ => cases hKept
  · exact drives_of_begins hCall.allows hBegins

/- The only driver of a running run survives a failure. -/
theorem drives_of_failed
    (hDriven : system.Driven)
    (hCall :
      Calls registry Steered system taskId fault task op
        (.error exn) world')
    (hSole : system.sole taskId runId)
    (hRunning :
      system.world.db.status? runId = some .running) :
    (task.phase.role.after op (.error exn)).drives? =
      some runId := by
  have hDrives :=
    drives_of_driven hDriven hCall.present hSole hRunning
  by_contra hGives
  have hFails := fails_of_calls hCall
  refine
    hCall.permitted runId
      (.failed (call?_of_calls hCall) hDrives hFails ?_ hRunning
        hSole)
  intro other
  rw [after_failed task.phase.role op other exn]
  exact hGives

end Steps

variable {registry : Registry}

/- Every step keeps the running runs driven. -/
theorem preserves_driven :
    Preserves registry Steered System.Driven where
  request := by
    intro system taskId inst request _ _ hNone hDriven runId
      hRunning
    rcases hDriven runId hRunning with
      ⟨other, task, hTask, hDrives⟩
    exact
      ⟨other, task, present_of_added hNone hTask, hDrives⟩
  call := by
    intro system taskId fault task op reply world' next hCall _
      hDriven runId hRunning
    have hRunning' : world'.db.status? runId = some .running :=
      hRunning
    by_cases hSole : system.sole taskId runId
    · refine ⟨taskId, _, if_pos rfl, ?_⟩
      have hExecutes := hCall.executes
      cases hExecutes with
      | done hExec =>
          exact
            drives_of_done hDriven hCall hExec hSole hRunning'
      | refused hExec =>
          exact drives_of_failed hDriven hCall hSole hRunning'
      | fault hFault =>
          exact drives_of_failed hDriven hCall hSole hRunning'
    · rcases driven_elsewhere taskId hSole with
        ⟨other, task', hNe, hTask, hDrives⟩
      refine ⟨other, task', ?_, hDrives⟩
      exact present_of_other hNe hTask
  sent := by
    intro system taskId task event next _ hTask _ hRole hDriven
      runId hRunning
    rcases hDriven runId hRunning with
      ⟨other, task', hTask', hDrives⟩
    refine ⟨other, task', ?_, hDrives⟩
    have hNe : other ≠ taskId := by
      rintro rfl
      rw [hTask, Option.some_inj] at hTask'
      rw [← hTask', hRole] at hDrives
      cases hDrives
    exact present_of_other hNe hTask'
  advance := fun _ _ _ hDriven => hDriven
  heartbeat := by
    intro system inst _ _ hDriven runId hRunning
    apply hDriven runId
    rw [← status?_heartbeat system.world.db
      (system.world.instances inst).active runId]
    exact hRunning
  sweep := by
    intro system action selects _ _ _ hDriven runId hRunning
    apply hDriven runId
    change
      (system.world.db.sweep selects).status? runId =
        some .running
      at hRunning
    rw [status?_sweep] at hRunning
    rcases Option.map_eq_some_iff.mp hRunning with
      ⟨run, hRun, hStatus⟩
    split at hStatus
    · cases hStatus
    · rw [Db.status?, hRun, Option.map_some, hStatus]
  collect := fun _ _ _ hDriven => hDriven
  crash := by
    intro system inst _ hSteered hDriven runId hRunning
    rcases hDriven runId hRunning with
      ⟨taskId, task, hTask, hDrives⟩
    by_contra hGone
    refine
      hSteered runId (.crashed hTask hDrives hRunning ?_)
    intro other task' hOther hDrives'
    exact hGone ⟨other, task', hOther, hDrives'⟩

/- A task that has ended drives no run. -/
theorem not_drives_of_ended
    {task : Task}
    {runId : RunId}
    (hConforms : task.Conforms)
    (hEnded : task.ended = true) :
    task.phase.role.drives? ≠ some runId := by
  intro hDrives
  have hMay := mayEnd_of_ended hConforms hEnded
  cases hRole : task.phase.role with
  | on job stage =>
      rw [hRole] at hDrives hMay
      simp only [Role.drives?] at hDrives
      split at hDrives
      · rename_i hStage
        cases stage with
        | left reason =>
            rcases dropping_of_drives hStage with rfl
            cases hMay
        | paused => cases hStage
        | closing => cases hStage
        | settled => cases hStage
        | _ => cases hMay
      · cases hDrives
  | _ =>
      rw [hRole] at hDrives
      cases hDrives

------------------------------------------------------------
-- Answers To Interrupts
------------------------------------------------------------

/- The run that an interrupt has found. -/
def Role.found? : Role → Option RunId
| .watching _ runId => some runId
| .on job _ => some job.run
| _ => none

/- A call leaves the run that a role has found. -/
theorem found_after
    {role : Role}
    {runId : RunId}
    (op : Op)
    (reply : Except Exn op.Reply)
    (hFound : role.found? = some runId) :
    (role.after op reply).found? = some runId := by
  cases role with
  | watching threadId other =>
      cases op with
      | tryTransition other fromStatus toStatus ended =>
          rcases reply with _ | won
          · cases fromStatus <;> exact hFound
          · cases won <;> cases fromStatus <;> exact hFound
      | _ => exact hFound
  | on job stage => exact hFound
  | _ => cases hFound

/-
  How far an interrupt got: it has just begun, it has failed,
  or it has found its run.
-/
inductive Task.Interrupts (task : Task) (runId : RunId) : Prop where
  | begun
      (hProgram : task.program = RunManager.interrupt runId)
      (hRole : task.phase.role = .fresh)
  | refused {exn}
      (hProgram : task.program = .ret (.error exn))
  | found (hFound : task.phase.role.found? = some runId)

/- The interrupts and the runs that they have found. -/
def interruptOutline : Outline World Task where
  globally := fun _ => True
  locally := fun _ task =>
    ∀ runId,
      task.request = .interrupt runId → task.Interrupts runId
  mutually := fun _ _ => True

variable {allowed : System → Action → Prop}

/- The first call of an interrupt finds the run or fails. -/
theorem interrupts_after
    {task : Task}
    {runId : RunId}
    {op : Op}
    {next : Except Exn op.Reply → Driver Unit}
    (reply : Except Exn op.Reply)
    (hProgram : task.program = .call op next)
    (hInterrupts : task.Interrupts runId) :
    Task.Interrupts
      { task with
        program := next reply
        phase := task.phase.after op reply }
      runId := by
  cases hInterrupts with
  | begun hBegun hRole =>
      rw [hBegun] at hProgram
      cases hProgram
      rcases reply with exn | row
      · exact .refused rfl
      · rcases row with _ | ⟨threadId, status⟩
        · exact .refused rfl
        · refine .found ?_
          rw [Phase.after, hRole]
          rfl
  | refused hRefused =>
      rw [hRefused] at hProgram
      cases hProgram
  | found hFound => exact .found (found_after op reply hFound)

/- Every step keeps track of the interrupts. -/
theorem sustains_interruptOutline :
    Sustains registry allowed interruptOutline where
  request := by
    intro system taskId inst request _ _ runId hRequest
    have hInterrupt : request = .interrupt runId := hRequest
    subst hInterrupt
    exact .begun rfl rfl
  alone := fun _ _ _ => ⟨trivial, trivial⟩
  call := by
    intro system taskId fault task op reply world' next hCall
      hProgram hHolds
    refine
      ⟨trivial, ?_,
        fun _ _ _ _ hOther _ => ⟨hOther, trivial, trivial⟩⟩
    intro runId hRequest
    exact
      interrupts_after reply hProgram
        (hHolds.locally taskId task hCall.present runId hRequest)
  sent := by
    intro system taskId task event next _ hTask hProgram hRole
      hHolds
    refine
      ⟨trivial, ?_,
        fun _ _ _ _ hOther _ => ⟨hOther, trivial, trivial⟩⟩
    intro runId hRequest
    exfalso
    cases hHolds.locally taskId task hTask runId hRequest with
    | begun _ hFresh =>
        rw [hFresh] at hRole
        cases hRole
    | refused hRefused =>
        rw [hRefused] at hProgram
        cases hProgram
    | found hFound =>
        rw [hRole] at hFound
        cases hFound
  advance := fun _ _ _ _ => ⟨trivial, fun _ hMine => hMine⟩
  heartbeat := fun _ _ _ _ => ⟨trivial, fun _ hMine => hMine⟩
  sweep := fun _ _ _ _ _ _ => ⟨trivial, fun _ hMine => hMine⟩
  collect := fun _ _ _ _ => ⟨trivial, fun _ hMine => hMine⟩
  crash := fun _ _ _ => ⟨trivial, fun _ _ hMine => hMine⟩

/- Whether an interrupt of a run has returned normally. -/
def Acknowledged (system : System) (runId : RunId) : Prop :=
  ∃ taskId task,
    system.tasks taskId = some task ∧
      task.request = .interrupt runId ∧
        task.program = .ret (.ok ())

/- Whether a call with its reply lets an interrupt return. -/
def Op.stops : (op : Op) → Except Exn op.Reply → Prop
| .flagSet _, .ok _ => True
| .tryTransition _ _ .interrupted _, .ok won => won = true
| _, _ => False

/- A program that returns only behind such a call. -/
abbrev Driver.Stops (program : Driver Unit) : Prop :=
  Gen.Behind Op.stops (fun result => result = .ok ()) program

/- An interrupt returns behind the call that takes effect. -/
theorem stops_interrupt (runId : RunId) :
    (RunManager.interrupt runId).Stops := by
  have hRaise :
      ∀ exn, Driver.Stops (.ret (.error exn)) := by
    rintro exn ⟨⟩
  intro run
  right
  rcases run with exn | _ | ⟨threadId, status⟩
  · exact hRaise exn
  · exact hRaise .keyError
  · cases status with
    | running =>
        intro flag
        right
        rcases flag with exn | _ | flag
        · exact hRaise exn
        · intro won
          rcases won with exn | _ | _
          · exact Or.inr (hRaise exn)
          · exact Or.inr (hRaise .valueError)
          · exact Or.inl rfl
        · intro reply
          cases reply with
          | error exn => exact Or.inr (hRaise exn)
          | ok value => exact Or.inl trivial
    | awaitingApproval =>
        intro won
        rcases won with exn | _ | _
        · exact Or.inr (hRaise exn)
        · exact Or.inr (hRaise .valueError)
        · exact Or.inl rfl
    | _ => exact hRaise .valueError

/- An interrupt acts on the run that it was asked to stop. -/
theorem found_of_interrupts
    {task : Task}
    {runId : RunId}
    {op : Op}
    {next : Except Exn op.Reply → Driver Unit}
    {reply : Except Exn op.Reply}
    (hInterrupts : task.Interrupts runId)
    (hProgram : task.program = .call op next)
    (hAllows : task.phase.role.Allows op)
    (hStops : op.stops reply) :
    task.phase.role.found? = some runId := by
  cases hInterrupts with
  | begun _ hRole =>
      rw [hRole] at hAllows
      cases hAllows <;> cases hStops
  | refused hRefused =>
      rw [hRefused] at hProgram
      cases hProgram
  | found hFound => exact hFound

/- A run that a role of a task has found exists. -/
theorem status_of_found
    {system : System}
    {taskId : TaskId}
    {task : Task}
    {runId : RunId}
    (hReachable : Reachable registry allowed system)
    (hTask : system.tasks taskId = some task)
    (hFound : task.phase.role.found? = some runId) :
    ∃ status, system.world.db.status? runId = some status := by
  have hKnown := known_of_reachable hReachable hTask
  have hExists :
      ∀ threadId,
        system.world.db.hasRun runId threadId →
          ∃ status,
            system.world.db.status? runId = some status := by
    intro threadId hRun
    rcases Option.map_eq_some_iff.mp hRun with ⟨run, hGet, -⟩
    exact ⟨run.status, by rw [Db.status?, hGet]; rfl⟩
  cases hRole : task.phase.role with
  | watching threadId other =>
      rw [hRole] at hFound hKnown
      cases hFound
      exact hExists threadId hKnown
  | on job stage =>
      rw [hRole] at hFound hKnown
      cases hFound
      exact hExists job.thread hKnown.1
  | _ =>
      rw [hRole] at hFound
      cases hFound

------------------------------------------------------------
-- Heeded Interrupts
------------------------------------------------------------

/-
  A driver that will look at a flag before it pauses its run:
  its instance keeps the flag for the run, and the driver is
  neither about to store another one nor past its look.
-/
structure Task.Faces
    (task : Task)
    (world : World)
    (inst : InstanceId)
    (runId : RunId)
    (flag : FlagId) :
    Prop where
  home : task.inst = inst
  kept : (world.instances inst).cancels runId = some flag
  stored : task.op? ≠ some (.cancelsCreate runId)
  looks :
    ∀ status ended,
      task.op? ≠ some (.setRunStatus runId status ended)

/-
  The steps at which an interrupt of a run is not lost.  When
  it sets the flag, the run does not wait and each driver that
  may still pause the run faces the flag.  When it ends the
  run itself, there is no such driver.  No driver removes the
  flag, once it is set, before another one takes it, and no
  failure takes the last driver off a running run.
-/
structure Heeds
    (runId : RunId)
    (system : System)
    (action : Action) :
    Prop where
  steered : Steered system action
  asked :
    ∀ task flag,
      system.call? action = some (task, .flagSet flag) →
        task.request = .interrupt runId →
          system.world.db.status? runId ≠
              some .awaitingApproval ∧
            ∀ otherId other,
              system.tasks otherId = some other →
                other.phase.role.gates? = some runId →
                  other.Faces system.world task.inst runId flag
  ended :
    ∀ task status ended,
      system.call? action =
          some
            (task,
              .tryTransition runId status .interrupted ended) →
        task.request = .interrupt runId →
          system.world.db.status? runId = some status →
            ∀ otherId other,
              system.tasks otherId = some other →
                other.phase.role.gates? ≠ some runId
  taken :
    ∀ task flag,
      system.call? action = some (task, .cancelsPop runId) →
        (system.world.instances task.inst).cancels runId =
            some flag →
          system.world.flags flag = true →
            ∀ otherId other,
              system.tasks otherId = some other →
                other.phase.role.awaits? = some runId →
                  other.inst ≠ task.inst

/- A run that exists and does not wait for an approval. -/
def Db.proceeds (db : Db) (runId : RunId) : Prop :=
  ∃ status,
    db.status? runId = some status ∧ status ≠ .awaitingApproval

section Proceeding

variable {runId : RunId}

/- A run proceeds behind a call that does not pause it. -/
theorem proceeds_of_exec
    {inst : InstanceId}
    {role : Role}
    {op : Op}
    {value : op.Reply}
    {world world' : World}
    (hExec : exec inst op world = (.ok value, world'))
    (hAllows : role.Allows op)
    (hFresh : world.db.runs.get? world.db.nextId = none)
    (hUnpaused :
      ∀ status ended, op ≠ .setRunStatus runId status ended)
    (hProceeds : world.db.proceeds runId) :
    world'.db.proceeds runId := by
  rcases hProceeds with ⟨status, hStatus, hNot⟩
  have hWritten :
      ∀ other after ended run,
        world.db.runs.get? other = some run →
          after ≠ .awaitingApproval →
            world'.db.runs =
                (world.db.writeStatus other after ended).runs →
              world'.db.proceeds runId := by
    intro other after ended run hRun hAfter hRuns
    by_cases hEq : runId = other
    · subst hEq
      exact ⟨after, status?_of_written hRun hRuns, hAfter⟩
    · exact
        ⟨status, (status?_of_other hRuns hEq).trans hStatus,
          hNot⟩
  cases changesRuns_of_exec hExec with
  | opened _ _ hRuns =>
      refine ⟨status, ?_, hNot⟩
      rw [Db.status?, hRuns, Table.get?_insert hFresh, if_neg]
      · exact hStatus
      · rintro rfl
        rw [Db.status?, hFresh] at hStatus
        cases hStatus
  | @set other after ended _ hRun _ hRuns =>
      have hNe : runId ≠ other := by
        rintro rfl
        exact hUnpaused after ended rfl
      exact
        ⟨status, (status?_of_other hRuns hNe).trans hStatus,
          hNot⟩
  | moved hRun _ _ hRuns =>
      refine hWritten _ _ _ _ hRun ?_ hRuns
      cases transition_of_allows hAllows <;> rintro ⟨⟩
  | committed hRun _ hRuns =>
      exact hWritten _ .completed _ _ hRun (by rintro ⟨⟩) hRuns
  | missing _ hRuns =>
      exact
        ⟨status, (status?_of_runs hRuns runId).trans hStatus,
          hNot⟩
  | kept _ hRuns =>
      exact
        ⟨status, (status?_of_runs hRuns runId).trans hStatus,
          hNot⟩

/- A sweep ends runs. -/
theorem proceeds_sweep
    {db : Db}
    (selects : Run → Bool)
    (hProceeds : db.proceeds runId) :
    (db.sweep selects).proceeds runId := by
  rcases hProceeds with ⟨status, hStatus, hNot⟩
  rcases Option.map_eq_some_iff.mp hStatus with ⟨run, hRun, rfl⟩
  refine ⟨if selects run then .error else run.status, ?_, ?_⟩
  · rw [status?_sweep, hRun, Option.map_some]
  · split
    · rintro ⟨⟩
    · exact hNot

end Proceeding

/-
  A driver that minds the flag of its run: the flag is set,
  the driver will look at it or has yet to take it, and it is
  not about to pause the run.
-/
structure Task.Minding
    (task : Task)
    (world : World)
    (runId : RunId)
    (flag : FlagId)
    (watch : Watch) :
    Prop where
  known : flag < world.nextFlag
  isSet : world.flags flag = true
  watches : task.program.Watches watch anyWatch
  looks :
    ∀ status ended,
      task.op? ≠ some (.setRunStatus runId status ended)
  awaits :
    task.phase.role.awaits? = some runId →
      watch.isTaken = false ∧
        task.op? ≠ some (.cancelsCreate runId) ∧
          (world.instances task.inst).cancels runId = some flag
  streams :
    task.phase.role.streams? = some runId →
      ∃ clear, watch = .taken (some flag) clear

/- A run whose interrupt is heeded. -/
structure System.Heeded
    (system : System)
    (runId : RunId) :
    Prop where
  proceeds : system.world.db.proceeds runId
  minds :
    ∀ taskId task,
      system.tasks taskId = some task →
        task.phase.role.gates? = some runId →
          ∃ flag watch,
            task.Minding system.world runId flag watch

section Heeding

variable {runId : RunId}

/- A run that proceeds is not begun by a call. -/
theorem not_begins_of_proceeds
    {db db' : Db}
    {op : Op}
    {value : op.Reply}
    (hChanges : ChangesRuns db db' op value)
    (hFresh : db.runs.get? db.nextId = none)
    (hProceeds : db.proceeds runId) :
    op.begins value ≠ some runId := by
  intro hBegins
  rcases hProceeds with ⟨status, hStatus, hNot⟩
  cases hChanges with
  | opened =>
      cases hBegins
      rw [Db.status?, hFresh] at hStatus
      cases hStatus
  | @moved other fromStatus toStatus ended run hRun hFrom =>
      have hWaits :
          other = runId ∧ fromStatus = .awaitingApproval := by
        cases fromStatus <;> cases toStatus <;> cases hBegins
        exact ⟨rfl, rfl⟩
      rcases hWaits with ⟨rfl, rfl⟩
      rw [Db.status?, hRun, Option.map_some, Option.some_inj]
        at hStatus
      exact hNot (hStatus.symm.trans hFrom)
  | kept hKept =>
      rw [Op.begins_of_kept hKept] at hBegins
      cases hBegins
  | _ => cases hBegins

/- A driver that waits for its flag did so, or just began. -/
theorem awaits_before
    {role : Role}
    {op : Op}
    {reply : Except Exn op.Reply}
    (hAllows : role.Allows op)
    (hAwaits : (role.after op reply).awaits? = some runId) :
    role.awaits? = some runId ∨
      ∃ value,
        reply = .ok value ∧ op.begins value = some runId := by
  cases hAllows with
  | freshOpen =>
      cases reply with
      | error exn => cases hAwaits
      | ok value =>
          cases hAwaits
          exact Or.inr ⟨_, rfl, rfl⟩
  | @on job stage _ hStage =>
      have hJob : job.run = runId := by
        simp only [Role.after, Role.awaits?] at hAwaits
        split at hAwaits
        · exact Option.some_inj.mp hAwaits
        · cases hAwaits
      subst hJob
      cases hStage with
      | closingLog =>
          cases reply with
          | error exn => cases hAwaits
          | ok value =>
              simp only [Role.after, Role.awaits?, Stage.after]
                at hAwaits
              split at hAwaits <;> cases hAwaits
      | choosingApprove =>
          rcases reply with exn | _ | _
          · cases hAwaits
          · cases hAwaits
          · exact Or.inr ⟨true, rfl, rfl⟩
      | _ =>
          first
            | exact Or.inl rfl
            | (cases reply <;> cases hAwaits)
            | (rcases reply with _ | (_ | _) <;> cases hAwaits)
            | (rcases reply with _ | (_ | ⟨_ | _, _⟩) <;>
                cases hAwaits)
  | _ =>
      first
        | (cases reply <;> cases hAwaits)
        | (rcases reply with _ | (_ | _) <;> cases hAwaits)
        | (rcases reply with _ | (_ | ⟨_, _ | _⟩) <;>
            cases hAwaits)

/- A driver at its gate came by a chunk, or looks at a flag. -/
theorem gated_before
    {role : Role}
    {op : Op}
    {reply : Except Exn op.Reply}
    {job : Job}
    {root : Option MessageId}
    (hAllows : role.Allows op)
    (hGated : role.after op reply = .on job (.gated root)) :
    (∃ threadId state step, op = .graphNext threadId state step) ∨
      ∃ flag, op = .flagIsSet flag := by
  cases hAllows with
  | on hStage =>
      cases hStage with
      | closingLog =>
          cases reply with
          | error exn => cases hGated
          | ok value =>
              simp only [Role.after, Stage.after] at hGated
              split at hGated <;> cases hGated
      | _ =>
          first
            | exact Or.inl ⟨_, _, _, rfl⟩
            | exact Or.inr ⟨_, rfl⟩
            | (cases reply <;> cases hGated)
            | (rcases reply with _ | (_ | _) <;> cases hGated)
  | _ =>
      first
        | (cases reply <;> cases hGated)
        | (rcases reply with _ | (_ | _) <;> cases hGated)
        | (rcases reply with _ | (_ | ⟨_, _ | _⟩) <;>
            cases hGated)

section Steps

variable {system : System} {taskId : TaskId} {fault : Bool}
variable {task : Task} {op : Op} {reply : Except Exn op.Reply}
variable {world' : World}
variable {next : Except Exn op.Reply → Driver Unit}

/- The next call of a task is one that its role allows. -/
theorem allows_next
    {op' : Op}
    (hCall :
      Calls registry allowed system taskId fault task op reply
        world')
    (hProgram : task.program = .call op next)
    (hNext :
      Task.op?
          { task with
            program := next reply
            phase := task.phase.after op reply } =
        some op') :
    (task.phase.role.after op reply).Allows op' := by
  rcases conforms_of_reachable hCall.reachable taskId task
      hCall.present with
    ⟨quiet, -, hFollows⟩
  rw [hProgram] at hFollows
  have hRest := hFollows.2 reply hCall.executes.possible
  simp only [Task.op?] at hNext
  split at hNext
  · rename_i op'' next' hCalls
    cases hNext
    rw [hCalls] at hRest
    exact hRest.1.1
  · cases hNext

/- A step keeps the flags that are set. -/
theorem keepsFlags_of_call
    (hCall :
      Calls registry allowed system taskId fault task op reply
        world') :
    KeepsFlags system.world world' := by
  cases hCall.executes with
  | done hExec => exact (movesFlag_of_exec hExec 0 0).2
  | refused _ => exact ⟨Nat.le_refl _, fun _ _ hSet => hSet⟩
  | fault _ => exact ⟨Nat.le_refl _, fun _ _ hSet => hSet⟩

/- A driver whose flag is set is told so. -/
theorem reply_of_flagIsSet
    {inst : InstanceId}
    {flag : FlagId}
    {world world' : World}
    {reply : Except Exn (Op.flagIsSet flag).Reply}
    (hExecutes :
      Executes inst (.flagIsSet flag) world fault reply world') :
    reply = .ok (world.flags flag) := by
  cases hExecutes with
  | done hExec =>
      cases hExec
      rfl
  | refused hExec => cases hExec
  | fault hFault => cases hFault

/- A flag that nobody stores or removes stays kept. -/
theorem cancels_of_call
    {other : InstanceId}
    {flag : FlagId}
    (hCall :
      Calls registry allowed system taskId fault task op reply
        world')
    (hKept :
      (system.world.instances other).cancels runId = some flag)
    (hCreates : op ≠ .cancelsCreate runId)
    (hPops : other = task.inst → op ≠ .cancelsPop runId) :
    (world'.instances other).cancels runId = some flag := by
  cases hCall.executes with
  | refused _ => exact hKept
  | fault _ => exact hKept
  | done hExec =>
      cases (movesFlag_of_exec hExec other runId).1 with
      | kept hSame => exact hSame.trans hKept
      | stored hInst hOp =>
          subst hInst
          rcases hOp with hCreate | ⟨-, hNone⟩
          · exact absurd hCreate hCreates
          · rw [hNone] at hKept
            cases hKept
      | popped hInst hOp => exact absurd hOp (hPops hInst)

/- The next call of a task is one that its watch allows. -/
theorem tracker_allows_next
    {task : Task}
    {watch : Watch}
    {op : Op}
    (hWatches : task.program.Watches watch anyWatch)
    (hNext : task.op? = some op) :
    flagTracker.allows watch op := by
  unfold Task.op? at hNext
  split at hNext
  · rename_i op' next hProgram
    cases hNext
    rw [hProgram] at hWatches
    exact hWatches.1
  · cases hNext

/- Only the opening of a run leads to a new flag. -/
theorem opens_of_creates
    {watch : Watch}
    {other : RunId}
    (hAllows : flagTracker.allows watch op)
    (hCreates :
      flagTracker.allows (flagTracker.after watch op reply)
        (.cancelsCreate other)) :
    ∃ threadId model, op = .openRun threadId model := by
  cases watch with
  | fresh =>
      cases op <;> first
        | exact ⟨_, _, rfl⟩
        | cases hCreates
        | (cases reply <;> cases hCreates)
  | opening =>
      cases op with
      | cancelsCreate => cases reply <;> cases hCreates
      | _ => cases hAllows
  | untaken =>
      cases op <;> first
        | cases hCreates
        | (cases reply <;> cases hCreates)
  | taken flag clear =>
      cases op <;> first
        | cases hCreates
        | (cases reply <;> cases hCreates)

/- A driver that may pause has looked, or has no flag. -/
theorem clear_of_pauses
    {flag : FlagId}
    {clear : Bool}
    {other : RunId}
    {status : RunStatus}
    {ended : Bool}
    (hAllows :
      flagTracker.allows (.taken (some flag) clear)
        (.setRunStatus other status ended)) :
    clear = true := by
  rcases hAllows with hNone | hClear
  · cases hNone
  · exact hClear

/- A driver that streams has taken the flag that it minds. -/
theorem streams_of_call
    {flag : FlagId}
    {watch : Watch}
    (hCall :
      Calls registry (Heeds runId) system taskId fault task op
        reply world')
    (hMinding : task.Minding system.world runId flag watch)
    (hStreams :
      (task.phase.role.after op reply).streams? = some runId) :
    ∃ clear,
      flagTracker.after watch op reply =
        .taken (some flag) clear := by
  rcases streams_before hCall.allows hStreams with
    ⟨hBefore, hFlags⟩ | ⟨hBefore, rfl⟩
  · rcases hMinding.streams hBefore with ⟨clear, rfl⟩
    exact taken_after hFlags reply
  · rcases reply_of_cancelsGet hCall.executes with ⟨rfl, -⟩
    rw [(hMinding.awaits hBefore).2.2]
    refine ⟨false, ?_⟩
    cases watch <;> rfl

/- A driver whose flag is set does not come to a pause. -/
theorem unpaused_of_call
    {flag : FlagId}
    {watch : Watch}
    (hCall :
      Calls registry (Heeds runId) system taskId fault task op
        reply world')
    (hProgram : task.program = .call op next)
    (hMinding : task.Minding system.world runId flag watch)
    (status : RunStatus)
    (ended : Bool) :
    Task.op?
        { task with
          program := next reply
          phase := task.phase.after op reply } ≠
      some (.setRunStatus runId status ended) := by
  intro hNext
  have hWatches := hMinding.watches
  rw [hProgram] at hWatches
  rcases pause_of_allows (allows_next hCall hProgram hNext)
    with ⟨rfl, rfl, job, root, hRole, rfl⟩
  have hStreams :
      (task.phase.role.after op reply).streams? =
        some job.run := by
    rw [hRole]
    rfl
  rcases streams_of_call hCall hMinding hStreams with
    ⟨clear, hTaken⟩
  have hAllows := tracker_allows_next (hWatches.2 reply) hNext
  rw [hTaken] at hAllows
  have hClear := clear_of_pauses hAllows
  subst hClear
  -- the gate is reached by a chunk, and then by a look
  rcases streams_before hCall.allows hStreams with
    ⟨hBefore, -⟩ | ⟨-, rfl⟩
  · rcases hMinding.streams hBefore with ⟨clear, rfl⟩
    rcases gated_before hCall.allows hRole with
      ⟨_, _, _, rfl⟩ | ⟨other, rfl⟩
    · cases hTaken
    · have hOther : some flag = some other := hWatches.1
      cases hOther
      rw [reply_of_flagIsSet hCall.executes, hMinding.isSet]
        at hTaken
      cases hTaken
  · rcases gated_before hCall.allows hRole with
      ⟨_, _, _, hNot⟩ | ⟨other, hNot⟩ <;> cases hNot

/- A driver whose flag is set goes on minding it. -/
theorem minding_of_call
    {flag : FlagId}
    {watch : Watch}
    (hCall :
      Calls registry (Heeds runId) system taskId fault task op
        reply world')
    (hProgram : task.program = .call op next)
    (hMinding : task.Minding system.world runId flag watch)
    (hBegins :
      ∀ value, reply = .ok value → op.begins value ≠ some runId) :
    Task.Minding
      { task with
        program := next reply
        phase := task.phase.after op reply }
      world' runId flag (flagTracker.after watch op reply) := by
  have hKeeps := keepsFlags_of_call hCall
  have hWatches := hMinding.watches
  rw [hProgram] at hWatches
  have hOp : task.op? = some op := hCall.next
  refine
    ⟨Nat.lt_of_lt_of_le hMinding.known hKeeps.nextFlag,
      hKeeps.isSet flag hMinding.known hMinding.isSet,
      hWatches.2 reply, unpaused_of_call hCall hProgram hMinding,
      ?_, streams_of_call hCall hMinding⟩
  intro hAwaits
  -- a driver that has yet to take its flag
  rcases awaits_before hCall.allows hAwaits with
    hBefore | ⟨value, hValue, hBegan⟩
  · rcases hMinding.awaits hBefore with
      ⟨hUntaken, hStored, hKept⟩
    refine ⟨?_, ?_, ?_⟩
    · exact
        isTaken_after hUntaken
          (untaken_before hCall.allows
            (untaken_of_awaits hAwaits)).2
    · intro hNext
      rcases opens_of_creates hWatches.1
          (tracker_allows_next (hWatches.2 reply) hNext) with
        ⟨_, _, rfl⟩
      have hAllows := hCall.allows
      cases hRole : task.phase.role with
      | fresh =>
          rw [hRole] at hBefore
          cases hBefore
      | _ =>
          rw [hRole] at hAllows
          cases hAllows <;> rename_i hStage <;> cases hStage
    · refine cancels_of_call hCall hKept ?_ ?_
      · rintro rfl
        exact hStored hOp
      · rintro - rfl
        exact
          hCall.permitted.taken task flag (call?_of_calls hCall)
            hKept hMinding.isSet taskId task hCall.present
            hBefore rfl
  · exact absurd hBegan (hBegins value hValue)

/- A driver minds its flag when another task makes a call. -/
theorem minding_of_other
    {flag : FlagId}
    {watch : Watch}
    {otherId : TaskId}
    {other : Task}
    (hCall :
      Calls registry (Heeds runId) system taskId fault task op
        reply world')
    (hNe : otherId ≠ taskId)
    (hOther : system.tasks otherId = some other)
    (hMinding : other.Minding system.world runId flag watch) :
    other.Minding world' runId flag watch := by
  have hKeeps := keepsFlags_of_call hCall
  refine
    ⟨Nat.lt_of_lt_of_le hMinding.known hKeeps.nextFlag,
      hKeeps.isSet flag hMinding.known hMinding.isSet,
      hMinding.watches, hMinding.looks, ?_, hMinding.streams⟩
  intro hAwaits
  rcases hMinding.awaits hAwaits with ⟨hUntaken, hStored, hKept⟩
  refine ⟨hUntaken, hStored, cancels_of_call hCall hKept ?_ ?_⟩
  · rintro rfl
    -- the other task would write the run as well
    refine hNe ?_
    exact
      writers_of_reachable hCall.reachable hOther hCall.present
        (writer_of_gates (gates_iff.mpr (Or.inl hAwaits)))
        (writer_of_stores hCall.allows (Or.inl rfl))
  · rintro hInst rfl
    rw [hInst] at hKept
    exact
      hCall.permitted.taken task flag (call?_of_calls hCall)
        hKept hMinding.isSet otherId other hOther hAwaits hInst

/- A role that may pause a run might before, or just began. -/
theorem gates_before
    {role : Role}
    (hAllows : role.Allows op)
    (hGates : (role.after op reply).gates? = some runId) :
    role.gates? = some runId ∨
      ∃ value,
        reply = .ok value ∧ op.begins value = some runId := by
  rcases gates_iff.mp hGates with hAwaits | hStreams
  · rcases awaits_before hAllows hAwaits with hBefore | hBegan
    · exact Or.inl (gates_iff.mpr (Or.inl hBefore))
    · exact Or.inr hBegan
  · left
    rcases streams_before hAllows hStreams with
      ⟨hBefore, -⟩ | ⟨hBefore, -⟩
    · exact gates_iff.mpr (Or.inr hBefore)
    · exact gates_iff.mpr (Or.inl hBefore)

/- The flags of a heeded run depend on the memory alone. -/
theorem System.Heeded.same
    {system next : System}
    (hHeeded : system.Heeded runId)
    (hProceeds : next.world.db.proceeds runId)
    (hMemory :
      next.world.instances = system.world.instances ∧
        next.world.flags = system.world.flags ∧
          next.world.nextFlag = system.world.nextFlag)
    (hTasks : next.tasks = system.tasks) :
    next.Heeded runId := by
  refine ⟨hProceeds, ?_⟩
  rw [hTasks]
  intro taskId task hTask hGates
  rcases hHeeded.minds taskId task hTask hGates with
    ⟨flag, watch, hMinding⟩
  rcases hMemory with ⟨hInstances, hFlags, hNext⟩
  refine ⟨flag, watch, ?_, ?_, hMinding.watches, hMinding.looks,
    ?_, hMinding.streams⟩
  · rw [hNext]
    exact hMinding.known
  · rw [hFlags]
    exact hMinding.isSet
  · rw [hInstances]
    exact hMinding.awaits

end Steps

/- Every step that heeds the interrupt keeps it heeded. -/
theorem preserves_heeded :
    Preserves registry (Heeds runId)
      fun system => system.Heeded runId where
  request := by
    intro system taskId inst request _ _ hNone hHeeded
    refine ⟨hHeeded.proceeds, ?_⟩
    intro other task hTask hGates
    simp only [System.setTask] at hTask
    split at hTask
    · cases hTask
      cases request <;> cases hGates
    · exact hHeeded.minds other task hTask hGates
  call := by
    intro system taskId fault task op reply world' next hCall
      hProgram hHeeded
    have hFresh :=
      (wellFormed_of_reachable hCall.reachable).freshRun
    have hBegins :
        ∀ value,
          reply = .ok value → op.begins value ≠ some runId := by
      rintro value rfl
      cases hCall.executes with
      | done hExec =>
          exact
            not_begins_of_proceeds (changesRuns_of_exec hExec)
              hFresh hHeeded.proceeds
    constructor
    · change world'.db.proceeds runId
      cases hCall.executes with
      | refused _ => exact hHeeded.proceeds
      | fault _ => exact hHeeded.proceeds
      | done hExec =>
          refine
            proceeds_of_exec hExec hCall.allows hFresh ?_
              hHeeded.proceeds
          rintro status ended rfl
          rcases pause_of_allows hCall.allows with
            ⟨rfl, rfl, job, root, hRole, rfl⟩
          rcases hHeeded.minds taskId task hCall.present
              (by rw [hRole]; rfl) with
            ⟨flag, watch, hMinding⟩
          exact hMinding.looks _ _ hCall.next
    · intro other task' hTask' hGates
      simp only [System.setTask] at hTask'
      split at hTask'
      · cases hTask'
        rcases gates_before hCall.allows hGates with
          hBefore | ⟨value, hValue, hBegan⟩
        · rcases hHeeded.minds taskId task hCall.present hBefore
            with ⟨flag, watch, hMinding⟩
          exact
            ⟨flag, _,
              minding_of_call hCall hProgram hMinding hBegins⟩
        · exact absurd hBegan (hBegins value hValue)
      · rename_i hNe
        rcases hHeeded.minds other task' hTask' hGates with
          ⟨flag, watch, hMinding⟩
        exact
          ⟨flag, watch,
            minding_of_other hCall hNe hTask' hMinding⟩
  sent := by
    intro system taskId task event next _ hTask _ hRole hHeeded
    refine ⟨hHeeded.proceeds, ?_⟩
    intro other task' hTask' hGates
    simp only [System.setTask] at hTask'
    split at hTask'
    · cases hTask'
      dsimp only at hGates
      rw [hRole] at hGates
      cases hGates
    · exact hHeeded.minds other task' hTask' hGates
  advance := fun _ _ _ hHeeded =>
    hHeeded.same hHeeded.proceeds ⟨rfl, rfl, rfl⟩ rfl
  heartbeat := by
    intro system inst _ _ hHeeded
    refine hHeeded.same ?_ ⟨rfl, rfl, rfl⟩ rfl
    rcases hHeeded.proceeds with ⟨status, hStatus, hNot⟩
    refine ⟨status, ?_, hNot⟩
    rw [← hStatus]
    exact
      status?_heartbeat system.world.db
        (system.world.instances inst).active runId
  sweep := fun _ selects _ _ _ hHeeded =>
    hHeeded.same (proceeds_sweep selects hHeeded.proceeds)
      ⟨rfl, rfl, rfl⟩ rfl
  collect := fun _ _ _ hHeeded =>
    hHeeded.same hHeeded.proceeds ⟨rfl, rfl, rfl⟩ rfl
  crash := by
    intro system inst _ _ hHeeded
    refine ⟨hHeeded.proceeds, ?_⟩
    intro taskId task hTask hGates
    rcases of_survivors hTask with ⟨hTask', hInst⟩
    rcases hHeeded.minds taskId task hTask' hGates with
      ⟨flag, watch, hMinding⟩
    refine ⟨flag, watch, hMinding.known, hMinding.isSet,
      hMinding.watches, hMinding.looks, ?_, hMinding.streams⟩
    intro hAwaits
    simp only [World.crash, World.setInstance, if_neg hInst]
    exact hMinding.awaits hAwaits

/- A change that lets an interrupt return has ended a run. -/
theorem interrupted_of_stops
    {other : RunId}
    {status toStatus : RunStatus}
    {ended : Bool}
    {reply :
      Except Exn (Op.tryTransition other status toStatus ended).Reply}
    (hStops :
      (Op.tryTransition other status toStatus ended).stops reply) :
    toStatus = .interrupted ∧ reply = .ok true := by
  cases toStatus with
  | interrupted =>
      cases reply with
      | error exn => cases hStops
      | ok won => exact ⟨rfl, congrArg Except.ok hStops⟩
  | _ => cases reply <;> cases hStops

/- A task that ends a run has found it. -/
theorem found_of_ends
    {role : Role}
    {other : RunId}
    {status : RunStatus}
    {ended : Bool}
    (hAllows :
      role.Allows (.tryTransition other status .interrupted ended)) :
    role.found? = some other := by
  cases hAllows with
  | on hStage =>
      cases hStage
      rfl
  | _ => rfl

section Stops

variable {system : System} {taskId : TaskId} {fault : Bool}
variable {task : Task} {world' : World}

/- A flag that is set reaches every driver that faces it. -/
theorem heeded_of_flagSet
    {flag : FlagId}
    {program : Driver Unit}
    (hCall :
      Calls registry (Heeds runId) system taskId fault task
        (.flagSet flag) (.ok ()) world')
    (hRequest : task.request = .interrupt runId)
    (hFound : task.phase.role.found? = some runId) :
    System.Heeded
      ({ system with world := world' }.setTask taskId
        (some
          { task with
            program := program
            phase := task.phase.after (.flagSet flag) (.ok ()) }))
      runId := by
  have hWatchful := watchful_of_reachable hCall.reachable
  rcases hCall.permitted.asked task flag (call?_of_calls hCall)
      hRequest with
    ⟨hWaits, hFaces⟩
  have hWorld :
      world' =
        { system.world with
          flags := fun other =>
            if other = flag then true
            else system.world.flags other } := by
    cases hCall.executes with
    | done hExec =>
        cases hExec
        rfl
  subst hWorld
  have hAfter :
      (task.phase.role.after (.flagSet flag) (.ok ())).gates? =
        none := by
    have hAllows := hCall.allows
    cases hRole : task.phase.role with
    | watching threadId other => rfl
    | on job stage =>
        rw [hRole] at hAllows
        cases hAllows with
        | on hStage => cases hStage
    | _ =>
        rw [hRole] at hAllows
        cases hAllows
  constructor
  · rcases status_of_found hCall.reachable hCall.present
        hFound with
      ⟨status, hStatus⟩
    refine ⟨status, hStatus, ?_⟩
    rintro rfl
    exact hWaits hStatus
  · intro otherId other hOther hGates
    simp only [System.setTask] at hOther
    split at hOther
    · cases hOther
      have hNone := hAfter.symm.trans hGates
      cases hNone
    · have hFace := hFaces otherId other hOther hGates
      have hKept := hFace.kept
      rw [← hFace.home] at hKept
      rcases hWatchful.tasks otherId other hOther with
        ⟨watch, hKnows⟩
      refine ⟨flag, watch,
        hWatchful.kept _ _ flag hFace.kept, if_pos rfl,
        hKnows.watches, hFace.looks, ?_, ?_⟩
      · intro hAwaits
        exact
          ⟨hKnows.untaken (untaken_of_awaits hAwaits),
            hFace.stored, hKept⟩
      · intro hStreams
        rcases hKnows.streams runId hStreams with
          ⟨taken, clear, hWatch, hSame | hNone⟩
        · rw [hKept] at hSame
          subst hSame
          exact ⟨clear, hWatch⟩
        · rw [hKept] at hNone
          cases hNone

/- A run that an interrupt ends has no driver to pause it. -/
theorem heeded_of_ended
    {status : RunStatus}
    {ended : Bool}
    {program : Driver Unit}
    (hCall :
      Calls registry (Heeds runId) system taskId fault task
        (.tryTransition runId status .interrupted ended)
        (.ok true) world')
    (hRequest : task.request = .interrupt runId) :
    System.Heeded
      ({ system with world := world' }.setTask taskId
        (some
          { task with
            program := program
            phase :=
              task.phase.after
                (.tryTransition runId status .interrupted ended)
                (.ok true) }))
      runId := by
  cases hCall.executes with
  | done hExec =>
      rcases of_tryTransition (statement_of_onDb hExec) with
        ⟨hFalse, -⟩ | ⟨-, run, hRun, hStatus, -, hDb⟩
      · cases hFalse
      · have hWas :
            system.world.db.status? runId = some status := by
          rw [Db.status?, hRun, Option.map_some, hStatus]
        have hNone :=
          hCall.permitted.ended task status ended
            (call?_of_calls hCall) hRequest hWas
        constructor
        · refine ⟨.interrupted, ?_, by rintro ⟨⟩⟩
          change world'.db.status? runId = some .interrupted
          rw [hDb, status?_writeStatus, if_pos rfl, hWas]
          rfl
        · intro otherId other hOther hGates
          exfalso
          simp only [System.setTask] at hOther
          split at hOther
          · cases hOther
            rcases gates_before hCall.allows hGates with
              hBefore | ⟨value, hValue, hBegan⟩
            · exact hNone taskId task hCall.present hBefore
            · cases status <;> cases hBegan
          · exact hNone otherId other hOther hGates

/- The call by which an interrupt returns is heeded. -/
theorem heeded_of_stops
    {op : Op}
    {reply : Except Exn op.Reply}
    {next : Except Exn op.Reply → Driver Unit}
    (hCall :
      Calls registry (Heeds runId) system taskId fault task op
        reply world')
    (hProgram : task.program = .call op next)
    (hRequest : task.request = .interrupt runId)
    (hStops : op.stops reply) :
    System.Heeded
      ({ system with world := world' }.setTask taskId
        (some
          { task with
            program := next reply
            phase := task.phase.after op reply }))
      runId := by
  have hFound : task.phase.role.found? = some runId :=
    found_of_interrupts
      ((holds_of_reachable sustains_interruptOutline trivial
        hCall.reachable).locally taskId task hCall.present runId
        hRequest)
      hProgram hCall.allows hStops
  cases op with
  | flagSet flag =>
      rcases reply with exn | ⟨⟩
      · cases hStops
      · exact heeded_of_flagSet hCall hRequest hFound
  | tryTransition other status toStatus ended =>
      rcases interrupted_of_stops hStops with ⟨rfl, rfl⟩
      have hOther : task.phase.role.found? = some other :=
        found_of_ends hCall.allows
      rw [hFound, Option.some_inj] at hOther
      subst hOther
      exact heeded_of_ended hCall hRequest
  | _ => cases hStops

end Stops

/- An interrupt of a run that may yet return normally. -/
def System.Stopping (system : System) (runId : RunId) : Prop :=
  ∀ taskId task,
    system.tasks taskId = some task →
      task.request = .interrupt runId → task.program.Stops

/-
  Every step keeps the run heeded, or leaves each interrupt of
  the run before the call by which it returns.
-/
theorem preserves_stopping :
    Preserves registry (Heeds runId)
      fun system =>
        system.Heeded runId ∨ system.Stopping runId where
  request := by
    intro system taskId inst request hReachable hHeeds hNone
      hEither
    rcases hEither with hHeeded | hStopping
    · left
      exact
        preserves_heeded.request taskId inst request hReachable
          hHeeds hNone hHeeded
    · right
      intro other task hTask hRequest
      simp only [System.setTask] at hTask
      split at hTask
      · cases hTask
        have hInterrupt : request = .interrupt runId := hRequest
        subst hInterrupt
        exact stops_interrupt runId
      · exact hStopping other task hTask hRequest
  call := by
    intro system taskId fault task op reply world' next hCall
      hProgram hEither
    rcases hEither with hHeeded | hStopping
    · exact
        Or.inl (preserves_heeded.call next hCall hProgram hHeeded)
    · by_cases hReturns :
          task.request = .interrupt runId ∧ op.stops reply
      · exact
          Or.inl
            (heeded_of_stops hCall hProgram hReturns.1
              hReturns.2)
      · right
        intro other task' hTask' hRequest
        simp only [System.setTask] at hTask'
        split at hTask'
        · cases hTask'
          have hStops :=
            hStopping taskId task hCall.present hRequest
          rw [hProgram] at hStops
          rcases hStops reply with hOp | hRest
          · exact absurd ⟨hRequest, hOp⟩ hReturns
          · exact hRest
        · exact hStopping other task' hTask' hRequest
  sent := by
    intro system taskId task event next hReachable hTask
      hProgram hRole hEither
    rcases hEither with hHeeded | hStopping
    · left
      exact
        preserves_heeded.sent event next hReachable hTask
          hProgram hRole hHeeded
    · right
      intro other task' hTask' hRequest
      simp only [System.setTask] at hTask'
      split at hTask'
      · cases hTask'
        have hStops := hStopping taskId task hTask hRequest
        rw [hProgram] at hStops
        exact hStops (.ok ())
      · exact hStopping other task' hTask' hRequest
  advance := fun seconds hReachable hHeeds hEither =>
    hEither.imp_left
      (preserves_heeded.advance seconds hReachable hHeeds)
  heartbeat := fun inst hReachable hHeeds hEither =>
    hEither.imp_left
      (preserves_heeded.heartbeat inst hReachable hHeeds)
  sweep := fun action selects hReachable hHeeds hSweeps hEither =>
    hEither.imp_left
      (preserves_heeded.sweep action selects hReachable hHeeds
        hSweeps)
  collect := fun retention hReachable hHeeds hEither =>
    hEither.imp_left
      (preserves_heeded.collect retention hReachable hHeeds)
  crash := by
    intro system inst hReachable hHeeds hEither
    rcases hEither with hHeeded | hStopping
    · exact
        Or.inl
          (preserves_heeded.crash inst hReachable hHeeds hHeeded)
    · right
      intro taskId task hTask hRequest
      rcases of_survivors hTask with ⟨hTask', -⟩
      exact hStopping taskId task hTask' hRequest

/- A run whose interrupt has returned is heeded. -/
theorem heeded_of_acknowledged
    {system : System}
    (hReachable : Reachable registry (Heeds runId) system)
    (hAck : Acknowledged system runId) :
    system.Heeded runId := by
  rcases hAck with ⟨taskId, task, hTask, hRequest, hProgram⟩
  have hEither :
      system.Heeded runId ∨ system.Stopping runId := by
    refine
      preserved_of_reachable preserves_stopping (Or.inr ?_)
        hReachable
    intro _ _ hNone
    cases hNone
  rcases hEither with hHeeded | hStopping
  · exact hHeeded
  · have hStops := hStopping taskId task hTask hRequest
    rw [hProgram] at hStops
    exact absurd rfl hStops

end Heeding

/- Whether no driver of a run is still at work. -/
def System.undriven (system : System) (runId : RunId) : Prop :=
  ∀ taskId task,
    system.tasks taskId = some task →
      task.phase.role.drives? = some runId → task.ended = true

/-
  A run whose interrupt has returned is terminal in every
  system in which it has no driver, as long as each interrupt
  of the run reaches the drivers that may still pause it and
  no step takes the last driver off a running run.
-/
theorem acknowledged_heeded
    {system : System}
    {runId : RunId}
    (hReachable : Reachable registry (Heeds runId) system)
    (hAck : Acknowledged system runId)
    (hUndriven : system.undriven runId) :
    ∃ status,
      system.world.db.status? runId = some status ∧
        status.terminal = true := by
  rcases (heeded_of_acknowledged hReachable hAck).proceeds with
    ⟨status, hStatus, hProceeds⟩
  refine ⟨status, hStatus, ?_⟩
  cases status with
  | running =>
      exfalso
      have hDriven : system.Driven :=
        preserved_of_reachable preserves_driven
          (fun _ hRunning => nomatch hRunning)
          (hReachable.mono fun _ _ hHeeds => hHeeds.steered)
      rcases hDriven runId hStatus with
        ⟨taskId, task, hTask, hDrives⟩
      exact
        not_drives_of_ended
          (conforms_of_reachable hReachable taskId task hTask)
          (hUndriven taskId task hTask hDrives) hDrives
  | awaitingApproval => exact absurd rfl hProceeds
  | _ => rfl

------------------------------------------------------------
-- Runs Of The Server
------------------------------------------------------------

/- Whether a step succeeds, and no instance crashes. -/
def System.succeeds (system : System) (action : Action) : Bool :=
  match action, system.call? action with
  | .turn _ fault, some (task, op) =>
      !fault && (exec task.inst op system.world).1.isOk
  | .crash _, _ => false
  | _, _ => true

/- The call of a step that succeeds does not fail. -/
theorem not_fails_of_succeeds
    {system : System}
    {taskId : TaskId}
    {fault : Bool}
    {task : Task}
    {op : Op}
    (hSucceeds : system.succeeds (.turn taskId fault) = true)
    (hCall :
      system.call? (.turn taskId fault) = some (task, op)) :
    ¬(fault = true ∨
        (exec task.inst op system.world).1.isOk = false) := by
  simp only [System.succeeds, hCall, Bool.and_eq_true,
    Bool.not_eq_true'] at hSucceeds
  rcases hSucceeds with ⟨hFault, hOk⟩
  rintro (hFails | hError)
  · rw [hFault] at hFails
    cases hFails
  · rw [hOk] at hError
    cases hError

/- A step that succeeds abandons no run. -/
theorem steered_of_succeeds
    {system : System}
    {action : Action}
    (hSucceeds : system.succeeds action = true) :
    Steered system action := by
  intro runId hAbandons
  cases hAbandons with
  | crashed => cases hSucceeds
  | failed hCall _ hFails =>
      exact not_fails_of_succeeds hSucceeds hCall hFails

/- Whether a task is an interrupt that returned normally. -/
def System.acknowledges
    (system : System)
    (taskId : TaskId)
    (runId : RunId) :
    Bool :=
  (system.tasks taskId).any fun task =>
    match task.request, task.program with
    | .interrupt other, .ret (.ok ()) => other == runId
    | _, _ => false

theorem acknowledged_of_acknowledges
    {system : System}
    {taskId : TaskId}
    {runId : RunId}
    (hAck : system.acknowledges taskId runId = true) :
    Acknowledged system runId := by
  simp only [System.acknowledges, Option.any_eq_true] at hAck
  rcases hAck with ⟨task, hTask, hReturned⟩
  split at hReturned
  · rename_i other hRequest hProgram
    rcases beq_iff_eq.mp hReturned with rfl
    exact ⟨taskId, task, hTask, hRequest, hProgram⟩
  · cases hReturned

/- Whether a driver faces a flag. -/
def Task.faces
    (task : Task)
    (world : World)
    (inst : InstanceId)
    (runId : RunId)
    (flag : FlagId) :
    Bool :=
  task.inst == inst &&
    (world.instances inst).cancels runId == some flag &&
    match task.op? with
    | some (.cancelsCreate other) => other != runId
    | some (.setRunStatus other _ _) => other != runId
    | _ => true

theorem faces_of_test
    {task : Task}
    {world : World}
    {inst : InstanceId}
    {runId : RunId}
    {flag : FlagId}
    (hTest : task.faces world inst runId flag = true) :
    task.Faces world inst runId flag := by
  simp only [Task.faces, Bool.and_eq_true, beq_iff_eq] at hTest
  rcases hTest with ⟨⟨hHome, hKept⟩, hNext⟩
  refine ⟨hHome, hKept, ?_, ?_⟩
  · intro hOp
    simp [hOp] at hNext
  · intro status ended hOp
    simp [hOp] at hNext

/- Whether a test holds of every task with a small number. -/
def System.allTasks
    (system : System)
    (number : Nat)
    (test : Task → Bool) :
    Bool :=
  (List.range number).all fun taskId =>
    (system.tasks taskId).all test

theorem of_allTasks
    {system : System}
    {number : Nat}
    {test : Task → Bool}
    (hWithin : system.Within number)
    (hAll : system.allTasks number test = true)
    {taskId : TaskId}
    {task : Task}
    (hTask : system.tasks taskId = some task) :
    test task = true := by
  have hTest :=
    List.all_eq_true.mp hAll taskId
      (List.mem_range.mpr (hWithin.lt hTask))
  rw [hTask] at hTest
  exact hTest

/-
  Whether a step succeeds and loses no interrupt of a run, if
  all tasks have small numbers.
-/
def System.heeds
    (number : Nat)
    (runId : RunId)
    (system : System)
    (action : Action) :
    Bool :=
  system.succeeds action &&
    match system.call? action with
    | some (task, .flagSet flag) =>
        system.world.db.status? runId !=
            some .awaitingApproval &&
          system.allTasks number fun other =>
            other.phase.role.gates? != some runId ||
              other.faces system.world task.inst runId flag
    | some (task, .tryTransition _ _ .interrupted _) =>
        match task.request with
        | .interrupt _ =>
            system.allTasks number fun other =>
              other.phase.role.gates? != some runId
        | _ => true
    | some (task, .cancelsPop _) =>
        system.allTasks number fun other =>
          other.phase.role.awaits? != some runId ||
            other.inst != task.inst
    | _ => true

/- A step that passes the test loses no interrupt. -/
theorem heeds_of_test
    {number : Nat}
    {runId : RunId}
    {system : System}
    {action : Action}
    (hWithin : system.Within number)
    (hTest : system.heeds number runId action = true) :
    Heeds runId system action := by
  simp only [System.heeds, Bool.and_eq_true] at hTest
  rcases hTest with ⟨hSucceeds, hTest⟩
  refine ⟨steered_of_succeeds hSucceeds, ?_, ?_, ?_⟩
  · intro task flag hCall hRequest
    simp only [hCall, Bool.and_eq_true, bne_iff_ne] at hTest
    refine ⟨hTest.1, ?_⟩
    intro otherId other hOther hGates
    have hFaces := of_allTasks hWithin hTest.2 hOther
    simp only [hGates, bne_self_eq_false, Bool.false_or]
      at hFaces
    exact faces_of_test hFaces
  · intro task status ended hCall hRequest _ otherId other hOther
    simp only [hCall, hRequest] at hTest
    exact bne_iff_ne.mp (of_allTasks hWithin hTest hOther)
  · intro task flag hCall _ _ otherId other hOther hAwaits
    simp only [hCall] at hTest
    have hApart := of_allTasks hWithin hTest hOther
    simpa [hAwaits] using hApart

/- A run that is interrupted while its driver streams. -/
def interruptedStream : List Action :=
  [.request 0 0 (.createThread none)] ++ turns 0 1 ++
    [.request 1 0
      (.start 0 [] none
        [.agent (.str []) (toolCalls ["a"]),
          .interrupt none])] ++
    turns 1 9 ++ [.request 2 0 (.interrupt 1)] ++ turns 2 3

/- The interrupt of `interruptedStream` is heeded. -/
theorem acknowledged_heeded_stream :
    ∃ first last,
      execute (System.step .single) interruptedStream
          .initial =
          some first ∧
        execute (System.step .single) (turns 1 8) first =
            some last ∧
          Acknowledged first 1 ∧
            first.world.db.status? 1 = some .running ∧
              ∃ status,
                last.world.db.status? 1 = some status ∧
                  status.terminal = true := by
  have hView :
      ((execute (System.step .single) interruptedStream
          .initial).bind fun first =>
        (execute (System.step .single) (turns 1 8) first).map
          fun last =>
            decide
                (first.world.db.status? 1 = some .running) &&
              first.acknowledges 2 1 &&
              last.acknowledges 2 1 &&
              (List.range 3).all fun taskId =>
                (last.tasks taskId).all Task.ended) =
        some true := by
    decide +kernel
  simp only [Option.bind_eq_some_iff, Option.map_eq_some_iff,
    Bool.and_eq_true, decide_eq_true_eq] at hView
  rcases hView with
    ⟨first, hFirst, last, hLast,
      ⟨⟨hStatus, hAck⟩, hStill⟩, hEnded⟩
  have hAll :
      execute (System.step .single)
          (interruptedStream ++ turns 1 8) .initial =
        some last := by
    rw [execute_append, hFirst]
    exact hLast
  have hReachable : Reachable .single (Heeds 1) last :=
    run_of_execute_within
      (within_of_actions
        (show
          ((interruptedStream ++ turns 1 8).all fun action =>
              action.begins.all fun taskId => taskId < 3) =
            true by
          decide))
      (within_initial 3) hAll
      (show
        passes (System.step .single) (System.heeds 3 1)
            (interruptedStream ++ turns 1 8) .initial =
          true by
        decide +kernel)
      fun _ _ => heeds_of_test
  refine
    ⟨first, last, hFirst, hLast, acknowledged_of_acknowledges hAck,
      hStatus,
      acknowledged_heeded hReachable
        (acknowledged_of_acknowledges hStill) ?_⟩
  intro taskId task hTask _
  exact ended_of_execute hAll (by decide) hEnded taskId task hTask

/-
  A run that is interrupted between its driver's last look at
  the flag and the pause.
-/
def interruptedAtGate : List Action :=
  [.request 0 0 (.createThread none)] ++ turns 0 1 ++
    [.request 1 0
      (.start 0 [] none
        [.agent (.str []) (toolCalls ["a"]),
          .interrupt none])] ++
    turns 1 14 ++ [.request 2 0 (.interrupt 1)] ++ turns 2 3

/- Whether an action decides the pause of a run. -/
def System.decides?
    (system : System)
    (action : Action) :
    Option RunId :=
  match system.call? action with
  | some (_, .tryTransition runId .awaitingApproval _ _) =>
      some runId
  | _ => none

/- The run of `interruptedAtGate` waits for an approval. -/
theorem acknowledged_lost :
    ¬ ∀ (registry : Registry) (first last : System)
        (runId : RunId),
      Reachable registry (fun _ _ => True) first →
        Acknowledged first runId →
          Execution (System.step registry)
              (fun system action =>
                system.decides? action ≠ some runId)
              first last →
            last.undriven runId →
              ∃ status,
                last.world.db.status? runId = some status ∧
                  status.terminal = true := by
  intro hHeeded
  have hView :
      ((execute (System.step .single) interruptedAtGate
          .initial).bind fun first =>
        (execute (System.step .single) (turns 1 7) first).map
          fun last =>
            decide
                (last.world.db.status? 1 =
                  some .awaitingApproval) &&
              first.acknowledges 2 1 &&
              passes (System.step .single)
                (fun system action =>
                  system.decides? action != some 1)
                (turns 1 7) first &&
              (List.range 3).all fun taskId =>
                (last.tasks taskId).all Task.ended) =
        some true := by
    decide +kernel
  simp only [Option.bind_eq_some_iff, Option.map_eq_some_iff,
    Bool.and_eq_true, decide_eq_true_eq] at hView
  rcases hView with
    ⟨first, hFirst, last, hLast,
      ⟨⟨hStatus, hAck⟩, hPasses⟩, hEnded⟩
  have hThen :
      Execution (System.step .single)
        (fun system action => system.decides? action ≠ some 1)
        first last := by
    apply run_of_execute hLast hPasses
    intro system action hTest
    simpa only [bne_iff_ne] using hTest
  have hAll :
      execute (System.step .single)
          (interruptedAtGate ++ turns 1 7) .initial =
        some last := by
    rw [execute_append, hFirst]
    exact hLast
  rcases
      hHeeded .single first last 1 (execution_of_execute hFirst)
        (acknowledged_of_acknowledges hAck) hThen
        fun taskId task hTask _ =>
          ended_of_execute hAll (by decide) hEnded taskId task
            hTask with
    ⟨status, hLastStatus, hTerminal⟩
  rw [hStatus] at hLastStatus
  cases hLastStatus
  cases hTerminal

end LegalAgent
