import LegalAgent.Library.Outline
import LegalAgent.System.Conformance

/-
  Invariants of the server.

  An outline that every call of a task and every action of the
  maintenance keeps holds in every reachable system.  Most
  outlines are about the database and the roles of the tasks.

  Key definitions include:
    * `Calls`
    * `Preserves`
    * `Sustains`
    * `SustainsRoles`
    * `KeptInDb`

  Key theorems include:
    * `preserved_of_reachable`
    * `holds_of_reachable`
    * `keeps_of_apart`
    * `roles_of_reachable`
    * `preserves_of_kept`
-/

------------------------------------------------------------
-- Steps
------------------------------------------------------------

namespace LegalAgent

open Library

/- A call that a task of a reachable system makes. -/
structure Calls
    (registry : Registry)
    (allowed : System → Action → Prop)
    (system : System)
    (taskId : TaskId)
    (fault : Bool)
    (task : Task)
    (op : Op)
    (reply : Except Exn op.Reply)
    (world' : World) :
    Prop where
  reachable : Reachable registry allowed system
  permitted : allowed system (.turn taskId fault)
  present : system.tasks taskId = some task
  next : task.op? = some op
  allows : task.phase.role.Allows op
  drawn : op.logsDrawn task.phase.drawn
  executes :
    Executes task.inst op system.world fault reply world'

/- What an action turns is the call of its task. -/
theorem call?_of_calls
    {registry : Registry}
    {allowed : System → Action → Prop}
    {system : System}
    {taskId : TaskId}
    {fault : Bool}
    {task : Task}
    {op : Op}
    {reply : Except Exn op.Reply}
    {world' : World}
    (hCall :
      Calls registry allowed system taskId fault task op reply
        world') :
    system.call? (.turn taskId fault) = some (task, op) := by
  simp [System.call?, hCall.present, hCall.next]

/- A call that raises is a fault, or it is refused. -/
theorem fails_of_calls
    {registry : Registry}
    {allowed : System → Action → Prop}
    {system : System}
    {taskId : TaskId}
    {fault : Bool}
    {task : Task}
    {op : Op}
    {exn : Exn}
    {world' : World}
    (hCall :
      Calls registry allowed system taskId fault task op
        (.error exn) world') :
    fault = true ∨
      (exec task.inst op system.world).1.isOk = false := by
  cases hCall.executes with
  | refused hExec =>
      right
      rw [hExec]
      rfl
  | fault _ => exact Or.inl rfl

/-
  A step of a task with a next call executes the call and
  leaves the other tasks.
-/
theorem turn_of_step
    {registry : Registry}
    {allowed : System → Action → Prop}
    {system next : System}
    {taskId : TaskId}
    {fault : Bool}
    {task : Task}
    {op : Op}
    (hReachable : Reachable registry allowed system)
    (hAllowed : allowed system (.turn taskId fault))
    (hStep :
      system.step registry (.turn taskId fault) = some next)
    (hCall :
      system.call? (.turn taskId fault) = some (task, op)) :
    ∃ reply world',
      Calls registry allowed system taskId fault task op reply
          world' ∧
        next.world = world' ∧
          ∀ other task',
            next.tasks other = some task' →
              system.tasks other = some task' ∨
                task'.phase.role =
                  task.phase.role.after op reply := by
  simp only [System.call?, Option.bind_eq_some_iff,
    Option.map_eq_some_iff] at hCall
  rcases hCall with ⟨task', hTask, op', hOp, hEq⟩
  cases hEq
  rcases of_turn_step hStep with
    ⟨turned, task', world', hTurned, hTurn, rfl⟩
  rw [hTask, Option.some_inj] at hTurned
  subst hTurned
  have hTurns :=
    (turns_of_turn
      (conforms_of_reachable hReachable taskId task hTask)
      hTurn).1
  cases hTurns with
  | called hProgram hAllows hDrawn hExecutes =>
      rw [Task.op?, hProgram, Option.some_inj] at hOp
      subst hOp
      refine
        ⟨_, _,
          ⟨hReachable, hAllowed, hTask,
            by rw [Task.op?, hProgram], hAllows, hDrawn,
            hExecutes⟩,
          rfl, ?_⟩
      intro other task' hOther
      simp only [System.setTask] at hOther
      split at hOther
      · cases hOther
        exact Or.inr rfl
      · exact Or.inl hOther
  | sent hProgram _ =>
      rw [Task.op?, hProgram] at hOp
      cases hOp

/- A step of a task with a next call executes the call. -/
theorem calls_of_step
    {registry : Registry}
    {allowed : System → Action → Prop}
    {system next : System}
    {taskId : TaskId}
    {fault : Bool}
    {task : Task}
    {op : Op}
    (hReachable : Reachable registry allowed system)
    (hAllowed : allowed system (.turn taskId fault))
    (hStep :
      system.step registry (.turn taskId fault) = some next)
    (hCall :
      system.call? (.turn taskId fault) = some (task, op)) :
    ∃ reply world',
      Calls registry allowed system taskId fault task op reply
          world' ∧
        next.world = world' := by
  rcases turn_of_step hReachable hAllowed hStep hCall with
    ⟨reply, world', hCalls, hWorld, -⟩
  exact ⟨reply, world', hCalls, hWorld⟩

/- A task that replaces another has what all tasks had. -/
theorem tasks_of_setTask
    {holds : Task → Prop}
    {system : System}
    {taskId : TaskId}
    {task : Task}
    (hTasks :
      ∀ otherId other,
        system.tasks otherId = some other → holds other)
    (hTask : holds task)
    (otherId : TaskId)
    (other : Task)
    (hOther :
      (system.setTask taskId (some task)).tasks otherId =
        some other) :
    holds other := by
  simp only [System.setTask] at hOther
  split at hOther
  · cases hOther
    exact hTask
  · exact hTasks otherId other hOther

/- The runs that an action sweeps at a time. -/
def Action.sweeps (now : Time) : Action → Option (Run → Bool)
| .reconcile stale =>
    some fun run =>
      run.status == .running &&
        decide (run.heartbeatAt + stale < now)
| .timeoutApprovals ttl =>
    some fun run =>
      run.status == .awaitingApproval &&
        decide (run.startedAt + ttl < now)
| .timeoutRuns ttl =>
    some fun run =>
      run.status == .running &&
        decide (run.heartbeatAt + ttl < now)
| _ => none

/- Only active runs are swept. -/
theorem active_of_sweeps
    {now : Time}
    {action : Action}
    {selects : Run → Bool}
    (hSweeps : action.sweeps now = some selects)
    {run : Run}
    (hSelects : selects run = true) :
    run.status.active = true := by
  cases action <;> cases hSweeps
  all_goals
    simp only [Bool.and_eq_true, beq_iff_eq] at hSelects
    rw [hSelects.1]
    rfl

------------------------------------------------------------
-- Preserved Properties
------------------------------------------------------------

/- Every step of the server preserves a property. -/
structure Preserves
    (registry : Registry)
    (allowed : System → Action → Prop)
    (holds : System → Prop) :
    Prop where
  request :
    ∀ {system} taskId inst (request : Request),
      Reachable registry allowed system →
        allowed system (.request taskId inst request) →
          system.tasks taskId = none →
            holds system →
              holds
                (system.setTask taskId
                  (some (request.task registry inst)))
  call :
    ∀ {system taskId fault task op reply world'} next,
      Calls registry allowed system taskId fault task op reply
          world' →
        task.program = .call op next →
          holds system →
            holds
              ({ system with world := world' }.setTask taskId
                (some
                  { task with
                    program := next reply
                    phase := task.phase.after op reply }))
  sent :
    ∀ {system taskId task} event next,
      Reachable registry allowed system →
        system.tasks taskId = some task →
          task.program = .yield event next →
            task.phase.role = .aside →
              holds system →
                holds
                  (system.setTask taskId
                    (some
                      { task with
                        program := next (.ok ())
                        sent := task.sent ++ [event] }))
  advance :
    ∀ {system} seconds,
      Reachable registry allowed system →
        allowed system (.advance seconds) →
          holds system →
            holds
              (system.setDb
                { system.world.db with
                  now := system.world.db.now + seconds })
  heartbeat :
    ∀ {system} inst,
      Reachable registry allowed system →
        allowed system (.heartbeat inst) →
          holds system →
            holds
              { system with
                world := system.world.heartbeat inst }
  sweep :
    ∀ {system} action selects,
      Reachable registry allowed system →
        allowed system action →
          action.sweeps system.world.db.now = some selects →
            holds system →
              holds
                (system.setDb (system.world.db.sweep selects))
  collect :
    ∀ {system} retention,
      Reachable registry allowed system →
        allowed system (.collectEvents retention) →
          holds system →
            holds
              (system.setDb
                (system.world.db.collect retention))
  crash :
    ∀ {system} inst,
      Reachable registry allowed system →
        allowed system (.crash inst) →
          holds system →
            holds
              { system with
                world := system.world.crash inst
                tasks := system.survivors inst }

variable {registry : Registry}
variable {allowed : System → Action → Prop}

/- A preserved property holds after a step. -/
theorem preserved_step
    {holds : System → Prop}
    (hPreserves : Preserves registry allowed holds)
    {system next : System}
    {action : Action}
    (hReachable : Reachable registry allowed system)
    (hHolds : holds system)
    (hAllowed : allowed system action)
    (hStep : system.step registry action = some next) :
    holds next := by
  cases action with
  | request taskId inst request =>
      rcases of_request_step hStep with ⟨hNone, rfl⟩
      exact
        hPreserves.request taskId inst request hReachable
          hAllowed hNone hHolds
  | turn taskId fault =>
      rcases of_turn_step hStep with
        ⟨task, task', world', hTask, hTurn, rfl⟩
      have hTurns :=
        (turns_of_turn
          (conforms_of_reachable hReachable taskId task
            hTask) hTurn).1
      cases hTurns with
      | called hProgram hAllows hDrawn hExecutes =>
          exact
            hPreserves.call _
              ⟨hReachable, hAllowed, hTask,
                by rw [Task.op?, hProgram], hAllows,
                hDrawn, hExecutes⟩
              hProgram hHolds
      | sent hProgram hRole =>
          exact
            hPreserves.sent _ _ hReachable hTask hProgram
              hRole hHolds
  | advance seconds =>
      cases hStep
      exact
        hPreserves.advance seconds hReachable hAllowed hHolds
  | heartbeat inst =>
      cases hStep
      exact
        hPreserves.heartbeat inst hReachable hAllowed hHolds
  | reconcile stale =>
      cases hStep
      exact
        hPreserves.sweep _ _ hReachable hAllowed rfl hHolds
  | timeoutApprovals ttl =>
      cases hStep
      exact
        hPreserves.sweep _ _ hReachable hAllowed rfl hHolds
  | timeoutRuns ttl =>
      cases hStep
      exact
        hPreserves.sweep _ _ hReachable hAllowed rfl hHolds
  | collectEvents retention =>
      cases hStep
      exact
        hPreserves.collect retention hReachable hAllowed hHolds
  | crash inst =>
      cases hStep
      exact hPreserves.crash inst hReachable hAllowed hHolds

/- A preserved property that holds at first always holds. -/
theorem preserved_of_reachable
    {holds : System → Prop}
    (hPreserves : Preserves registry allowed holds)
    (hFirst : holds .initial)
    {system : System}
    (hReachable : Reachable registry allowed system) :
    holds system := by
  induction hReachable with
  | refl => exact hFirst
  | tail hRun hNext ih =>
      rcases hNext with ⟨action, hAllowed, hStep⟩
      exact preserved_step hPreserves hRun ih hAllowed hStep

/- A preserved property that holds in a state holds later. -/
theorem preserved_of_execution
    {holds : System → Prop}
    (hPreserves : Preserves registry allowed holds)
    {system later : System}
    (hReachable : Reachable registry allowed system)
    (hHolds : holds system)
    (hLater :
      Execution (System.step registry) allowed system later) :
    holds later := by
  induction hLater with
  | refl => exact hHolds
  | tail hRun hNext ih =>
      rcases hNext with ⟨action, hAllowed, hStep⟩
      exact
        preserved_step hPreserves (hReachable.trans hRun) ih
          hAllowed hStep

------------------------------------------------------------
-- Outlines Of The Server
------------------------------------------------------------

/- Every step of the server keeps an outline. -/
structure Sustains
    (registry : Registry)
    (allowed : System → Action → Prop)
    (outline : Outline World Task) :
    Prop where
  request :
    ∀ {system} taskId inst (request : Request),
      allowed system (.request taskId inst request) →
        outline.globally system.world →
          outline.locally system.world
            (request.task registry inst)
  alone :
    ∀ inst (request : Request) other,
      outline.Both (request.task registry inst) other
  call :
    ∀ {system taskId fault task op reply world'} next,
      Calls registry allowed system taskId fault task op reply
          world' →
        task.program = .call op next →
          outline.Holds system.world system.tasks →
            outline.Keeps system.tasks taskId system.world task
              world'
              { task with
                program := next reply
                phase := task.phase.after op reply }
  sent :
    ∀ {system taskId task} event next,
      Reachable registry allowed system →
        system.tasks taskId = some task →
          task.program = .yield event next →
            task.phase.role = .aside →
              outline.Holds system.world system.tasks →
                outline.Keeps system.tasks taskId system.world
                  task system.world
                  { task with
                    program := next (.ok ())
                    sent := task.sent ++ [event] }
  advance :
    ∀ {system} seconds,
      Reachable registry allowed system →
        allowed system (.advance seconds) →
          outline.Holds system.world system.tasks →
            outline.Bears system.world
              { system.world with
                db :=
                  { system.world.db with
                    now := system.world.db.now + seconds } }
  heartbeat :
    ∀ {system} inst,
      Reachable registry allowed system →
        allowed system (.heartbeat inst) →
          outline.Holds system.world system.tasks →
            outline.Bears system.world
              (system.world.heartbeat inst)
  sweep :
    ∀ {system} action selects,
      Reachable registry allowed system →
        allowed system action →
          action.sweeps system.world.db.now = some selects →
            outline.Holds system.world system.tasks →
              outline.Bears system.world
                { system.world with
                  db := system.world.db.sweep selects }
  collect :
    ∀ {system} retention,
      Reachable registry allowed system →
        allowed system (.collectEvents retention) →
          outline.Holds system.world system.tasks →
            outline.Bears system.world
              { system.world with
                db := system.world.db.collect retention }
  crash :
    ∀ {system} inst,
      Reachable registry allowed system →
        outline.Holds system.world system.tasks →
          outline.globally (system.world.crash inst) ∧
            ∀ task,
              task.inst ≠ inst →
                outline.locally system.world task →
                  outline.locally (system.world.crash inst)
                    task

/- An outline that every step keeps is preserved. -/
theorem preserves_of_sustains
    {outline : Outline World Task}
    (hSustains : Sustains registry allowed outline) :
    Preserves registry allowed fun system =>
      outline.Holds system.world system.tasks where
  request := by
    intro system taskId inst request _ hAllowed _ hHolds
    exact
      hHolds.join
        (hSustains.request taskId inst request hAllowed
          hHolds.globally)
        (hSustains.alone inst request)
  call := by
    intro system taskId fault task op reply world' next hCall
      hProgram hHolds
    exact
      hHolds.move hCall.present
        (hSustains.call next hCall hProgram hHolds)
  sent := by
    intro system taskId task event next hReachable hTask
      hProgram hRole hHolds
    exact
      hHolds.move hTask
        (hSustains.sent event next hReachable hTask hProgram
          hRole hHolds)
  advance := by
    intro system seconds hReachable hAllowed hHolds
    exact
      hHolds.change
        (hSustains.advance seconds hReachable hAllowed hHolds)
  heartbeat := by
    intro system inst hReachable hAllowed hHolds
    exact
      hHolds.change
        (hSustains.heartbeat inst hReachable hAllowed hHolds)
  sweep := by
    intro system action selects hReachable hAllowed hSweeps
      hHolds
    exact
      hHolds.change
        (hSustains.sweep action selects hReachable hAllowed
          hSweeps hHolds)
  collect := by
    intro system retention hReachable hAllowed hHolds
    exact
      hHolds.change
        (hSustains.collect retention hReachable hAllowed hHolds)
  crash := by
    intro system inst hReachable _ hHolds
    rcases hSustains.crash inst hReachable hHolds with
      ⟨hGlobally, hLocally⟩
    apply hHolds.leave hGlobally
    intro taskId task hTask
    rcases of_survivors hTask with ⟨hTask, hInst⟩
    exact ⟨hTask, hLocally task hInst⟩

/-
  A call keeps an outline that relates no two tasks if, where
  it fails, the task goes on as asserted, and, where it
  succeeds, the other tasks bear what it did.
-/
theorem keeps_of_apart
    {outline : Outline World Task}
    (hApart : ∀ task other, outline.mutually task other)
    {system : System}
    {taskId : TaskId}
    {fault : Bool}
    {task task' : Task}
    {op : Op}
    {reply : Except Exn op.Reply}
    {world' : World}
    (hCall :
      Calls registry allowed system taskId fault task op reply
        world')
    (hHolds : outline.Holds system.world system.tasks)
    (hFailed :
      ∀ exn,
        reply = .error exn → outline.locally system.world task')
    (hDone :
      ∀ value,
        fault = false →
          reply = .ok value →
            exec task.inst op system.world =
                (.ok value, world') →
              outline.globally world' ∧
                outline.locally world' task' ∧
                  ∀ other,
                    outline.locally system.world other →
                      outline.locally world' other) :
    outline.Keeps system.tasks taskId system.world task world'
      task' := by
  have hSame :
      outline.locally system.world task' →
        outline.Keeps system.tasks taskId system.world task
          system.world task' := by
    intro hLocally
    exact
      ⟨hHolds.globally, hLocally, fun _ _ _ _ hOther _ =>
        ⟨hOther, hApart _ _, hApart _ _⟩⟩
  cases hCall.executes with
  | refused => exact hSame (hFailed _ rfl)
  | fault => exact hSame (hFailed _ rfl)
  | done hExec =>
      rcases hDone _ rfl rfl hExec with
        ⟨hGlobally, hLocally, hOthers⟩
      exact
        ⟨hGlobally, hLocally, fun _ other _ _ hOther _ =>
          ⟨hOthers other hOther, hApart _ _, hApart _ _⟩⟩

/- An outline that every step keeps holds ever after. -/
theorem holds_of_execution
    {outline : Outline World Task}
    (hSustains : Sustains registry allowed outline)
    {first last : System}
    (hReachable : Reachable registry allowed first)
    (hHolds : outline.Holds first.world first.tasks)
    (hRun : Execution (System.step registry) allowed first last) :
    outline.Holds last.world last.tasks := by
  induction hRun with
  | refl => exact hHolds
  | tail hRun hNext ih =>
      rcases hNext with ⟨action, hAllowed, hStep⟩
      exact
        preserved_step (preserves_of_sustains hSustains)
          (hReachable.trans hRun) ih hAllowed hStep

/- An outline that holds at first and is kept always holds. -/
theorem holds_of_reachable
    {outline : Outline World Task}
    (hSustains : Sustains registry allowed outline)
    (hFirst : outline.globally .empty)
    {system : System}
    (hReachable : Reachable registry allowed system) :
    outline.Holds system.world system.tasks := by
  refine holds_of_execution hSustains .refl ?_ hReachable
  refine ⟨hFirst, ?_, ?_⟩
  · intro taskId task hTask
    cases hTask
  · intro taskId other task task' _ hTask
    cases hTask

------------------------------------------------------------
-- Outlines Of Roles
------------------------------------------------------------

/- An outline of the database and the roles of the tasks. -/
def onRoles (outline : Outline Db Role) : Outline World Task where
  globally world := outline.globally world.db
  locally world task := outline.locally world.db task.phase.role
  mutually task other :=
    outline.mutually task.phase.role other.phase.role

/- Whether a role concerns no run. -/
def Role.idle : Role → Bool
| .aside | .fresh => true
| _ => false

/- A call of one of the tasks keeps an outline of roles. -/
structure KeepsRoles
    (outline : Outline Db Role)
    (system : System)
    (taskId : TaskId)
    (task : Task)
    (db' : Db)
    (role' : Role) :
    Prop where
  globally : outline.globally db'
  locally : outline.locally db' role'
  others :
    ∀ otherId other,
      otherId ≠ taskId →
        system.tasks otherId = some other →
          outline.locally system.world.db other.phase.role →
            outline.Both task.phase.role other.phase.role →
              outline.locally db' other.phase.role ∧
                outline.Both role' other.phase.role

/- Every step of the server keeps an outline of roles. -/
structure SustainsRoles
    (registry : Registry)
    (allowed : System → Action → Prop)
    (outline : Outline Db Role) :
    Prop where
  idle :
    ∀ db role,
      role.idle = true →
        outline.globally db → outline.locally db role
  alone :
    ∀ role other,
      role.idle = true → outline.Both role other
  done :
    ∀ {system taskId task op value world'},
      Calls registry allowed system taskId false task op
          (.ok value) world' →
        exec task.inst op system.world = (.ok value, world') →
          (onRoles outline).Holds system.world system.tasks →
            KeepsRoles outline system taskId task world'.db
              (task.phase.role.after op (.ok value))
  failed :
    ∀ {system taskId fault task op exn},
      Calls registry allowed system taskId fault task op
          (.error exn) system.world →
        op.kind ≠ .memory →
          (onRoles outline).Holds system.world system.tasks →
            KeepsRoles outline system taskId task
              system.world.db
              (task.phase.role.after op (.error exn))
  advance :
    ∀ db seconds,
      outline.globally db →
        outline.Bears db { db with now := db.now + seconds }
  heartbeat :
    ∀ db runIds,
      outline.globally db →
        outline.Bears db (db.heartbeat runIds)
  sweep :
    ∀ db selects,
      (∀ run, selects run = true → run.status.active = true) →
        outline.globally db →
          outline.Bears db (db.sweep selects)
  collect :
    ∀ db retention,
      outline.globally db →
        outline.Bears db (db.collect retention)

/- Requests are answered from an idle role. -/
theorem idle_request
    (registry : Registry)
    (inst : InstanceId)
    (request : Request) :
    (request.task registry inst).phase.role.idle = true := by
  cases request <;> rfl

/- An outline of roles is an outline of the server. -/
theorem sustains_onRoles
    {outline : Outline Db Role}
    (hSustains : SustainsRoles registry allowed outline) :
    Sustains registry allowed (onRoles outline) where
  request := by
    intro system taskId inst request _ hGlobally
    exact
      hSustains.idle _ _ (idle_request registry inst request)
        hGlobally
  alone := by
    intro inst request other
    exact
      hSustains.alone _ _ (idle_request registry inst request)
  call := by
    intro system taskId fault task op reply world' next hCall _
      hHolds
    have hKeeps :
        KeepsRoles outline system taskId task world'.db
          (task.phase.role.after op reply) := by
      have hExecutes := hCall.executes
      cases hExecutes with
      | done hExec => exact hSustains.done hCall hExec hHolds
      | refused hExec =>
          have hPossible := hCall.executes.possible
          exact
            hSustains.failed hCall
              (hPossible.error _ rfl).2 hHolds
      | fault hFault =>
          have hPossible := hCall.executes.possible
          exact
            hSustains.failed hCall
              (hPossible.error _ rfl).2 hHolds
    exact ⟨hKeeps.globally, hKeeps.locally, hKeeps.others⟩
  sent := by
    intro system taskId task event next _ hTask _ _ hHolds
    exact
      ⟨hHolds.globally, hHolds.locally taskId task hTask,
        fun _ _ _ _ hOther hBoth => ⟨hOther, hBoth⟩⟩
  advance := by
    intro system seconds _ _ hHolds
    have hBears :=
      hSustains.advance system.world.db seconds hHolds.globally
    exact ⟨hBears.globally, fun task => hBears.locally _⟩
  heartbeat := by
    intro system inst _ _ hHolds
    have hBears :=
      hSustains.heartbeat system.world.db
        (system.world.instances inst).active hHolds.globally
    exact ⟨hBears.globally, fun task => hBears.locally _⟩
  sweep := by
    intro system action selects _ _ hSweeps hHolds
    have hBears :=
      hSustains.sweep system.world.db selects
        (fun _ => active_of_sweeps hSweeps) hHolds.globally
    exact ⟨hBears.globally, fun task => hBears.locally _⟩
  collect := by
    intro system retention _ _ hHolds
    have hBears :=
      hSustains.collect system.world.db retention
        hHolds.globally
    exact ⟨hBears.globally, fun task => hBears.locally _⟩
  crash := by
    intro system inst _ hHolds
    exact ⟨hHolds.globally, fun task _ hLocally => hLocally⟩

/- An outline of roles that every step keeps always holds. -/
theorem roles_of_reachable
    {outline : Outline Db Role}
    (hSustains : SustainsRoles registry allowed outline)
    (hFirst : outline.globally .empty)
    {system : System}
    (hReachable : Reachable registry allowed system) :
    (onRoles outline).Holds system.world system.tasks :=
  holds_of_reachable (sustains_onRoles hSustains) hFirst
    hReachable

/- What every step keeps of the database holds ever after. -/
theorem globally_of_execution
    {holds : Db → Prop}
    (hSustains :
      SustainsRoles registry allowed
        ⟨holds, fun _ _ => True, fun _ _ => True⟩)
    {first last : System}
    (hReachable : Reachable registry allowed first)
    (hFirst : holds first.world.db)
    (hRun : Execution (System.step registry) allowed first last) :
    holds last.world.db :=
  (holds_of_execution (sustains_onRoles hSustains) hReachable
    ⟨hFirst, fun _ _ _ => trivial, fun _ _ _ _ _ _ _ => trivial⟩
    hRun).globally

------------------------------------------------------------
-- Properties Of The Store
------------------------------------------------------------

/-
  What a property of the store asks of the steps: requests,
  events and crashes leave the store, and so does a call that
  fails.
-/
structure KeptInDb
    (registry : Registry)
    (allowed : System → Action → Prop)
    (holds : Db → Prop) :
    Prop where
  exec :
    ∀ {system taskId task op value world'},
      Calls registry allowed system taskId false task op
          (.ok value) world' →
        exec task.inst op system.world = (.ok value, world') →
          holds system.world.db → holds world'.db
  advance :
    ∀ (db : Db) (seconds : Nat),
      holds db → holds { db with now := db.now + seconds }
  heartbeat :
    ∀ (db : Db) (runIds : List RunId),
      holds db → holds (db.heartbeat runIds)
  sweep :
    ∀ (db : Db) (selects : Run → Bool),
      holds db → holds (db.sweep selects)
  collect :
    ∀ {system retention},
      Reachable registry allowed system →
        allowed system (.collectEvents retention) →
          holds system.world.db →
            holds (system.world.db.collect retention)

/- A property that is kept in the store is preserved. -/
theorem preserves_of_kept
    {holds : Db → Prop}
    (hKept : KeptInDb registry allowed holds) :
    Preserves registry allowed fun system =>
      holds system.world.db where
  request := by
    intro system taskId inst request _ _ _ hHolds
    exact hHolds
  call := by
    intro system taskId fault task op reply world' next hCall _
      hHolds
    cases hCall.executes with
    | refused => exact hHolds
    | fault => exact hHolds
    | done hExec => exact hKept.exec hCall hExec hHolds
  sent := by
    intro system taskId task event next _ _ _ _ hHolds
    exact hHolds
  advance := by
    intro system seconds _ _ hHolds
    exact hKept.advance system.world.db seconds hHolds
  heartbeat := by
    intro system inst _ _ hHolds
    exact
      hKept.heartbeat system.world.db
        (system.world.instances inst).active hHolds
  sweep := by
    intro system action selects _ _ _ hHolds
    exact hKept.sweep system.world.db selects hHolds
  collect := by
    intro system retention hReachable hAllowed hHolds
    exact hKept.collect hReachable hAllowed hHolds
  crash := by
    intro system inst _ _ hHolds
    exact hHolds

end LegalAgent
