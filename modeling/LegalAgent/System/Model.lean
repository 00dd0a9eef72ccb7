import LegalAgent.Library.Transition
import LegalAgent.Service.TaskConformance

/-
  The server as a transition system.

  Instances of the server execute requests as tasks, one call
  at a time and in any order, over one shared world.  A call
  may fail without effect.  The clock advances, instances send
  heartbeats, sweeps end stale runs, and an instance may crash.

  Key definitions include:
    * `Request`
    * `Task`
    * `System`
    * `Action`
    * `System.step`
    * `System.initial`
-/

------------------------------------------------------------
-- Requests And Tasks
------------------------------------------------------------

namespace LegalAgent

open Library

abbrev TaskId := Nat

/- The requests that clients send to an instance. -/
inductive Request where
  | createThread (title : Option Text)
  | fork (parentId : ThreadId) (forkPoint : MessageId)
  | start
      (threadId : ThreadId)
      (message : Text)
      (model : Option Text)
      (script : List GraphStep)
  | resume
      (threadId : ThreadId)
      (approve : Bool)
      (approvedIds : Option (List Text))
      (script : List GraphStep)
  | interrupt (runId : RunId)
  | stream
      (runId : RunId)
      (polls : Nat)
      (cursor : Option Nat)

/- The program that answers a request. -/
def Request.program
    (registry : Registry) :
    Request → Driver Unit
| .createThread title => do
    let _ ← call (.createThread title)
| .fork parentId forkPoint =>
    RunService.fork parentId forkPoint
| .start threadId message model script =>
    RunManager.start registry threadId message model script
| .resume threadId approve approvedIds script =>
    RunManager.resume registry threadId approve approvedIds
      script
| .interrupt runId => RunManager.interrupt runId
| .stream runId polls cursor =>
    RunManager.stream runId polls cursor

/- The phase in which the answer to a request begins. -/
def Request.phase : Request → Phase
| .start .. | .resume .. | .interrupt .. => ⟨.fresh, none⟩
| _ => ⟨.aside, none⟩

/-
  A request that an instance executes: what is left of its
  program, its history, and the events sent to its client.
-/
structure Task where
  inst : InstanceId
  request : Request
  program : Driver Unit
  phase : Phase
  sent : List RunEvent

/- The task that begins to answer a request. -/
def Request.task
    (registry : Registry)
    (inst : InstanceId)
    (request : Request) :
    Task where
  inst := inst
  request := request
  program := request.program registry
  phase := request.phase
  sent := []

/- Whether a task has ended. -/
def Task.ended (task : Task) : Bool :=
  match task.program with
  | .ret _ => true
  | _ => false

/- The call that a task makes next. -/
def Task.op? (task : Task) : Option Op :=
  match task.program with
  | .call op _ => some op
  | _ => none

/- Execute the next call of a task, or let it fail. -/
def Task.turn
    (task : Task)
    (fault : Bool)
    (world : World) :
    Option (Task × World) :=
  match task.program with
  | .ret _ => none
  | .call op next =>
      match if fault then op.kind.fault.map fun exn =>
          (.error exn, world)
        else some (exec task.inst op world) with
      | none => none
      | some (reply, world) =>
          some
            ({ task with
                program := next reply
                phase := task.phase.after op reply },
              world)
  | .yield event next =>
      if fault then
        none
      else
        some
          ({ task with
              program := next (.ok ())
              phase := serviceProtocol.taken task.phase event
              sent := task.sent ++ [event] },
            world)

------------------------------------------------------------
-- Systems
------------------------------------------------------------

/- The world and the tasks. -/
structure System where
  world : World
  tasks : TaskId → Option Task

/- The system before the first request. -/
def System.initial : System where
  world := .empty
  tasks := fun _ => none

/- What happens next. -/
inductive Action where
  | request
      (taskId : TaskId)
      (inst : InstanceId)
      (request : Request)
  | turn (taskId : TaskId) (fault : Bool)
  | advance (seconds : Nat)
  | heartbeat (inst : InstanceId)
  | reconcile (stale : Nat)
  | timeoutApprovals (ttl : Nat)
  | timeoutRuns (ttl : Nat)
  | collectEvents (retention : Nat)
  | crash (inst : InstanceId)

/- Replace a task. -/
def System.setTask
    (system : System)
    (taskId : TaskId)
    (task : Option Task) :
    System :=
  { system with
    tasks := fun other =>
      if other = taskId then task else system.tasks other }

/- Another task stays when one is replaced. -/
theorem present_of_other
    {system : System}
    {taskId other : TaskId}
    {task : Task}
    {replaced : Option Task}
    (hNe : other ≠ taskId)
    (hTask : system.tasks other = some task) :
    (system.setTask taskId replaced).tasks other =
      some task := by
  simpa [System.setTask, hNe] using hTask

/- A task that is there stays when a new one is added. -/
theorem present_of_added
    {system : System}
    {taskId other : TaskId}
    {task : Task}
    {added : Option Task}
    (hNone : system.tasks taskId = none)
    (hTask : system.tasks other = some task) :
    (system.setTask taskId added).tasks other = some task := by
  refine present_of_other ?_ hTask
  rintro rfl
  rw [hTask] at hNone
  cases hNone

/- Change the database by a statement of the maintenance. -/
def System.maintain
    (system : System)
    (statement : Statement Unit) :
    System :=
  { system with world := (system.world.onDb statement).2 }

/- The world once an instance has sent its heartbeats. -/
def World.heartbeat
    (world : World)
    (inst : InstanceId) :
    World :=
  { (world.onDb
      (heartbeatRuns (world.instances inst).active)).2 with
    ticks := fun other =>
      if other = inst then world.db.now else world.ticks other }

/- The world once an instance has lost its memory. -/
def World.crash (world : World) (inst : InstanceId) : World :=
  world.setInstance inst
    { cancels := fun _ => none, active := [] }

/- The system after an action, if the action can happen. -/
def System.step
    (registry : Registry)
    (system : System) :
    Action → Option System
| .request taskId inst request =>
    if (system.tasks taskId).isSome then
      none
    else
      some
        (system.setTask taskId
          (some (request.task registry inst)))
| .turn taskId fault =>
    match system.tasks taskId with
    | none => none
    | some task =>
        match task.turn fault system.world with
        | none => none
        | some (task, world) =>
            some
              ({ system with world := world }.setTask taskId
                (some task))
| .advance seconds =>
    some
      (system.maintain
        (.modify fun db => { db with now := db.now + seconds }))
| .heartbeat inst =>
    some { system with world := system.world.heartbeat inst }
| .reconcile stale =>
    some (system.maintain (reconcileOrphanRuns stale))
| .timeoutApprovals ttl =>
    some (system.maintain (timeoutStaleApprovals ttl))
| .timeoutRuns ttl =>
    some (system.maintain (timeoutStaleRuns ttl))
| .collectEvents retention =>
    some (system.maintain (gcRunEvents retention))
| .crash inst =>
    some
      { system with
        world := system.world.crash inst
        tasks := fun taskId =>
          (system.tasks taskId).filter fun task =>
            task.inst != inst }

/- A request is given a task that was not there before. -/
theorem of_request_step
    {registry : Registry}
    {system next : System}
    {taskId : TaskId}
    {inst : InstanceId}
    {request : Request}
    (hStep :
      system.step registry (.request taskId inst request) =
        some next) :
    system.tasks taskId = none ∧
      next =
        system.setTask taskId
          (some (request.task registry inst)) := by
  simp only [System.step] at hStep
  split at hStep
  · cases hStep
  · rename_i hNone
    cases hStep
    exact ⟨by simpa using hNone, rfl⟩

/- A turn is one of a task that was there before. -/
theorem of_turn_step
    {registry : Registry}
    {system next : System}
    {taskId : TaskId}
    {fault : Bool}
    (hStep :
      system.step registry (.turn taskId fault) = some next) :
    ∃ task task' world',
      system.tasks taskId = some task ∧
        task.turn fault system.world = some (task', world') ∧
          next =
            ({ system with world := world' }).setTask taskId
              (some task') := by
  simp only [System.step] at hStep
  split at hStep
  · cases hStep
  · rename_i task hTask
    split at hStep
    · cases hStep
    · rename_i task' world' hTurn
      cases hStep
      exact ⟨task, task', world', hTask, hTurn, rfl⟩

/- Replace the database. -/
def System.setDb (system : System) (db : Db) : System :=
  { system with world := { system.world with db := db } }

/- The tasks of the other instances. -/
def System.survivors
    (system : System)
    (inst : InstanceId) :
    TaskId → Option Task :=
  fun taskId =>
    (system.tasks taskId).filter fun task => task.inst != inst

/- A survivor is a task of another instance. -/
theorem of_survivors
    {system : System}
    {inst : InstanceId}
    {taskId : TaskId}
    {task : Task}
    (hTask : system.survivors inst taskId = some task) :
    system.tasks taskId = some task ∧ task.inst ≠ inst := by
  unfold System.survivors at hTask
  rw [Option.filter_eq_some_iff] at hTask
  exact ⟨hTask.1, by simpa using hTask.2⟩

/- The task that an action turns, with its next call. -/
def System.call?
    (system : System) :
    Action → Option (Task × Op)
| .turn taskId _ =>
    (system.tasks taskId).bind fun task =>
      task.op?.map fun op => (task, op)
| _ => none

/- A number of turns of one task, none of which fails. -/
def turns (taskId : TaskId) (number : Nat) : List Action :=
  List.replicate number (.turn taskId false)

/- The calls of a tool with an id. -/
def toolCalls (ids : List String) : List ToolCall :=
  ids.map fun id => ⟨some id.toList, none, none⟩

/- A server that offers a single model. -/
def Registry.single : Registry where
  models := [[]]
  defaultModel := []

/- The task that an action begins. -/
def Action.begins : Action → Option TaskId
| .request taskId _ _ => some taskId
| _ => none

/- A task does not appear unless an action begins it. -/
theorem tasks_of_step
    {registry : Registry}
    {system next : System}
    {action : Action}
    {taskId : TaskId}
    (hStep : system.step registry action = some next)
    (hBegins : action.begins ≠ some taskId)
    (hNone : system.tasks taskId = none) :
    next.tasks taskId = none := by
  cases action with
  | request other inst request =>
      rcases of_request_step hStep with ⟨-, rfl⟩
      have hNe : taskId ≠ other :=
        fun hEq => hBegins (congrArg some hEq.symm)
      simpa [System.setTask, hNe] using hNone
  | turn other fault =>
      rcases of_turn_step hStep with
        ⟨task, task', world', hTask, -, rfl⟩
      have hNe : taskId ≠ other := by
        rintro rfl
        rw [hNone] at hTask
        cases hTask
      simpa [System.setTask, hNe] using hNone
  | crash inst =>
      cases hStep
      simp [hNone]
  | _ =>
      cases hStep
      exact hNone

/- Whether all tasks of a system have small numbers. -/
def System.Within (system : System) (number : Nat) : Prop :=
  ∀ taskId, number ≤ taskId → system.tasks taskId = none

/- The tasks of a system are found among the small numbers. -/
theorem System.Within.lt
    {system : System}
    {number : Nat}
    (hWithin : system.Within number)
    {taskId : TaskId}
    {task : Task}
    (hTask : system.tasks taskId = some task) :
    taskId < number := by
  by_contra hLe
  rw [hWithin taskId (Nat.not_lt.mp hLe)] at hTask
  cases hTask

/- Actions that begin tasks with small numbers only. -/
theorem within_of_actions
    {registry : Registry}
    {actions : List Action}
    {number : Nat}
    (hIds :
      (actions.all fun action =>
        action.begins.all fun taskId => taskId < number) = true) :
    ∀ action ∈ actions,
      ∀ (system next : System),
        system.Within number →
          system.step registry action = some next →
            next.Within number := by
  intro action hAction system next hWithin hStep taskId hLe
  refine tasks_of_step hStep ?_ (hWithin taskId hLe)
  intro hBegins
  have hSmall := List.all_eq_true.mp hIds action hAction
  rw [hBegins] at hSmall
  have hLt : taskId < number := by simpa using hSmall
  exact absurd hLt (Nat.not_lt.mpr hLe)

/- No task has begun in the first system. -/
theorem within_initial (number : Nat) :
    System.initial.Within number :=
  fun _ _ => rfl

/-
  The tasks behind executed actions have ended when those
  that the actions begin have.
-/
theorem ended_of_execute
    {registry : Registry}
    {actions : List Action}
    {system : System}
    (hSystem :
      execute (System.step registry) actions .initial =
        some system)
    {number : Nat}
    (hIds :
      (actions.all fun action =>
        action.begins.all fun taskId => taskId < number) = true)
    (hEnded :
      ((List.range number).all fun taskId =>
        (system.tasks taskId).all Task.ended) = true) :
    ∀ taskId task,
      system.tasks taskId = some task → task.ended = true := by
  intro taskId task hTask
  have hWithin :=
    holds_of_execute (within_of_actions hIds)
      (within_initial number) hSystem
  have hAll :=
    List.all_eq_true.mp hEnded taskId
      (List.mem_range.mpr (hWithin.lt hTask))
  rw [hTask] at hAll
  exact hAll

/- Runs of the server from the first request on. -/
def Reachable
    (registry : Registry)
    (allowed : System → Action → Prop)
    (system : System) :
    Prop :=
  Execution (System.step registry) allowed .initial system

end LegalAgent
