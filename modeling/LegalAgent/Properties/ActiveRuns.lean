import LegalAgent.Library.Pledge
import LegalAgent.Properties.Routine
import LegalAgent.System.Ownership

/-
  The active sets of the instances.

  A pump puts its run into the active set of its instance
  before it consumes the generator, and takes it out when the
  generator has ended in any way.  A run is therefore active
  on an instance only as long as one of its tasks still has to
  take it out.

  Key definitions include:
    * `Role.concerns`
    * `Task.Pledged`
    * `System.Enrolled`

  Key theorems include:
    * `surely_consume`
    * `pledged_request`
    * `preserves_enrolled`
-/

------------------------------------------------------------
-- Active Sets
------------------------------------------------------------

namespace LegalAgent

open Library

/- Whether a task with a role logs or drives a run. -/
def Role.concerns (runId : RunId) : Role → Prop
| .on job _ => job.run = runId ∨ job.log = runId
| .looking log _ _ => log = runId
| _ => False

/- Whether a task with a role may still register a run. -/
def Role.Enrolls : Role → Prop
| .fresh | .looking .. | .on _ .opening => True
| _ => False

/- A call that registers a run as active. -/
abbrev Op.Registers (runId : RunId) (op : Op) : Prop :=
  op = .activeAdd runId

/- A call that takes a run out of the active set. -/
abbrev Op.Releases (runId : RunId) (op : Op) : Prop :=
  op = .activeDiscard runId

/- Behind a call a task still concerns the run of its log. -/
theorem concerns_after
    {role : Role}
    {op : Op}
    (reply : Except Exn op.Reply)
    {runId : RunId}
    (hConcerns : role.concerns runId) :
    (role.after op reply).concerns runId := by
  cases role with
  | aside => cases hConcerns
  | fresh => cases hConcerns
  | watching threadId other => cases hConcerns
  | on job stage => exact hConcerns
  | looking log threadId synthetic =>
      simp only [Role.after]
      split
      · exact Or.inr hConcerns
      all_goals exact hConcerns

/- The run that a task registers is its own. -/
theorem concerns_of_registers
    {role : Role}
    {op : Op}
    {runId : RunId}
    (hAllows : role.Allows op)
    (hRegisters : op.Registers runId) :
    role.Enrolls ∧ role.concerns runId := by
  cases hRegisters
  cases hAllows with
  | on hStage =>
      cases hStage
      exact ⟨trivial, Or.inl rfl⟩
  | lookingAdd => exact ⟨trivial, rfl⟩

/- Only a task that may register a run goes on as one. -/
theorem enrolls_before
    {role : Role}
    {op : Op}
    {reply : Except Exn op.Reply}
    (hAllows : role.Allows op)
    (hEnrolls : (role.after op reply).Enrolls) :
    role.Enrolls := by
  cases hAllows with
  | on hStage =>
      cases hStage with
      | openingCancel | openingSeq | openingLog
      | openingActive => exact trivial
      | closingLog =>
          rcases reply with exn | value
          · cases hEnrolls
          · simp only [Role.after, Stage.after] at hEnrolls
            split at hEnrolls <;> cases hEnrolls
      | drivingNext =>
          rcases reply with exn | _ | ⟨_ | _, _⟩ <;>
            cases hEnrolls
      | finalizingCommit =>
          rcases reply with exn | _ | _ <;> cases hEnrolls
      | choosingReject | choosingApprove | drivingFail
      | finalizingForged | stoppingEnd | failingEnd | leftEnd =>
          rcases reply with exn | _ | _ <;> cases hEnrolls
      | _ => cases reply <;> cases hEnrolls
  | freshOpen | freshActive | freshRead => exact trivial
  | lookingActive | lookingAdd | lookingDiscard | lookingRead
  | lookingSeq | lookingLog => exact trivial
  | watchingRunning | watchingPaused =>
      rcases reply with exn | _ | _ <;> cases hEnrolls
  | _ => cases hEnrolls

/- An instance that keeps its active set keeps all of them. -/
theorem active_setInstance
    {world : World}
    {inst : InstanceId}
    {instance' : Instance}
    (hSame : instance'.active = (world.instances inst).active)
    (other : InstanceId) :
    ((world.setInstance inst instance').instances
          other).active =
      (world.instances other).active := by
  simp only [World.setInstance]
  split
  · rename_i hEq
    rw [hEq, hSame]
  · rfl

/- The active sets behind a call. -/
theorem active_of_exec
    {inst : InstanceId}
    {op : Op}
    {world world' : World}
    {value : op.Reply}
    (hExec : exec inst op world = (.ok value, world'))
    {other : InstanceId}
    {runId : RunId}
    (hActive : runId ∈ (world'.instances other).active) :
    (runId ∈ (world.instances other).active ∧
        ¬(op.Releases runId ∧ inst = other)) ∨
      op.Registers runId ∧ inst = other := by
  have hWorld : (exec inst op world).2 = world' := by
    rw [hExec]
  cases op with
  | cancelsCreate other' =>
      cases hExec
      left
      refine ⟨?_, by rintro ⟨⟨⟩, -⟩⟩
      rw [World.createCancel, active_setInstance] at hActive
      · exact hActive
      · rfl
  | cancelsSetdefault other' =>
      left
      refine ⟨?_, by rintro ⟨⟨⟩, -⟩⟩
      simp only [exec] at hExec
      split at hExec
      · cases hExec
        rw [World.createCancel, active_setInstance] at hActive
        · exact hActive
        · rfl
      · cases hExec
        exact hActive
  | cancelsPop other' =>
      cases hExec
      left
      refine ⟨?_, by rintro ⟨⟨⟩, -⟩⟩
      rw [active_setInstance] at hActive
      · exact hActive
      · rfl
  | activeAdd other' =>
      cases hExec
      simp only [World.setInstance] at hActive
      split at hActive
      · rename_i hEq
        rcases List.mem_insert_iff.mp hActive with rfl | hMem
        · exact Or.inr ⟨rfl, hEq.symm⟩
        · left
          rw [hEq]
          exact ⟨hMem, by rintro ⟨⟨⟩, -⟩⟩
      · exact Or.inl ⟨hActive, by rintro ⟨⟨⟩, -⟩⟩
  | activeDiscard other' =>
      cases hExec
      left
      simp only [World.setInstance] at hActive
      split at hActive
      · rename_i hEq
        rcases List.mem_filter.mp hActive with ⟨hMem, hNe⟩
        rw [hEq]
        refine ⟨hMem, ?_⟩
        rintro ⟨⟨⟩, -⟩
        simp at hNe
      · rename_i hNe
        refine ⟨hActive, ?_⟩
        rintro ⟨-, rfl⟩
        exact hNe rfl
  | cancelsGet other' =>
      cases hExec
      exact Or.inl ⟨hActive, by rintro ⟨⟨⟩, -⟩⟩
  | flagSet flag =>
      cases hExec
      exact Or.inl ⟨hActive, by rintro ⟨⟨⟩, -⟩⟩
  | flagIsSet flag =>
      cases hExec
      exact Or.inl ⟨hActive, by rintro ⟨⟨⟩, -⟩⟩
  | _ =>
      left
      rw [← hWorld] at hActive
      exact ⟨hActive, by rintro ⟨⟨⟩, -⟩⟩

------------------------------------------------------------
-- Pledges Of The Tasks
------------------------------------------------------------

/-
  A task that may still register a run takes it out of the
  active set whenever it has put it in.
-/
def Task.Pledged (task : Task) : Prop :=
  ∀ runId,
    task.program.Pledged Role.after Role.Enrolls
      (Op.Registers runId) (Op.Releases runId) task.phase.role

/- A pump takes its run out, whatever its generator does. -/
theorem surely_consume
    (threadId : ThreadId)
    (runId : RunId)
    (sawTerminal : Bool)
    (lastName : Option EventName)
    (generator : Driver Unit) :
    (RunManager.consume threadId runId sawTerminal lastName
        generator).Surely
      (Op.Releases runId) := by
  induction generator generalizing sawTerminal lastName with
  | ret result => exact Or.inl rfl
  | call op next ih =>
      exact Or.inr fun reply => ih reply sawTerminal lastName
  | yield event next ih =>
      right
      intro reply
      cases reply with
      | ok value => exact ih (.ok ()) _ _
      | error exn =>
          apply Gen.surely_andThen
          exact Or.inl rfl

/- The program of a new run keeps its pledge. -/
theorem pledged_start
    (registry : Registry)
    (threadId : ThreadId)
    (message : Text)
    (model : Option Text)
    (script : List GraphStep)
    (runId : RunId) :
    (RunManager.start registry threadId message model
        script).Pledged
      Role.after Role.Enrolls (Op.Registers runId)
      (Op.Releases runId) Role.fresh := by
  refine Gen.pledged_call (by rintro ⟨⟩) ?_
  intro opened
  cases opened with
  | error exn => exact trivial
  | ok opened =>
      refine Gen.pledged_call (by rintro ⟨⟩) ?_
      intro created
      cases created with
      | error exn => exact trivial
      | ok created =>
          refine Gen.pledged_call (by rintro ⟨⟩) ?_
          intro drawn
          cases drawn with
          | error exn => exact trivial
          | ok seq =>
              refine Gen.pledged_call (by rintro ⟨⟩) ?_
              intro logged
              cases logged with
              | error exn => exact Gen.pledged_of_dead id
              | ok logged =>
                  intro _
                  constructor
                  · rintro ⟨⟩ value
                    exact surely_consume threadId _ _ _ _
                  · intro reply
                    cases reply <;> exact Gen.pledged_of_dead id

/- A program that registers no run. -/
abbrev Driver.Spares
    {α : Type}
    (runId : RunId)
    (program : Driver α) :
    Prop :=
  program.Only (fun op => ¬op.Registers runId) (fun _ => True)
    fun _ => True

theorem spares_lastCall
    {runId : RunId}
    {op : Op}
    (hOp : ¬op.Registers runId) :
    (call op : Driver op.Reply).Spares runId :=
  only_lastCall hOp

theorem spares_epilogue
    {runId : RunId}
    (threadId : ThreadId)
    (log : RunId)
    (sawTerminal : Bool)
    (lastName : Option EventName) :
    (RunManager.epilogue threadId log sawTerminal
        lastName).Spares
      runId := by
  refine only_call (by rintro ⟨⟩) ?_
  intro _
  split
  · have hRead :
        (RunService.exceptException (call (.getRun log))
            (pure none)).Spares
          runId :=
      only_exceptException (spares_lastCall (by rintro ⟨⟩))
        trivial
    refine Gen.only_bind hRead ?_
    intro run _
    split
    · refine only_call (by rintro ⟨⟩) ?_
      intro seq
      exact spares_lastCall (by rintro ⟨⟩)
    · exact trivial
  · exact trivial

/- A request to stop a run registers none. -/
theorem spares_interrupt
    {runId : RunId}
    (other : RunId) :
    (RunManager.interrupt other).Spares runId := by
  have hPush :
      ∀ threadId,
        (RunManager.pushTerminal other threadId).Spares
          runId := by
    intro threadId
    refine only_call (by rintro ⟨⟩) ?_
    intro seq
    exact spares_lastCall (by rintro ⟨⟩)
  refine only_call (by rintro ⟨⟩) ?_
  intro run
  split
  · exact trivial
  · have hCancel :
        (RunService.requestCancel other).Spares runId := by
      refine only_call (by rintro ⟨⟩) ?_
      intro flag
      cases flag with
      | none => exact trivial
      | some flag =>
          refine only_call (by rintro ⟨⟩) ?_
          intro _
          exact trivial
    refine Gen.only_bind hCancel ?_
    intro cancelled _
    split
    · exact trivial
    · refine only_call (by rintro ⟨⟩) ?_
      intro won
      split
      · exact hPush _
      · exact trivial
  · have hPaused :
        ∀ threadId,
          (RunService.interruptPaused threadId other).Spares
            runId := by
      intro threadId
      refine only_call (by rintro ⟨⟩) ?_
      intro won
      split
      · refine only_call (by rintro ⟨⟩) ?_
        intro _
        refine only_call (by rintro ⟨⟩) ?_
        intro _
        refine
          Gen.only_bind (spares_lastCall (by rintro ⟨⟩)) ?_
        intro _ _
        exact trivial
      · exact trivial
    refine Gen.only_bind (hPaused _) ?_
    intro won _
    split
    · exact hPush _
    · exact trivial
  · exact trivial

/- The program of a decision keeps its pledge. -/
theorem pledged_resume
    (registry : Registry)
    (threadId : ThreadId)
    (approve : Bool)
    (approvedIds : Option (List Text))
    (script : List GraphStep)
    (runId : RunId) :
    (RunManager.resume registry threadId approve approvedIds
        script).Pledged
      Role.after Role.Enrolls (Op.Registers runId)
      (Op.Releases runId) Role.fresh := by
  refine Gen.pledged_call (by rintro ⟨⟩) ?_
  intro found
  rcases found with exn | active
  · exact trivial
  · rcases active with _ | ⟨log, status⟩
    · exact trivial
    · cases status with
      | awaitingApproval =>
          intro _
          constructor
          · rintro ⟨⟩ value
            exact surely_consume threadId _ _ _ _
          · intro reply
            cases reply with
            | error exn => exact trivial
            | ok value =>
                refine Gen.pledged_call (by rintro ⟨⟩) ?_
                intro found
                rcases found with exn | active
                · exact
                    Gen.pledged_of_only
                      (spares_epilogue threadId log _ _) _
                · rcases active with _ | ⟨other, status⟩
                  · exact
                      Gen.pledged_of_only
                        (spares_epilogue threadId log _ _) _
                  · cases status with
                    | awaitingApproval =>
                        exact Gen.pledged_of_dead id
                    | _ =>
                        exact
                          Gen.pledged_of_only
                            (spares_epilogue threadId log _ _) _
      | _ => exact trivial

/- Every request keeps its pledge. -/
theorem pledged_request
    (registry : Registry)
    (inst : InstanceId)
    (request : Request) :
    (request.task registry inst).Pledged := by
  intro runId
  cases request with
  | createThread title => exact Gen.pledged_of_dead id
  | fork parentId forkPoint => exact Gen.pledged_of_dead id
  | stream runId polls cursor => exact Gen.pledged_of_dead id
  | start threadId message model script =>
      exact pledged_start registry threadId message model _ _
  | resume threadId approve approvedIds script =>
      exact
        pledged_resume registry threadId approve approvedIds _ _
  | interrupt other =>
      exact
        Gen.pledged_of_only (spares_interrupt other) Role.fresh

------------------------------------------------------------
-- Attended Runs
------------------------------------------------------------

/- A task that concerns a run and still has to release it. -/
structure Task.Attends
    (task : Task)
    (inst : InstanceId)
    (runId : RunId) :
    Prop where
  here : task.inst = inst
  concerns : task.phase.role.concerns runId
  surely : task.program.Surely (Op.Releases runId)

/-
  Every active run of an instance has a task of the instance
  that attends it, and the tasks keep their pledges.
-/
structure System.Enrolled (system : System) : Prop where
  pledged :
    ∀ taskId task,
      system.tasks taskId = some task → task.Pledged
  active :
    ∀ inst runId,
      runId ∈ (system.world.instances inst).active →
        ∃ taskId task,
          system.tasks taskId = some task ∧
            task.Attends inst runId

/- A task has not ended before it releases what it attends. -/
theorem not_ended_of_attends
    {task : Task}
    {inst : InstanceId}
    {runId : RunId}
    (hAttends : task.Attends inst runId) :
    task.ended = false := by
  have hSurely := hAttends.surely
  unfold Task.ended
  split
  · rename_i hProgram
    rw [hProgram] at hSurely
    cases hSurely
  · rfl

section Steps

variable {registry : Registry}
variable {allowed : System → Action → Prop}
variable {system : System} {taskId : TaskId} {fault : Bool}
variable {task : Task} {op : Op} {reply : Except Exn op.Reply}
variable {world' : World}
variable {next : Except Exn op.Reply → Driver Unit}

/- A task keeps its pledge behind a call. -/
theorem pledged_of_call
    (hAllows : task.phase.role.Allows op)
    (hProgram : task.program = .call op next)
    (hPledged : task.Pledged) :
    ({ task with
        program := next reply
        phase := task.phase.after op reply } :
      Task).Pledged := by
  intro runId
  have hMine := hPledged runId
  rw [hProgram] at hMine
  by_cases hLive : task.phase.role.Enrolls
  · exact (hMine hLive).2 reply
  · apply Gen.pledged_of_dead
    intro hAfter
    exact hLive (enrolls_before hAllows hAfter)

/- A task still attends a run that its call does not release. -/
theorem attends_of_call
    (hProgram : task.program = .call op next)
    {inst : InstanceId}
    {runId : RunId}
    (hKept : ¬op.Releases runId)
    (hAttends : task.Attends inst runId) :
    ({ task with
        program := next reply
        phase := task.phase.after op reply } :
      Task).Attends
      inst runId where
  here := hAttends.here
  concerns := concerns_after reply hAttends.concerns
  surely := by
    have hSurely := hAttends.surely
    rw [hProgram] at hSurely
    exact hSurely.resolve_left hKept reply

/- A task attends the run that it has just registered. -/
theorem attends_of_registers
    {value : op.Reply}
    (hAllows : task.phase.role.Allows op)
    (hProgram : task.program = .call op next)
    (hPledged : task.Pledged)
    {runId : RunId}
    (hRegisters : op.Registers runId) :
    ({ task with
        program := next (.ok value)
        phase := task.phase.after op (.ok value) } :
      Task).Attends
      task.inst runId where
  here := rfl
  concerns := by
    apply concerns_after
    exact (concerns_of_registers hAllows hRegisters).2
  surely := by
    have hMine := hPledged runId
    rw [hProgram] at hMine
    have hLive := (concerns_of_registers hAllows hRegisters).1
    exact (hMine hLive).1 hRegisters value

/- The active runs behind a call are attended. -/
theorem enrolled_of_call
    (hCall :
      Calls registry allowed system taskId fault task op reply
        world')
    (hProgram : task.program = .call op next)
    (hEnrolled : system.Enrolled)
    {inst : InstanceId}
    {runId : RunId}
    (hActive : runId ∈ (world'.instances inst).active) :
    ∃ otherId other,
      ({ system with world := world' }.setTask taskId
            (some
              { task with
                program := next reply
                phase := task.phase.after op reply })).tasks
          otherId =
          some other ∧
        other.Attends inst runId := by
  have hOld :
      runId ∈ (system.world.instances inst).active →
        ¬(op.Releases runId ∧ task.inst = inst) →
          ∃ otherId other,
            ({ system with world := world' }.setTask taskId
                  (some
                    { task with
                      program := next reply
                      phase :=
                        task.phase.after op reply })).tasks
                otherId =
                some other ∧
              other.Attends inst runId := by
    intro hMem hKept
    rcases hEnrolled.active inst runId hMem with
      ⟨otherId, other, hOther, hAttends⟩
    by_cases hEq : otherId = taskId
    · subst hEq
      rw [hCall.present, Option.some_inj] at hOther
      subst hOther
      refine ⟨otherId, _, if_pos rfl, ?_⟩
      apply attends_of_call hProgram ?_ hAttends
      intro hReleases
      exact hKept ⟨hReleases, hAttends.here⟩
    · exact
        ⟨otherId, other, present_of_other hEq hOther, hAttends⟩
  have hFailed :
      op.kind ≠ .memory →
        ¬(op.Releases runId ∧ task.inst = inst) := by
    rintro hKind ⟨rfl, -⟩
    exact hKind rfl
  have hPossible := hCall.executes.possible
  have hExecutes := hCall.executes
  cases hExecutes with
  | done hExec =>
      rcases active_of_exec hExec hActive with
        ⟨hMem, hKept⟩ | ⟨hRegisters, rfl⟩
      · exact hOld hMem hKept
      · refine ⟨taskId, _, if_pos rfl, ?_⟩
        exact
          attends_of_registers hCall.allows hProgram
            (hEnrolled.pledged taskId task hCall.present)
            hRegisters
  | refused hExec =>
      exact hOld hActive (hFailed (hPossible.error _ rfl).2)
  | fault hFault =>
      exact hOld hActive (hFailed (hPossible.error _ rfl).2)

/- Every step keeps the active runs attended. -/
theorem preserves_enrolled :
    Preserves registry allowed System.Enrolled where
  request := by
    intro system taskId inst request _ _ hNone hEnrolled
    constructor
    · exact
        tasks_of_setTask hEnrolled.pledged
          (pledged_request registry inst request)
    · intro inst' runId hActive
      rcases hEnrolled.active inst' runId hActive with
        ⟨otherId, other, hOther, hAttends⟩
      exact
        ⟨otherId, other, present_of_added hNone hOther,
          hAttends⟩
  call := by
    intro system taskId fault task op reply world' next hCall
      hProgram hEnrolled
    constructor
    · exact
        tasks_of_setTask hEnrolled.pledged
          (pledged_of_call hCall.allows hProgram
            (hEnrolled.pledged taskId task hCall.present))
    · intro inst runId hActive
      exact enrolled_of_call hCall hProgram hEnrolled hActive
  sent := by
    intro system taskId task event next _ hTask hProgram hRole
      hEnrolled
    constructor
    · refine tasks_of_setTask hEnrolled.pledged ?_
      intro runId
      apply Gen.pledged_of_dead
      rw [hRole]
      exact id
    · intro inst runId hActive
      rcases hEnrolled.active inst runId hActive with
        ⟨otherId, other, hOther, hAttends⟩
      refine
        ⟨otherId, other, present_of_other ?_ hOther, hAttends⟩
      rintro rfl
      have hConcerns := hAttends.concerns
      rw [hTask, Option.some_inj] at hOther
      rw [← hOther, hRole] at hConcerns
      cases hConcerns
  advance := by
    intro system seconds _ _ hEnrolled
    exact ⟨hEnrolled.pledged, hEnrolled.active⟩
  heartbeat := by
    intro system inst _ _ hEnrolled
    exact ⟨hEnrolled.pledged, hEnrolled.active⟩
  sweep := by
    intro system action selects _ _ _ hEnrolled
    exact ⟨hEnrolled.pledged, hEnrolled.active⟩
  collect := by
    intro system retention _ _ hEnrolled
    exact ⟨hEnrolled.pledged, hEnrolled.active⟩
  crash := by
    intro system inst _ _ hEnrolled
    constructor
    · intro taskId task hTask
      exact
        hEnrolled.pledged taskId task (of_survivors hTask).1
    · intro other runId hActive
      simp only [World.crash, World.setInstance] at hActive
      split at hActive
      · cases hActive
      · rename_i hNe
        rcases hEnrolled.active other runId hActive with
          ⟨taskId, task, hTask, hAttends⟩
        refine ⟨taskId, task, ?_, hAttends⟩
        simp only [System.survivors, hTask]
        rw [Option.filter_some, if_pos]
        simpa [hAttends.here] using hNe

end Steps

end LegalAgent
