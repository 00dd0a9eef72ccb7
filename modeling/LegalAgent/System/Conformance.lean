import LegalAgent.System.Model
import LegalAgent.Service.Effects

/-
  Every task of a reachable system conforms to the service
  protocol, and so a step of the system is a call that the
  role of a task allows, an event sent to a client, or an
  action of the maintenance.

  Key definitions include:
    * `Task.Conforms`
    * `Executes`
    * `Turns`

  Key theorems include:
    * `exec_possible`
    * `conforms_of_reachable`
    * `turns_of_step`
-/

------------------------------------------------------------
-- Executed Calls
------------------------------------------------------------

namespace LegalAgent

open Library

/- The failures of a statement are exceptions. -/
def Statement.Raises {α : Type} (statement : Statement α) : Prop :=
  ∀ db exn,
    statement db = .error exn → exn.isException = true

theorem raises_nextSeq (threadId : ThreadId) :
    (nextSeq threadId).Raises := by
  intro db exn hError
  unfold nextSeq at hError
  split at hError <;> cases hError
  rfl

theorem raises_openRun
    (threadId : ThreadId)
    (model : Option Text) :
    (openRun threadId model).Raises := by
  intro db exn hError
  unfold openRun at hError
  repeat' split at hError
  all_goals cases hError
  all_goals rfl

theorem raises_setRunStatus
    (runId : RunId)
    (status : RunStatus)
    (ended : Bool) :
    (setRunStatus runId status ended).Raises := by
  intro db exn hError
  unfold setRunStatus at hError
  repeat' split at hError
  all_goals cases hError
  rfl

theorem raises_tryTransition
    (runId : RunId)
    (fromStatus toStatus : RunStatus)
    (ended : Bool) :
    (tryTransition runId fromStatus toStatus ended).Raises := by
  intro db exn hError
  unfold tryTransition at hError
  repeat' split at hError
  all_goals cases hError
  rfl

theorem raises_insertMessage
    (threadId : ThreadId)
    (new : NewMessage) :
    (insertMessage threadId new).Raises := by
  intro db exn hError
  unfold insertMessage at hError
  split at hError
  · rename_i exn' hNext
    cases hError
    exact raises_nextSeq threadId _ _ hNext
  · dsimp only at hError
    split at hError <;> cases hError
    rfl

theorem raises_linkCitations
    (messageId : MessageId)
    (ids : List Text)
    {db : Db}
    {exn : Exn}
    (hError :
      ids.foldlM (fun db id => linkCitation messageId id db)
          db =
        .error exn) :
    exn.isException = true := by
  induction ids generalizing db with
  | nil => cases hError
  | cons id ids ih =>
      simp only [List.foldlM_cons, bind,
        Except.bind] at hError
      split at hError
      · rename_i exn' hOne
        cases hError
        unfold linkCitation at hOne
        repeat' split at hOne
        all_goals cases hOne
        rfl
      · exact ih hError

theorem raises_commitAgentAnswer
    (threadId : ThreadId)
    (runId : RunId)
    (contentMd : Text)
    (citationIds : List Text)
    (parentId : Option MessageId)
    (model : Option Text) :
    (commitAgentAnswer threadId runId contentMd citationIds
      parentId model).Raises := by
  intro db exn hError
  unfold commitAgentAnswer at hError
  split at hError
  · cases hError
  · dsimp only at hError
    split at hError
    · rename_i exn' hInsert
      cases hError
      exact raises_insertMessage _ _ _ _ hInsert
    · split at hError
      · rename_i exn' hLink
        cases hError
        exact raises_linkCitations _ _ hLink
      · cases hError

theorem raises_forkThread
    (parentId : ThreadId)
    (forkPoint : MessageId) :
    (forkThread parentId forkPoint).Raises := by
  intro db exn hError
  unfold forkThread at hError
  dsimp only at hError
  split at hError <;> cases hError
  rfl

theorem raises_graphNext
    (threadId : ThreadId)
    (state : GraphState)
    (step : Option GraphStep) :
    (graphNext threadId state step).Raises := by
  intro db exn hError
  unfold graphNext at hError
  repeat' split at hError
  all_goals cases hError
  all_goals rfl

theorem raises_approvePartial
    (threadId : ThreadId)
    (approved : List Text) :
    (approvePartial threadId approved).Raises := by
  intro db exn hError
  unfold approvePartial at hError
  dsimp only at hError
  repeat' split at hError
  all_goals cases hError

/- A statement that fails through a call fails itself. -/
theorem error_of_onDb
    {α : Type}
    {world : World}
    {statement : Statement α}
    {exn : Exn}
    (hError : (world.onDb statement).1 = .error exn) :
    statement world.db = .error exn := by
  simp only [World.onDb, Statement.commit] at hError
  split at hError
  · cases hError
  · rename_i exn' hExn
    cases hError
    exact hExn

/- The replies of executed calls are possible. -/
theorem exec_possible
    (inst : InstanceId)
    (op : Op)
    (world : World) :
    Possible op (exec inst op world).1 := by
  constructor
  · intro exn hError
    cases op with
    | nextSeq threadId =>
        exact
          ⟨raises_nextSeq _ _ _ (error_of_onDb hError),
            nofun⟩
    | openRun threadId model =>
        exact
          ⟨raises_openRun _ _ _ _ (error_of_onDb hError),
            nofun⟩
    | setRunStatus runId status ended =>
        exact
          ⟨raises_setRunStatus _ _ _ _ _
            (error_of_onDb hError), nofun⟩
    | tryTransition runId fromStatus toStatus ended =>
        exact
          ⟨raises_tryTransition _ _ _ _ _ _
            (error_of_onDb hError), nofun⟩
    | addMessage threadId new =>
        exact
          ⟨raises_insertMessage _ _ _ _
            (error_of_onDb hError), nofun⟩
    | commitAgentAnswer threadId runId contentMd citationIds
        parentId model =>
        exact
          ⟨raises_commitAgentAnswer _ _ _ _ _ _ _ _
            (error_of_onDb hError), nofun⟩
    | forkThread parentId forkPoint =>
        exact
          ⟨raises_forkThread _ _ _ _ (error_of_onDb hError),
            nofun⟩
    | graphNext threadId state step =>
        exact
          ⟨raises_graphNext _ _ _ _ _ (error_of_onDb hError),
            nofun⟩
    | approvePartial threadId approved =>
        exact
          ⟨raises_approvePartial _ _ _ _
            (error_of_onDb hError), nofun⟩
    | cancelsSetdefault runId =>
        simp only [exec] at hError
        split at hError <;> cases hError
    | _ => cases hError
  · cases op with
    | graphNext threadId state step =>
        cases step with
        | some step => trivial
        | none =>
            simp only [exec, World.onDb, Statement.commit,
              graphNext]
            cases state <;> trivial
    | _ => trivial

/- A call that fails leaves the world as it was. -/
theorem world_of_error
    {inst : InstanceId}
    {op : Op}
    {world world' : World}
    {exn : Exn}
    (hExec : exec inst op world = (.error exn, world')) :
    world' = world := by
  have hDb :
      ∀ {α : Type} (statement : Statement α),
        world.onDb statement = (.error exn, world') →
          world' = world := by
    intro α statement hOnDb
    simp only [World.onDb, Statement.commit] at hOnDb
    split at hOnDb
    · cases hOnDb
    · exact (Prod.mk.inj hOnDb).2.symm
  cases op <;> first
    | exact hDb _ hExec
    | cases hExec
    | (simp only [exec] at hExec; split at hExec <;> cases hExec)

/-
  A reply of a call and the world behind it.  A call that
  fails, for reasons of its own or by a fault, changes
  nothing.
-/
inductive Executes
    (inst : InstanceId)
    (op : Op)
    (world : World) :
    Bool → Except Exn op.Reply → World → Prop where
  | done {value world'}
      (hExec : exec inst op world = (.ok value, world')) :
      Executes inst op world false (.ok value) world'
  | refused {exn}
      (hExec : exec inst op world = (.error exn, world)) :
      Executes inst op world false (.error exn) world
  | fault {exn}
      (hFault : op.kind.fault = some exn) :
      Executes inst op world true (.error exn) world

/- Executed calls have possible replies. -/
theorem Executes.possible
    {inst : InstanceId}
    {op : Op}
    {world world' : World}
    {fault : Bool}
    {reply : Except Exn op.Reply}
    (hExecutes : Executes inst op world fault reply world') :
    Possible op reply := by
  cases hExecutes with
  | done hExec =>
      have hPossible := exec_possible inst op world
      rwa [hExec] at hPossible
  | refused hExec =>
      have hPossible := exec_possible inst op world
      rwa [hExec] at hPossible
  | fault hFault =>
      constructor
      · intro exn hError
        cases hError
        cases hKind : op.kind <;>
          rw [hKind] at hFault <;> cases hFault
        all_goals exact ⟨rfl, nofun⟩
      · cases op with
        | graphNext threadId state step =>
            cases step <;> trivial
        | _ => trivial

------------------------------------------------------------
-- Conforming Tasks
------------------------------------------------------------

/- The rest of a task follows the protocol to an end. -/
def Task.Conforms (task : Task) : Prop :=
  ∃ quiet,
    (quiet = false → task.phase.role = .aside) ∧
      task.program.FollowsTask quiet task.phase taskEnd

/- A conforming task ends where its role may end. -/
theorem mayEnd_of_ended
    {task : Task}
    (hConforms : task.Conforms)
    (hEnded : task.ended = true) :
    task.phase.role.mayEnd = true := by
  rcases task with ⟨inst, request, program, phase, sent⟩
  rcases hConforms with ⟨quiet, -, hFollows⟩
  cases program with
  | ret result => exact hFollows
  | call op next => cases hEnded
  | yield event next => cases hEnded

theorem follows_createThread (title : Option Text) :
    Driver.FollowsTask
      (do let _ ← call (.createThread title))
      true ⟨.aside, none⟩ taskEnd :=
  follows_taskCall .asideCreate rfl (fun _ => rfl)
    fun _ _ => rfl

/- Tasks conform as they begin. -/
theorem conforms_request
    (registry : Registry)
    (inst : InstanceId)
    (request : Request) :
    (request.task registry inst).Conforms := by
  cases request with
  | createThread title =>
      exact ⟨true, nofun, follows_createThread title⟩
  | fork parentId forkPoint =>
      exact ⟨true, nofun, follows_fork parentId forkPoint⟩
  | start threadId message model script =>
      exact
        ⟨true, nofun,
          follows_start registry threadId message model
            script⟩
  | resume threadId approve approvedIds script =>
      exact
        ⟨true, nofun,
          follows_resume registry threadId approve approvedIds
            script⟩
  | interrupt runId =>
      exact ⟨true, nofun, follows_interrupt runId⟩
  | stream runId polls cursor =>
      exact
        ⟨false, fun _ => rfl,
          follows_stream runId polls cursor⟩

/-
  A turn of a task: a call that its role allows, or an event
  for the client of a task without a run.
-/
inductive Turns
    (task : Task)
    (fault : Bool)
    (world : World) :
    Task → World → Prop where
  | called {op reply world' next}
      (hProgram : task.program = .call op next)
      (hAllows : task.phase.role.Allows op)
      (hDrawn : op.logsDrawn task.phase.drawn)
      (hExecutes :
        Executes task.inst op world fault reply world') :
      Turns task fault world
        { task with
          program := next reply
          phase := task.phase.after op reply }
        world'
  | sent {event next}
      (hProgram : task.program = .yield event next)
      (hRole : task.phase.role = .aside) :
      Turns task fault world
        { task with
          program := next (.ok ())
          sent := task.sent ++ [event] }
        world

/- A task without a run stays so. -/
theorem aside_after
    {phase : Phase}
    (hRole : phase.role = .aside)
    (op : Op)
    (reply : Except Exn op.Reply) :
    (phase.after op reply).role = .aside := by
  simp [Phase.after, hRole, Role.after]

/- A conforming task turns as the protocol says. -/
theorem turns_of_turn
    {task task' : Task}
    {fault : Bool}
    {world world' : World}
    (hConforms : task.Conforms)
    (hTurn : task.turn fault world = some (task', world')) :
    Turns task fault world task' world' ∧ task'.Conforms := by
  rcases task with ⟨inst, request, program, phase, sent⟩
  rcases hConforms with ⟨quiet, hQuiet, hFollows⟩
  cases program with
  | ret result => cases hTurn
  | call op next =>
      rcases hFollows with ⟨⟨hAllows, hDrawn⟩, hNext⟩
      have hTurns :
          ∀ reply world',
            Executes inst op world fault reply world' →
              Turns
                  ⟨inst, request, .call op next, phase, sent⟩
                  fault world
                  ⟨inst, request, next reply,
                    phase.after op reply, sent⟩
                  world' ∧
                Task.Conforms
                  ⟨inst, request, next reply,
                    phase.after op reply, sent⟩ := by
        intro reply world' hExecutes
        refine
          ⟨.called rfl hAllows hDrawn hExecutes, quiet, ?_,
            hNext reply hExecutes.possible⟩
        intro hFalse
        exact aside_after (hQuiet hFalse) op reply
      simp only [Task.turn] at hTurn
      cases fault with
      | true =>
          simp only [if_true] at hTurn
          cases hFault : op.kind.fault with
          | none => simp [hFault] at hTurn
          | some exn =>
              simp only [hFault, Option.map_some] at hTurn
              cases hTurn
              exact hTurns _ _ (.fault hFault)
      | false =>
          simp only [Bool.false_eq_true, if_false] at hTurn
          cases hTurn
          rcases hExec : exec inst op world with
            ⟨exn | value, world'⟩
          · have hWorld := world_of_error hExec
            subst hWorld
            exact hTurns _ _ (.refused hExec)
          · exact hTurns _ _ (.done hExec)
  | yield event next =>
      rcases hFollows with ⟨hYields, -, hTaken, -⟩
      have hRole := hQuiet hYields
      simp only [Task.turn] at hTurn
      split at hTurn
      · cases hTurn
      · cases hTurn
        have hPhase :
            serviceProtocol.taken phase event = phase := by
          simp only [serviceProtocol]
          simp only at hRole
          rw [hRole]
        rw [hPhase] at hTaken ⊢
        exact
          ⟨.sent rfl hRole, false, fun _ => hRole, hTaken⟩

/- The tasks of a system conform. -/
def System.Conforms (system : System) : Prop :=
  ∀ taskId task,
    system.tasks taskId = some task → task.Conforms

/- Tasks still conform after a step. -/
theorem conforms_step
    {registry : Registry}
    {system next : System}
    {action : Action}
    (hConforms : system.Conforms)
    (hStep : system.step registry action = some next) :
    next.Conforms := by
  cases action with
  | request taskId inst request =>
      rcases of_request_step hStep with ⟨-, rfl⟩
      intro other task hTask
      simp only [System.setTask] at hTask
      split at hTask
      · cases hTask
        exact conforms_request registry inst request
      · exact hConforms other task hTask
  | turn taskId fault =>
      rcases of_turn_step hStep with
        ⟨task, task', world', hTask, hTurn, rfl⟩
      have hTurned :=
        turns_of_turn (hConforms taskId task hTask) hTurn
      intro other task'' hOther
      simp only [System.setTask] at hOther
      split at hOther
      · cases hOther
        exact hTurned.2
      · exact hConforms other task'' hOther
  | crash inst =>
      cases hStep
      intro taskId task hTask
      rw [Option.filter_eq_some_iff] at hTask
      exact hConforms taskId task hTask.1
  | _ =>
      cases hStep
      exact hConforms

/- The tasks of a reachable system conform. -/
theorem conforms_of_reachable
    {registry : Registry}
    {allowed : System → Action → Prop}
    {system : System}
    (hReachable : Reachable registry allowed system) :
    system.Conforms := by
  refine hReachable.invariant ?_ ?_
  · intro taskId task hTask
    cases hTask
  · intro state action next hConforms _ hStep
    exact conforms_step hConforms hStep

end LegalAgent
