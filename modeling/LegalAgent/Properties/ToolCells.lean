import LegalAgent.Properties.Status

/-
  Tool cells without a result.

  A task that may still add cells to its run, or still has to
  fill them, tends to the run.  A run that has ended with
  pending cells has a task that tends to it, unless the last
  such task forgot the cells.

  Key definitions include:
    * `Db.hasPending`
    * `Role.tends?`
    * `Forgets`
    * `Tidy`

  Key theorems include:
    * `no_pending_cells`
-/

------------------------------------------------------------
-- Pending Cells
------------------------------------------------------------

namespace LegalAgent

open Library

/- Whether a run has a tool cell without a result. -/
def Db.hasPending (db : Db) (runId : RunId) : Bool :=
  db.messages.any (Message.isPendingOf runId)

/- The run that a call may give a cell without a result. -/
def Op.opensCell : Op → Option RunId
| .addMessage _ new =>
    if new.role = .tool then some new.runId else none
| .setToolResult runId .. => some runId
| _ => none

/- The run whose cells a call fills. -/
def Op.fillsCells : Op → Option RunId
| .resolveOrphanToolCells runId _ => some runId
| _ => none

section Cells

variable {db db' : Db} {runId : RunId}

/- Updates that open no cell make no run pending. -/
theorem hasPending_of_map
    {change : Message → Message}
    (hMessages : db'.messages = db.messages.map change)
    (hChange :
      ∀ message,
        (change message).isPendingOf runId = true →
          message.isPendingOf runId = true)
    (hPending : db'.hasPending runId = true) :
    db.hasPending runId = true := by
  rw [Db.hasPending, hMessages, List.any_map,
    List.any_eq_true] at hPending
  rcases hPending with ⟨message, hMem, hMessage⟩
  rw [Db.hasPending, List.any_eq_true]
  exact ⟨message, hMem, hChange message hMessage⟩

/- Updates of some messages that open no cell. -/
theorem hasPending_of_updated
    {selects : Message → Bool}
    {change : Message → Message}
    (hPending :
      (db.updateMessages selects change).hasPending runId =
        true)
    (hChange :
      ∀ message,
        (change message).isPendingOf runId = true →
          message.isPendingOf runId = true) :
    db.hasPending runId = true := by
  refine hasPending_of_map rfl ?_ hPending
  intro message hMessage
  split at hMessage
  · exact hChange message hMessage
  · exact hMessage

/- A filled cell is not pending. -/
theorem not_isPendingOf_filled
    {message : Message}
    {content : Content}
    (hResult : message.toolResult = some content) :
    message.isPendingOf runId ≠ true := by
  rw [Message.isPendingOf, hResult]
  simp

/- Filled cells leave a run without pending ones. -/
theorem hasPending_resolved
    (db : Db)
    (runId : RunId)
    (marker : Text) :
    (db.updatePending runId fun message =>
        { message with
          toolResult := some (.str marker) }).hasPending
      runId =
      false := by
  rw [Db.hasPending, List.any_eq_false]
  intro message hMem
  rcases List.mem_map.mp hMem with ⟨old, -, rfl⟩
  split
  · exact not_isPendingOf_filled rfl
  · rename_i hNot
    exact hNot

/- A swept run has no pending cells, and no run gets any. -/
theorem hasPending_sweep
    {selects : Run → Bool}
    (hPending : (db.sweep selects).hasPending runId = true) :
    db.hasPending runId = true ∧
      (db.runs.get? runId).any selects = false := by
  rw [Db.hasPending, List.any_eq_true] at hPending
  rcases hPending with ⟨message, hMem, hMessage⟩
  rcases List.mem_map.mp hMem with ⟨old, hOld, rfl⟩
  split at hMessage
  · exact absurd hMessage (not_isPendingOf_filled rfl)
  · rename_i hSpared
    refine ⟨List.any_eq_true.mpr ⟨old, hOld, hMessage⟩, ?_⟩
    simp only [Message.isPendingOf, Message.isCellOf,
      Bool.and_eq_true, beq_iff_eq] at hMessage
    rcases hMessage with ⟨⟨hRun, hRole⟩, hNone⟩
    simpa [Db.sweeps, hRun, hRole, hNone] using hSpared

/- A run becomes pending by a call that opens a cell of it. -/
theorem hasPending_of_exec
    {inst : InstanceId}
    {op : Op}
    {world world' : World}
    {value : op.Reply}
    (hExec : exec inst op world = (.ok value, world'))
    (hPending : world'.db.hasPending runId = true) :
    (world.db.hasPending runId = true ∨
        op.opensCell = some runId) ∧
      op.fillsCells ≠ some runId := by
  have hAdded :
      ∀ new threadId seq db,
        world'.db.messages =
            world.db.messages ++
              [NewMessage.toMessage new db threadId seq] →
          world.db.hasPending runId = true ∨
            new.role = .tool ∧ new.runId = runId := by
    intro new threadId seq db hMessages
    rw [Db.hasPending, hMessages, List.any_append,
      Bool.or_eq_true] at hPending
    rcases hPending with hOld | hNew
    · exact Or.inl hOld
    · right
      simp only [List.any_cons, List.any_nil, Bool.or_false,
        Message.isPendingOf, Message.isCellOf,
        Bool.and_eq_true, beq_iff_eq] at hNew
      exact ⟨hNew.1.2, Option.some_inj.mp hNew.1.1⟩
  cases op with
  | addMessage threadId new =>
      refine ⟨?_, by rintro ⟨⟩⟩
      rcases value with ⟨messageId, seq⟩
      rcases of_insertMessage (statement_of_onDb hExec) with
        ⟨-, thread, db₁, -, -, hNext, -, hDb⟩
      rcases of_nextSeq hNext with ⟨_, -, -, rfl⟩
      rcases hAdded _ _ _ _ (congrArg Db.messages hDb) with
        hOld | ⟨hRole, hRun⟩
      · exact Or.inl hOld
      · right
        rw [Op.opensCell, if_pos hRole, hRun]
  | commitAgentAnswer threadId other contentMd citationIds
      parentId model =>
      refine ⟨Or.inl ?_, by rintro ⟨⟩⟩
      rcases of_commitAgentAnswer (statement_of_onDb hExec) with
        ⟨rfl, -, hDb⟩ |
          ⟨messageId, seq, links, db₁, rfl, -, hInsert, hDb⟩
      · rwa [hDb] at hPending
      · rcases of_insertMessage hInsert with
          ⟨-, thread, db₂, -, -, hNext, -, rfl⟩
        rcases of_nextSeq hNext with ⟨_, -, -, rfl⟩
        rcases hAdded _ _ _ _ (congrArg Db.messages hDb) with
          hOld | ⟨hRole, -⟩
        · exact hOld
        · cases hRole
  | setToolResult other toolCallId toolResult =>
      refine ⟨?_, by rintro ⟨⟩⟩
      by_cases hEq : other = runId
      · exact Or.inr (congrArg some hEq)
      · left
        cases hExec
        refine hasPending_of_map rfl ?_ hPending
        intro message hMessage
        split at hMessage
        · rename_i hSelected
          simp only [Message.isPendingOf, Message.isCellOf,
            Bool.and_eq_true, beq_iff_eq] at hMessage hSelected
          exact
            absurd
              (Option.some_inj.mp
                (hSelected.1.symm.trans hMessage.1.1)) hEq
        · exact hMessage
  | markPartialApproval other rejectedIds marker =>
      refine ⟨Or.inl ?_, by rintro ⟨⟩⟩
      cases hExec
      have hRejected :
          (world.db.rejectCells other rejectedIds
              marker).hasPending runId =
            true :=
        hasPending_of_updated hPending
          fun _ hMessage => hMessage
      exact
        hasPending_of_updated hRejected fun _ hMessage =>
          absurd hMessage (not_isPendingOf_filled rfl)
  | resolveOrphanToolCells other marker =>
      cases hExec
      constructor
      · exact
          Or.inl
            (hasPending_of_updated hPending fun _ hMessage =>
              absurd hMessage (not_isPendingOf_filled rfl))
      · intro hEq
        cases hEq
        have hResolved :=
          hasPending_resolved world.db runId marker
        exact absurd hPending (ne_true_of_eq_false hResolved)
  | setPendingApproval other state =>
      refine ⟨Or.inl ?_, by rintro ⟨⟩⟩
      cases hExec
      exact
        hasPending_of_updated hPending
          fun _ hMessage => hMessage
  | _ =>
      refine ⟨Or.inl ?_, by rintro ⟨⟩⟩
      have hMessages := (frames_of_exec hExec).messages rfl
      rwa [Db.hasPending, hMessages] at hPending

end Cells

------------------------------------------------------------
-- Tended Runs
------------------------------------------------------------

/-
  The stages in which a task may still add cells to its run,
  or has ended it and still has to fill them.
-/
def Stage.tends : Stage → Bool
| .opening | .opened _ | .erring false | .won ..
| .driving .. | .gated _ | .finalizing _ | .stopping ..
| .failing _ | .closing true _ => true
| _ => false

/- The run that a role tends to. -/
def Role.tends? : Role → Option RunId
| .on job stage => if stage.tends then some job.run else none
| _ => none

/- The stages of a writer that has no pending cell. -/
def Stage.cleared : Stage → Bool
| .opening | .opened _ | .erring false | .stopping _ true => true
| _ => false

/- The run that a role writes without a pending cell. -/
def Role.cleared? : Role → Option RunId
| .on job stage => if stage.cleared then some job.run else none
| _ => none

/- The running run that a call would end. -/
def Op.endsRunning : Op → Option RunId
| .tryTransition runId .running _ _ => some runId
| .commitAgentAnswer _ runId .. => some runId
| _ => none

section Roles

variable {role : Role} {op : Op} {value : op.Reply}
variable {runId : RunId}

/- A role of a stage that writes. -/
theorem writer?_of_writes
    {job : Job}
    {stage : Stage}
    (hWrites : stage.writes = true) :
    (Role.on job stage).writer? = some job.run := by
  rw [Role.writer?, if_pos hWrites]

/- A cell is opened by a task that drives the run. -/
theorem driving_of_opensCell
    (hAllows : role.Allows op)
    (hOpens : op.opensCell = some runId) :
    ∃ job root state todo,
      role = .on job (.driving root state todo) ∧
        job.run = runId := by
  cases hAllows with
  | on hStage =>
      cases hStage with
      | openedAsk => cases hOpens
      | drivingCell =>
          cases hOpens
          exact ⟨_, _, _, _, rfl, rfl⟩
      | drivingResult =>
          cases hOpens
          exact ⟨_, _, _, _, rfl, rfl⟩
      | _ => cases hOpens
  | _ => cases hOpens

/- A task that opened a cell tends to its run. -/
theorem tends_of_opensCell
    (value : op.Reply)
    (hAllows : role.Allows op)
    (hOpens : op.opensCell = some runId) :
    (role.after op (.ok value)).tends? = some runId := by
  rcases driving_of_opensCell hAllows hOpens with
    ⟨job, root, state, todo, rfl, rfl⟩
  cases op <;> first | rfl | cases hOpens

/- A cleared run was cleared, is new, or was just filled. -/
theorem cleared_after
    (hAllows : role.Allows op)
    (hCleared :
      (role.after op (.ok value)).cleared? = some runId) :
    role.cleared? = some runId ∨
      (∃ threadId model, op = .openRun threadId model) ∧
          op.begins value = some runId ∨
        op.fillsCells = some runId := by
  cases hAllows with
  | on hStage =>
      simp only [Role.after, Role.cleared?] at hCleared
      split at hCleared
      · rename_i hStill
        cases hCleared
        cases hStage with
        | stoppingResolve => exact Or.inr (Or.inr rfl)
        | drivingNext =>
            rcases value with _ | ⟨_ | _, _⟩ <;> cases hStill
        | finalizingCommit => cases value <;> cases hStill
        | closingLog =>
            simp only [Stage.after] at hStill
            split at hStill <;> cases hStill
        | choosingApprove => cases value <;> cases hStill
        | _ =>
            first
              | exact Or.inl rfl
              | cases hStill
              | (cases value <;> cases hStill)
      · cases hCleared
  | freshOpen =>
      cases hCleared
      exact Or.inr (Or.inl ⟨⟨_, _, rfl⟩, rfl⟩)
  | freshActive =>
      rcases value with _ | ⟨_, status⟩
      · cases hCleared
      · cases status <;> cases hCleared
  | freshRead => rcases value with _ | _ <;> cases hCleared
  | lookingActive =>
      rcases value with _ | ⟨_, status⟩
      · cases hCleared
      · cases status <;> cases hCleared
  | watchingRunning => cases value <;> cases hCleared
  | watchingPaused => cases value <;> cases hCleared
  | _ => cases hCleared

/- A run that is cleared after a failure was cleared before. -/
theorem cleared_failed
    {exn : Exn}
    (hAllows : role.Allows op)
    (hCleared :
      (role.after op (.error exn)).cleared? = some runId) :
    role.cleared? = some runId := by
  cases hAllows with
  | on hStage =>
      cases hStage <;> first | exact hCleared | cases hCleared
  | _ => cases hCleared

/- A role that clears a run writes it. -/
theorem writer_of_cleared
    (hCleared : role.cleared? = some runId) :
    role.writer? = some runId := by
  cases role with
  | on job stage =>
      simp only [Role.cleared?] at hCleared
      split at hCleared
      · rename_i hStage
        cases hCleared
        apply writer?_of_writes
        cases stage with
        | erring ended =>
            cases ended <;> first | rfl | cases hStage
        | opening => rfl
        | opened => rfl
        | stopping => rfl
        | _ => cases hStage
      · cases hCleared
  | _ => cases hCleared

/-
  A task that ended a run tends to it, or had cleared it, or
  ended it by its final check or by an interrupt.
-/
theorem tends_of_ended
    (hAllows : role.Allows op)
    (hEnded : op.ended value = some runId) :
    (role.after op (.ok value)).tends? = some runId ∨
      role.cleared? = some runId ∨
        op.endsRunning = some runId ∧
          ((∃ job root,
              role = .on job (.finalizing root) ∧
                job.run = runId) ∨
            ∃ threadId, role = .watching threadId runId) := by
  cases hAllows with
  | on hStage =>
      cases hStage with
      | finalizingForged =>
          cases value with
          | false => cases hEnded
          | true =>
              cases hEnded
              exact
                Or.inr
                  (Or.inr ⟨rfl, Or.inl ⟨_, _, rfl, rfl⟩⟩)
      | finalizingCommit =>
          cases value with
          | none => cases hEnded
          | some row =>
              cases hEnded
              exact
                Or.inr
                  (Or.inr ⟨rfl, Or.inl ⟨_, _, rfl, rfl⟩⟩)
      | erringEnd | stoppingEnd =>
          cases value with
          | false => cases hEnded
          | true =>
              cases hEnded
              exact Or.inr (Or.inl rfl)
      | choosingApprove => cases value <;> cases hEnded
      | _ =>
          first
            | cases hEnded
            | (cases value with
                | false => cases hEnded
                | true =>
                    cases hEnded
                    exact Or.inl rfl)
  | watchingRunning =>
      cases value with
      | false => cases hEnded
      | true =>
          cases hEnded
          exact Or.inr (Or.inr ⟨rfl, Or.inr ⟨_, rfl⟩⟩)
  | watchingPaused =>
      cases value with
      | false => cases hEnded
      | true =>
          cases hEnded
          exact Or.inl rfl
  | _ => cases hEnded

/-
  A task gives up a run when it fills its cells, pauses it or
  would end it.
-/
theorem gives_up
    (hAllows : role.Allows op)
    (hTends : role.tends? = some runId)
    (hGives : (role.after op (.ok value)).tends? ≠ some runId) :
    op.fillsCells = some runId ∨
      op.endsRunning = some runId ∨
        ∃ status ended, op = .setRunStatus runId status ended := by
  cases hAllows with
  | @on job stage _ hStage =>
      have hRun : stage.tends = true ∧ job.run = runId := by
        simp only [Role.tends?] at hTends
        split at hTends
        · rename_i hStage
          exact ⟨hStage, Option.some_inj.mp hTends⟩
        · cases hTends
      rcases hRun with ⟨hOpen, rfl⟩
      cases hStage with
      | closingResolve => exact Or.inl rfl
      | gatedPause => exact Or.inr (Or.inr ⟨_, _, rfl⟩)
      | drivingNext =>
          rcases value with _ | ⟨_ | _, _⟩ <;>
            exact absurd rfl hGives
      | _ =>
          first
            | exact Or.inr (Or.inl rfl)
            | exact absurd rfl hGives
            | cases hOpen
  | _ => cases hTends

/- A running run that a call ended was running. -/
theorem running_of_ended
    {db db' : Db}
    (hChanges : ChangesRuns db db' op value)
    (hEnded : op.ended value = some runId)
    (hEnds : op.endsRunning = some runId) :
    db.status? runId = some .running := by
  cases hChanges with
  | @moved other fromStatus toStatus ended run hRun hStatus =>
      cases fromStatus with
      | running =>
          cases hEnds
          rw [Db.status?, hRun, Option.map_some, hStatus]
      | _ => cases hEnds
  | committed hRun hStatus =>
      cases hEnds
      rw [Db.status?, hRun, Option.map_some, hStatus]
  | opened => cases hEnds
  | set => cases hEnds
  | missing => cases hEnds
  | kept hKept =>
      cases op with
      | tryTransition =>
          cases hKept
          cases hEnded
      | commitAgentAnswer =>
          cases value with
          | none => cases hEnded
          | some row => cases hKept
      | _ => cases hEnded

end Roles

/- The cells of the runs that are cleared. -/
def clearedOutline : Outline Db Role where
  globally := fun _ => True
  locally := fun db role =>
    ∀ runId,
      role.cleared? = some runId → db.hasPending runId = false
  mutually := fun _ _ => True

/- The run that a call opened has no cells. -/
theorem hasPending_of_opened
    {inst : InstanceId}
    {threadId : ThreadId}
    {model : Option Text}
    {world world' : World}
    {runId : RunId}
    (hFormed : world.db.WellFormed)
    (hExec :
      exec inst (.openRun threadId model) world =
        (.ok runId, world')) :
    world'.db.hasPending runId = false := by
  have hMessages := (frames_of_exec hExec).messages rfl
  rcases of_openRun (statement_of_onDb hExec) with
    ⟨rfl, -, -, -⟩
  rw [Db.hasPending, hMessages, List.any_eq_false]
  intro message hMem hPending
  simp only [Message.isPendingOf, Message.isCellOf,
    Bool.and_eq_true, beq_iff_eq] at hPending
  have hRun :=
    hFormed.slotRuns message.slot
      (List.mem_map_of_mem hMem) _ hPending.1.1
  rw [Db.hasRun, hFormed.freshRun] at hRun
  cases hRun

variable {registry : Registry}
variable {allowed : System → Action → Prop}

/- Every step keeps the cleared runs without pending cells. -/
theorem sustains_clearedOutline :
    SustainsRoles registry allowed clearedOutline where
  idle := by
    intro db role hIdle _ runId hCleared
    cases role <;> first | cases hCleared | cases hIdle
  alone := fun _ _ _ => ⟨trivial, trivial⟩
  done := by
    intro system taskId task op value world' hCall hExec hHolds
    have hFormed := wellFormed_of_reachable hCall.reachable
    refine ⟨trivial, ?_, ?_⟩
    · intro runId hCleared
      rcases cleared_after hCall.allows hCleared with
        hBefore | ⟨⟨threadId, model, rfl⟩, hBegins⟩ | hFills
      · by_contra hPending
        rw [Bool.not_eq_false] at hPending
        rcases (hasPending_of_exec hExec hPending).1 with
          hOld | hOpens
        · have hNone :=
            hHolds.locally taskId task hCall.present runId
              hBefore
          rw [hOld] at hNone
          cases hNone
        · rcases driving_of_opensCell hCall.allows hOpens with
            ⟨job, root, state, todo, hRole, -⟩
          rw [hRole] at hBefore
          cases hBefore
      · cases hBegins
        exact hasPending_of_opened hFormed hExec
      · by_contra hPending
        rw [Bool.not_eq_false] at hPending
        exact (hasPending_of_exec hExec hPending).2 hFills
    · intro otherId other hNe hOther hMine _
      refine ⟨?_, trivial, trivial⟩
      intro runId hCleared
      by_contra hPending
      rw [Bool.not_eq_false] at hPending
      rcases (hasPending_of_exec hExec hPending).1 with
        hOld | hOpens
      · rw [hMine runId hCleared] at hOld
        cases hOld
      · rcases driving_of_opensCell hCall.allows hOpens with
          ⟨job, root, state, todo, hRole, rfl⟩
        have hWriter :
            task.phase.role.writer? = some job.run := by
          rw [hRole]
          rfl
        exact
          hNe
            (writers_of_reachable hCall.reachable hOther
              hCall.present (writer_of_cleared hCleared)
              hWriter)
  failed := by
    intro system taskId fault task op exn hCall _ hHolds
    refine ⟨trivial, ?_, ?_⟩
    · intro runId hCleared
      exact
        hHolds.locally taskId task hCall.present runId
          (cleared_failed hCall.allows hCleared)
    · intro otherId other _ _ hMine _
      exact ⟨hMine, trivial, trivial⟩
  advance := fun _ _ _ => ⟨trivial, fun _ hMine => hMine⟩
  heartbeat := fun _ _ _ => ⟨trivial, fun _ hMine => hMine⟩
  sweep := by
    intro db selects _ _
    refine ⟨trivial, ?_⟩
    intro role hMine runId hCleared
    by_contra hPending
    rw [Bool.not_eq_false] at hPending
    have hBefore := (hasPending_sweep hPending).1
    rw [hMine runId hCleared] at hBefore
    cases hBefore
  collect := fun _ _ _ => ⟨trivial, fun _ hMine => hMine⟩

/- A task about to end its run by itself left no pending cell. -/
theorem hasPending_of_cleared
    {system : System}
    (hReachable : Reachable registry allowed system)
    {taskId : TaskId}
    {task : Task}
    {runId : RunId}
    (hTask : system.tasks taskId = some task)
    (hCleared : task.phase.role.cleared? = some runId) :
    system.world.db.hasPending runId = false :=
  (roles_of_reachable sustains_clearedOutline trivial
    hReachable).locally taskId task hTask runId hCleared

------------------------------------------------------------
-- Forgotten Cells
------------------------------------------------------------

/- Whether no other task tends to a run. -/
def System.untended
    (system : System)
    (taskId : TaskId)
    (runId : RunId) :
    Prop :=
  ∀ other task,
    other ≠ taskId →
      system.tasks other = some task →
        task.phase.role.tends? ≠ some runId

/-
  The steps at which the last task that could fill the cells
  of a run gives them up: the commit or the forgery stop of
  the final check, the status change of `interrupt` itself, a
  lost status change of a driver whose run another party has
  ended, and a failure or a crash of a task whose run has
  ended.
-/
inductive Forgets
    (system : System) :
    Action → RunId → Prop where
  | finished {taskId task op job root}
      (hCall :
        system.call? (.turn taskId false) = some (task, op))
      (hRole : task.phase.role = .on job (.finalizing root))
      (hEnds : op.endsRunning = some job.run)
      (hRunning :
        system.world.db.status? job.run = some .running)
      (hAlone : system.untended taskId job.run) :
      Forgets system (.turn taskId false) job.run
  | stopped {taskId task op threadId runId}
      (hCall :
        system.call? (.turn taskId false) = some (task, op))
      (hRole : task.phase.role = .watching threadId runId)
      (hEnds : op.endsRunning = some runId)
      (hRunning :
        system.world.db.status? runId = some .running)
      (hAlone : system.untended taskId runId) :
      Forgets system (.turn taskId false) runId
  | beaten {taskId task op runId}
      (hCall :
        system.call? (.turn taskId false) = some (task, op))
      (hTends : task.phase.role.tends? = some runId)
      (hEnds : op.endsRunning = some runId)
      (hEnded : system.world.db.isActive runId = false)
      (hAlone : system.untended taskId runId) :
      Forgets system (.turn taskId false) runId
  | failed {taskId fault task op runId}
      (hCall :
        system.call? (.turn taskId fault) = some (task, op))
      (hTends : task.phase.role.tends? = some runId)
      (hFails :
        fault = true ∨
          (exec task.inst op system.world).1.isOk = false)
      (hGives :
        ∀ exn,
          (task.phase.role.after op (.error exn)).tends? ≠
            some runId)
      (hEnded : system.world.db.isActive runId = false)
      (hAlone : system.untended taskId runId) :
      Forgets system (.turn taskId fault) runId
  | crashed {inst taskId task runId}
      (hTask : system.tasks taskId = some task)
      (hTends : task.phase.role.tends? = some runId)
      (hEnded : system.world.db.isActive runId = false)
      (hAlone :
        ∀ other task,
          system.survivors inst other = some task →
            task.phase.role.tends? ≠ some runId) :
      Forgets system (.crash inst) runId

/- No step forgets a run that has a pending cell. -/
def Tidy (system : System) (action : Action) : Prop :=
  ∀ runId,
    Forgets system action runId →
      system.world.db.hasPending runId = false

section Calls

variable {system : System} {taskId : TaskId} {fault : Bool}
variable {task : Task} {op : Op} {value : op.Reply}
variable {world' : World} {runId : RunId}

/-
  A task that ended a run with a pending cell tends to it,
  unless another task does.
-/
theorem tended_of_ended
    (hCall :
      Calls registry Tidy system taskId false task op
        (.ok value) world')
    (hExec :
      exec task.inst op system.world = (.ok value, world'))
    (hAlone : system.untended taskId runId)
    (hPending : system.world.db.hasPending runId = true)
    (hEnded : op.ended value = some runId) :
    (task.phase.role.after op (.ok value)).tends? =
      some runId := by
  have hNext := call?_of_calls hCall
  have hKept :
      ¬Forgets system (.turn taskId false) runId := by
    intro hForgets
    rw [hCall.permitted runId hForgets] at hPending
    cases hPending
  rcases tends_of_ended hCall.allows hEnded with
    hTends | hCleared | ⟨hEnds, hRole⟩
  · exact hTends
  · have hNone :=
      hasPending_of_cleared hCall.reachable hCall.present
        hCleared
    rw [hPending] at hNone
    cases hNone
  · have hRunning :=
      running_of_ended (changesRuns_of_exec hExec) hEnded hEnds
    rcases hRole with ⟨job, root, hRole, rfl⟩ | ⟨threadId, hRole⟩
    · exact
        absurd (.finished hNext hRole hEnds hRunning hAlone)
          hKept
    · exact
        absurd (.stopped hNext hRole hEnds hRunning hAlone)
          hKept

/-
  A task that gives up an ended run with a pending cell made
  the run active, unless another task tends to the run.
-/
theorem isActive_of_givesUp
    (hCall :
      Calls registry Tidy system taskId false task op
        (.ok value) world')
    (hExec :
      exec task.inst op system.world = (.ok value, world'))
    (hAlone : system.untended taskId runId)
    (hPending : system.world.db.hasPending runId = true)
    (hFills : op.fillsCells ≠ some runId)
    (hEnded : system.world.db.isActive runId = false)
    (hTends : task.phase.role.tends? = some runId)
    (hGives :
      (task.phase.role.after op (.ok value)).tends? ≠
        some runId) :
    world'.db.isActive runId = true := by
  rcases gives_up hCall.allows hTends hGives with
    hFills' | hEnds | ⟨status, ended, rfl⟩
  · exact absurd hFills' hFills
  · have hForgets :
        Forgets system (.turn taskId false) runId :=
      .beaten (call?_of_calls hCall) hTends hEnds hEnded hAlone
    rw [hCall.permitted runId hForgets] at hPending
    cases hPending
  · rcases pause_of_allows hCall.allows with
      ⟨rfl, rfl, job, root, hRole, rfl⟩
    have hWriter :
        task.phase.role.writer? = some job.run := by
      rw [hRole]
      rfl
    rcases
        written_of_reachable hCall.reachable hCall.present
          hWriter with
      ⟨before, hBefore, -⟩
    cases changesRuns_of_exec hExec with
    | set hRun _ hRuns =>
        rw [Db.isActive, status?_of_written hRun hRuns]
        rfl
    | missing hRun _ =>
        rw [Db.status?, hRun] at hBefore
        cases hBefore
    | kept hKept _ => cases hKept

end Calls

------------------------------------------------------------
-- Tended Runs Stay Tended
------------------------------------------------------------

/- A run with a pending cell is active or tended to. -/
def System.Tended (system : System) : Prop :=
  ∀ runId,
    system.world.db.hasPending runId = true →
      system.world.db.isActive runId = true ∨
        ∃ taskId task,
          system.tasks taskId = some task ∧
            task.phase.role.tends? = some runId

/- A task that tends to a run, if it is not a given one. -/
theorem tended_elsewhere
    {system : System}
    {runId : RunId}
    (taskId : TaskId)
    (hTended : ¬system.untended taskId runId) :
    ∃ other task,
      other ≠ taskId ∧
        system.tasks other = some task ∧
          task.phase.role.tends? = some runId := by
  unfold System.untended at hTended
  push Not at hTended
  exact hTended

/- All failures lead to the same role. -/
theorem after_failed
    (role : Role)
    (op : Op)
    (exn other : Exn) :
    role.after op (.error exn) =
      role.after op (.error other) := by
  cases op with
  | tryTransition runId fromStatus toStatus ended =>
      cases role with
      | on job stage =>
          cases stage <;> cases toStatus <;> rfl
      | _ => cases fromStatus <;> rfl
  | _ =>
      cases role with
      | on job stage => cases stage <;> rfl
      | _ => rfl

/- The only task that may tend to a pending run does. -/
theorem tends_of_tended
    {system : System}
    {taskId : TaskId}
    {task : Task}
    {runId : RunId}
    (hTended : system.Tended)
    (hTask : system.tasks taskId = some task)
    (hAlone : system.untended taskId runId)
    (hPending : system.world.db.hasPending runId = true)
    (hEnded : system.world.db.isActive runId = false) :
    task.phase.role.tends? = some runId := by
  rcases hTended runId hPending with
    hActive | ⟨other, task', hOther, hTends⟩
  · rw [hEnded] at hActive
    cases hActive
  · by_cases hEq : other = taskId
    · subst hEq
      rw [hTask, Option.some_inj] at hOther
      rw [hOther]
      exact hTends
    · exact absurd hTends (hAlone other task' hEq hOther)

/-
  A task that gives up a run with a pending cell by a failure
  leaves it active, unless another task tends to it.
-/
theorem isActive_of_failed
    {system : System}
    {taskId : TaskId}
    {fault : Bool}
    {task : Task}
    {op : Op}
    {exn : Exn}
    {world' : World}
    {runId : RunId}
    (hTended : system.Tended)
    (hCall :
      Calls registry Tidy system taskId fault task op
        (.error exn) world')
    (hAlone : system.untended taskId runId)
    (hPending : system.world.db.hasPending runId = true)
    (hGives :
      (task.phase.role.after op (.error exn)).tends? ≠
        some runId) :
    system.world.db.isActive runId = true := by
  by_contra hActive
  have hEnded : system.world.db.isActive runId = false := by
    simpa using hActive
  have hTends :=
    tends_of_tended hTended hCall.present hAlone hPending hEnded
  have hFails := fails_of_calls hCall
  have hForgets : Forgets system (.turn taskId fault) runId := by
    refine
      .failed (call?_of_calls hCall) hTends hFails ?_ hEnded
        hAlone
    intro other
    rw [after_failed task.phase.role op other exn]
    exact hGives
  rw [hCall.permitted runId hForgets] at hPending
  cases hPending

/- Every step keeps the runs with pending cells tended to. -/
theorem preserves_tended :
    Preserves registry Tidy System.Tended where
  request := by
    intro system taskId inst request _ _ hNone hTended runId
      hPending
    rcases hTended runId hPending with
      hActive | ⟨other, task, hTask, hTends⟩
    · exact Or.inl hActive
    · exact
        Or.inr
          ⟨other, task, present_of_added hNone hTask, hTends⟩
  call := by
    intro system taskId fault task op reply world' next hCall _
      hTended runId hPending
    by_cases hAfter :
        (task.phase.role.after op reply).tends? = some runId
    · exact Or.inr ⟨taskId, _, if_pos rfl, hAfter⟩
    by_cases hAlone : system.untended taskId runId
    · left
      change world'.db.isActive runId = true
      have hExecutes := hCall.executes
      cases hExecutes with
      | done hExec =>
          rcases hasPending_of_exec hExec hPending with
            ⟨hOld, hFills⟩
          have hBefore :
              system.world.db.hasPending runId = true :=
            hOld.resolve_right fun hOpens =>
              hAfter (tends_of_opensCell _ hCall.allows hOpens)
          cases hActive : system.world.db.isActive runId with
          | true =>
              have hFormed :=
                wellFormed_of_reachable hCall.reachable
              refine
                (isActive_of_changes (changesRuns_of_exec hExec)
                  hFormed.freshRun hCall.allows
                  hActive).resolve_right ?_
              intro hEnded
              exact
                hAfter
                  (tended_of_ended hCall hExec hAlone hBefore
                    hEnded)
          | false =>
              have hTends :=
                tends_of_tended hTended hCall.present hAlone
                  hBefore hActive
              exact
                isActive_of_givesUp hCall hExec hAlone hBefore
                  hFills hActive hTends hAfter
      | refused hExec =>
          exact
            isActive_of_failed hTended hCall hAlone hPending
              hAfter
      | fault hFault =>
          exact
            isActive_of_failed hTended hCall hAlone hPending
              hAfter
    · rcases tended_elsewhere taskId hAlone with
        ⟨other, task', hNe, hTask, hTends⟩
      refine Or.inr ⟨other, task', ?_, hTends⟩
      exact present_of_other hNe hTask
  sent := by
    intro system taskId task event next _ hTask _ hRole hTended
      runId hPending
    rcases hTended runId hPending with
      hActive | ⟨other, task', hTask', hTends⟩
    · exact Or.inl hActive
    · refine Or.inr ⟨other, task', ?_, hTends⟩
      have hNe : other ≠ taskId := by
        rintro rfl
        rw [hTask, Option.some_inj] at hTask'
        rw [← hTask', hRole] at hTends
        cases hTends
      exact present_of_other hNe hTask'
  advance := fun _ _ _ hTended => hTended
  heartbeat := by
    intro system inst _ _ hTended runId hPending
    rcases hTended runId hPending with hActive | hTask
    · left
      have hStatus :=
        status?_heartbeat system.world.db
          (system.world.instances inst).active runId
      change
        (system.world.db.heartbeat
          (system.world.instances inst).active).isActive
          runId =
          true
      rwa [Db.isActive, hStatus]
    · exact Or.inr hTask
  sweep := by
    intro system action selects _ _ _ hTended runId hPending
    rcases hasPending_sweep hPending with ⟨hBefore, hSpared⟩
    rcases hTended runId hBefore with hActive | hTask
    · left
      change (system.world.db.sweep selects).isActive runId = true
      rw [Db.isActive, status?_sweep]
      rw [Db.isActive, Db.status?] at hActive
      cases hRun : system.world.db.runs.get? runId with
      | none =>
          rw [hRun] at hActive
          cases hActive
      | some run =>
          rw [hRun] at hActive hSpared
          rw [Option.any_some] at hSpared
          rw [Option.map_some, hSpared]
          exact hActive
    · exact Or.inr hTask
  collect := fun _ _ _ hTended => hTended
  crash := by
    intro system inst _ hTidy hTended runId hPending
    rcases hTended runId hPending with
      hActive | ⟨taskId, task, hTask, hTends⟩
    · exact Or.inl hActive
    · by_contra hGone
      rw [not_or] at hGone
      rcases hGone with ⟨hEnded, hNone⟩
      have hForgets : Forgets system (.crash inst) runId := by
        refine
          .crashed hTask hTends (Bool.eq_false_iff.mpr hEnded)
            ?_
        intro other task' hOther hTends'
        exact hNone ⟨other, task', hOther, hTends'⟩
      have hClean := hTidy runId hForgets
      have hPending' : system.world.db.hasPending runId = true :=
        hPending
      rw [hClean] at hPending'
      cases hPending'

------------------------------------------------------------
-- Ended Runs
------------------------------------------------------------

/- Whether no task is still at work on a run. -/
def System.quietOn (system : System) (runId : RunId) : Prop :=
  ∀ taskId task job stage,
    system.tasks taskId = some task →
      task.phase.role = .on job stage →
        job.run = runId → task.ended = true

/- A task that has ended tends to no run. -/
theorem not_tends_of_ended
    {task : Task}
    {runId : RunId}
    (hConforms : task.Conforms)
    (hEnded : task.ended = true) :
    task.phase.role.tends? ≠ some runId := by
  intro hTends
  have hMay := mayEnd_of_ended hConforms hEnded
  cases hRole : task.phase.role with
  | on job stage =>
      rw [hRole] at hTends hMay
      simp only [Role.tends?] at hTends
      split at hTends
      · rename_i hStage
        cases stage with
        | closing cells graph =>
            cases cells <;>
              first | cases hMay | cases hStage
        | settled => cases hStage
        | _ => first | cases hMay | cases hStage
      · cases hTends
  | _ =>
      rw [hRole] at hTends
      cases hTends

/-
  A run that has ended and that no task works on has no tool
  cell without a result, as long as no step forgets a pending
  cell.
-/
theorem no_pending_cells
    {system : System}
    (hReachable : Reachable registry Tidy system)
    {runId : RunId}
    {status : RunStatus}
    (hStatus : system.world.db.status? runId = some status)
    (hTerminal : status.terminal = true)
    (hQuiet : system.quietOn runId) :
    ∀ message ∈ system.world.db.messages,
      message.runId = some runId →
        message.role = .tool → message.toolResult ≠ none := by
  intro message hMem hRun hRole hNone
  have hPending : system.world.db.hasPending runId = true := by
    refine List.any_eq_true.mpr ⟨message, hMem, ?_⟩
    simp [Message.isPendingOf, Message.isCellOf, hRun, hRole,
      hNone]
  have hTended : system.Tended :=
    preserved_of_reachable preserves_tended
      (fun _ hPending => nomatch hPending) hReachable
  rcases hTended runId hPending with
    hActive | ⟨taskId, task, hTask, hTends⟩
  · rw [Db.isActive, hStatus] at hActive
    simp only [Option.any_some] at hActive
    rw [RunStatus.terminal_eq_not_active, hActive] at hTerminal
    cases hTerminal
  · cases hTaskRole : task.phase.role with
    | on job stage =>
        have hJob : job.run = runId := by
          rw [hTaskRole, Role.tends?] at hTends
          split at hTends
          · exact Option.some_inj.mp hTends
          · cases hTends
        exact
          not_tends_of_ended
            (conforms_of_reachable hReachable taskId task hTask)
            (hQuiet taskId task job stage hTask hTaskRole hJob)
            hTends
    | _ =>
        rw [hTaskRole] at hTends
        cases hTends

/- Whether a step succeeds and ends no run with pending cells. -/
def System.calm (system : System) (action : Action) : Bool :=
  match action, system.call? action with
  | .turn _ fault, some (task, op) =>
      !fault && (exec task.inst op system.world).1.isOk &&
        op.endsRunning.all fun runId =>
          !system.world.db.hasPending runId
  | .crash _, _ => false
  | _, _ => true

/- A calm step forgets no pending cell. -/
theorem tidy_of_calm
    {system : System}
    {action : Action}
    (hCalm : system.calm action = true) :
    Tidy system action := by
  intro runId hForgets
  have hUnfilled :
      ∀ {taskId task op},
        system.call? (.turn taskId false) = some (task, op) →
          op.endsRunning = some runId →
            system.calm (.turn taskId false) = true →
              system.world.db.hasPending runId = false := by
    intro taskId task op hCall hEnds hCalm
    simp only [System.calm, hCall, hEnds, Bool.and_eq_true,
      Option.all_some, Bool.not_eq_true'] at hCalm
    exact hCalm.2
  cases hForgets with
  | crashed => cases hCalm
  | failed hCall _ hFails =>
      simp only [System.calm, hCall, Bool.and_eq_true,
        Bool.not_eq_true'] at hCalm
      rcases hFails with hFault | hError
      · rw [hFault] at hCalm
        cases hCalm.1.1
      · rw [hError] at hCalm
        cases hCalm.1.2
  | finished hCall _ hEnds => exact hUnfilled hCall hEnds hCalm
  | stopped hCall _ hEnds => exact hUnfilled hCall hEnds hCalm
  | beaten hCall _ hEnds => exact hUnfilled hCall hEnds hCalm

/- The cell of the rejected run of `rejectedPause` is filled. -/
theorem no_pending_cells_rejected :
    ∃ system,
      execute (System.step .single) rejectedPause .initial =
          some system ∧
        system.world.db.status? 1 = some .rejected ∧
          (system.world.db.messages.filter
            (Message.isCellOf 1)).length = 1 ∧
            ∀ message ∈ system.world.db.messages,
              message.runId = some 1 →
                message.role = .tool →
                  message.toolResult ≠ none := by
  rcases
      exists_of_execute
        (show
          (execute (System.step .single) rejectedPause
              .initial).map (fun system =>
                (system.world.db.status? 1,
                  (system.world.db.messages.filter
                    (Message.isCellOf 1)).length,
                  (List.range 3).all fun taskId =>
                    (system.tasks taskId).all Task.ended)) =
            some (some .rejected, 1, true) by
          decide +kernel) with
    ⟨system, hSystem, hView⟩
  obtain ⟨hStatus, hCells, hEnded⟩ :
      system.world.db.status? 1 = some .rejected ∧
        (system.world.db.messages.filter
            (Message.isCellOf 1)).length = 1 ∧
          ((List.range 3).all fun taskId =>
            (system.tasks taskId).all Task.ended) = true := by
    simpa only [Prod.mk.injEq] using hView
  have hPasses :
      passes (System.step .single) System.calm rejectedPause
          .initial =
        true := by
    decide +kernel
  have hReachable : Reachable .single Tidy system :=
    run_of_execute hSystem hPasses fun _ _ => tidy_of_calm
  have hQuiet : system.quietOn 1 := by
    intro taskId task job stage hTask _ _
    exact
      ended_of_execute hSystem (by decide) hEnded taskId task
        hTask
  exact
    ⟨system, hSystem, hStatus, hCells,
      no_pending_cells hReachable hStatus rfl hQuiet⟩

/-
  A run that another instance interrupts behind a tool call,
  and whose driver then fails.
-/
def interruptedThenFailed : List Action :=
  [.request 0 0 (.createThread none)] ++ turns 0 1 ++
    [.request 1 0
      (.start 0 [] none
        [.agent (.str []) (toolCalls ["a"]), .raised])] ++
    turns 1 12 ++ [.request 2 1 (.interrupt 1)] ++ turns 2 5 ++
    turns 1 5

/- The interrupted run keeps a tool cell without a result. -/
theorem pending_cell_left :
    ¬ ∀ (registry : Registry) (system : System)
        (runId : RunId) (status : RunStatus),
      Reachable registry (fun _ _ => True) system →
        system.world.db.status? runId = some status →
          status.terminal = true →
            system.quietOn runId →
              ∀ message ∈ system.world.db.messages,
                message.runId = some runId →
                  message.role = .tool →
                    message.toolResult ≠ none := by
  intro hNone
  rcases
      exists_of_execute
        (show
          (execute (System.step .single) interruptedThenFailed
              .initial).map (fun system =>
                (system.world.db.status? 1,
                  system.world.db.hasPending 1,
                  (List.range 3).all fun taskId =>
                    (system.tasks taskId).all Task.ended)) =
            some (some .interrupted, true, true) by
          decide +kernel) with
    ⟨system, hSystem, hView⟩
  obtain ⟨hStatus, hPending, hEnded⟩ :
      system.world.db.status? 1 = some .interrupted ∧
        system.world.db.hasPending 1 = true ∧
          ((List.range 3).all fun taskId =>
            (system.tasks taskId).all Task.ended) = true := by
    simpa only [Prod.mk.injEq] using hView
  rcases List.any_eq_true.mp hPending with
    ⟨message, hMem, hMessage⟩
  simp only [Message.isPendingOf, Message.isCellOf,
    Bool.and_eq_true, beq_iff_eq, Option.isNone_iff_eq_none]
    at hMessage
  refine
    hNone .single system 1 .interrupted
      (execution_of_execute hSystem) hStatus rfl ?_ message hMem
      hMessage.1.1 hMessage.1.2 hMessage.2
  intro taskId task job stage hTask _ _
  exact
    ended_of_execute hSystem (by decide) hEnded taskId task hTask

end LegalAgent
