import LegalAgent.Service.Roles
import LegalAgent.System.WellFormed

/-
  A run has at most one writer.

  An approval pause is left by one task only, since the tasks
  compare and set the status of the run, and the task that
  paused the run writes it no more.  So no two tasks write one
  run, and none writes a run that waits or is completed.

  Key definitions include:
    * `RunStatus.mayBeWritten`
    * `writerOutline`

  Key theorems include:
    * `written_of_reachable`
    * `writers_of_reachable`
-/

------------------------------------------------------------
-- Written Runs
------------------------------------------------------------

namespace LegalAgent

open Library

/- The statuses of a run that a task may still write. -/
def RunStatus.mayBeWritten : RunStatus → Bool
| .running | .interrupted | .error => true
| _ => false

/- Whether a run has a status that allows a writer. -/
def Db.mayBeWritten (db : Db) (runId : RunId) : Prop :=
  ∃ status,
    db.status? runId = some status ∧
      status.mayBeWritten = true

/- A run has one writer, and its status allows it. -/
def writerOutline : Outline Db Role where
  globally := fun _ => True
  locally := fun db role =>
    ∀ runId, role.writer? = some runId → db.mayBeWritten runId
  mutually := fun role other =>
    ∀ runId,
      role.writer? = some runId → other.writer? ≠ some runId

section Calls

variable {db db' : Db} {role : Role}
variable {op : Op} {value : op.Reply} {runId : RunId}

/- The status of the runs that a call does not change. -/
theorem mayBeWritten_of_runs
    (hRuns : db'.runs = db.runs)
    (hWritten : db.mayBeWritten runId) :
    db'.mayBeWritten runId := by
  rcases hWritten with ⟨status, hStatus, hMay⟩
  refine ⟨status, ?_, hMay⟩
  rw [Db.status?, hRuns]
  exact hStatus

/- The status of a run when another run is written. -/
theorem mayBeWritten_of_other
    {other : RunId}
    {status : RunStatus}
    {ended : Bool}
    (hRuns : db'.runs = (db.writeStatus other status ended).runs)
    (hNe : runId ≠ other)
    (hWritten : db.mayBeWritten runId) :
    db'.mayBeWritten runId := by
  rcases hWritten with ⟨status', hStatus, hMay⟩
  refine ⟨status', ?_, hMay⟩
  have hWrite := status?_writeStatus db other status ended runId
  rw [if_neg hNe] at hWrite
  rw [Db.status?, hRuns]
  exact hWrite.trans hStatus

/- A run that was begun may be written. -/
theorem mayBeWritten_of_begins
    (hChanges : ChangesRuns db db' op value)
    (hFresh : db.runs.get? db.nextId = none)
    (hBegins : op.begins value = some runId) :
    db'.mayBeWritten runId := by
  cases hChanges with
  | opened hThread hAlone hRuns =>
      cases hBegins
      refine ⟨.running, ?_, rfl⟩
      rw [Db.status?, hRuns, Table.get?_insert hFresh,
        if_pos rfl]
      rfl
  | @moved other fromStatus toStatus ended run hRun hStatus
      hAlone hRuns =>
      cases fromStatus <;> cases toStatus <;> cases hBegins
      refine ⟨.running, ?_, rfl⟩
      rw [Db.status?, hRuns, get?_writeStatus, if_pos rfl, hRun]
      rfl
  | set => cases hBegins
  | missing => cases hBegins
  | committed => cases hBegins
  | kept hKept _ =>
      rw [Op.begins_of_kept hKept] at hBegins
      cases hBegins

/- A run that another party writes may still be written. -/
theorem mayBeWritten_of_interference
    (hChanges : ChangesRuns db db' op value)
    (hFresh : db.runs.get? db.nextId = none)
    (hAllows : role.Allows op)
    (hAlone : role.writer? ≠ some runId)
    (hWritten : db.mayBeWritten runId) :
    db'.mayBeWritten runId := by
  cases hChanges with
  | @opened threadId model hThread hAlone hRuns =>
      rcases hWritten with ⟨status, hStatus, hMay⟩
      refine ⟨status, ?_, hMay⟩
      rw [Db.status?, hRuns, Table.get?_insert hFresh, if_neg]
      · exact hStatus
      · rintro rfl
        rw [Db.status?, hFresh] at hStatus
        cases hStatus
  | set hRun _ hRuns =>
      rcases pause_of_allows hAllows with
        ⟨-, -, job, root, rfl, rfl⟩
      refine mayBeWritten_of_other hRuns ?_ hWritten
      rintro rfl
      exact hAlone rfl
  | @moved other fromStatus toStatus ended run hRun hStatus
      hIndex hRuns =>
      by_cases hEq : runId = other
      · subst hEq
        rcases hWritten with ⟨status, hBefore, hMay⟩
        rw [Db.status?, hRun, Option.map_some, hStatus]
          at hBefore
        cases hBefore
        refine ⟨toStatus, ?_, ?_⟩
        · rw [Db.status?, hRuns, get?_writeStatus, if_pos rfl,
            hRun]
          rfl
        · cases transition_of_allows hAllows <;>
            first | rfl | cases hMay
      · exact mayBeWritten_of_other hRuns hEq hWritten
  | committed hRun _ hRuns =>
      rcases commit_of_allows hAllows with ⟨job, rfl, rfl, rfl⟩
      refine mayBeWritten_of_other hRuns ?_ hWritten
      rintro rfl
      exact hAlone rfl
  | missing _ hRuns => exact mayBeWritten_of_runs hRuns hWritten
  | kept _ hRuns => exact mayBeWritten_of_runs hRuns hWritten

/- A run with a writer is not begun. -/
theorem not_begins_of_written
    (hChanges : ChangesRuns db db' op value)
    (hFresh : db.runs.get? db.nextId = none)
    (hWritten : db.mayBeWritten runId) :
    op.begins value ≠ some runId := by
  intro hBegins
  rcases hWritten with ⟨status, hStatus, hMay⟩
  cases hChanges with
  | opened =>
      cases hBegins
      rw [Db.status?, hFresh] at hStatus
      cases hStatus
  | @moved other fromStatus toStatus ended run hRun hFrom =>
      cases fromStatus <;> cases toStatus <;> cases hBegins
      rw [Db.status?, hRun, Option.map_some, hFrom] at hStatus
      cases hStatus
      cases hMay
  | set => cases hBegins
  | missing => cases hBegins
  | committed => cases hBegins
  | kept hKept _ =>
      rw [Op.begins_of_kept hKept] at hBegins
      cases hBegins

end Calls

------------------------------------------------------------
-- Preservation
------------------------------------------------------------

/- A status change of active runs to `error` hinders no writer. -/
theorem mayBeWritten_sweep
    {db : Db}
    (selects : Run → Bool)
    {runId : RunId}
    (hWritten : db.mayBeWritten runId) :
    (db.sweep selects).mayBeWritten runId := by
  rcases hWritten with ⟨status, hStatus, hMay⟩
  rcases Option.map_eq_some_iff.mp hStatus with ⟨run, hRun, rfl⟩
  refine ⟨if selects run then .error else run.status, ?_, ?_⟩
  · rw [status?_sweep, hRun, Option.map_some]
  · split
    · rfl
    · exact hMay

variable {registry : Registry}
variable {allowed : System → Action → Prop}

/- Every step keeps the writers of the runs apart. -/
theorem sustains_writerOutline :
    SustainsRoles registry allowed writerOutline where
  idle := by
    intro db role hIdle _ runId hWriter
    cases role <;> first | cases hWriter | cases hIdle
  alone := by
    intro role other hIdle
    constructor
    · intro runId hWriter
      cases role <;> first | cases hWriter | cases hIdle
    · intro runId _ hWriter
      cases role <;> first | cases hWriter | cases hIdle
  done := by
    intro system taskId task op value world' hCall hExec hHolds
    have hFresh :=
      (wellFormed_of_reachable hCall.reachable).freshRun
    have hChanges := changesRuns_of_exec hExec
    have hMine :
        writerOutline.locally system.world.db
          task.phase.role :=
      hHolds.locally taskId task hCall.present
    refine ⟨trivial, ?_, ?_⟩
    · intro runId hWriter
      rcases writer_after hCall.allows hWriter with
        ⟨hBefore, hKept⟩ | hBegins
      · exact
          mayBeWritten_of_runs
            ((frames_of_exec hExec).runs hKept)
            (hMine runId hBefore)
      · exact mayBeWritten_of_begins hChanges hFresh hBegins
    · intro _ other _ _ hOther hBoth
      have hOthers :
          ∀ runId,
            other.phase.role.writer? = some runId →
              (task.phase.role.after op
                  (.ok value)).writer? ≠
                some runId := by
        intro runId hWriter hAfter
        rcases writer_after hCall.allows hAfter with
          ⟨hBefore, -⟩ | hBegins
        · exact hBoth.1 runId hBefore hWriter
        · exact
            not_begins_of_written hChanges hFresh
              (hOther runId hWriter) hBegins
      refine ⟨?_, ?_, hOthers⟩
      · intro runId hWriter
        exact
          mayBeWritten_of_interference hChanges hFresh
            hCall.allows (hBoth.2 runId hWriter)
            (hOther runId hWriter)
      · intro runId hAfter hWriter
        exact hOthers runId hWriter hAfter
  failed := by
    intro system taskId fault task op exn hCall _ hHolds
    have hMine :
        writerOutline.locally system.world.db
          task.phase.role :=
      hHolds.locally taskId task hCall.present
    refine ⟨trivial, ?_, ?_⟩
    · intro runId hWriter
      exact hMine runId (writer_failed hCall.allows hWriter)
    · intro _ other _ _ hOther hBoth
      refine ⟨hOther, ?_, ?_⟩
      · intro runId hWriter
        exact hBoth.1 runId (writer_failed hCall.allows hWriter)
      · intro runId hWriter hAfter
        exact
          hBoth.2 runId hWriter
            (writer_failed hCall.allows hAfter)
  advance := fun _ _ _ => ⟨trivial, fun _ hMine => hMine⟩
  heartbeat := by
    intro db runIds _
    refine ⟨trivial, ?_⟩
    intro role hMine runId hWriter
    rcases hMine runId hWriter with ⟨status, hStatus, hMay⟩
    exact ⟨status, by rwa [status?_heartbeat], hMay⟩
  sweep := by
    intro db selects _ _
    refine ⟨trivial, ?_⟩
    intro role hMine runId hWriter
    exact mayBeWritten_sweep selects (hMine runId hWriter)
  collect := fun _ _ _ => ⟨trivial, fun _ hMine => hMine⟩

/- A run with a writer neither waits nor is it completed. -/
theorem written_of_reachable
    {system : System}
    (hReachable : Reachable registry allowed system)
    {taskId : TaskId}
    {task : Task}
    {runId : RunId}
    (hTask : system.tasks taskId = some task)
    (hWriter : task.phase.role.writer? = some runId) :
    system.world.db.mayBeWritten runId :=
  (roles_of_reachable sustains_writerOutline trivial
    hReachable).locally taskId task hTask runId hWriter

/- No two tasks write the same run. -/
theorem writers_of_reachable
    {system : System}
    (hReachable : Reachable registry allowed system)
    {taskId other : TaskId}
    {task task' : Task}
    {runId : RunId}
    (hTask : system.tasks taskId = some task)
    (hOther : system.tasks other = some task')
    (hWriter : task.phase.role.writer? = some runId)
    (hWriter' : task'.phase.role.writer? = some runId) :
    taskId = other := by
  by_contra hNe
  exact
    (roles_of_reachable sustains_writerOutline trivial
      hReachable).mutually taskId other task task' hNe hTask
      hOther runId hWriter hWriter'

end LegalAgent
