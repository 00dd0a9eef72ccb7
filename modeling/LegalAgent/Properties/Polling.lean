import LegalAgent.Properties.Interrupts
import LegalAgent.Properties.LiveStream
import LegalAgent.Store.Deletion

/-
  Streams that poll.

  A stream that has read the whole log of a run asks for the
  status of the run and returns once the run has ended.  While
  the run waits for an approval the log says so, unless the
  pump that paused the run was lost before it logged the
  request, or the thread has been deleted.

  Key definitions include:
    * `drawnOutline`
    * `Db.Requested`
    * `Silences`
    * `World.Closes`

  Key theorems include:
    * `preserves_announced`
    * `polling_ends`
-/

------------------------------------------------------------
-- Drawn Numbers
------------------------------------------------------------

namespace LegalAgent

open Library

/- The thread in which a role draws numbers. -/
def Role.thread? : Role → Option ThreadId
| .looking _ threadId _ => some threadId
| .watching threadId _ => some threadId
| .on job _ => some job.thread
| _ => none

section Roles

variable {role : Role} {op : Op} {value : op.Reply}
variable {threadId : ThreadId}

/- A call leaves the thread of a role. -/
theorem thread_after
    (op : Op)
    (reply : Except Exn op.Reply)
    (hThread : role.thread? = some threadId) :
    (role.after op reply).thread? = some threadId := by
  cases role with
  | looking log other synthetic =>
      rcases reply with exn | value
      · cases op <;> exact hThread
      · cases op with
        | getActiveRun active =>
            rcases value with _ | ⟨runId, status⟩
            · exact hThread
            · cases status <;> exact hThread
        | _ => exact hThread
  | watching other runId =>
      rcases reply with exn | value
      · cases op with
        | tryTransition _ fromStatus =>
            cases fromStatus <;> exact hThread
        | _ => exact hThread
      · cases op with
        | tryTransition _ fromStatus =>
            cases fromStatus <;> cases value <;> exact hThread
        | _ => exact hThread
  | on job stage => exact hThread
  | _ => cases hThread

/- A role draws numbers of its thread. -/
theorem thread_of_draws
    {seq : Nat}
    (hAllows : role.Allows op)
    (hDrew : op.drew value = some (threadId, seq)) :
    role.thread? = some threadId := by
  cases hAllows with
  | on hStage => exact congrArg some (thread_of_drew hStage hDrew).symm
  | lookingSeq =>
      cases hDrew
      rfl
  | _ => cases hDrew

/- A role logs events in its thread. -/
theorem thread_of_logs
    {runId : RunId}
    {event : RunEvent}
    (hAllows :
      role.Allows (.appendRunEvent threadId runId event)) :
    role.thread? = some threadId := by
  cases hAllows with
  | on hStage => exact congrArg some (job_of_logs hStage).1.symm
  | lookingLog => rfl

end Roles

/- Whether a number was drawn in a thread and not logged. -/
def Db.unlogged
    (db : Db)
    (threadId : ThreadId)
    (seq : Nat) :
    Prop :=
  seq ≤ db.lastSeq threadId ∧
    ∀ row ∈ db.runEvents,
      row.threadId = threadId → row.seq ≠ seq

/-
  Logged numbers were drawn, a number that a task holds has
  not been logged, and no other task of the thread holds it.
-/
def drawnOutline : Outline World Task where
  globally := fun world =>
    ∀ row ∈ world.db.runEvents,
      row.seq ≤ world.db.lastSeq row.threadId
  locally := fun world task =>
    (task.phase.role.thread? = none → task.phase.drawn = none) ∧
      ∀ threadId seq,
        task.phase.role.thread? = some threadId →
          task.phase.drawn = some seq →
            world.db.unlogged threadId seq
  mutually := fun task other =>
    ∀ threadId seq,
      task.phase.role.thread? = some threadId →
        task.phase.drawn = some seq →
          other.phase.role.thread? = some threadId →
            other.phase.drawn ≠ some seq

section Calls

variable {registry : Registry}
variable {allowed : System → Action → Prop}
variable {system : System} {taskId : TaskId} {task : Task}
variable {op : Op} {value : op.Reply} {world' : World}

/- A number that a task holds behind a call. -/
theorem held_after
    {role : Role}
    {drawn : Option Nat}
    {threadId : ThreadId}
    {seq : Nat}
    (hAllows : role.Allows op)
    (hNone : role.thread? = none → drawn = none)
    (hThread :
      (role.after op (.ok value)).thread? = some threadId)
    (hDrawn : drawnAfter drawn op (.ok value) = some seq) :
    (role.thread? = some threadId ∧ drawn = some seq ∧
        op.logs = false) ∨
      op.drew value = some (threadId, seq) := by
  rcases drawn_after hDrawn with
    ⟨hHeld, hLogs⟩ | ⟨other, hDrew⟩
  · left
    cases hBefore : role.thread? with
    | none =>
        rw [hNone hBefore] at hHeld
        cases hHeld
    | some other =>
        have hAfter := thread_after op (.ok value) hBefore
        rw [hThread] at hAfter
        exact ⟨hAfter.symm, hHeld, hLogs⟩
  · right
    have hBefore := thread_of_draws hAllows hDrew
    have hAfter := thread_after op (.ok value) hBefore
    rw [hThread, Option.some_inj] at hAfter
    rw [hAfter]
    exact hDrew

/- A successful call keeps the drawn numbers apart. -/
theorem keeps_drawn
    {next : Except Exn op.Reply → Driver Unit}
    (hCall :
      Calls registry allowed system taskId false task op
        (.ok value) world')
    (hExec :
      exec task.inst op system.world = (.ok value, world'))
    (hHolds : drawnOutline.Holds system.world system.tasks) :
    drawnOutline.Keeps system.tasks taskId system.world task
      world'
      { task with
        program := next (.ok value)
        phase := task.phase.after op (.ok value) } := by
  rcases hHolds.locally taskId task hCall.present with
    ⟨hNone, hMine⟩
  have hLogged :
      ∀ row ∈ system.world.db.runEvents,
        row.seq ≤ system.world.db.lastSeq row.threadId :=
    hHolds.globally
  have hMono := fun threadId =>
    (lastSeq_of_exec hExec threadId).1
  have hRows :
      ∀ row ∈ world'.db.runEvents,
        row ∈ system.world.db.runEvents ∨
          op.logs = true ∧
            task.phase.role.thread? = some row.threadId ∧
              task.phase.drawn = some row.seq := by
    intro row hRow
    rcases log_of_exec hExec with
      hLog | ⟨threadId, runId, event, rfl, hLog⟩
    · exact Or.inl (hLog ▸ hRow)
    · rw [hLog] at hRow
      rcases List.mem_append.mp hRow with hOld | hNew
      · exact Or.inl hOld
      · right
        rw [List.mem_singleton] at hNew
        subst hNew
        exact ⟨rfl, thread_of_logs hCall.allows, hCall.drawn⟩
  refine ⟨?_, ⟨?_, ?_⟩, ?_⟩
  · intro row hRow
    rcases hRows row hRow with hOld | ⟨-, hThread, hDrawn⟩
    · exact Nat.le_trans (hLogged row hOld) (hMono _)
    · exact
        Nat.le_trans (hMine _ _ hThread hDrawn).1 (hMono _)
  · intro hAfter
    cases hBefore : task.phase.role.thread? with
    | some threadId =>
        have hStays := thread_after op (.ok value) hBefore
        have hGone :
            (task.phase.role.after op (.ok value)).thread? =
              none :=
          hAfter
        rw [hGone] at hStays
        cases hStays
    | none =>
        cases hDrawn :
            drawnAfter task.phase.drawn op (.ok value) with
        | none => exact hDrawn
        | some seq =>
            rcases drawn_after hDrawn with
              ⟨hHeld, -⟩ | ⟨threadId, hDrew⟩
            · rw [hNone hBefore] at hHeld
              cases hHeld
            · rw [thread_of_draws hCall.allows hDrew] at hBefore
              cases hBefore
  · intro threadId seq hThread hDrawn
    rcases held_after hCall.allows hNone hThread hDrawn with
      ⟨hBefore, hHeld, hLogs⟩ | hDrew
    · rcases hMine threadId seq hBefore hHeld with ⟨hLe, hFree⟩
      refine ⟨Nat.le_trans hLe (hMono _), ?_⟩
      intro row hRow hIn
      rcases hRows row hRow with hOld | ⟨hLogs', -, -⟩
      · exact hFree row hOld hIn
      · rw [hLogs] at hLogs'
        cases hLogs'
    · rcases (lastSeq_of_exec hExec threadId).2 seq hDrew with
        ⟨hSeq, hLast⟩
      refine ⟨Nat.le_of_eq hLast.symm, ?_⟩
      intro row hRow hIn hEq
      rcases hRows row hRow with hOld | ⟨hLogs, -, -⟩
      · have hLe := hLogged row hOld
        rw [hIn, hEq, hSeq] at hLe
        exact absurd hLe (Nat.not_succ_le_self _)
      · rw [drew_of_logs hDrew] at hLogs
        cases hLogs
  · intro otherId other hNe hOther hTheirs hBoth
    have hApart :
        ∀ threadId seq,
          (task.phase.role.after op (.ok value)).thread? =
              some threadId →
            drawnAfter task.phase.drawn op (.ok value) =
                some seq →
              other.phase.role.thread? = some threadId →
                other.phase.drawn ≠ some seq := by
      intro threadId seq hThread hDrawn hThread' hDrawn'
      rcases held_after hCall.allows hNone hThread hDrawn with
        ⟨hBefore, hHeld, -⟩ | hDrew
      · exact
          hBoth.1 threadId seq hBefore hHeld hThread' hDrawn'
      · have hLe := (hTheirs.2 threadId seq hThread' hDrawn').1
        rw [((lastSeq_of_exec hExec threadId).2 seq hDrew).1]
          at hLe
        exact absurd hLe (Nat.not_succ_le_self _)
    refine ⟨⟨hTheirs.1, ?_⟩, hApart, ?_⟩
    · intro threadId seq hThread hDrawn
      rcases hTheirs.2 threadId seq hThread hDrawn with
        ⟨hLe, hFree⟩
      refine ⟨Nat.le_trans hLe (hMono _), ?_⟩
      intro row hRow hIn hEq
      rcases hRows row hRow with hOld | ⟨-, hMineIn, hMineSeq⟩
      · exact hFree row hOld hIn hEq
      · rw [hIn] at hMineIn
        rw [hEq] at hMineSeq
        exact
          hBoth.1 threadId seq hMineIn hMineSeq hThread hDrawn
    · intro threadId seq hThread' hDrawn' hThread hDrawn
      exact hApart threadId seq hThread hDrawn hThread' hDrawn'

/- A call that fails keeps the drawn numbers apart. -/
theorem keeps_drawn_failed
    {exn : Exn}
    {next : Except Exn op.Reply → Driver Unit}
    (hPresent : system.tasks taskId = some task)
    (hHolds : drawnOutline.Holds system.world system.tasks) :
    drawnOutline.Keeps system.tasks taskId system.world task
      system.world
      { task with
        program := next (.error exn)
        phase := task.phase.after op (.error exn) } := by
  rcases hHolds.locally taskId task hPresent with ⟨hNone, hMine⟩
  have hHeld :
      ∀ threadId seq,
        (task.phase.role.after op (.error exn)).thread? =
            some threadId →
          drawnAfter task.phase.drawn op (.error exn) =
              some seq →
            task.phase.role.thread? = some threadId ∧
              task.phase.drawn = some seq := by
    intro threadId seq hThread hDrawn
    have hBefore := drawn_failed hDrawn
    cases hOld : task.phase.role.thread? with
    | none =>
        rw [hNone hOld] at hBefore
        cases hBefore
    | some other =>
        have hAfter := thread_after op (.error exn) hOld
        rw [hThread] at hAfter
        exact ⟨hAfter.symm, hBefore⟩
  refine ⟨hHolds.globally, ⟨?_, ?_⟩, ?_⟩
  · intro hAfter
    cases hDrawn :
        drawnAfter task.phase.drawn op (.error exn) with
    | none => exact hDrawn
    | some seq =>
        have hBefore := drawn_failed hDrawn
        cases hOld : task.phase.role.thread? with
        | none =>
            rw [hNone hOld] at hBefore
            cases hBefore
        | some threadId =>
            have hStays := thread_after op (.error exn) hOld
            have hGone :
                (task.phase.role.after op
                    (.error exn)).thread? =
                  none :=
              hAfter
            rw [hGone] at hStays
            cases hStays
  · intro threadId seq hThread hDrawn
    rcases hHeld threadId seq hThread hDrawn with
      ⟨hBefore, hOld⟩
    exact hMine threadId seq hBefore hOld
  · intro otherId other hNe hOther hTheirs hBoth
    refine ⟨hTheirs, ?_, ?_⟩
    · intro threadId seq hThread hDrawn
      rcases hHeld threadId seq hThread hDrawn with
        ⟨hBefore, hOld⟩
      exact hBoth.1 threadId seq hBefore hOld
    · intro threadId seq hThread' hDrawn' hThread hDrawn
      rcases hHeld threadId seq hThread hDrawn with
        ⟨hBefore, hOld⟩
      exact
        hBoth.2 threadId seq hThread' hDrawn' hBefore hOld

end Calls

/- A request has no thread yet, and holds no number. -/
theorem thread_of_request
    (registry : Registry)
    (inst : InstanceId)
    (request : Request) :
    (request.task registry inst).phase.role.thread? = none ∧
      (request.task registry inst).phase.drawn = none := by
  cases request <;> exact ⟨rfl, rfl⟩

/- Every step keeps the drawn numbers apart. -/
theorem sustains_drawn
    (registry : Registry)
    (allowed : System → Action → Prop) :
    Sustains registry allowed drawnOutline where
  request := by
    intro system taskId inst request _ _
    rcases thread_of_request registry inst request with
      ⟨hThread, hDrawn⟩
    refine ⟨fun _ => hDrawn, ?_⟩
    intro threadId seq hSome
    rw [hThread] at hSome
    cases hSome
  alone := by
    intro inst request other
    rcases thread_of_request registry inst request with
      ⟨hThread, hDrawn⟩
    constructor
    · intro threadId seq hSome
      rw [hThread] at hSome
      cases hSome
    · intro threadId seq _ _ hSome
      rw [hThread] at hSome
      cases hSome
  call := by
    intro system taskId fault task op reply world' next hCall _
      hHolds
    cases hCall.executes with
    | done hExec => exact keeps_drawn hCall hExec hHolds
    | refused => exact keeps_drawn_failed hCall.present hHolds
    | fault => exact keeps_drawn_failed hCall.present hHolds
  sent := by
    intro system taskId task event next _ hTask _ _ hHolds
    exact
      ⟨hHolds.globally, hHolds.locally taskId task hTask,
        fun _ _ _ _ hOther hBoth => ⟨hOther, hBoth⟩⟩
  advance := by
    intro system seconds _ _ hHolds
    exact ⟨hHolds.globally, fun _ hTask => hTask⟩
  heartbeat := by
    intro system inst _ _ hHolds
    exact ⟨hHolds.globally, fun _ hTask => hTask⟩
  sweep := by
    intro system action selects _ _ _ hHolds
    exact ⟨hHolds.globally, fun _ hTask => hTask⟩
  collect := by
    intro system retention _ _ hHolds
    have hKept :
        ∀ row ∈ (system.world.db.collect retention).runEvents,
          row ∈ system.world.db.runEvents :=
      fun _ hRow => List.mem_of_mem_filter hRow
    refine ⟨fun row hRow => hHolds.globally row (hKept row hRow), ?_⟩
    rintro task ⟨hNone, hMine⟩
    refine ⟨hNone, ?_⟩
    intro threadId seq hThread hDrawn
    rcases hMine threadId seq hThread hDrawn with ⟨hLe, hFree⟩
    exact ⟨hLe, fun row hRow => hFree row (hKept row hRow)⟩
  crash := by
    intro system inst _ hHolds
    exact ⟨hHolds.globally, fun _ _ hTask => hTask⟩

/- An event that a task logs is added to the log. -/
theorem runLog_of_append
    {registry : Registry}
    {allowed : System → Action → Prop}
    {system : System}
    {taskId : TaskId}
    {task : Task}
    {threadId : ThreadId}
    {runId : RunId}
    {event : RunEvent}
    {world' : World}
    (hCall :
      Calls registry allowed system taskId false task
        (.appendRunEvent threadId runId event) (.ok ()) world')
    (hExec :
      exec task.inst (.appendRunEvent threadId runId event)
          system.world =
        (.ok (), world'))
    (hRun : system.world.db.hasRun runId threadId) :
    world'.db.runLog runId =
      system.world.db.runLog runId ++ [event] := by
  have hDrawn : task.phase.drawn = some event.seq := hCall.drawn
  have hThread := thread_of_logs hCall.allows
  rcases
      ((holds_of_reachable (sustains_drawn registry allowed)
        (fun _ hRow => nomatch hRow) hCall.reachable).locally
          taskId task hCall.present).2 threadId event.seq hThread
        hDrawn with
    ⟨-, hFree⟩
  have hFormed := wellFormed_of_reachable hCall.reachable
  have hNew :
      (system.world.db.runEvents.any fun row =>
          row.runId == runId && row.seq == event.seq) =
        false := by
    rw [List.any_eq_false]
    intro row hRow hSame
    simp only [Bool.and_eq_true, beq_iff_eq] at hSame
    have hIn := hFormed.eventRuns row hRow
    rw [hSame.1, Db.hasRun, hRun, Option.some_inj] at hIn
    exact hFree row hRow hIn.symm hSame.2
  cases hExec
  change
    (system.world.db.appendEvent threadId runId event).runLog
        runId =
      _
  rw [Db.appendEvent, hNew, if_neg Bool.false_ne_true,
    Db.runLog, List.filter_append, List.map_append, Db.runLog]
  simp

------------------------------------------------------------
-- Approval Requests
------------------------------------------------------------

/- The events of a run that a driver goes on with. -/
def EventName.advances : EventName → Bool
| .runStarted | .toolCall | .toolResult | .citationAdded => true
| _ => false

/-
  Whether the log of a run has the approval request of the
  last pause: no driver has gone on behind it.
-/
def Db.Requested (db : Db) (runId : RunId) : Prop :=
  ∃ before request after,
    db.runLog runId = before ++ request :: after ∧
      request.name = .approvalRequested ∧
        ∀ event ∈ after, event.name.advances = false

/- The paused run whose approval a role still has to request. -/
def Role.announces? : Role → Option RunId
| .on job (.paused false) => some job.run
| _ => none

/- Whether a role logs the events of the run it drives. -/
def Role.Paired (role : Role) : Prop :=
  ∀ job, role.job? = some job → job.log = job.run

section Roles

variable {role : Role} {op : Op} {value : op.Reply}
variable {runId : RunId}

/- A driver logs the events that it goes on with. -/
theorem writer_of_advances
    {threadId : ThreadId}
    {event : RunEvent}
    (hAllows :
      role.Allows (.appendRunEvent threadId runId event))
    (hPaired : role.Paired)
    (hAdvances : event.name.advances = true) :
    role.writer? = some runId := by
  cases hAllows with
  | lookingLog hName =>
      rw [hName] at hAdvances
      cases hAdvances
  | @on job stage _ hStage =>
      have hLog : job.log = job.run := hPaired job rfl
      cases hStage with
      | openingLog => exact congrArg some hLog.symm
      | wonLog => exact congrArg some hLog.symm
      | drivingLog => exact congrArg some hLog.symm
      | erringLog hName =>
          rw [hName] at hAdvances
          cases hAdvances
      | pausedLog hName =>
          rw [hName] at hAdvances
          cases hAdvances
      | closingLog hName =>
          simp only [List.mem_cons, List.not_mem_nil,
            or_false] at hName
          rcases hName with hName | hName | hName <;>
            rw [hName] at hAdvances <;> cases hAdvances
      | leftLog hName =>
          rw [hName] at hAdvances
          cases hAdvances

/- A task that has to request an approval does so or waits. -/
theorem announces_after
    (hAllows : role.Allows op)
    (hAnnounces : role.announces? = some runId) :
    (role.after op (.ok value)).announces? = some runId ∨
      ∃ job event,
        role.job? = some job ∧ job.run = runId ∧
          op = .appendRunEvent job.thread job.log event ∧
            event.name = .approvalRequested := by
  cases hAllows with
  | @on job stage _ hStage =>
      cases hStage with
      | pausedMark | pausedPending | pausedSeq =>
          exact Or.inl hAnnounces
      | @pausedLog event hName =>
          exact
            Or.inr
              ⟨job, event, rfl, Option.some_inj.mp hAnnounces,
                rfl, hName⟩
      | _ => cases hAnnounces
  | _ => cases hAnnounces

/- A task that has to request an approval has not ended. -/
theorem not_announces_of_ended
    {task : Task}
    (hConforms : task.Conforms)
    (hEnded : task.ended = true) :
    task.phase.role.announces? ≠ some runId := by
  intro hAnnounces
  have hMay := mayEnd_of_ended hConforms hEnded
  cases hRole : task.phase.role with
  | on job stage =>
      rw [hRole] at hAnnounces hMay
      cases stage with
      | paused told =>
          cases told with
          | false => cases hMay
          | true => cases hAnnounces
      | _ => cases hAnnounces
  | _ =>
      rw [hRole] at hAnnounces
      cases hAnnounces

end Roles

------------------------------------------------------------
-- Conditions
------------------------------------------------------------

/-
  Whether the pump of a resume finds another run than the one
  that it was opened for.
-/
def System.Misdirects
    (system : System)
    (action : Action) :
    Prop :=
  ∃ task threadId log synthetic active runId status db,
    system.call? action = some (task, .getActiveRun active) ∧
      task.phase.role = .looking log threadId synthetic ∧
        getActiveRun active system.world.db =
            .ok (some (runId, status), db) ∧
          runId ≠ log

/-
  The steps at which the pump that paused a run is lost before
  it has logged the approval request: a failing call, which
  may be the write of the request itself, or a crash.
-/
inductive Silences
    (system : System) :
    Action → RunId → Prop where
  | failed {taskId fault task op runId}
      (hCall :
        system.call? (.turn taskId fault) = some (task, op))
      (hAnnounces : task.phase.role.announces? = some runId)
      (hFails :
        fault = true ∨
          (exec task.inst op system.world).1.isOk = false)
      (hWaits :
        system.world.db.status? runId = some .awaitingApproval) :
      Silences system (.turn taskId fault) runId
  | crashed {inst taskId task runId}
      (hTask : system.tasks taskId = some task)
      (hInst : task.inst = inst)
      (hAnnounces : task.phase.role.announces? = some runId)
      (hWaits :
        system.world.db.status? runId = some .awaitingApproval) :
      Silences system (.crash inst) runId

/- Whether a collection deletes the log of a waiting run. -/
def System.Drops
    (system : System)
    (action : Action) :
    Prop :=
  ∃ retention,
    action = .collectEvents retention ∧
      ∃ row ∈ system.world.db.runEvents,
        system.world.db.status? row.runId =
            some .awaitingApproval ∧
          system.world.db.keepsEvent retention row = false

/-
  Running runs keep a driver, every pump drives the run it was
  opened for, and the approval requests of waiting runs are
  logged and kept.
-/
structure Heard (system : System) (action : Action) : Prop where
  steered : Steered system action
  directed : ¬system.Misdirects action
  announced : ∀ runId, ¬Silences system action runId
  kept : ¬system.Drops action

------------------------------------------------------------
-- Announced Pauses
------------------------------------------------------------

/- The jobs of the tasks log the runs that they drive. -/
def pairedOutline : Outline Db Role where
  globally := fun _ => True
  locally := fun _ role => role.Paired
  mutually := fun _ _ => True

section Calls

variable {registry : Registry}
variable {system : System} {taskId : TaskId} {task : Task}
variable {op : Op} {value : op.Reply} {world' : World}

/- A job is kept, was opened or found by a task, or was won. -/
theorem paired_after
    (hCall :
      Calls registry Heard system taskId false task op
        (.ok value) world')
    (hExec :
      exec task.inst op system.world = (.ok value, world'))
    (hPaired : task.phase.role.Paired) :
    (task.phase.role.after op (.ok value)).Paired := by
  intro job hJob
  have hAllows := hCall.allows
  cases hRole : task.phase.role with
  | on job' stage =>
      rw [hRole] at hJob hPaired
      exact hPaired job hJob
  | aside =>
      rw [hRole] at hJob
      cases hJob
  | fresh =>
      rw [hRole] at hJob hAllows
      cases hAllows with
      | freshOpen =>
          cases hJob
          rfl
      | freshActive =>
          rcases value with _ | ⟨_, status⟩
          · cases hJob
          · cases status <;> cases hJob
      | freshRead => rcases value with _ | _ <;> cases hJob
  | looking log threadId synthetic =>
      rw [hRole] at hJob hAllows
      cases hAllows with
      | lookingActive =>
          rcases value with _ | ⟨runId, status⟩
          · cases hJob
          · cases status with
            | awaitingApproval =>
                cases hJob
                by_contra hNe
                refine
                  hCall.permitted.directed
                    ⟨task, threadId, log, false, threadId, runId,
                      _, _, call?_of_calls hCall, hRole,
                      statement_of_onDb hExec, ?_⟩
                exact fun hEq => hNe hEq.symm
            | _ => cases hJob
      | _ => cases hJob
  | watching threadId runId =>
      rw [hRole] at hJob hAllows
      cases hAllows with
      | watchingRunning =>
          cases value with
          | false => cases hJob
          | true =>
              cases hJob
              rfl
      | watchingPaused =>
          cases value with
          | false => cases hJob
          | true =>
              cases hJob
              rfl
      | _ => cases hJob

end Calls

/- A call that fails leaves the job of a role. -/
theorem job_failed
    {role : Role}
    {op : Op}
    {exn : Exn}
    {job : Job}
    (hJob : (role.after op (.error exn)).job? = some job) :
    role.job? = some job := by
  cases role with
  | on job' stage => exact hJob
  | aside => cases hJob
  | fresh => cases op <;> cases hJob
  | looking => cases op <;> cases hJob
  | watching =>
      cases op with
      | tryTransition _ fromStatus =>
          cases fromStatus <;> cases hJob
      | _ => cases hJob

/- Every step keeps the jobs paired. -/
theorem sustains_paired
    {registry : Registry} :
    SustainsRoles registry Heard pairedOutline where
  idle := by
    intro db role hIdle _ job hJob
    cases role with
    | aside => cases hJob
    | fresh => cases hJob
    | _ => cases hIdle
  alone := fun _ _ _ => ⟨trivial, trivial⟩
  done := by
    intro system taskId task op value world' hCall hExec hHolds
    exact
      ⟨trivial,
        paired_after hCall hExec
          (hHolds.locally taskId task hCall.present),
        fun _ _ _ _ hOther _ => ⟨hOther, trivial, trivial⟩⟩
  failed := by
    intro system taskId fault task op exn hCall _ hHolds
    refine
      ⟨trivial, ?_,
        fun _ _ _ _ hOther _ => ⟨hOther, trivial, trivial⟩⟩
    intro job hJob
    exact
      hHolds.locally taskId task hCall.present job
        (job_failed hJob)
  advance := fun _ _ _ => ⟨trivial, fun _ hMine => hMine⟩
  heartbeat := fun _ _ _ => ⟨trivial, fun _ hMine => hMine⟩
  sweep := fun _ _ _ _ => ⟨trivial, fun _ hMine => hMine⟩
  collect := fun _ _ _ => ⟨trivial, fun _ hMine => hMine⟩

theorem paired_of_reachable
    {registry : Registry}
    {system : System}
    (hReachable : Reachable registry Heard system)
    {taskId : TaskId}
    {task : Task}
    (hTask : system.tasks taskId = some task) :
    task.phase.role.Paired :=
  (roles_of_reachable sustains_paired trivial
    hReachable).locally taskId task hTask

/-
  Every waiting run has the request of its pause in its log,
  or a pump that is about to log it.
-/
def System.Announced (system : System) : Prop :=
  ∀ runId,
    system.world.db.status? runId = some .awaitingApproval →
      system.world.db.Requested runId ∨
        ∃ taskId task,
          system.tasks taskId = some task ∧
            task.phase.role.announces? = some runId

section Changes

variable {db db' : Db} {role : Role}
variable {op : Op} {value : op.Reply} {runId : RunId}

/- A run that waits behind a call did so or was paused by it. -/
theorem waiting_before
    (hChanges : ChangesRuns db db' op value)
    (hFresh : db.runs.get? db.nextId = none)
    (hAllows : role.Allows op)
    (hWaits : db'.status? runId = some .awaitingApproval) :
    db.status? runId = some .awaitingApproval ∨
      ∃ status ended, op = .setRunStatus runId status ended := by
  cases hChanges with
  | opened hThread hAlone hRuns =>
      left
      rw [Db.status?, hRuns, Table.get?_insert hFresh] at hWaits
      split at hWaits
      · cases hWaits
      · exact hWaits
  | @set other status ended run hRun _ hRuns =>
      by_cases hEq : runId = other
      · subst hEq
        exact Or.inr ⟨_, _, rfl⟩
      · left
        rwa [status?_of_other hRuns hEq] at hWaits
  | @moved other fromStatus toStatus ended run hRun hStatus _
      hRuns =>
      left
      by_cases hEq : runId = other
      · subst hEq
        rw [status?_of_written hRun hRuns, Option.some_inj]
          at hWaits
        subst hWaits
        cases transition_of_allows hAllows
      · rwa [status?_of_other hRuns hEq] at hWaits
  | @committed threadId other contentMd citationIds parentId
      model row run hRun _ hRuns =>
      left
      by_cases hEq : runId = other
      · rw [hEq, status?_of_written hRun hRuns] at hWaits
        cases hWaits
      · rwa [status?_of_other hRuns hEq] at hWaits
  | missing _ hRuns =>
      left
      rwa [status?_of_runs hRuns runId] at hWaits
  | kept _ hRuns =>
      left
      rwa [status?_of_runs hRuns runId] at hWaits

/- A request stays behind events that do not go on. -/
theorem requested_append
    {event : RunEvent}
    (hRequested : db.Requested runId)
    (hLog : db'.runLog runId = db.runLog runId ++ [event])
    (hName : event.name.advances = false) :
    db'.Requested runId := by
  rcases hRequested with
    ⟨before, request, after, hBefore, hRequest, hAfter⟩
  refine
    ⟨before, request, after ++ [event], ?_, hRequest, ?_⟩
  · rw [hLog, hBefore, List.append_assoc, List.cons_append]
  · intro other hMem
    rcases List.mem_append.mp hMem with hOld | hNew
    · exact hAfter other hOld
    · rw [List.mem_singleton.mp hNew]
      exact hName

theorem requested_of_same
    (hRequested : db.Requested runId)
    (hLog : db'.runLog runId = db.runLog runId) :
    db'.Requested runId := by
  rcases hRequested with
    ⟨before, request, after, hBefore, hRest⟩
  exact ⟨before, request, after, hLog.trans hBefore, hRest⟩

end Changes

section Steps

variable {registry : Registry}
variable {system : System} {taskId : TaskId} {fault : Bool}
variable {task : Task} {op : Op} {value : op.Reply}
variable {exn : Exn} {world' : World} {runId : RunId}

/- The request of a waiting run stays behind a call. -/
theorem requested_of_exec
    (hCall :
      Calls registry Heard system taskId false task op
        (.ok value) world')
    (hExec :
      exec task.inst op system.world = (.ok value, world'))
    (hWaits :
      system.world.db.status? runId = some .awaitingApproval)
    (hRequested : system.world.db.Requested runId) :
    world'.db.Requested runId := by
  rcases runLog_of_exec hExec runId with
    hSame | ⟨threadId, event, rfl, hLog⟩
  · exact requested_of_same hRequested hSame
  · apply requested_append hRequested hLog
    rw [Bool.eq_false_iff]
    intro hAdvances
    -- a driver of the run would have to have logged the event
    have hWriter :=
      writer_of_advances hCall.allows
        (paired_of_reachable hCall.reachable hCall.present)
        hAdvances
    rcases
        written_of_reachable hCall.reachable hCall.present
          hWriter with
      ⟨status, hStatus, hMay⟩
    rw [hWaits] at hStatus
    cases hStatus
    cases hMay

/- A task that has to request an approval stays or has done it. -/
theorem announced_of_exec
    (hCall :
      Calls registry Heard system taskId false task op
        (.ok value) world')
    (hExec :
      exec task.inst op system.world = (.ok value, world'))
    (hAnnounces : task.phase.role.announces? = some runId) :
    (task.phase.role.after op (.ok value)).announces? =
        some runId ∨
      world'.db.Requested runId := by
  have hEither :
      (task.phase.role.after op (.ok value)).announces? =
          some runId ∨
        _ :=
    announces_after hCall.allows hAnnounces
  rcases hEither with
    hStays | ⟨job, event, hJob, rfl, rfl, hName⟩
  · exact Or.inl hStays
  · right
    have hLog : job.log = job.run :=
      paired_of_reachable hCall.reachable hCall.present job hJob
    have hRun :=
      known_of_job hJob
        (known_of_reachable hCall.reachable hCall.present)
    have hAppended := runLog_of_append hCall hExec hRun
    rw [← hLog]
    exact
      ⟨_, event, [], hAppended, hName,
        fun _ hMem => nomatch hMem⟩

/- A task that pauses a run has to request its approval. -/
theorem announces_of_pause
    {status : RunStatus}
    {ended : Bool}
    (hAllows :
      task.phase.role.Allows
        (.setRunStatus runId status ended)) :
    (task.phase.role.after (.setRunStatus runId status ended)
        (.ok ())).announces? =
      some runId := by
  rcases pause_of_allows hAllows with
    ⟨-, -, job, root, hRole, rfl⟩
  rw [hRole]
  rfl

/- A task that has to request an approval does not fail. -/
theorem other_of_announces
    {other : TaskId}
    {task' : Task}
    (hCall :
      Calls registry Heard system taskId fault task op
        (.error exn) world')
    (hWaits :
      system.world.db.status? runId = some .awaitingApproval)
    (hTask : system.tasks other = some task')
    (hAnnounces : task'.phase.role.announces? = some runId) :
    other ≠ taskId := by
  rintro rfl
  rw [hCall.present, Option.some_inj] at hTask
  subst hTask
  have hFails := fails_of_calls hCall
  exact
    hCall.permitted.announced runId
      (.failed (call?_of_calls hCall) hAnnounces hFails hWaits)

end Steps

variable {registry : Registry}

/- Every step keeps the waiting runs announced. -/
theorem preserves_announced :
    Preserves registry Heard System.Announced where
  request := by
    intro system taskId inst request _ _ hNone hAnnounced runId
      hWaits
    rcases hAnnounced runId hWaits with
      hRequested | ⟨other, task, hTask, hAnnounces⟩
    · exact Or.inl hRequested
    · exact
        Or.inr
          ⟨other, task, present_of_added hNone hTask, hAnnounces⟩
  call := by
    intro system taskId fault task op reply world' next hCall _
      hAnnounced runId hWaits
    have hWaits' :
        world'.db.status? runId = some .awaitingApproval :=
      hWaits
    have hExecutes := hCall.executes
    cases hExecutes with
    | done hExec =>
        have hFresh :=
          (wellFormed_of_reachable hCall.reachable).freshRun
        rcases waiting_before (changesRuns_of_exec hExec) hFresh
            hCall.allows hWaits' with
          hWas | ⟨status, ended, rfl⟩
        · rcases hAnnounced runId hWas with
            hRequested | ⟨other, task', hTask, hAnnounces⟩
          · left
            exact requested_of_exec hCall hExec hWas hRequested
          · by_cases hEq : other = taskId
            · subst hEq
              rw [hCall.present, Option.some_inj] at hTask
              subst hTask
              rcases announced_of_exec hCall hExec hAnnounces with
                hStays | hRequested
              · exact Or.inr ⟨other, _, if_pos rfl, hStays⟩
              · exact Or.inl hRequested
            · exact
                Or.inr
                  ⟨other, task', present_of_other hEq hTask,
                    hAnnounces⟩
        · exact
            Or.inr
              ⟨taskId, _, if_pos rfl,
                announces_of_pause hCall.allows⟩
    | refused _ | fault _ =>
        rcases hAnnounced runId hWaits with
          hRequested | ⟨other, task', hTask, hAnnounces⟩
        · exact Or.inl hRequested
        · have hNe :=
            other_of_announces hCall hWaits hTask hAnnounces
          exact
            Or.inr
              ⟨other, task', present_of_other hNe hTask,
                hAnnounces⟩
  sent := by
    intro system taskId task event next _ hTask _ hRole
      hAnnounced runId hWaits
    rcases hAnnounced runId hWaits with
      hRequested | ⟨other, task', hTask', hAnnounces⟩
    · exact Or.inl hRequested
    · refine Or.inr ⟨other, task', ?_, hAnnounces⟩
      have hNe : other ≠ taskId := by
        rintro rfl
        rw [hTask, Option.some_inj] at hTask'
        rw [← hTask', hRole] at hAnnounces
        cases hAnnounces
      exact present_of_other hNe hTask'
  advance := fun _ _ _ hAnnounced => hAnnounced
  heartbeat := by
    intro system inst _ _ hAnnounced runId hWaits
    apply hAnnounced runId
    rw [← status?_heartbeat system.world.db
      (system.world.instances inst).active runId]
    exact hWaits
  sweep := by
    intro system action selects _ _ _ hAnnounced runId hWaits
    apply hAnnounced runId
    change
      (system.world.db.sweep selects).status? runId =
        some .awaitingApproval
      at hWaits
    rw [status?_sweep] at hWaits
    rcases Option.map_eq_some_iff.mp hWaits with
      ⟨run, hRun, hStatus⟩
    split at hStatus
    · cases hStatus
    · rw [Db.status?, hRun, Option.map_some, hStatus]
  collect := by
    intro system retention _ hHeard hAnnounced runId hWaits
    rcases hAnnounced runId hWaits with hRequested | hTask
    · left
      apply requested_of_same hRequested
      change
        (system.world.db.collect retention).runLog runId = _
      rw [Db.runLog, Db.collect, List.filter_filter, Db.runLog]
      refine congrArg _ (List.filter_congr ?_)
      intro row hRow
      by_cases hEq : row.runId = runId
      · have hKept :
            system.world.db.keepsEvent retention row = true := by
          by_contra hGone
          rw [Bool.not_eq_true] at hGone
          refine
            hHeard.kept
              ⟨retention, rfl, row, hRow, ?_, hGone⟩
          rw [hEq]
          exact hWaits
        rw [hKept, Bool.and_true]
      · simp [hEq]
    · exact Or.inr hTask
  crash := by
    intro system inst _ hHeard hAnnounced runId hWaits
    rcases hAnnounced runId hWaits with
      hRequested | ⟨taskId, task, hTask, hAnnounces⟩
    · exact Or.inl hRequested
    · refine Or.inr ⟨taskId, task, ?_, hAnnounces⟩
      have hNe : task.inst ≠ inst := by
        intro hInst
        exact
          hHeard.announced runId
            (.crashed hTask hInst hAnnounces hWaits)
      simp [System.survivors, hTask, hNe]

------------------------------------------------------------
-- Polls
------------------------------------------------------------

/- Whether no event of a log is behind a cursor. -/
def Db.Drained
    (db : Db)
    (runId : RunId)
    (cursor : Option Nat) :
    Prop :=
  ∀ event ∈ db.runLog runId,
    cursor.all (· < event.seq) = false

/- The world once a thread has been deleted. -/
def World.deleting (world : World) (threadId : ThreadId) : World :=
  { world with db := world.db.withoutThread threadId }

/-
  A stream behind the log of a run returns at its next poll,
  or the run waits and the log has the request of its pause.
-/
def World.Closes
    (world : World)
    (runId : RunId)
    (cursor : Option Nat) :
    Prop :=
  (∀ inst polls, ∃ sent,
      (RunManager.stream runId (polls + 1) cursor).run
          (exec inst) world =
        (.ok (), world, sent)) ∨
    world.db.status? runId = some .awaitingApproval ∧
      world.db.Requested runId

section Polls

variable {world : World} {runId : RunId} {cursor : Option Nat}

/- A poll behind the log reads nothing. -/
theorem page_of_drained
    (hDrained : world.db.Drained runId cursor) :
    getRunEventsAfter runId cursor world.db =
      .ok ([], world.db) := by
  have hNone :
      (world.db.runEvents.filter fun row =>
          row.runId == runId && cursor.all (· < row.seq)) =
        [] := by
    rw [List.filter_eq_nil_iff]
    intro row hRow hBehind
    rw [Bool.and_eq_true] at hBehind
    have hAt :=
      hDrained ⟨row.data, row.seq⟩
        (List.mem_map_of_mem
          (List.mem_filter.mpr ⟨hRow, hBehind.1⟩))
    rw [hBehind.2] at hAt
    cases hAt
  rw [getRunEventsAfter, Statement.query, hNone]
  rfl

/- A poll behind the log of a run that has ended returns. -/
theorem run_stream_ended
    (inst : InstanceId)
    (polls : Nat)
    {status : RunStatus}
    (hDrained : world.db.Drained runId cursor)
    (hStatus : world.db.status? runId = some status)
    (hTerminal : status.terminal = true) :
    ∃ sent,
      (RunManager.stream runId (polls + 1) cursor).run
          (exec inst) world =
        (.ok (), world, sent) := by
  rcases Option.map_eq_some_iff.mp hStatus with ⟨run, hRun, rfl⟩
  have hPage :
      exec inst (.getRunEventsAfter runId cursor) world =
        (.ok [], world) := by
    simp only [exec, World.onDb, Statement.commit,
      page_of_drained hDrained]
  have hRead :
      exec inst (.getRun runId) world =
        (.ok (some (run.threadId, run.status)), world) := by
    simp only [exec, World.onDb, Statement.commit, getRun,
      Statement.query, hRun, Option.map_some]
  refine
    ⟨[] ++
        [dbTerminalEvent runId run.status
          (cursor.elim 0 (· + 1))],
      ?_⟩
  rw [RunManager.stream, Gen.run_perform_ok hPage]
  apply Gen.run_bind_ok (run_sendPage inst cursor [])
  simp only [List.any_nil, Bool.false_eq_true, if_false,
    List.isEmpty_nil, if_true]
  rw [Gen.run_perform_ok hRead]
  dsimp only
  rw [if_pos hTerminal]
  rfl

/- A poll for a run without a row goes on. -/
theorem run_stream_absent
    (inst : InstanceId)
    (polls : Nat)
    (hDrained : world.db.Drained runId cursor)
    (hStatus : world.db.status? runId = none) :
    (RunManager.stream runId polls cursor).run (exec inst)
        world =
      (.error .generatorExit, world, []) := by
  have hRun : world.db.runs.get? runId = none :=
    Option.map_eq_none_iff.mp hStatus
  have hPage :
      exec inst (.getRunEventsAfter runId cursor) world =
        (.ok [], world) := by
    simp only [exec, World.onDb, Statement.commit,
      page_of_drained hDrained]
  have hRead :
      exec inst (.getRun runId) world = (.ok none, world) := by
    simp only [exec, World.onDb, Statement.commit, getRun,
      Statement.query, hRun, Option.map_none]
  induction polls with
  | zero => rfl
  | succ polls ih =>
      rw [RunManager.stream, Gen.run_perform_ok hPage]
      apply Gen.run_bind_ok (run_sendPage inst cursor [])
      simp only [List.any_nil, Bool.false_eq_true, if_false,
        List.isEmpty_nil, if_true]
      rw [Gen.run_perform_ok hRead]
      exact ih

/- A drained stream of a run that is over or announced closes. -/
theorem closes_of_status
    {status : RunStatus}
    (hDrained : world.db.Drained runId cursor)
    (hStatus : world.db.status? runId = some status)
    (hEither :
      status.terminal = true ∨
        status = .awaitingApproval ∧
          world.db.Requested runId) :
    world.Closes runId cursor := by
  rcases hEither with hTerminal | ⟨rfl, hRequested⟩
  · left
    intro inst polls
    exact
      run_stream_ended inst polls hDrained hStatus hTerminal
  · exact Or.inr ⟨hStatus, hRequested⟩

/- The log of a run behind the deletion of a thread. -/
theorem runLog_deleting
    (hFormed : world.db.WellFormed)
    {threadId other : ThreadId}
    (hRun : world.db.hasRun runId threadId) :
    (world.deleting other).db.runLog runId =
      if threadId = other then []
      else world.db.runLog runId := by
  change (world.db.withoutThread other).runLog runId = _
  rw [Db.runLog, Db.withoutThread, List.filter_filter]
  have hThread :
      ∀ row ∈ world.db.runEvents,
        row.runId = runId → row.threadId = threadId := by
    intro row hRow hEq
    have hIn := hFormed.eventRuns row hRow
    rw [hEq, Db.hasRun, hRun, Option.some_inj] at hIn
    exact hIn.symm
  split
  · rename_i hEq
    subst hEq
    rw [List.filter_eq_nil_iff.mpr]
    · rfl
    · intro row hRow hBoth
      simp only [Bool.and_eq_true, beq_iff_eq, bne_iff_ne]
        at hBoth
      exact hBoth.2 (hThread row hRow hBoth.1)
  · rename_i hNe
    rw [Db.runLog]
    refine congrArg _ (List.filter_congr ?_)
    intro row hRow
    by_cases hEq : row.runId = runId
    · have hOther : row.threadId ≠ other := by
        rw [hThread row hRow hEq]
        exact hNe
      simp [hOther]
    · simp [hEq]

/- The status of a run behind the deletion of a thread. -/
theorem status?_deleting
    {threadId other : ThreadId}
    (hRun : world.db.hasRun runId threadId) :
    (world.deleting other).db.status? runId =
      if threadId = other then none
      else world.db.status? runId := by
  rcases Option.map_eq_some_iff.mp hRun with ⟨run, hGet, rfl⟩
  change
    ((world.db.runs.remove fun _ run =>
        run.threadId == other).get? runId).map Run.status =
      _
  rw [Table.get?_remove, Db.status?, hGet]
  by_cases hEq : run.threadId = other <;>
    simp [hEq, Option.filter_some]

end Polls

/- The run of a role that drives is the run of its job. -/
theorem on_of_drives
    {role : Role}
    {runId : RunId}
    (hDrives : role.drives? = some runId) :
    ∃ job stage, role = .on job stage ∧ job.run = runId := by
  cases role with
  | on job stage =>
      simp only [Role.drives?] at hDrives
      split at hDrives
      · exact ⟨job, stage, rfl, Option.some_inj.mp hDrives⟩
      · cases hDrives
  | _ => cases hDrives

/- The run of a role that announces is the run of its job. -/
theorem on_of_announces
    {role : Role}
    {runId : RunId}
    (hAnnounces : role.announces? = some runId) :
    ∃ job stage, role = .on job stage ∧ job.run = runId := by
  cases role with
  | on job stage =>
      cases stage with
      | paused told =>
          cases told with
          | false =>
              exact ⟨job, _, rfl, Option.some_inj.mp hAnnounces⟩
          | true => cases hAnnounces
      | _ => cases hAnnounces
  | _ => cases hAnnounces

/-
  A run that no task works on has ended, or it waits and its
  log has the request of its pause.
-/
theorem status_of_quiet
    {system : System}
    (hReachable : Reachable registry Heard system)
    {runId : RunId}
    {status : RunStatus}
    (hStatus : system.world.db.status? runId = some status)
    (hQuiet : system.quietOn runId) :
    status.terminal = true ∨
      status = .awaitingApproval ∧
        system.world.db.Requested runId := by
  cases status with
  | running =>
      exfalso
      have hDriven : system.Driven :=
        preserved_of_reachable preserves_driven
          (fun _ hRunning => nomatch hRunning)
          (hReachable.mono fun _ _ hHeard => hHeard.steered)
      rcases hDriven runId hStatus with
        ⟨taskId, task, hTask, hDrives⟩
      rcases on_of_drives hDrives with ⟨job, stage, hRole, hJob⟩
      exact
        not_drives_of_ended
          (conforms_of_reachable hReachable taskId task hTask)
          (hQuiet taskId task job stage hTask hRole hJob)
          hDrives
  | awaitingApproval =>
      right
      have hAnnounced : system.Announced :=
        preserved_of_reachable preserves_announced
          (fun _ hWaits => nomatch hWaits) hReachable
      rcases hAnnounced runId hStatus with
        hRequested | ⟨taskId, task, hTask, hAnnounces⟩
      · exact ⟨rfl, hRequested⟩
      · exfalso
        rcases on_of_announces hAnnounces with
          ⟨job, stage, hRole, hJob⟩
        exact
          not_announces_of_ended
            (conforms_of_reachable hReachable taskId task hTask)
            (hQuiet taskId task job stage hTask hRole hJob)
            hAnnounces
  | _ => exact Or.inl rfl

/-
  A stream behind the log of a run that no task works on
  closes or waits for a decision, as long as no running run
  loses its driver, no waiting run its approval request, and
  no pump drives another run than it logs.  It still does so
  behind the deletion of another thread, and polls for ever
  behind the deletion of its own.
-/
theorem polling_ends
    {system : System}
    {runId : RunId}
    {status : RunStatus}
    {cursor : Option Nat}
    (hReachable : Reachable registry Heard system)
    (hStatus : system.world.db.status? runId = some status)
    (hQuiet : system.quietOn runId)
    (hDrained : system.world.db.Drained runId cursor) :
    system.world.Closes runId cursor ∧
      ∀ threadId,
        (system.world.deleting threadId).Closes runId cursor ↔
          ¬system.world.db.hasRun runId threadId := by
  have hEither := status_of_quiet hReachable hStatus hQuiet
  have hFormed := wellFormed_of_reachable hReachable
  rcases Option.map_eq_some_iff.mp hStatus with ⟨run, hRun, -⟩
  have hIn : system.world.db.hasRun runId run.threadId := by
    rw [Db.hasRun, hRun, Option.map_some]
  refine ⟨closes_of_status hDrained hStatus hEither, ?_⟩
  intro threadId
  have hLog :
      (system.world.deleting threadId).db.runLog runId = _ :=
    runLog_deleting hFormed hIn
  have hRow :
      (system.world.deleting threadId).db.status? runId = _ :=
    status?_deleting hIn
  constructor
  · rintro hCloses hSame
    rw [Db.hasRun, hRun, Option.map_some, Option.some_inj]
      at hSame
    rw [if_pos hSame] at hLog hRow
    rcases hCloses with hReturns | ⟨hWaits, -⟩
    · rcases hReturns 0 0 with ⟨sent, hSent⟩
      have hNothing :
          (system.world.deleting threadId).db.Drained runId
            cursor := by
        intro event hMem
        rw [hLog] at hMem
        cases hMem
      rw [run_stream_absent 0 1 hNothing hRow] at hSent
      cases hSent
    · rw [hRow] at hWaits
      cases hWaits
  · intro hOther
    have hNe : run.threadId ≠ threadId := by
      rintro rfl
      exact hOther hIn
    rw [if_neg hNe] at hLog hRow
    refine
      closes_of_status ?_ (hRow.trans hStatus) ?_
    · intro event hMem
      rw [hLog] at hMem
      exact hDrained event hMem
    · rcases hEither with hTerminal | ⟨hWaits, hRequested⟩
      · exact Or.inl hTerminal
      · exact Or.inr ⟨hWaits, requested_of_same hRequested hLog⟩

/- Whether a step succeeds, and no pump looks for a run. -/
def System.straight (system : System) (action : Action) : Bool :=
  system.succeeds action &&
    match action, system.call? action with
    | .collectEvents _, _ => false
    | _, some (_, .getActiveRun _) => false
    | _, _ => true

/- The steps that succeed keep the waiting runs announced. -/
theorem heard_of_straight
    {system : System}
    {action : Action}
    (hStraight : system.straight action = true) :
    Heard system action := by
  simp only [System.straight, Bool.and_eq_true] at hStraight
  rcases hStraight with ⟨hSucceeds, hPlain⟩
  refine ⟨steered_of_succeeds hSucceeds, ?_, ?_, ?_⟩
  · rintro ⟨task, _, _, _, active, _, _, _, hCall, -, -, -⟩
    cases action with
    | turn taskId fault =>
        rw [hCall] at hPlain
        cases hPlain
    | _ => cases hCall
  · intro runId hSilences
    cases hSilences with
    | crashed => cases hSucceeds
    | failed hCall _ hFails =>
        exact not_fails_of_succeeds hSucceeds hCall hFails
  · rintro ⟨retention, rfl, -⟩
    cases hPlain

/- Whether no event of a log is behind a cursor. -/
instance
    (db : Db)
    (runId : RunId)
    (cursor : Option Nat) :
    Decidable (db.Drained runId cursor) :=
  inferInstanceAs
    (Decidable
      (∀ event ∈ db.runLog runId,
        cursor.all (· < event.seq) = false))

/- A stream of the waiting run of `pausedRun` closes. -/
theorem polling_ends_paused :
    ∃ system,
      execute (System.step .single) pausedRun .initial =
          some system ∧
        system.world.db.status? 1 = some .awaitingApproval ∧
          system.world.Closes 1 (some 4) := by
  rcases
      exists_of_execute
        (show
          (execute (System.step .single) pausedRun
              .initial).map (fun system =>
                (system.world.db.status? 1,
                  decide (system.world.db.Drained 1 (some 4)),
                  (List.range 2).all fun taskId =>
                    (system.tasks taskId).all Task.ended)) =
            some (some .awaitingApproval, true, true) by
          decide +kernel) with
    ⟨system, hSystem, hView⟩
  obtain ⟨hStatus, hDrained, hEnded⟩ :
      system.world.db.status? 1 = some .awaitingApproval ∧
        decide (system.world.db.Drained 1 (some 4)) = true ∧
          ((List.range 2).all fun taskId =>
            (system.tasks taskId).all Task.ended) = true := by
    simpa only [Prod.mk.injEq] using hView
  have hPasses :
      passes (System.step .single) System.straight pausedRun
          .initial =
        true := by
    decide +kernel
  have hReachable : Reachable .single Heard system :=
    run_of_execute hSystem hPasses fun _ _ => heard_of_straight
  have hQuiet : system.quietOn 1 := by
    intro taskId task job stage hTask _ _
    exact
      ended_of_execute hSystem (by decide) hEnded taskId task
        hTask
  exact
    ⟨system, hSystem, hStatus,
      (polling_ends hReachable hStatus hQuiet
        (of_decide_eq_true hDrained)).1⟩

/-
  A run that pauses and whose approval request cannot be
  logged.
-/
def unrequestedPause : List Action :=
  [.request 0 0 (.createThread none)] ++ turns 0 1 ++
    [.request 1 0
      (.start 0 [] none
        [.agent (.str []) (toolCalls ["a"]),
          .interrupt none])] ++
    turns 1 18 ++ [.turn 1 true] ++ turns 1 3

/- A stream of the run of `unrequestedPause` polls for ever. -/
theorem polling_lasts :
    ¬ ∀ (registry : Registry) (system : System)
        (runId : RunId) (status : RunStatus)
        (cursor : Option Nat),
      Reachable registry (fun _ _ => True) system →
        system.world.db.status? runId = some status →
          system.quietOn runId →
            system.world.db.Drained runId cursor →
              system.world.Closes runId cursor := by
  intro hCloses
  rcases
      exists_of_execute
        (show
          (execute (System.step .single) unrequestedPause
              .initial).map (fun system =>
                (system.world.db.status? 1,
                  decide (system.world.db.Drained 1 (some 3)),
                  (system.world.db.runLog 1).all fun event =>
                    event.name != .approvalRequested,
                  ((RunManager.stream 1 1 (some 3)).run (exec 0)
                    system.world).1.isOk,
                  (List.range 2).all fun taskId =>
                    (system.tasks taskId).all Task.ended)) =
            some (some .awaitingApproval, true, true, false,
              true) by
          decide +kernel) with
    ⟨system, hSystem, hView⟩
  obtain ⟨hStatus, hDrained, hNone, hPolls, hEnded⟩ :
      system.world.db.status? 1 = some .awaitingApproval ∧
        decide (system.world.db.Drained 1 (some 3)) = true ∧
          ((system.world.db.runLog 1).all fun event =>
              event.name != .approvalRequested) = true ∧
            ((RunManager.stream 1 1 (some 3)).run (exec 0)
                system.world).1.isOk =
              false ∧
              ((List.range 2).all fun taskId =>
                (system.tasks taskId).all Task.ended) =
                true := by
    simpa only [Prod.mk.injEq] using hView
  have hQuiet : system.quietOn 1 := by
    intro taskId task job stage hTask _ _
    exact
      ended_of_execute hSystem (by decide) hEnded taskId task
        hTask
  rcases hCloses .single system 1 .awaitingApproval (some 3)
      (execution_of_execute hSystem) hStatus hQuiet
      (of_decide_eq_true hDrained) with
    hReturns | ⟨-, before, request, after, hLog, hRequest, -⟩
  · rcases hReturns 0 0 with ⟨sent, hSent⟩
    rw [hSent] at hPolls
    cases hPolls
  · have hOther :=
      List.all_eq_true.mp hNone request (by simp [hLog])
    rw [hRequest] at hOther
    cases hOther

end LegalAgent
