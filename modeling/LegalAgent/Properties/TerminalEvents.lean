import LegalAgent.Properties.Status

/-
  Terminal events in the log of a run.

  A task that ends a run owes the log its terminal event.  As
  long as runs are paused only while they run, and the
  epilogue of a pump that logged no terminal event finds the
  run ended, a run is ended once, one task owes the event, and
  nobody logs a synthetic one.

  Key definitions include:
    * `Db.terminals`
    * `Role.owes?`
    * `System.readsActive`

  Key theorems include:
    * `one_terminal`
-/

------------------------------------------------------------
-- Conditions
------------------------------------------------------------

namespace LegalAgent

open Library

/- The terminal events in the log of a run. -/
def Db.terminals (db : Db) (runId : RunId) : List RunEventRow :=
  db.runEvents.filter fun row =>
    row.runId == runId && row.data.name.terminal

/-
  Whether a call of the database fails.  Opening a run fails
  by design while the thread has an active run.
-/
def System.failsDatabase
    (system : System)
    (action : Action) :
    Bool :=
  match action, system.call? action with
  | .turn _ _, some (_, .openRun ..) => false
  | .turn _ fault, some (task, op) =>
      op.kind == .database &&
        (fault || !(exec task.inst op system.world).1.isOk)
  | _, _ => false

/- Whether a run is opened when there is one. -/
def System.startsAgain (system : System) (action : Action) : Bool :=
  match system.call? action with
  | some (_, .openRun ..) => !system.world.db.runs.rows.isEmpty
  | _ => false

/- Whether a task is in the epilogue of its pump. -/
def Role.departs : Role → Bool
| .looking .. | .on _ (.left ..) => true
| _ => false

/- Whether the epilogue of a pump finds its run active. -/
def System.readsActive
    (system : System)
    (action : Action) :
    Bool :=
  match system.call? action with
  | some (task, .getRun runId) =>
      task.phase.role.departs &&
        (system.world.db.status? runId).any RunStatus.active
  | _ => false

/- The runs of one start whose database calls succeed. -/
structure OneStart (system : System) (action : Action) : Prop where
  succeeds : system.failsDatabase action = false
  starts : system.startsAgain action = false

/-
  Those of them that pause only a running run, and in which no
  epilogue finds its run active.
-/
structure SingleStart (system : System) (action : Action) : Prop
    extends OneStart system action where
  paused : Paused system action
  reads : system.readsActive action = false

------------------------------------------------------------
-- Debts
------------------------------------------------------------

/- The run that a task has ended without a terminal event. -/
def Role.owes? : Role → Option RunId
| .on job (.closing ..) => some job.log
| _ => none

/- The run of which a call logs a terminal event. -/
def Op.finishes : Op → Option RunId
| .appendRunEvent _ runId event =>
    if event.name.terminal then some runId else none
| _ => none

/- The row of a run that a call with its reply read. -/
def Op.readRun :
    (op : Op) → op.Reply →
      Option (Option (ThreadId × RunStatus))
| .getRun _, reply => some reply
| _, _ => none

/- The active run that a call with its reply found. -/
def Op.foundRun :
    (op : Op) → op.Reply → Option (RunId × RunStatus)
| .getActiveRun _, reply => reply
| _, _ => none

/-
  A role of a single start: no synthetic event is due, no
  question failed, and a task drives the run that it logs.
-/
def Role.Orderly : Role → Prop
| .looking _ _ synthetic => synthetic = false
| .on job (.left _ synthetic) =>
    synthetic = false ∧ job.log = job.run
| .on _ (.erring _) => False
| .on job _ => job.log = job.run
| _ => True

section Roles

variable {job : Job} {stage : Stage} {role : Role}
variable {op : Op} {value : op.Reply} {runId : RunId}

/- A task of a single start drives the run that it logs. -/
theorem log_of_orderly
    (hOrderly : (Role.on job stage).Orderly) :
    job.log = job.run := by
  cases stage with
  | left reason synthetic => exact hOrderly.2
  | erring ended => cases hOrderly
  | _ => exact hOrderly

/- A stage that owes an event owed it before, or is new. -/
theorem closing_after
    (hAllows : Stage.Allows job stage op)
    (hOwes :
      (Role.on job (stage.after op (.ok value))).owes? =
        some job.log) :
    ((Role.on job stage).owes? = some job.log ∧
        op.finishes = none ∧ op.wroteRuns value = false) ∨
      op.ended value = some job.run := by
  cases hAllows with
  | @closingLog event hName =>
      simp only [Stage.after] at hOwes
      split at hOwes
      · cases hOwes
      · rename_i hOpen
        exact Or.inl ⟨rfl, by simp [Op.finishes, hOpen], rfl⟩
  | choosingApprove => cases value <;> cases hOwes
  | drivingNext =>
      rcases value with _ | ⟨_ | _, _⟩ <;> cases hOwes
  | finalizingCommit =>
      cases value with
      | none => cases hOwes
      | some row => exact Or.inr rfl
  | _ =>
      first
        | exact Or.inl ⟨rfl, rfl, rfl⟩
        | cases hOwes
        | (cases value with
            | false => cases hOwes
            | true => exact Or.inr rfl)

/- A debt is kept until its event is logged, or is new. -/
theorem owes_after
    (hAllows : role.Allows op)
    (hOrderly : role.Orderly)
    (hOwes : (role.after op (.ok value)).owes? = some runId) :
    (role.owes? = some runId ∧ op.finishes = none ∧
        op.wroteRuns value = false) ∨
      op.ended value = some runId := by
  cases hAllows with
  | @on job stage _ hStage =>
      have hLog : job.log = runId := by
        cases hAfter : stage.after op (.ok value) <;>
          simp only [Role.after, hAfter] at hOwes <;>
          cases hOwes
        rfl
      subst hLog
      rcases closing_after hStage hOwes with
        hBefore | hEnded
      · exact Or.inl hBefore
      · right
        rw [hEnded, log_of_orderly hOrderly]
  | freshActive =>
      rcases value with _ | ⟨_, status⟩
      · cases hOwes
      · cases status <;> cases hOwes
  | freshRead => rcases value with _ | _ <;> cases hOwes
  | lookingActive =>
      rcases value with _ | ⟨_, status⟩
      · cases hOwes
      · cases status <;> cases hOwes
  | watchingRunning =>
      cases value with
      | false => cases hOwes
      | true =>
          cases hOwes
          exact Or.inr rfl
  | watchingPaused =>
      cases value with
      | false => cases hOwes
      | true =>
          cases hOwes
          exact Or.inr rfl
  | _ => cases hOwes

/- A failed call makes no debt. -/
theorem owes_failed
    {exn : Exn}
    (hAllows : role.Allows op)
    (hOwes : (role.after op (.error exn)).owes? = some runId) :
    role.owes? = some runId := by
  cases hAllows with
  | on hStage => cases hStage <;> cases hOwes
  | _ => cases hOwes

/- Only a task that owes it logs a terminal event. -/
theorem owes_of_finishes
    (hAllows : role.Allows op)
    (hOrderly : role.Orderly)
    (hFinishes : op.finishes = some runId) :
    role.owes? = some runId := by
  cases hAllows with
  | @on job stage _ hStage =>
      cases hStage with
      | closingLog hName =>
          simp only [Op.finishes] at hFinishes
          split at hFinishes
          · exact hFinishes
          · cases hFinishes
      | openingLog hName =>
          simp [Op.finishes, hName, EventName.terminal]
            at hFinishes
      | wonLog hName =>
          simp [Op.finishes, hName, EventName.terminal]
            at hFinishes
      | pausedLog hName =>
          simp [Op.finishes, hName, EventName.terminal]
            at hFinishes
      | drivingLog hName =>
          simp only [List.mem_cons, List.not_mem_nil, or_false]
            at hName
          rcases hName with hName | hName | hName <;>
            simp [Op.finishes, hName, EventName.terminal]
              at hFinishes
      | erringLog hName => cases hOrderly
      | leftLog hName => cases hOrderly.1
      | _ => cases hFinishes
  | lookingLog hName => cases hOrderly
  | _ => cases hFinishes

/- A role stays orderly when its epilogue finds an ended run. -/
theorem orderly_after
    (hAllows : role.Allows op)
    (hOrderly : role.Orderly)
    (hRead :
      role.departs = true →
        ∀ reply, op.readRun value = some reply →
          needsSynthetic (.ok reply) = false)
    (hFound :
      ∀ log threadId synthetic,
        role = .looking log threadId synthetic →
          ∀ found status,
            op.foundRun value = some (found, status) →
              found = log) :
    (role.after op (.ok value)).Orderly := by
  cases hAllows with
  | @on job stage _ hStage =>
      have hLog := log_of_orderly hOrderly
      cases hStage with
      | erringEnd => cases hOrderly
      | erringSeq => cases hOrderly
      | erringLog => cases hOrderly
      | leftRead => exact ⟨hRead rfl value rfl, hLog⟩
      | leftSeq => cases hOrderly.1
      | leftLog => cases hOrderly.1
      | drivingNext =>
          rcases value with _ | ⟨_ | _, _⟩ <;> exact hLog
      | finalizingCommit =>
          cases value with
          | none => exact ⟨rfl, hLog⟩
          | some row => exact hLog
      | closingLog =>
          simp only [Role.after, Stage.after]
          split <;> exact hLog
      | _ =>
          first
            | exact hLog
            | exact hOrderly
            | (cases value with
                | false => exact ⟨rfl, hLog⟩
                | true => exact hLog)
  | freshOpen => exact rfl
  | freshActive =>
      rcases value with _ | ⟨_, status⟩
      · trivial
      · cases status <;> trivial
  | freshRead => rcases value with _ | _ <;> trivial
  | lookingActive =>
      rcases value with _ | ⟨found, status⟩
      · exact hOrderly
      · have hSame := hFound _ _ _ rfl found status rfl
        cases status <;> first | exact hOrderly | exact hSame.symm
  | lookingRead => exact hRead rfl value rfl
  | lookingSeq => exact hOrderly
  | lookingLog => exact rfl
  | watchingRunning =>
      cases value with
      | false => trivial
      | true => exact rfl
  | watchingPaused =>
      cases value with
      | false => trivial
      | true => exact rfl
  | _ => trivial

/- A role stays orderly when a call of the agent fails. -/
theorem orderly_failed
    {exn : Exn}
    (hAllows : role.Allows op)
    (hOrderly : role.Orderly)
    (hKind :
      op.kind ≠ .database ∨
        ∃ threadId model, op = .openRun threadId model) :
    (role.after op (.error exn)).Orderly := by
  have hDatabase :
      op.kind = .database →
        ∃ threadId model, op = .openRun threadId model :=
    fun hEq => hKind.resolve_left fun hNe => hNe hEq
  cases hAllows with
  | @on job stage _ hStage =>
      have hLog := log_of_orderly hOrderly
      cases hStage <;>
        first
          | exact hLog
          | exact ⟨rfl, hLog⟩
          | exact hOrderly
          | (obtain ⟨_, _, hOpen⟩ := hDatabase rfl
             cases hOpen)
  | _ =>
      first
        | trivial
        | exact hOrderly
        | (obtain ⟨_, _, hOpen⟩ := hDatabase rfl
           cases hOpen)

end Roles

------------------------------------------------------------
-- Calls
------------------------------------------------------------

section Calls

variable {registry : Registry} {system : System}
variable {taskId : TaskId} {fault : Bool} {task : Task}
variable {op : Op} {world' : World} {runId : RunId}

/- A call that fails is none of the database. -/
theorem agent_of_failed
    {exn : Exn}
    (hCall :
      Calls registry SingleStart system taskId fault task op
        (.error exn) world') :
    op.kind ≠ .database ∨
      ∃ threadId model, op = .openRun threadId model := by
  by_contra hDatabase
  rw [not_or, not_not] at hDatabase
  rcases hDatabase with ⟨hKind, hOpen⟩
  have hFails := hCall.permitted.succeeds
  unfold System.failsDatabase at hFails
  rw [call?_of_calls hCall] at hFails
  have hSucceeds :
      fault = false ∧
        (exec task.inst op system.world).1.isOk = true := by
    cases op with
    | openRun threadId model =>
        exact absurd ⟨threadId, model, rfl⟩ hOpen
    | _ => simpa [hKind] using hFails
  cases hCall.executes with
  | refused hExec =>
      rw [hExec] at hSucceeds
      cases hSucceeds.2
  | fault hFault => cases hSucceeds.1

/- The status that an epilogue reads needs no synthetic event. -/
theorem ended_of_read
    {value : op.Reply}
    (hCall :
      Calls registry SingleStart system taskId false task op
        (.ok value) world')
    (hExec :
      exec task.inst op system.world = (.ok value, world'))
    (hDeparts : task.phase.role.departs = true)
    {reply : Option (ThreadId × RunStatus)}
    (hRead : op.readRun value = some reply) :
    needsSynthetic (.ok reply) = false := by
  cases op with
  | getRun runId =>
      cases hRead
      have hReads := hCall.permitted.reads
      unfold System.readsActive at hReads
      rw [call?_of_calls hCall] at hReads
      simp only [hDeparts, Bool.true_and] at hReads
      have hKnown :=
        known_of_reachable hCall.reachable hCall.present
      have hRun :
          ∃ threadId,
            system.world.db.hasRun runId threadId := by
        have hAllows := hCall.allows
        cases hRole : task.phase.role with
        | looking log threadId synthetic =>
            rw [hRole] at hAllows hKnown
            cases hAllows
            exact ⟨threadId, hKnown⟩
        | on job stage =>
            rw [hRole] at hAllows hKnown
            cases hAllows with
            | on hStage =>
                cases hStage
                exact ⟨job.thread, hKnown.2⟩
        | _ =>
            rw [hRole] at hDeparts
            cases hDeparts
      rcases hRun with ⟨threadId, hThread⟩
      rcases Option.map_eq_some_iff.mp hThread with
        ⟨run, hGet, rfl⟩
      have hReply :
          getRun runId system.world.db =
            .ok (reply, world'.db) :=
        statement_of_onDb hExec
      simp only [getRun, Statement.query, hGet,
        Option.map_some, Except.ok.injEq, Prod.mk.injEq]
        at hReply
      rw [← hReply.1]
      simpa [needsSynthetic, Db.status?, hGet] using hReads
  | _ => cases hRead

/- There is at most one run. -/
def Db.Single (db : Db) : Prop :=
  ∀ runId other,
    (db.runs.get? runId).isSome = true →
      (db.runs.get? other).isSome = true → runId = other

/- Updates of rows keep the run single. -/
theorem single_of_update
    {db db' : Db}
    {selects : RunId → Run → Bool}
    {change : Run → Run}
    (hRuns : db'.runs = db.runs.update selects change)
    (hSingle : db.Single) :
    db'.Single := by
  intro runId other hRun hOther
  simp only [hRuns, Table.get?_update, Option.isSome_map]
    at hRun hOther
  exact hSingle runId other hRun hOther

/- A single start opens one run. -/
theorem sustains_single :
    SustainsRoles registry SingleStart
      ⟨Db.Single, fun _ _ => True, fun _ _ => True⟩ where
  idle := fun _ _ _ _ => trivial
  alone := fun _ _ _ => ⟨trivial, trivial⟩
  done := by
    intro system taskId task op value world' hCall hExec hHolds
    have hSingle : system.world.db.Single := hHolds.globally
    have hFormed := wellFormed_of_reachable hCall.reachable
    have hWritten :
        ∀ runId status ended,
          world'.db.runs =
              (system.world.db.writeStatus runId status
                ended).runs →
            world'.db.Single :=
      fun runId status ended hRuns =>
        single_of_update
          (hRuns.trans (runs_writeStatus _ runId status ended))
          hSingle
    refine
      ⟨?_, trivial,
        fun _ _ _ _ _ _ => ⟨trivial, trivial, trivial⟩⟩
    cases changesRuns_of_exec hExec with
    | opened _ _ hRuns =>
        have hStarts := hCall.permitted.starts
        unfold System.startsAgain at hStarts
        rw [call?_of_calls hCall] at hStarts
        have hEmpty : system.world.db.runs.rows = [] := by
          simpa using hStarts
        intro runId other hRun hOther
        rw [hRuns, Table.get?_insert hFormed.freshRun, Table.get?,
          hEmpty] at hRun hOther
        split at hRun
        · rename_i hEq
          split at hOther
          · rename_i hEq'
            exact hEq.trans hEq'.symm
          · cases hOther
        · cases hRun
    | set _ _ hRuns => exact hWritten _ _ _ hRuns
    | moved _ _ _ hRuns => exact hWritten _ _ _ hRuns
    | committed _ _ hRuns => exact hWritten _ _ _ hRuns
    | missing _ hRuns =>
        intro runId other hRun hOther
        rw [hRuns] at hRun hOther
        exact hSingle runId other hRun hOther
    | kept _ hRuns =>
        intro runId other hRun hOther
        rw [hRuns] at hRun hOther
        exact hSingle runId other hRun hOther
  failed := by
    intro system taskId fault task op exn hCall _ hHolds
    exact
      ⟨hHolds.globally, trivial,
        fun _ _ _ _ _ _ => ⟨trivial, trivial, trivial⟩⟩
  advance := fun _ _ hSingle => ⟨hSingle, fun _ _ => trivial⟩
  heartbeat := fun db runIds hSingle =>
    ⟨single_of_update (runs_heartbeat db runIds) hSingle,
      fun _ _ => trivial⟩
  sweep := fun db selects _ hSingle =>
    ⟨single_of_update (runs_sweep db selects) hSingle,
      fun _ _ => trivial⟩
  collect := fun _ _ hSingle => ⟨hSingle, fun _ _ => trivial⟩

/- A single start never has two runs. -/
theorem single_of_reachable
    (hReachable : Reachable registry SingleStart system) :
    system.world.db.Single :=
  globally_of_execution sustains_single .refl
    (fun _ _ hRun => nomatch hRun) hReachable

/- The terminal events of a run after a call. -/
theorem terminals_of_exec
    {value : op.Reply}
    (hExec :
      exec task.inst op system.world = (.ok value, world'))
    (runId : RunId) :
    (world'.db.terminals runId).length ≤
        (system.world.db.terminals runId).length + 1 ∧
      (op.finishes ≠ some runId →
        world'.db.terminals runId =
          system.world.db.terminals runId) := by
  rcases log_of_exec hExec with
    hLog | ⟨threadId, logged, event, rfl, hLog⟩
  · simp [Db.terminals, hLog]
  · rw [Db.terminals, hLog, List.filter_append,
      List.length_append, Db.terminals]
    constructor
    · exact
        Nat.add_le_add_left
          (List.length_filter_le _ _) _
    · intro hFinishes
      refine (congrArg _ (List.filter_eq_nil_iff.mpr ?_)).trans
        (List.append_nil _)
      intro row hMem hTerminal
      rw [List.mem_singleton] at hMem
      subst hMem
      rw [Bool.and_eq_true, beq_iff_eq] at hTerminal
      have hName : event.name.terminal = true := hTerminal.2
      apply hFinishes
      rw [Op.finishes, if_pos hName, ← hTerminal.1]

/- A run that a call ended was active and has ended. -/
theorem hasEnded_of_ended
    {role : Role}
    {value : op.Reply}
    {db db' : Db}
    (hChanges : ChangesRuns db db' op value)
    (hAllows : role.Allows op)
    (hEnded : op.ended value = some runId) :
    (∃ status,
        db.status? runId = some status ∧
          status.active = true) ∧
      ∃ status, db'.hasEnded runId status := by
  cases hChanges with
  | @moved other fromStatus toStatus ended run hRun hStatus _
      hRuns =>
      simp only [Op.ended] at hEnded
      split at hEnded
      · cases hEnded
      · rename_i hTerminal
        cases hEnded
        refine ⟨⟨fromStatus, ?_, ?_⟩, toStatus, ?_, ?_⟩
        · rw [Db.status?, hRun, Option.map_some, hStatus]
        · cases transition_of_allows hAllows <;> rfl
        · exact status?_of_written hRun hRuns
        · simpa using hTerminal
  | committed hRun hStatus hRuns =>
      cases hEnded
      refine ⟨⟨.running, ?_, rfl⟩, .completed, ?_, rfl⟩
      · rw [Db.status?, hRun, Option.map_some, hStatus]
      · exact status?_of_written hRun hRuns
  | opened => cases hEnded
  | set => cases hEnded
  | missing => cases hEnded
  | kept hKept _ =>
      cases op with
      | tryTransition =>
          cases hKept
          cases hEnded
      | commitAgentAnswer =>
          cases value with
          | none => cases hEnded
          | some row => cases hKept
      | _ => cases hEnded

end Calls

------------------------------------------------------------
-- Terminal Events
------------------------------------------------------------

/- A log has one terminal event, and none while its run goes. -/
def Db.Finished (db : Db) : Prop :=
  ∀ runId,
    (db.terminals runId).length ≤ 1 ∧
      ∀ status,
        db.status? runId = some status →
          status.active = true → db.terminals runId = []

/- The debts of the tasks, and the terminal events. -/
def terminalOutline : Outline Db Role where
  globally := Db.Finished
  locally := fun db role =>
    role.Orderly ∧
      ∀ runId,
        role.owes? = some runId →
          db.terminals runId = [] ∧
            ∃ status, db.hasEnded runId status
  mutually := fun role other =>
    ∀ runId,
      role.owes? = some runId → other.owes? ≠ some runId

/- A run with an active status has not ended. -/
theorem not_hasEnded_of_active
    {db : Db}
    {runId : RunId}
    {status status' : RunStatus}
    (hStatus : db.status? runId = some status)
    (hActive : status.active = true) :
    ¬db.hasEnded runId status' := by
  rintro ⟨hStatus', hEnded⟩
  rw [hStatus, Option.some_inj] at hStatus'
  subst hStatus'
  rw [hActive] at hEnded
  cases hEnded

/- A log without its run is empty. -/
theorem terminals_of_missing
    {db : Db}
    (hFormed : db.WellFormed)
    {runId : RunId}
    (hRun : db.status? runId = none) :
    db.terminals runId = [] := by
  rw [Db.terminals, List.filter_eq_nil_iff]
  intro row hMem hTerminal
  rw [Bool.and_eq_true, beq_iff_eq] at hTerminal
  rcases
      Option.map_eq_some_iff.mp (hFormed.eventRuns row hMem) with
    ⟨run, hGet, -⟩
  rw [Db.status?, ← hTerminal.1, hGet] at hRun
  cases hRun

variable {registry : Registry}

/- A pump of a single start finds the run that it logs. -/
theorem found_of_exec
    {system : System}
    {task : Task}
    {op : Op}
    {value : op.Reply}
    {world' : World}
    (hSingle : system.world.db.Single)
    (hKnown : task.phase.role.Known system.world.db)
    (hExec :
      exec task.inst op system.world = (.ok value, world'))
    {log found : RunId}
    {threadId : ThreadId}
    {synthetic : Bool}
    {status : RunStatus}
    (hRole : task.phase.role = .looking log threadId synthetic)
    (hFound : op.foundRun value = some (found, status)) :
    found = log := by
  rw [hRole] at hKnown
  rcases Option.map_eq_some_iff.mp hKnown with ⟨run, hLog, -⟩
  cases op with
  | getActiveRun other =>
      have hReply :
          getActiveRun other system.world.db =
            .ok (value, world'.db) :=
        statement_of_onDb hExec
      have hValue : value = some (found, status) := hFound
      rw [hValue] at hReply
      rcases of_getActiveRun hReply with ⟨-, run', hRun, -⟩
      exact hSingle found log (by rw [hRun]; rfl) (by rw [hLog]; rfl)
  | _ => cases hFound

section Steps

variable {system : System} {taskId : TaskId} {task : Task}
variable {op : Op} {value : op.Reply} {world' : World}

/- A call keeps the terminal events of the logs. -/
theorem finished_of_exec
    (hCall :
      Calls registry SingleStart system taskId false task op
        (.ok value) world')
    (hExec :
      exec task.inst op system.world = (.ok value, world'))
    (hFinished : system.world.db.Finished)
    (hMine :
      terminalOutline.locally system.world.db
        task.phase.role) :
    world'.db.Finished := by
  have hFormed := wellFormed_of_reachable hCall.reachable
  intro runId
  rcases terminals_of_exec hExec runId with ⟨hLength, hSame⟩
  rcases hFinished runId with ⟨hOne, hNone⟩
  have hOwes :
      op.finishes = some runId →
        system.world.db.terminals runId = [] ∧
          ∃ status, system.world.db.hasEnded runId status :=
    fun hFinishes =>
      hMine.2 runId
        (owes_of_finishes hCall.allows hMine.1 hFinishes)
  by_cases hFinishes : op.finishes = some runId
  · rcases hOwes hFinishes with ⟨hNil, status, hEnded⟩
    rw [hNil] at hLength
    refine ⟨hLength, ?_⟩
    intro status' hStatus hActive
    have hStill :=
      hasEnded_of_exec hCall hExec hCall.permitted.paused hEnded
    exact
      absurd hStill (not_hasEnded_of_active hStatus hActive)
  · rw [hSame hFinishes]
    refine ⟨hOne, ?_⟩
    intro status hStatus hActive
    cases hBefore : system.world.db.status? runId with
    | none => exact terminals_of_missing hFormed hBefore
    | some before =>
        cases hOpen : before.active with
        | true => exact hNone before hBefore hOpen
        | false =>
            have hStill :=
              hasEnded_of_exec hCall hExec
                hCall.permitted.paused ⟨hBefore, hOpen⟩
            exact
              absurd hStill
                (not_hasEnded_of_active hStatus hActive)

/- A debt that a task does not pay stays. -/
theorem debt_of_exec
    (hCall :
      Calls registry SingleStart system taskId false task op
        (.ok value) world')
    (hExec :
      exec task.inst op system.world = (.ok value, world'))
    {runId : RunId}
    (hFinishes : op.finishes ≠ some runId)
    (hDebt :
      system.world.db.terminals runId = [] ∧
        ∃ status, system.world.db.hasEnded runId status) :
    world'.db.terminals runId = [] ∧
      ∃ status, world'.db.hasEnded runId status := by
  rcases hDebt with ⟨hNil, status, hEnded⟩
  refine ⟨?_, status, ?_⟩
  · rw [(terminals_of_exec hExec runId).2 hFinishes, hNil]
  · exact
      hasEnded_of_exec hCall hExec hCall.permitted.paused hEnded

/- A run that a call ends has no terminal event yet. -/
theorem debt_of_ended
    (hCall :
      Calls registry SingleStart system taskId false task op
        (.ok value) world')
    (hExec :
      exec task.inst op system.world = (.ok value, world'))
    (hFinished : system.world.db.Finished)
    {runId : RunId}
    (hEnded : op.ended value = some runId) :
    world'.db.terminals runId = [] ∧
      ∃ status, world'.db.hasEnded runId status := by
  rcases
      hasEnded_of_ended (changesRuns_of_exec hExec) hCall.allows
        hEnded with
    ⟨⟨before, hBefore, hActive⟩, hAfter⟩
  refine ⟨?_, hAfter⟩
  have hFinishes : op.finishes ≠ some runId := by
    cases op with
    | appendRunEvent => cases hEnded
    | _ => rintro ⟨⟩
  rw [(terminals_of_exec hExec runId).2 hFinishes]
  exact (hFinished runId).2 before hBefore hActive

end Steps

/- Every step of a single start keeps the terminal events. -/
theorem sustains_terminalOutline :
    SustainsRoles registry SingleStart terminalOutline where
  idle := by
    intro db role hIdle _
    cases role with
    | aside => exact ⟨trivial, nofun⟩
    | fresh => exact ⟨trivial, nofun⟩
    | _ => cases hIdle
  alone := by
    intro role other hIdle
    have hNone : role.owes? = none := by
      cases role <;> first | rfl | cases hIdle
    constructor
    · intro runId hOwes
      rw [hNone] at hOwes
      cases hOwes
    · intro runId _ hOwes
      rw [hNone] at hOwes
      cases hOwes
  done := by
    intro system taskId task op value world' hCall hExec hHolds
    have hFinished : system.world.db.Finished :=
      hHolds.globally
    have hMine :
        terminalOutline.locally system.world.db
          task.phase.role :=
      hHolds.locally taskId task hCall.present
    have hNew :
        ∀ runId,
          (task.phase.role.after op (.ok value)).owes? =
              some runId →
            (task.phase.role.owes? = some runId ∧
                op.finishes = none) ∨
              op.ended value = some runId := by
      intro runId hOwes
      rcases owes_after hCall.allows hMine.1 hOwes with
        ⟨hBefore, hFinishes, -⟩ | hEnded
      · exact Or.inl ⟨hBefore, hFinishes⟩
      · exact Or.inr hEnded
    refine
      ⟨finished_of_exec hCall hExec hFinished hMine, ⟨?_, ?_⟩,
        ?_⟩
    · refine orderly_after hCall.allows hMine.1 ?_ ?_
      · intro hDeparts reply hRead
        exact ended_of_read hCall hExec hDeparts hRead
      · intro log threadId synthetic hRole found status hFound
        exact
          found_of_exec (single_of_reachable hCall.reachable)
            (known_of_reachable hCall.reachable hCall.present)
            hExec hRole hFound
    · intro runId hOwes
      rcases hNew runId hOwes with
        ⟨hBefore, hFinishes⟩ | hEnded
      · exact
          debt_of_exec hCall hExec
            (by rw [hFinishes]; exact nofun)
            (hMine.2 runId hBefore)
      · exact debt_of_ended hCall hExec hFinished hEnded
    · intro otherId other _ _ hOther hBoth
      have hApart :
          ∀ runId,
            other.phase.role.owes? = some runId →
              (task.phase.role.after op (.ok value)).owes? ≠
                some runId := by
        intro runId hOwes hOwes'
        rcases hNew runId hOwes' with ⟨hBefore, -⟩ | hEnded
        · exact hBoth.1 runId hBefore hOwes
        · rcases
              hasEnded_of_ended (changesRuns_of_exec hExec)
                hCall.allows hEnded with
            ⟨⟨before, hBefore, hActive⟩, -⟩
          rcases hOther.2 runId hOwes with ⟨-, status, hHas⟩
          exact not_hasEnded_of_active hBefore hActive hHas
      refine ⟨⟨hOther.1, ?_⟩, ?_, hApart⟩
      · intro runId hOwes
        refine
          debt_of_exec hCall hExec ?_ (hOther.2 runId hOwes)
        intro hFinishes
        exact
          hBoth.1 runId
            (owes_of_finishes hCall.allows hMine.1 hFinishes)
            hOwes
      · intro runId hOwes hOwes'
        exact hApart runId hOwes' hOwes
  failed := by
    intro system taskId fault task op exn hCall _ hHolds
    have hMine :
        terminalOutline.locally system.world.db
          task.phase.role :=
      hHolds.locally taskId task hCall.present
    refine ⟨hHolds.globally, ⟨?_, ?_⟩, ?_⟩
    · exact
        orderly_failed hCall.allows hMine.1
          (agent_of_failed hCall)
    · intro runId hOwes
      exact hMine.2 runId (owes_failed hCall.allows hOwes)
    · intro otherId other _ _ hOther hBoth
      refine ⟨hOther, ?_, ?_⟩
      · intro runId hOwes
        exact hBoth.1 runId (owes_failed hCall.allows hOwes)
      · intro runId hOwes hOwes'
        exact
          hBoth.2 runId hOwes
            (owes_failed hCall.allows hOwes')
  advance := by
    intro db seconds hFinished
    exact ⟨hFinished, fun _ hLocally => hLocally⟩
  heartbeat := by
    intro db runIds hFinished
    constructor
    · intro runId
      refine ⟨(hFinished runId).1, ?_⟩
      intro status hStatus
      rw [status?_heartbeat] at hStatus
      exact (hFinished runId).2 status hStatus
    · rintro role ⟨hOrderly, hDebts⟩
      refine ⟨hOrderly, ?_⟩
      intro runId hOwes
      rcases hDebts runId hOwes with ⟨hNil, status, hEnded⟩
      exact ⟨hNil, status, hasEnded_heartbeat runIds hEnded⟩
  sweep := by
    intro db selects hActive hFinished
    constructor
    · intro runId
      refine ⟨(hFinished runId).1, ?_⟩
      intro status hStatus hOpen
      rw [status?_sweep] at hStatus
      rcases Option.map_eq_some_iff.mp hStatus with
        ⟨run, hRun, hEq⟩
      split at hEq
      · subst hEq
        cases hOpen
      · refine (hFinished runId).2 status ?_ hOpen
        rw [Db.status?, hRun, Option.map_some, hEq]
    · rintro role ⟨hOrderly, hDebts⟩
      refine ⟨hOrderly, ?_⟩
      intro runId hOwes
      rcases hDebts runId hOwes with ⟨hNil, status, hEnded⟩
      exact ⟨hNil, status, hasEnded_sweep hActive hEnded⟩
  collect := by
    intro db retention hFinished
    have hSub :
        ∀ runId,
          ((db.collect retention).terminals runId).Sublist
            (db.terminals runId) :=
      fun runId => List.filter_sublist.filter _
    constructor
    · intro runId
      refine
        ⟨(hSub runId).length_le.trans (hFinished runId).1, ?_⟩
      intro status hStatus hOpen
      have hNil := (hFinished runId).2 status hStatus hOpen
      exact List.sublist_nil.mp (hNil ▸ hSub runId)
    · rintro role ⟨hOrderly, hDebts⟩
      refine ⟨hOrderly, ?_⟩
      intro runId hOwes
      rcases hDebts runId hOwes with ⟨hNil, status, hEnded⟩
      exact
        ⟨List.sublist_nil.mp (hNil ▸ hSub runId), status,
          hEnded⟩

/-
  A log has at most one terminal event, as long as only
  running runs are paused and no epilogue finds its run
  active.
-/
theorem one_terminal
    {system : System}
    (hReachable : Reachable registry SingleStart system)
    (runId : RunId) :
    (system.world.db.terminals runId).length ≤ 1 := by
  have hHolds :=
    roles_of_reachable sustains_terminalOutline
      (fun _ => ⟨Nat.zero_le _, fun _ _ _ => rfl⟩) hReachable
  have hFinished : system.world.db.Finished := hHolds.globally
  exact (hFinished runId).1

/- The log of the rejected run of `rejectedPause`. -/
theorem one_terminal_rejected :
    ∃ system,
      execute (System.step .single) rejectedPause .initial =
          some system ∧
        (system.world.db.terminals 1).map RunEventRow.seq =
            [5] ∧
          (system.world.db.terminals 1).length ≤ 1 := by
  rcases
      exists_of_execute
        (show
          (execute (System.step .single) rejectedPause
              .initial).map (fun system =>
                (system.world.db.terminals 1).map
                  RunEventRow.seq) =
            some [5] by
          decide +kernel) with
    ⟨system, hSystem, hSeqs⟩
  have hPasses :
      passes (System.step .single)
          (fun system action =>
            !system.failsDatabase action &&
              !system.startsAgain action &&
                !system.resurrects action &&
                  !system.readsActive action)
          rejectedPause .initial =
        true := by
    decide +kernel
  have hReachable : Reachable .single SingleStart system := by
    apply run_of_execute hSystem hPasses
    intro state action hTest
    simp only [Bool.and_eq_true, Bool.not_eq_true'] at hTest
    rcases hTest with ⟨⟨⟨hSucceeds, hStarts⟩, hPaused⟩, hReads⟩
    exact ⟨⟨hSucceeds, hStarts⟩, hPaused, hReads⟩
  exact ⟨system, hSystem, hSeqs, one_terminal hReachable 1⟩

/-
  Two approvals of one pause.  The pump of the second finds
  the run of the first running and logs a synthetic error,
  and the run ends with its own event.
-/
def approvedTwice : List Action :=
  pausedRun ++
    [.request 2 0
        (.resume 0 true none
          [.tools fun _ => ⟨.str [], .absent⟩,
            .agent (.str []) []]),
      .request 3 0 (.resume 0 true none [])] ++
    turns 2 3 ++ turns 3 3 ++ turns 2 1 ++ turns 3 5 ++
    turns 2 19

/- Two approvals of one pause may log two terminal events. -/
theorem two_terminals :
    ¬ ∀ (registry : Registry) (system : System)
        (runId : RunId),
      Reachable registry OneStart system →
        (system.world.db.terminals runId).length ≤ 1 := by
  intro hOne
  rcases
      exists_of_execute
        (show
          (execute (System.step .single) approvedTwice
              .initial).map (fun system =>
                (system.world.db.terminals 1).length) =
            some 2 by
          decide +kernel) with
    ⟨system, hSystem, hTwo⟩
  have hPasses :
      passes (System.step .single)
          (fun system action =>
            !system.failsDatabase action &&
              !system.startsAgain action)
          approvedTwice .initial =
        true := by
    decide +kernel
  have hReachable : Reachable .single OneStart system := by
    apply run_of_execute hSystem hPasses
    intro state action hTest
    simp only [Bool.and_eq_true, Bool.not_eq_true'] at hTest
    exact ⟨hTest.1, hTest.2⟩
  have hLe := hOne .single system 1 hReachable
  rw [hTwo] at hLe
  exact absurd hLe (by decide)

end LegalAgent
