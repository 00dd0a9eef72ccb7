import LegalAgent.System.Ownership

/-
  Terminal statuses of runs are final.

  Every status change compares the status before it, except
  the one that pauses a run at an approval gate.  As long as
  that one finds its run running, a run that has ended stays
  as it is, and exactly the runs that have ended have an end.

  Key definitions include:
    * `System.pausesRunning`
    * `Db.Dated`

  Key theorems include:
    * `status_final`
-/

------------------------------------------------------------
-- Pauses
------------------------------------------------------------

namespace LegalAgent

open Library

/-
  Whether an action pauses a run that is not running.  A pause
  that fails, or that the index of active runs refuses, does
  not change the run.
-/
def System.resurrects (system : System) (action : Action) : Bool :=
  match action, system.call? action with
  | .turn _ false, some (_, .setRunStatus runId _ _) =>
      (system.world.db.runs.get? runId).any fun run =>
        run.status != .running &&
          !system.world.db.activeElsewhere run.threadId runId
  | _, _ => false

/- The condition that runs are paused only while they run. -/
def Paused (system : System) (action : Action) : Prop :=
  system.resurrects action = false

/- A pause finds its run running. -/
theorem running_of_paused
    {registry : Registry}
    {allowed : System → Action → Prop}
    {system : System}
    {taskId : TaskId}
    {task : Task}
    {runId : RunId}
    {status : RunStatus}
    {ended : Bool}
    {reply : Except Exn Unit}
    {world' : World}
    {run : Run}
    (hCall :
      Calls registry allowed system taskId false task
        (.setRunStatus runId status ended) reply world')
    (hPaused : Paused system (.turn taskId false))
    (hRun : system.world.db.runs.get? runId = some run)
    (hAlone :
      status.active = true →
        system.world.db.activeElsewhere run.threadId runId =
          false) :
    run.status = .running := by
  rcases pause_of_allows hCall.allows with ⟨rfl, -, -⟩
  simpa [Paused, System.resurrects, System.call?,
    hCall.present, hCall.next, hRun, hAlone rfl] using hPaused

------------------------------------------------------------
-- Final Statuses
------------------------------------------------------------

/- A run has a terminal status. -/
def Db.hasEnded
    (runId : RunId)
    (status : RunStatus)
    (db : Db) :
    Prop :=
  db.status? runId = some status ∧ status.active = false

/- Writing a run that has another status keeps an ended run. -/
theorem hasEnded_of_written
    {db db' : Db}
    {runId other : RunId}
    {status status' : RunStatus}
    {ended : Bool}
    {run : Run}
    (hRun : db.runs.get? other = some run)
    (hActive : run.status.active = true)
    (hRuns : db'.runs = (db.writeStatus other status' ended).runs)
    (hEnded : db.hasEnded runId status) :
    db'.hasEnded runId status := by
  refine ⟨?_, hEnded.2⟩
  have hWrite := status?_writeStatus db other status' ended runId
  rw [Db.status?, hRuns]
  apply hWrite.trans
  split
  · rename_i hEq
    subst hEq
    have hStatus := hEnded.1
    rw [Db.status?, hRun, Option.map_some] at hStatus
    cases hStatus
    rw [hEnded.2] at hActive
    cases hActive
  · exact hEnded.1

/- A call keeps an ended run. -/
theorem hasEnded_of_exec
    {registry : Registry}
    {allowed : System → Action → Prop}
    {system : System}
    {taskId : TaskId}
    {task : Task}
    {op : Op}
    {value : op.Reply}
    {world' : World}
    (hCall :
      Calls registry allowed system taskId false task op
        (.ok value) world')
    (hExec :
      exec task.inst op system.world = (.ok value, world'))
    (hPaused : Paused system (.turn taskId false))
    {runId : RunId}
    {status : RunStatus}
    (hEnded : system.world.db.hasEnded runId status) :
    world'.db.hasEnded runId status := by
  have hFresh :=
    (wellFormed_of_reachable hCall.reachable).freshRun
  cases changesRuns_of_exec hExec with
  | opened _ _ hRuns =>
      refine ⟨?_, hEnded.2⟩
      rw [Db.status?, hRuns, Table.get?_insert hFresh, if_neg]
      · exact hEnded.1
      · rintro rfl
        have hStatus := hEnded.1
        rw [Db.status?, hFresh] at hStatus
        cases hStatus
  | set hRun hAlone hRuns =>
      refine hasEnded_of_written hRun ?_ hRuns hEnded
      rw [running_of_paused hCall hPaused hRun hAlone]
      rfl
  | moved hRun hStatus _ hRuns =>
      refine hasEnded_of_written hRun ?_ hRuns hEnded
      rw [hStatus]
      cases transition_of_allows hCall.allows <;> rfl
  | committed hRun hStatus hRuns =>
      refine hasEnded_of_written hRun ?_ hRuns hEnded
      rw [hStatus]
      rfl
  | missing _ hRuns =>
      exact ⟨by rw [Db.status?, hRuns]; exact hEnded.1, hEnded.2⟩
  | kept _ hRuns =>
      exact ⟨by rw [Db.status?, hRuns]; exact hEnded.1, hEnded.2⟩

/- A sweep of active runs keeps an ended run. -/
theorem hasEnded_sweep
    {db : Db}
    {selects : Run → Bool}
    (hActive :
      ∀ run, selects run = true → run.status.active = true)
    {runId : RunId}
    {status : RunStatus}
    (hEnded : db.hasEnded runId status) :
    (db.sweep selects).hasEnded runId status := by
  refine ⟨?_, hEnded.2⟩
  rcases Option.map_eq_some_iff.mp hEnded.1 with
    ⟨run, hRun, hStatus⟩
  rw [status?_sweep, hRun, Option.map_some, if_neg, hStatus]
  intro hSelects
  have hBefore := hActive run hSelects
  rw [hStatus, hEnded.2] at hBefore
  cases hBefore

/- Heartbeats keep an ended run. -/
theorem hasEnded_heartbeat
    {db : Db}
    (runIds : List RunId)
    {runId : RunId}
    {status : RunStatus}
    (hEnded : db.hasEnded runId status) :
    (db.heartbeat runIds).hasEnded runId status :=
  ⟨by rw [status?_heartbeat]; exact hEnded.1, hEnded.2⟩

/- An ended run stays as it is. -/
theorem sustains_hasEnded
    {registry : Registry}
    (runId : RunId)
    (status : RunStatus) :
    SustainsRoles registry Paused
      ⟨Db.hasEnded runId status, fun _ _ => True,
        fun _ _ => True⟩ where
  idle := fun _ _ _ _ => trivial
  alone := fun _ _ _ => ⟨trivial, trivial⟩
  done := by
    intro system taskId task op value world' hCall hExec hHolds
    exact
      ⟨hasEnded_of_exec hCall hExec hCall.permitted
          hHolds.globally, trivial,
        fun _ _ _ _ _ _ => ⟨trivial, trivial, trivial⟩⟩
  failed := by
    intro system taskId fault task op exn hCall _ hHolds
    exact
      ⟨hHolds.globally, trivial,
        fun _ _ _ _ _ _ => ⟨trivial, trivial, trivial⟩⟩
  advance := fun _ _ hEnded => ⟨hEnded, fun _ _ => trivial⟩
  heartbeat := fun _ runIds hEnded =>
    ⟨hasEnded_heartbeat runIds hEnded, fun _ _ => trivial⟩
  sweep := fun _ _ hActive hEnded =>
    ⟨hasEnded_sweep hActive hEnded, fun _ _ => trivial⟩
  collect := fun _ _ hEnded => ⟨hEnded, fun _ _ => trivial⟩

------------------------------------------------------------
-- Ends
------------------------------------------------------------

/- Exactly the runs that have ended have an end. -/
def Db.Dated (db : Db) : Prop :=
  ∀ runId run,
    db.runs.get? runId = some run →
      (run.endedAt = none ↔ run.status.active = true)

/- A status change that dates exactly the ends of runs. -/
theorem dated_of_written
    {db db' : Db}
    {runId : RunId}
    {status : RunStatus}
    {ended : Bool}
    {run : Run}
    (hDated : db.Dated)
    (hRun : db.runs.get? runId = some run)
    (hActive : run.status.active = true)
    (hEnded : ended = !status.active)
    (hRuns :
      db'.runs = (db.writeStatus runId status ended).runs) :
    db'.Dated := by
  intro other run' hGet
  rw [hRuns, get?_writeStatus] at hGet
  split at hGet
  · rename_i hEq
    subst hEq
    rw [hRun, Option.map_some, Option.some_inj] at hGet
    subst hGet
    have hOpen := (hDated _ run hRun).mpr hActive
    cases hStatus : status.active <;>
      simp [Run.transition, hEnded, hStatus, hOpen]
  · exact hDated other run' hGet

/- Every step dates exactly the ends of runs. -/
theorem sustains_dated
    {registry : Registry} :
    SustainsRoles registry Paused
      ⟨Db.Dated, fun _ _ => True, fun _ _ => True⟩ where
  idle := fun _ _ _ _ => trivial
  alone := fun _ _ _ => ⟨trivial, trivial⟩
  done := by
    intro system taskId task op value world' hCall hExec hHolds
    have hDated : system.world.db.Dated := hHolds.globally
    have hFresh :=
      (wellFormed_of_reachable hCall.reachable).freshRun
    refine
      ⟨?_, trivial,
        fun _ _ _ _ _ _ => ⟨trivial, trivial, trivial⟩⟩
    cases changesRuns_of_exec hExec with
    | opened _ _ hRuns =>
        intro runId run hGet
        rw [hRuns, Table.get?_insert hFresh] at hGet
        split at hGet
        · cases hGet
          exact ⟨fun _ => rfl, fun _ => rfl⟩
        · exact hDated runId run hGet
    | set hRun hAlone hRuns =>
        rcases pause_of_allows hCall.allows with ⟨rfl, rfl, -⟩
        refine dated_of_written hDated hRun ?_ rfl hRuns
        rw [running_of_paused hCall hCall.permitted hRun hAlone]
        rfl
    | moved hRun hStatus _ hRuns =>
        refine dated_of_written hDated hRun ?_ ?_ hRuns
        · rw [hStatus]
          cases transition_of_allows hCall.allows <;> rfl
        · cases transition_of_allows hCall.allows <;> rfl
    | committed hRun hStatus hRuns =>
        refine dated_of_written hDated hRun ?_ rfl hRuns
        rw [hStatus]
        rfl
    | missing _ hRuns =>
        intro runId run hGet
        exact hDated runId run (hRuns ▸ hGet)
    | kept _ hRuns =>
        intro runId run hGet
        exact hDated runId run (hRuns ▸ hGet)
  failed := by
    intro system taskId fault task op exn hCall _ hHolds
    exact
      ⟨hHolds.globally, trivial,
        fun _ _ _ _ _ _ => ⟨trivial, trivial, trivial⟩⟩
  advance := fun _ _ hDated => ⟨hDated, fun _ _ => trivial⟩
  heartbeat := by
    intro db runIds hDated
    refine ⟨?_, fun _ _ => trivial⟩
    intro runId run' hGet
    rw [runs_heartbeat, Table.get?_update] at hGet
    rcases Option.map_eq_some_iff.mp hGet with ⟨run, hRun, rfl⟩
    split <;> exact hDated runId run hRun
  sweep := by
    intro db selects _ hDated
    refine ⟨?_, fun _ _ => trivial⟩
    intro runId run' hGet
    rw [get?_sweep] at hGet
    rcases Option.map_eq_some_iff.mp hGet with ⟨run, hRun, rfl⟩
    split
    · simp [Run.transition, RunStatus.active]
    · exact hDated runId run hRun
  collect := fun _ _ hDated => ⟨hDated, fun _ _ => trivial⟩

/- The log of a run without an end is not collected. -/
theorem keepsEvent_of_dated
    {db : Db}
    (hDated : db.Dated)
    (retention : Nat)
    {row : RunEventRow}
    {status : RunStatus}
    (hStatus : db.status? row.runId = some status)
    (hActive : status.active = true) :
    db.keepsEvent retention row = true := by
  rcases Option.map_eq_some_iff.mp hStatus with ⟨run, hRun, rfl⟩
  have hOpen := (hDated _ run hRun).mpr hActive
  simp [Db.keepsEvent, hRun, hOpen]

/- A pause of a run that has ended changes a final status. -/
theorem not_final_of_resurrects
    {registry : Registry}
    {allowed : System → Action → Prop}
    {system next : System}
    {action : Action}
    (hReachable : Reachable registry allowed system)
    (hStep : system.step registry action = some next)
    (hResurrects : system.resurrects action = true) :
    ∃ runId status,
      system.world.db.status? runId = some status ∧
        status.terminal = true ∧
          next.world.db.status? runId ≠ some status := by
  unfold System.resurrects at hResurrects
  split at hResurrects
  · rename_i taskId task runId status ended hNext
    rcases
        calls_of_step (hReachable.mono fun _ _ _ => trivial)
          trivial hStep hNext with
      ⟨reply, world', hCall, hWorld⟩
    rcases pause_of_allows hCall.allows with
      ⟨rfl, rfl, job, root, hRole, rfl⟩
    have hWriter :
        task.phase.role.writer? = some job.run := by
      rw [hRole]
      rfl
    rcases
        written_of_reachable hReachable hCall.present hWriter with
      ⟨before, hBefore, hMay⟩
    rcases Option.map_eq_some_iff.mp hBefore with
      ⟨run, hRun, rfl⟩
    simp only [hRun, Option.any_some, Bool.and_eq_true,
      bne_iff_ne, Bool.not_eq_true'] at hResurrects
    refine ⟨job.run, run.status, hBefore, ?_, ?_⟩
    · cases hStatus : run.status <;>
        simp_all [RunStatus.mayBeWritten, RunStatus.active]
    · have hSet :=
        setRunStatus_eq .awaitingApproval false hRun
          hResurrects.2
      have hDb :
          world'.db =
            system.world.db.writeStatus job.run
              .awaitingApproval false := by
        cases hCall.executes with
        | done hExec =>
            have hStatement := statement_of_onDb hExec
            rw [hSet, Except.ok.injEq, Prod.mk.injEq]
              at hStatement
            exact hStatement.2.symm
        | refused hExec =>
            have hStatement :=
              error_of_onDb (congrArg Prod.fst hExec)
            rw [hSet] at hStatement
            cases hStatement
      rw [hWorld, hDb, status?_writeStatus, if_pos rfl, hBefore]
      intro hSame
      cases hStatus : run.status <;>
        simp_all [RunStatus.mayBeWritten]
  · cases hResurrects

/-
  As long as no step pauses a run that is not running,
  terminal statuses are final, exactly the runs that have
  ended have an end, and no log of an active run is collected.
  Such a step is also the only one that changes a terminal
  status.
-/
theorem status_final
    {registry : Registry}
    {system : System}
    (hReachable : Reachable registry Paused system) :
    (∀ runId status later,
        system.world.db.status? runId = some status →
          status.terminal = true →
            Execution (System.step registry) Paused system
                later →
              later.world.db.status? runId = some status) ∧
      (∀ action next,
          system.step registry action = some next →
            ((∀ runId status,
                system.world.db.status? runId = some status →
                  status.terminal = true →
                    next.world.db.status? runId =
                      some status) ↔
              system.resurrects action = false)) ∧
        (∀ runId run,
            system.world.db.runs.get? runId = some run →
              (run.endedAt = none ↔
                run.status = .running ∨
                  run.status = .awaitingApproval)) ∧
          ∀ retention row status,
            row ∈ system.world.db.runEvents →
              system.world.db.status? row.runId = some status →
                status.active = true →
                  row ∈
                    (system.world.db.collect
                      retention).runEvents := by
  have hDated : system.world.db.Dated :=
    globally_of_execution sustains_dated .refl
      (fun _ _ hGet => nomatch hGet) hReachable
  have hFinal :
      ∀ runId status later,
        system.world.db.status? runId = some status →
          status.terminal = true →
            Execution (System.step registry) Paused system
                later →
              later.world.db.status? runId = some status := by
    intro runId status later hStatus hTerminal hRun
    have hEnded : system.world.db.hasEnded runId status :=
      ⟨hStatus, by simpa using hTerminal⟩
    exact
      (globally_of_execution (sustains_hasEnded runId status)
        hReachable hEnded hRun).1
  refine ⟨hFinal, ?_, ?_, ?_⟩
  · intro action next hStep
    constructor
    · intro hKept
      by_contra hResurrects
      rw [Bool.not_eq_false] at hResurrects
      rcases
          not_final_of_resurrects hReachable hStep hResurrects with
        ⟨runId, status, hStatus, hTerminal, hNe⟩
      exact hNe (hKept runId status hStatus hTerminal)
    · intro hPaused runId status hStatus hTerminal
      exact
        hFinal runId status next hStatus hTerminal
          (.single ⟨action, hPaused, hStep⟩)
  · intro runId run hRun
    rw [hDated runId run hRun]
    cases run.status <;> simp [RunStatus.active]
  · intro retention row status hMem hStatus hActive
    exact
      List.mem_filter.mpr
        ⟨hMem,
          keepsEvent_of_dated hDated retention hStatus hActive⟩

/- A run that pauses at an approval gate. -/
def pausedRun : List Action :=
  [.request 0 0 (.createThread none)] ++ turns 0 1 ++
    [.request 1 0
      (.start 0 [] none
        [.agent (.str []) (toolCalls ["a"]),
          .interrupt none])] ++
    turns 1 21

/- A paused run that the user rejects. -/
def rejectedPause : List Action :=
  pausedRun ++ [.request 2 0 (.resume 0 false none [])] ++
    turns 2 10

/- The rejected run of `rejectedPause` stays rejected. -/
theorem status_final_rejected :
    ∃ system,
      execute (System.step .single) rejectedPause .initial =
          some system ∧
        system.world.db.status? 1 = some .rejected ∧
          ∀ later,
            Execution (System.step .single) Paused system
                later →
              later.world.db.status? 1 = some .rejected := by
  rcases
      exists_of_execute
        (show
          (execute (System.step .single) rejectedPause
              .initial).map (fun system =>
                system.world.db.status? 1) =
            some (some .rejected) by
          decide +kernel) with
    ⟨system, hSystem, hStatus⟩
  have hPasses :
      passes (System.step .single)
          (fun system action => !system.resurrects action)
          rejectedPause .initial =
        true := by
    decide +kernel
  have hReachable : Reachable .single Paused system :=
    run_of_execute hSystem hPasses fun _ _ hTest => by
      simpa [Paused] using hTest
  exact
    ⟨system, hSystem, hStatus, fun later hRun =>
      (status_final hReachable).1 1 .rejected later hStatus rfl
        hRun⟩

/-
  A run with an approval gate that another instance interrupts
  just before its driver pauses it.
-/
def interruptedBeforePause : List Action :=
  [.request 0 0 (.createThread none)] ++ turns 0 1 ++
    [.request 1 0
      (.start 0 [] none
        [.agent (.str []) (toolCalls ["a"]),
          .interrupt none])] ++
    turns 1 14 ++ [.request 2 1 (.interrupt 1)] ++ turns 2 3

/-
  The pause of an interrupted run makes it active again.  The
  run keeps its end, and so its log is collected.
-/
theorem status_not_final :
    (¬ ∀ (registry : Registry) (system later : System)
        (runId : RunId) (status : RunStatus),
      Reachable registry (fun _ _ => True) system →
        system.world.db.status? runId = some status →
          status.terminal = true →
            Execution (System.step registry) (fun _ _ => True)
                system later →
              later.world.db.status? runId = some status) ∧
      (¬ ∀ (registry : Registry) (system : System)
          (runId : RunId) (run : Run),
        Reachable registry (fun _ _ => True) system →
          system.world.db.runs.get? runId = some run →
            (run.endedAt = none ↔
              run.status = .running ∨
                run.status = .awaitingApproval)) ∧
        ¬ ∀ (registry : Registry) (system : System)
            (retention : Nat) (row : RunEventRow)
            (status : RunStatus),
          Reachable registry (fun _ _ => True) system →
            row ∈ system.world.db.runEvents →
              system.world.db.status? row.runId =
                  some status →
                status.active = true →
                  row ∈
                    (system.world.db.collect
                      retention).runEvents := by
  rcases
      exists_of_execute
        (show
          (execute (System.step .single) interruptedBeforePause
              .initial).map (fun system =>
                system.world.db.status? 1) =
            some (some .interrupted) by
          decide +kernel) with
    ⟨system, hSystem, hStatus⟩
  rcases
      exists_of_execute
        (show
          (execute (System.step .single)
              (interruptedBeforePause ++
                (turns 1 1 ++ [.advance 1]))
              .initial).map (fun system =>
                ((system.world.db.runs.get? 1).map fun run =>
                    (run.status, run.endedAt.isSome),
                  system.world.db.runEvents.map
                    RunEventRow.runId,
                  (system.world.db.collect 0).runEvents.map
                    RunEventRow.runId)) =
            some
              (some (.awaitingApproval, true), [1, 1], []) by
          decide +kernel) with
    ⟨later, hLater, hView⟩
  have hReachable :
      Reachable .single (fun _ _ => True) later :=
    execution_of_execute hLater
  rw [execute_append, hSystem] at hLater
  simp only [Prod.mk.injEq, Option.map_eq_some_iff] at hView
  rcases hView with
    ⟨⟨run, hRun, hAwaiting, hEnded⟩, hEvents, hCollected⟩
  have hLast :
      later.world.db.status? 1 = some .awaitingApproval := by
    rw [Db.status?, hRun, Option.map_some, hAwaiting]
  refine ⟨?_, ?_, ?_⟩
  · intro hFinal
    have hSame :=
      hFinal .single system later 1 .interrupted
        (execution_of_execute hSystem) hStatus rfl
        (execution_of_execute hLater)
    rw [hLast] at hSame
    cases hSame
  · intro hDated
    have hNone :=
      (hDated .single later 1 run hReachable hRun).mpr
        (Or.inr hAwaiting)
    rw [hNone] at hEnded
    cases hEnded
  · intro hKept
    cases hLog : later.world.db.runEvents with
    | nil =>
        rw [hLog] at hEvents
        cases hEvents
    | cons row rows =>
        rw [hLog, List.map_cons, List.cons.injEq] at hEvents
        have hMem :=
          hKept .single later 0 row .awaitingApproval hReachable
            (by rw [hLog]; exact List.mem_cons_self)
            (by rw [hEvents.1]; exact hLast) rfl
        rw [List.map_eq_nil_iff.mp hCollected] at hMem
        cases hMem

end LegalAgent
