import LegalAgent.Properties.Status

/-
  The surgery of a run and the messages of the next run.

  A run that the user rejects or withdraws while it waits is
  ended first, and its pending message is removed afterwards.
  In between the thread is open for the next run.  The surgery
  picks the last message with tool calls, and so it stays with
  its own run as long as no later run writes such a message
  while the surgery is still due.

  Key definitions include:
    * `Role.operates?`
    * `System.Intrudes`
    * `Makes`
    * `Operates`

  Key theorems include:
    * `surgery_confined`
-/

------------------------------------------------------------
-- Checkpoint Messages
------------------------------------------------------------

namespace LegalAgent

open Library

/- The id of an AI message of a checkpoint. -/
def CheckpointMessage.id? : CheckpointMessage → Option Nat
| .ai id _ _ => some id
| _ => none

/- Two messages have the same id if both have one. -/
theorem sameId_iff
    (message other : CheckpointMessage) :
    message.sameId other = true ↔
      ∃ id, message.id? = some id ∧ other.id? = some id := by
  cases message <;> cases other <;>
    simp [CheckpointMessage.sameId, CheckpointMessage.id?]
  exact eq_comm

/- The pending message is one of the messages and has calls. -/
theorem of_pendingMessage
    {messages : List CheckpointMessage}
    {pending : CheckpointMessage}
    (hPending : pendingMessage? messages = some pending) :
    pending ∈ messages ∧ pending.calls ≠ [] := by
  have hCalls := List.find?_some hPending
  have hMem := List.mem_of_find?_eq_some hPending
  refine ⟨List.mem_reverse.mp hMem, ?_⟩
  simpa using hCalls

/- A message stays unless it has the id of one with calls. -/
theorem mem_withoutPending
    {messages : List CheckpointMessage}
    {message : CheckpointMessage}
    (hMem : message ∈ messages)
    (hOther :
      ∀ other ∈ messages,
        other.calls ≠ [] →
          ∀ id,
            other.id? = some id → message.id? ≠ some id) :
    message ∈ withoutPending messages := by
  unfold withoutPending
  split
  · exact hMem
  · rename_i pending hPending
    rcases of_pendingMessage hPending with ⟨hPendingMem, hCalls⟩
    refine List.mem_filter.mpr ⟨hMem, ?_⟩
    rw [Bool.not_eq_true', Bool.eq_false_iff]
    intro hSame
    rcases (sameId_iff _ _).mp hSame with ⟨id, hId, hId'⟩
    exact hOther pending hPendingMem hCalls id hId hId'

theorem withoutPending_subset
    (messages : List CheckpointMessage) :
    withoutPending messages ⊆ messages := by
  unfold withoutPending
  split
  · exact List.Subset.refl _
  · exact List.filter_subset_self _

theorem withoutInterrupted_subset
    (messages : List CheckpointMessage) :
    withoutInterrupted messages ⊆ messages := by
  have hTurns :
      (completedTurns messages).filter
          (fun message => message.isHuman || message.isAnswer) ⊆
        messages := by
    intro message hMem
    have hInner :=
      List.mem_reverse.mp (List.mem_of_mem_filter hMem)
    exact
      List.mem_reverse.mp
        ((List.dropWhile_suffix _).subset hInner)
  unfold withoutInterrupted
  split
  · exact List.Subset.refl _
  · dsimp only
    split
    · split
      · exact List.Subset.refl _
      · rename_i question hQuestion
        intro message hMem
        rw [List.mem_singleton] at hMem
        rw [hMem]
        exact List.mem_of_find?_eq_some hQuestion
    · exact hTurns

/- The thread to which a call may write a message with calls. -/
def Op.writesCalls : Op → Option ThreadId
| .graphNext threadId .agentNext (some (.agent _ (_ :: _))) =>
    some threadId
| .approvePartial threadId _ => some threadId
| _ => none

section Exec

variable {inst : InstanceId} {op : Op} {world world' : World}
variable {value : op.Reply} {threadId : ThreadId}
variable {message : CheckpointMessage}

/- A message of a changed checkpoint. -/
theorem of_mem_updateState
    {db : Db}
    {other : ThreadId}
    {change :
      List CheckpointMessage → List CheckpointMessage}
    (hMem :
      message ∈ (db.updateState other change).checkpoints
        threadId) :
    message ∈ db.checkpoints threadId ∨
      threadId = other ∧
        message ∈ change (db.checkpoints other) := by
  simp only [Db.updateState] at hMem
  split at hMem
  · rename_i hEq
    exact Or.inr ⟨hEq, hMem⟩
  · exact Or.inl hMem

/- A message of a checkpoint that was cut is an old one. -/
theorem mem_of_cut
    {db : Db}
    {other : ThreadId}
    {change :
      List CheckpointMessage → List CheckpointMessage}
    (hSub : ∀ messages, change messages ⊆ messages)
    (hMem :
      message ∈ (db.updateState other change).checkpoints
        threadId) :
    message ∈ db.checkpoints threadId := by
  rcases of_mem_updateState hMem with hOld | ⟨rfl, hNew⟩
  · exact hOld
  · exact hSub _ hNew

/- What a new message of a checkpoint is. -/
inductive Written
    (world world' : World) :
    Op → ThreadId → CheckpointMessage → Prop where
  | question {threadId text} :
      Written world world' (.graphInput threadId text) threadId
        (.human (.str text))
  | agent {threadId content calls}
      (hNext : world.db.nextId < world'.db.nextId) :
      Written world world'
        (.graphNext threadId .agentNext
          (some (.agent content calls)))
        threadId (.ai world.db.nextId content calls)
  | tool {threadId state step callId content} :
      Written world world' (.graphNext threadId state step)
        threadId (.tool callId content)
  | partly {threadId approved pending id content calls}
      (hMem : pending ∈ world.db.checkpoints threadId)
      (hPending : pending.calls ≠ [])
      (hId : pending.id? = some id)
      (hCalls : calls ≠ []) :
      Written world world' (.approvePartial threadId approved)
        threadId (.ai id content calls)
  | seeded {threadId transcript message}
      (hCalls : message.calls = []) :
      Written world world' (.forkState threadId transcript)
        threadId message

/- A message of a checkpoint is an old one or was written. -/
theorem written_of_exec
    (hExec : exec inst op world = (.ok value, world'))
    (hMem : message ∈ world'.db.checkpoints threadId) :
    message ∈ world.db.checkpoints threadId ∨
      Written world world' op threadId message := by
  cases op with
  | graphInput other text =>
      have hNext :
          graphInput other text world.db =
            .ok (value, world'.db) :=
        statement_of_onDb hExec
      simp only [graphInput, Except.ok.injEq, Prod.mk.injEq]
        at hNext
      rw [← hNext.2] at hMem
      rcases of_mem_updateState hMem with hOld | ⟨rfl, hNew⟩
      · exact Or.inl hOld
      · rcases List.mem_append.mp hNew with hOld | hNew
        · exact Or.inl hOld
        · rw [List.mem_singleton] at hNew
          subst hNew
          exact Or.inr .question
  | graphNext other state step =>
      have hNext := statement_of_onDb hExec
      unfold graphNext at hNext
      split at hNext
      · simp only [Except.ok.injEq, Prod.mk.injEq] at hNext
        rw [← hNext.2] at hMem
        exact Or.inl hMem
      · split at hNext
        · simp only [Except.ok.injEq, Prod.mk.injEq] at hNext
          rcases hNext with ⟨-, hDb⟩
          rw [← hDb] at hMem
          rcases of_mem_updateState hMem with
            hOld | ⟨rfl, hNew⟩
          · exact Or.inl hOld
          · rcases List.mem_append.mp hNew with hOld | hNew
            · exact Or.inl hOld
            · rw [List.mem_singleton] at hNew
              subst hNew
              refine Or.inr (.agent ?_)
              rw [← hDb]
              exact Nat.lt_succ_self _
        · cases hNext
      · simp only [Except.ok.injEq, Prod.mk.injEq] at hNext
        rw [← hNext.2] at hMem
        rcases of_mem_updateState hMem with hOld | ⟨rfl, hNew⟩
        · exact Or.inl hOld
        · rcases List.mem_append.mp hNew with hOld | hNew
          · exact Or.inl hOld
          · rcases List.mem_map.mp hNew with ⟨call, -, rfl⟩
            exact Or.inr .tool
      · simp only [Except.ok.injEq, Prod.mk.injEq] at hNext
        rw [← hNext.2] at hMem
        exact Or.inl hMem
      · cases hNext
  | rejectPending other =>
      cases hExec
      exact Or.inl (mem_of_cut withoutPending_subset hMem)
  | clearInterruptedTools other =>
      cases hExec
      exact Or.inl (mem_of_cut withoutInterrupted_subset hMem)
  | approvePartial other approved =>
      have hNext := statement_of_onDb hExec
      unfold approvePartial at hNext
      split at hNext
      · simp only [Except.ok.injEq, Prod.mk.injEq] at hNext
        rw [← hNext.2] at hMem
        exact Or.inl hMem
      · rename_i pending hPending
        rcases of_pendingMessage hPending with
          ⟨hPendingMem, hPendingCalls⟩
        dsimp only at hNext
        split at hNext
        · simp only [Except.ok.injEq, Prod.mk.injEq] at hNext
          rw [← hNext.2] at hMem
          exact Or.inl (mem_of_cut withoutPending_subset hMem)
        · rename_i hKept
          split at hNext
          · simp only [Except.ok.injEq, Prod.mk.injEq] at hNext
            rw [← hNext.2] at hMem
            exact Or.inl hMem
          · simp only [Except.ok.injEq, Prod.mk.injEq] at hNext
            rw [← hNext.2] at hMem
            rcases of_mem_updateState hMem with
              hOld | ⟨rfl, hNew⟩
            · exact Or.inl hOld
            · rcases List.mem_map.mp hNew with ⟨old, hOld, rfl⟩
              split
              · rename_i hSame
                rcases (sameId_iff _ _).mp hSame with
                  ⟨id, hId, hId'⟩
                cases old with
                | ai oldId content calls =>
                    refine
                      Or.inr
                        (.partly hPendingMem hPendingCalls
                          (hId.trans hId'.symm) ?_)
                    simpa using hKept
                | human content => cases hId'
                | tool callId content => cases hId'
              · exact Or.inl hOld
  | forkState other transcript =>
      have hNext :
          forkState other transcript world.db =
            .ok (value, world'.db) :=
        statement_of_onDb hExec
      simp only [forkState, Statement.modify, Except.ok.injEq,
        Prod.mk.injEq] at hNext
      rw [← hNext.2] at hMem
      rcases of_mem_updateState hMem with hOld | ⟨rfl, hNew⟩
      · exact Or.inl hOld
      · rcases List.mem_append.mp hNew with hOld | hNew
        · exact Or.inl hOld
        · rcases List.mem_filterMap.mp hNew with
            ⟨seed, -, hSeed⟩
          refine Or.inr (.seeded ?_)
          split at hSeed <;> cases hSeed <;> rfl
  | _ =>
      have hSame := (frames_of_exec hExec).checkpoints rfl
      rw [hSame] at hMem
      exact Or.inl hMem

/- The id of a written message with calls. -/
theorem calls_of_written
    (hWritten : Written world world' op threadId message)
    (hCalls : message.calls ≠ []) :
    op.writesCalls = some threadId ∧
      ((∃ old ∈ world.db.checkpoints threadId,
          old.calls ≠ [] ∧ old.id? = message.id?) ∨
        message.id? = some world.db.nextId ∧
          world.db.nextId < world'.db.nextId) := by
  cases hWritten with
  | question => exact absurd rfl hCalls
  | tool => exact absurd rfl hCalls
  | seeded hNone => exact absurd hNone hCalls
  | @agent _ content calls hNext =>
      cases calls with
      | nil => exact absurd rfl hCalls
      | cons call calls => exact ⟨rfl, Or.inr ⟨rfl, hNext⟩⟩
  | partly hMem hPending hId hKept =>
      exact ⟨rfl, Or.inl ⟨_, hMem, hPending, hId⟩⟩

end Exec

------------------------------------------------------------
-- Conditions
------------------------------------------------------------

/-
  Whether an action writes a message with calls for a run
  while the surgery of an earlier run of the thread is due.
-/
def System.Intrudes (system : System) (action : Action) : Prop :=
  ∃ taskId task op job stage otherId other job' cells,
    action = .turn taskId false ∧
      system.call? action = some (task, op) ∧
        task.phase.role = .on job stage ∧
          op.writesCalls = some job.thread ∧
            system.tasks otherId = some other ∧
              other.phase.role = .on job' (.closing cells true) ∧
                job'.thread = job.thread ∧ job'.run < job.run

/-
  Only running runs are paused, and no later run writes a
  message with calls while a surgery is due.
-/
structure Confined
    (system : System)
    (action : Action) :
    Prop where
  paused : Paused system action
  apart : ¬system.Intrudes action

/- The run whose surgery is due to a role. -/
def Role.operates? : Role → Option RunId
| .on job (.closing _ true) => some job.run
| _ => none

------------------------------------------------------------
-- Runs Of A Thread
------------------------------------------------------------

section Calls

variable {registry : Registry} {system : System}
variable {taskId : TaskId} {task : Task}
variable {op : Op} {value : op.Reply} {world' : World}

/- A run that is active after a call was so, or was opened. -/
theorem active_before
    (hCall :
      Calls registry Confined system taskId false task op
        (.ok value) world')
    (hExec :
      exec task.inst op system.world = (.ok value, world'))
    {runId : RunId}
    (hActive : world'.db.isActive runId = true) :
    system.world.db.isActive runId = true ∨
      runId = system.world.db.nextId := by
  have hFresh :=
    (wellFormed_of_reachable hCall.reachable).freshRun
  have hChanges := changesRuns_of_exec hExec
  rcases isActive_before hChanges hFresh hCall.allows hActive with
    hWas | hNew | ⟨status, ended, rfl⟩
  · exact Or.inl hWas
  · exact Or.inr hNew
  -- A pause is permitted only while the run is running.
  · left
    cases hChanges with
    | set hRun hAlone _ =>
        rw [Db.isActive, Db.status?, hRun]
        have hRunning :=
          running_of_paused hCall hCall.permitted.paused hRun
            hAlone
        simp [hRunning, RunStatus.active]
    | missing _ hRuns =>
        rwa [Db.isActive, status?_of_runs hRuns] at hActive
    | kept _ hRuns =>
        rwa [Db.isActive, status?_of_runs hRuns] at hActive

/- A run of a thread was so before a call, or was opened. -/
theorem hasRun_before
    {db db' : Db}
    (hChanges : ChangesRuns db db' op value)
    (hFresh : db.runs.get? db.nextId = none)
    {runId : RunId}
    {threadId : ThreadId}
    (hRun : db'.hasRun runId threadId) :
    db.hasRun runId threadId ∨
      runId = db.nextId ∧
        db.activeElsewhere threadId db.nextId = false ∧
          (db.threads.get? threadId).isSome = true := by
  have hWritten :
      ∀ other status ended,
        db'.runs = (db.writeStatus other status ended).runs →
          db.hasRun runId threadId := by
    intro other status ended hRuns
    rw [Db.hasRun, hRuns, get?_writeStatus] at hRun
    split at hRun
    · rwa [Option.map_map] at hRun
    · exact hRun
  cases hChanges with
  | opened hThread hAlone hRuns =>
      rw [Db.hasRun, hRuns, Table.get?_insert hFresh] at hRun
      split at hRun
      · rename_i hEq
        cases hRun
        exact Or.inr ⟨hEq, hAlone, hThread⟩
      · exact Or.inl hRun
  | set _ _ hRuns => exact Or.inl (hWritten _ _ _ hRuns)
  | missing _ hRuns =>
      left
      rwa [Db.hasRun, hRuns] at hRun
  | moved _ _ _ hRuns => exact Or.inl (hWritten _ _ _ hRuns)
  | committed _ _ hRuns => exact Or.inl (hWritten _ _ _ hRuns)
  | kept _ hRuns =>
      left
      rwa [Db.hasRun, hRuns] at hRun

end Calls

/- The active run of a thread is its last one. -/
def Db.Latest (db : Db) : Prop :=
  ∀ runId other threadId,
    db.hasRun runId threadId →
      db.hasRun other threadId →
        runId < other → db.isActive runId = false

/- The ids of messages with calls were drawn before. -/
def Db.CallsKnown (db : Db) : Prop :=
  ∀ threadId,
    ∀ message ∈ db.checkpoints threadId,
      message.calls ≠ [] →
        ∀ id, message.id? = some id → id < db.nextId

/- Changes that activate no run keep the last runs. -/
theorem latest_of_update
    {db db' : Db}
    (hThreads :
      ∀ runId threadId,
        db'.hasRun runId threadId → db.hasRun runId threadId)
    (hActive :
      ∀ runId,
        db'.isActive runId = true → db.isActive runId = true)
    (hLatest : db.Latest) :
    db'.Latest := by
  intro runId other threadId hRun hOther hLt
  rw [Bool.eq_false_iff]
  intro hOpen
  have hNot :=
    hLatest runId other threadId (hThreads _ _ hRun)
      (hThreads _ _ hOther) hLt
  rw [hActive runId hOpen] at hNot
  cases hNot

/- A run of an updated table was there before. -/
theorem hasRun_of_updated
    {db db' : Db}
    {selects : RunId → Run → Bool}
    {change : Run → Run}
    (hRuns : db'.runs = db.runs.update selects change)
    (hChange : ∀ run, (change run).threadId = run.threadId)
    {runId : RunId}
    {threadId : ThreadId}
    (hRun : db'.hasRun runId threadId) :
    db.hasRun runId threadId := by
  rw [Db.hasRun, hRuns, Table.get?_update, Option.map_map]
    at hRun
  rcases Option.map_eq_some_iff.mp hRun with
    ⟨run, hGet, hThread⟩
  rw [Db.hasRun, hGet, Option.map_some, ← hThread,
    Function.comp_apply]
  split
  · rw [hChange]
  · rfl

/- A swept run is not active. -/
theorem active_of_sweep
    {db : Db}
    {selects : Run → Bool}
    {runId : RunId}
    (hActive : (db.sweep selects).isActive runId = true) :
    db.isActive runId = true := by
  rw [Db.isActive, status?_sweep] at hActive
  cases hRun : db.runs.get? runId with
  | none =>
      rw [hRun] at hActive
      cases hActive
  | some run =>
      rw [hRun, Option.map_some] at hActive
      split at hActive
      · cases hActive
      · rw [Db.isActive, Db.status?, hRun]
        exact hActive

/-
  Every step keeps the last runs and the ids of messages with
  calls.
-/
theorem sustains_latest
    {registry : Registry} :
    SustainsRoles registry Confined
      ⟨fun db => db.Latest ∧ db.CallsKnown, fun _ _ => True,
        fun _ _ => True⟩ where
  idle := fun _ _ _ _ => trivial
  alone := fun _ _ _ => ⟨trivial, trivial⟩
  done := by
    intro system taskId task op value world' hCall hExec hHolds
    rcases hHolds.globally with ⟨hLatest, hKnown⟩
    have hFormed := wellFormed_of_reachable hCall.reachable
    have hChanges := changesRuns_of_exec hExec
    refine
      ⟨⟨?_, ?_⟩, trivial,
        fun _ _ _ _ _ _ => ⟨trivial, trivial, trivial⟩⟩
    · intro runId other threadId hRun hOther hLt
      rw [Bool.eq_false_iff]
      intro hOpen
      have hOld :
          ∀ runId threadId,
            system.world.db.hasRun runId threadId →
              runId < system.world.db.nextId := by
        intro runId threadId hRun
        rcases Option.map_eq_some_iff.mp hRun with
          ⟨run, hGet, -⟩
        exact hFormed.runIds runId run hGet
      rcases hasRun_before hChanges hFormed.freshRun hRun with
        hWasRun | ⟨rfl, -⟩
      · rcases active_before hCall hExec hOpen with
          hWas | rfl
        · rcases hasRun_before hChanges hFormed.freshRun
              hOther with
            hWasOther | ⟨rfl, hAlone, -⟩
          · have hNot :=
              hLatest runId other threadId hWasRun hWasOther hLt
            rw [hWas] at hNot
            cases hNot
          · rcases Option.map_eq_some_iff.mp hWasRun with
              ⟨run, hGet, hThread⟩
            rw [Db.isActive, Db.status?, hGet] at hWas
            have hEq :=
              activeElsewhere_eq_false hAlone hGet hThread hWas
            exact absurd hEq (Nat.ne_of_lt hLt)
        · exact absurd (hOld _ _ hWasRun) (Nat.lt_irrefl _)
      · rcases hasRun_before hChanges hFormed.freshRun
            hOther with
          hWasOther | ⟨rfl, -⟩
        · exact
            absurd (Nat.lt_trans hLt (hOld _ _ hWasOther))
              (Nat.lt_irrefl _)
        · exact absurd hLt (Nat.lt_irrefl _)
    · intro threadId message hMem hCalls id hId
      have hNext := (frames_of_exec hExec).nextId
      rcases written_of_exec hExec hMem with hOld | hNew
      · exact
          Nat.lt_of_lt_of_le
            (hKnown threadId message hOld hCalls id hId) hNext
      · rcases calls_of_written hNew hCalls with ⟨-, hIds⟩
        rcases hIds with
          ⟨old, hOld, hOldCalls, hSame⟩ | ⟨hFresh, hLt⟩
        · exact
            Nat.lt_of_lt_of_le
              (hKnown threadId old hOld hOldCalls id
                (hSame.trans hId))
              hNext
        · rw [hFresh, Option.some_inj] at hId
          rw [← hId]
          exact hLt
  failed := by
    intro system taskId fault task op exn hCall _ hHolds
    exact
      ⟨hHolds.globally, trivial,
        fun _ _ _ _ _ _ => ⟨trivial, trivial, trivial⟩⟩
  advance := fun _ _ hHolds => ⟨hHolds, fun _ _ => trivial⟩
  heartbeat := by
    rintro db runIds ⟨hLatest, hKnown⟩
    refine ⟨⟨?_, hKnown⟩, fun _ _ => trivial⟩
    refine latest_of_update ?_ ?_ hLatest
    · intro runId threadId
      exact hasRun_of_updated (runs_heartbeat db runIds)
        fun _ => rfl
    · intro runId hActive
      rwa [Db.isActive, status?_heartbeat] at hActive
  sweep := by
    rintro db selects _ ⟨hLatest, hKnown⟩
    refine ⟨⟨?_, hKnown⟩, fun _ _ => trivial⟩
    refine latest_of_update ?_ ?_ hLatest
    · intro runId threadId
      exact hasRun_of_updated (runs_sweep db selects)
        fun _ => rfl
    · intro runId
      exact active_of_sweep
  collect := fun _ _ hHolds => ⟨hHolds, fun _ _ => trivial⟩

theorem latest_of_reachable
    {registry : Registry}
    {system : System}
    (hReachable : Reachable registry Confined system) :
    system.world.db.Latest ∧ system.world.db.CallsKnown := by
  refine
    globally_of_execution sustains_latest .refl ⟨?_, ?_⟩
      hReachable
  · intro runId other threadId hRun
    cases hRun
  · intro threadId message hMem
    cases hMem

------------------------------------------------------------
-- Surgeries
------------------------------------------------------------

/- A surgery that is due is of the run of the job. -/
theorem run_of_operates
    {job : Job}
    {stage : Stage}
    {runId : RunId}
    (hDue : (Role.on job stage).operates? = some runId) :
    job.run = runId := by
  cases stage with
  | closing cells graph =>
      cases graph with
      | false => cases hDue
      | true => exact Option.some_inj.mp hDue
  | _ => cases hDue

/- A surgery is due behind the end of a waiting run. -/
theorem operates_after
    {role : Role}
    {op : Op}
    {value : op.Reply}
    {runId : RunId}
    (hAllows : role.Allows op)
    (hDue :
      (role.after op (.ok value)).operates? = some runId) :
    role.operates? = some runId ∨
      ∃ status ended,
        op = .tryTransition runId .awaitingApproval status ended ∧
          op.wroteRuns value = true := by
  cases hAllows with
  | @on job stage _ hStage =>
      cases hStage with
      | choosingReject =>
          cases value with
          | false => cases hDue
          | true =>
              cases hDue
              exact Or.inr ⟨_, _, rfl, rfl⟩
      | choosingApprove => cases value <;> cases hDue
      | drivingNext =>
          rcases value with _ | ⟨_ | _, _⟩ <;> cases hDue
      | drivingFail => cases value <;> cases hDue
      | finalizingForged => cases value <;> cases hDue
      | finalizingCommit => cases value <;> cases hDue
      | stoppingEnd => cases value <;> cases hDue
      | failingEnd => cases value <;> cases hDue
      | erringEnd => cases value <;> cases hDue
      | leftEnd => cases value <;> cases hDue
      | closingMark => exact Or.inl hDue
      | @closingResolve graph marker =>
          cases graph with
          | false => cases hDue
          | true => exact Or.inl hDue
      | closingClear => cases hDue
      | closingSeq => cases hDue
      | closingLog =>
          simp only [Role.after, Stage.after] at hDue
          split at hDue <;> cases hDue
      | closingPop => cases hDue
      | _ => cases hDue
  | freshActive =>
      rcases value with _ | ⟨_, status⟩
      · cases hDue
      · cases status <;> cases hDue
  | freshRead => rcases value with _ | _ <;> cases hDue
  | lookingActive =>
      rcases value with _ | ⟨_, status⟩
      · cases hDue
      · cases status <;> cases hDue
  | watchingRunning => cases value <;> cases hDue
  | watchingPaused =>
      cases value with
      | false => cases hDue
      | true =>
          cases hDue
          exact Or.inr ⟨_, _, rfl, rfl⟩
  | _ => cases hDue

/- A failed call makes no surgery due. -/
theorem operates_failed
    {role : Role}
    {op : Op}
    {exn : Exn}
    {runId : RunId}
    (hAllows : role.Allows op)
    (hDue :
      (role.after op (.error exn)).operates? = some runId) :
    role.operates? = some runId := by
  cases hAllows with
  | on hStage => cases hStage <;> cases hDue
  | _ => cases hDue

/-
  A run that is over, and a message that has the id of no
  message with calls unless it has calls itself.
-/
structure Db.Past
    (db : Db)
    (runId : RunId)
    (threadId : ThreadId)
    (message : CheckpointMessage) :
    Prop where
  drawn : runId < db.nextId
  ended : db.isActive runId = false
  known :
    message.calls = [] →
      ∀ id, message.id? = some id → id < db.nextId
  apart :
    message.calls = [] →
      ∀ other ∈ db.checkpoints threadId,
        other.calls ≠ [] →
          ∀ id,
            message.id? = some id → other.id? ≠ some id

/-
  The run is over, and for a message with calls its surgery
  is not due.
-/
def pastOutline
    (runId : RunId)
    (threadId : ThreadId)
    (message : CheckpointMessage) :
    Outline Db Role where
  globally := fun db => db.Past runId threadId message
  locally := fun _ role =>
    message.calls ≠ [] → role.operates? ≠ some runId
  mutually := fun _ _ => True

/- No surgery becomes due for a run that is over. -/
theorem sustains_past
    {registry : Registry}
    (runId : RunId)
    (threadId : ThreadId)
    (message : CheckpointMessage) :
    SustainsRoles registry Confined
      (pastOutline runId threadId message) where
  idle := by
    intro db role hIdle _ _ hDue
    cases role <;> first | cases hDue | cases hIdle
  alone := fun _ _ _ => ⟨trivial, trivial⟩
  done := by
    intro system taskId task op value world' hCall hExec hHolds
    have hPast : system.world.db.Past runId threadId message :=
      hHolds.globally
    have hMine :
        message.calls ≠ [] →
          task.phase.role.operates? ≠ some runId :=
      hHolds.locally taskId task hCall.present
    have hNext := (frames_of_exec hExec).nextId
    refine
      ⟨⟨?_, ?_, ?_, ?_⟩, ?_,
        fun _ _ _ _ hOther _ => ⟨hOther, trivial, trivial⟩⟩
    · exact Nat.lt_of_lt_of_le hPast.drawn hNext
    · rw [Bool.eq_false_iff]
      intro hOpen
      rcases active_before hCall hExec hOpen with hWas | rfl
      · rw [hPast.ended] at hWas
        cases hWas
      · exact Nat.lt_irrefl _ hPast.drawn
    · intro hPlain id hId
      exact
        Nat.lt_of_lt_of_le (hPast.known hPlain id hId) hNext
    · intro hPlain other hMem hCalls id hId hSame
      rcases written_of_exec hExec hMem with hOld | hNew
      · exact hPast.apart hPlain other hOld hCalls id hId hSame
      · rcases calls_of_written hNew hCalls with ⟨-, hIds⟩
        rcases hIds with
          ⟨old, hOld, hOldCalls, hOldId⟩ | ⟨hFresh, -⟩
        · exact
            hPast.apart hPlain old hOld hOldCalls id hId
              (hOldId.trans hSame)
        · rw [hFresh, Option.some_inj] at hSame
          have hLt := hPast.known hPlain id hId
          rw [← hSame] at hLt
          exact Nat.lt_irrefl _ hLt
    · intro hCalls hDue
      rcases operates_after hCall.allows hDue with
        hBefore | ⟨status, ended, rfl, hWrote⟩
      · exact hMine hCalls hBefore
      · cases changesRuns_of_exec hExec with
        | moved hRun hStatus _ _ =>
            have hEnded := hPast.ended
            rw [Db.isActive, Db.status?, hRun, Option.map_some,
              hStatus] at hEnded
            cases hEnded
        | kept hKept _ =>
            rw [hKept] at hWrote
            cases hWrote
  failed := by
    intro system taskId fault task op exn hCall _ hHolds
    refine
      ⟨hHolds.globally, ?_,
        fun _ _ _ _ hOther _ => ⟨hOther, trivial, trivial⟩⟩
    intro hCalls hDue
    exact
      hHolds.locally taskId task hCall.present hCalls
        (operates_failed hCall.allows hDue)
  advance := by
    intro db seconds hPast
    exact
      ⟨⟨hPast.drawn, hPast.ended, hPast.known, hPast.apart⟩,
        fun _ hLocally => hLocally⟩
  heartbeat := by
    intro db runIds hPast
    refine
      ⟨⟨hPast.drawn, ?_, hPast.known, hPast.apart⟩,
        fun _ hLocally => hLocally⟩
    rw [Db.isActive, status?_heartbeat]
    exact hPast.ended
  sweep := by
    intro db selects _ hPast
    refine
      ⟨⟨hPast.drawn, ?_, hPast.known, hPast.apart⟩,
        fun _ hLocally => hLocally⟩
    rw [Bool.eq_false_iff]
    intro hOpen
    have hWas := active_of_sweep hOpen
    rw [hPast.ended] at hWas
    cases hWas
  collect := by
    intro db retention hPast
    exact
      ⟨⟨hPast.drawn, hPast.ended, hPast.known, hPast.apart⟩,
        fun _ hLocally => hLocally⟩

------------------------------------------------------------
-- Confined Surgeries
------------------------------------------------------------

/- The job of the task whose call an action makes. -/
def System.works?
    (system : System)
    (action : Action) :
    Option Job :=
  (system.call? action).bind fun call =>
    call.1.phase.role.job?

/- The job of the task whose surgery an action does. -/
def System.surgeon?
    (system : System)
    (action : Action) :
    Option (Job × ThreadId) :=
  match system.call? action with
  | some (task, .rejectPending threadId) =>
      task.phase.role.job?.map fun job => (job, threadId)
  | _ => none

/- A step in which a task writes a message for its run. -/
structure Makes
    (system next : System)
    (action : Action)
    (runId : RunId)
    (threadId : ThreadId)
    (message : CheckpointMessage) :
    Prop where
  works :
    ∃ job,
      system.works? action = some job ∧ job.run = runId ∧
        job.thread = threadId
  unwritten :
    message ∉ system.world.db.checkpoints threadId
  written : message ∈ next.world.db.checkpoints threadId

/- A step in which a task does the surgery of its run. -/
def Operates
    (system : System)
    (action : Action)
    (runId : RunId)
    (threadId : ThreadId) :
    Prop :=
  ∃ job,
    system.surgeon? action = some (job, threadId) ∧
      job.run = runId

theorem role_of_job
    {role : Role}
    {job : Job}
    (hJob : role.job? = some job) :
    ∃ stage, role = .on job stage := by
  cases role with
  | on job' stage =>
      cases hJob
      exact ⟨stage, rfl⟩
  | _ => cases hJob

theorem of_works
    {system : System}
    {action : Action}
    {job : Job}
    (hWorks : system.works? action = some job) :
    ∃ task op stage,
      system.call? action = some (task, op) ∧
        task.phase.role = .on job stage := by
  rcases Option.bind_eq_some_iff.mp hWorks with
    ⟨⟨task, op⟩, hCall, hJob⟩
  rcases role_of_job hJob with ⟨stage, hRole⟩
  exact ⟨task, op, stage, hCall, hRole⟩

theorem of_surgeon
    {system : System}
    {action : Action}
    {job : Job}
    {threadId : ThreadId}
    (hSurgeon : system.surgeon? action = some (job, threadId)) :
    ∃ task stage,
      system.call? action =
          some (task, .rejectPending threadId) ∧
        task.phase.role = .on job stage := by
  unfold System.surgeon? at hSurgeon
  split at hSurgeon
  · rename_i task other hCall
    rcases Option.map_eq_some_iff.mp hSurgeon with
      ⟨job', hJob, hEq⟩
    cases hEq
    rcases role_of_job hJob with ⟨stage, hRole⟩
    exact ⟨task, stage, hCall, hRole⟩
  · cases hSurgeon

section Surgeries

variable {registry : Registry}
variable {allowed : System → Action → Prop}
variable {system next : System} {action : Action}
variable {runId : RunId} {threadId : ThreadId}

/- A surgery is due before it is done. -/
theorem operates_of_step
    (hReachable : Reachable registry allowed system)
    (hAllowed : allowed system action)
    (hStep : system.step registry action = some next)
    (hSurgery : Operates system action runId threadId) :
    (∃ taskId task,
        system.tasks taskId = some task ∧
          task.phase.role.operates? = some runId) ∧
      (next.world.db.checkpoints threadId =
          withoutPending (system.world.db.checkpoints threadId) ∨
        next.world = system.world) := by
  rcases hSurgery with ⟨job, hSurgeon, rfl⟩
  rcases of_surgeon hSurgeon with ⟨task, stage, hNext, hRole⟩
  cases action with
  | turn taskId fault =>
      rcases calls_of_step hReachable hAllowed hStep hNext with
        ⟨reply, world', hCall, hWorld⟩
      have hAllows := hCall.allows
      rw [hRole] at hAllows
      cases hAllows with
      | on hStage =>
          cases hStage
          refine ⟨⟨taskId, task, hCall.present, ?_⟩, ?_⟩
          · rw [hRole]
            rfl
          · rw [hWorld]
            cases hCall.executes with
            | done hExec =>
                left
                have hDb :
                    rejectPending job.thread system.world.db =
                      .ok ((), world'.db) :=
                  statement_of_onDb hExec
                simp only [rejectPending, Statement.modify,
                  Except.ok.injEq, Prod.mk.injEq, true_and]
                  at hDb
                rw [← hDb, Db.updateState]
                exact if_pos rfl
            | refused hExec => exact Or.inr (world_of_error hExec)
            | fault hFault => exact Or.inr rfl
  | _ => cases hNext

/-
  A message that a later run has just written is past the
  surgery of an earlier one.
-/
theorem past_of_makes
    (hReachable : Reachable registry Confined system)
    (hConfined : Confined system action)
    (hStep : system.step registry action = some next)
    {other : RunId}
    {message : CheckpointMessage}
    (hMakes : Makes system next action other threadId message)
    (hRun : system.world.db.hasRun runId threadId)
    (hLater : runId < other) :
    (onRoles (pastOutline runId threadId message)).Holds
      next.world next.tasks := by
  rcases hMakes with ⟨⟨job, hWorks, rfl, rfl⟩, hOld, hNew⟩
  rcases of_works hWorks with ⟨task, op, stage, hNext, hRole⟩
  have hFormed := wellFormed_of_reachable hReachable
  rcases latest_of_reachable hReachable with
    ⟨hLatest, hCallsKnown⟩
  cases action with
  | turn taskId fault =>
      rcases turn_of_step hReachable hConfined hStep hNext with
        ⟨reply, world', hCall, hWorld, hTasks⟩
      have hKnown := known_of_reachable hReachable hCall.present
      rw [hRole] at hKnown
      have hEnded := hLatest runId job.run _ hRun hKnown.1 hLater
      rcases Option.map_eq_some_iff.mp hRun with ⟨run, hGet, -⟩
      have hDrawn := hFormed.runIds runId run hGet
      rw [hWorld] at hNew
      cases hCall.executes with
      | refused hExec =>
          rw [world_of_error hExec] at hNew
          exact absurd hNew hOld
      | fault hFault => exact absurd hNew hOld
      | @done value world' hExec =>
          have hWritten :=
            (written_of_exec hExec hNew).resolve_left hOld
          have hIds := (frames_of_exec hExec).nextId
          refine ⟨?_, ?_, fun _ _ _ _ _ _ _ => trivial⟩
          · rw [hWorld]
            refine ⟨?_, ?_, ?_, ?_⟩
            · exact Nat.lt_of_lt_of_le hDrawn hIds
            · rw [Bool.eq_false_iff]
              intro hOpen
              rcases active_before hCall hExec hOpen with
                hWas | hEq
              · rw [hEnded] at hWas
                cases hWas
              · exact absurd hEq (Nat.ne_of_lt hDrawn)
            · intro hPlain id hId
              cases hWritten with
              | question => cases hId
              | tool => cases hId
              | agent hLt =>
                  cases hId
                  exact hLt
              | partly _ _ _ hCalls => exact absurd hPlain hCalls
              | seeded =>
                  have hAllows := hCall.allows
                  rw [hRole] at hAllows
                  cases hAllows with
                  | on hStage => cases hStage
            · intro hPlain message' hMem hCalls id hId hSame
              cases hWritten with
              | question => cases hId
              | tool => cases hId
              | partly _ _ _ hCalls => exact absurd hPlain hCalls
              | seeded =>
                  have hAllows := hCall.allows
                  rw [hRole] at hAllows
                  cases hAllows with
                  | on hStage => cases hStage
              | @agent _ content calls hLt =>
                  cases hPlain
                  cases hId
                  rcases written_of_exec hExec hMem with
                    hWas | hMade
                  · exact
                      absurd
                        (hCallsKnown _ message' hWas hCalls _
                          hSame)
                        (Nat.lt_irrefl _)
                  · have hWrites :=
                      (calls_of_written hMade hCalls).1
                    cases hWrites
          · intro otherId other hOther hCalls hDue
            rcases hTasks otherId other hOther with
              hBefore | hAfter
            · apply hConfined.apart
              have hWrites :=
                (calls_of_written hWritten hCalls).1
              cases hOtherRole : other.phase.role with
              | on job' stage' =>
                  rw [hOtherRole] at hDue
                  cases stage' with
                  | closing cells graph =>
                      cases graph with
                      | false => cases hDue
                      | true =>
                          cases hDue
                          have hOtherKnown :=
                            known_of_reachable hReachable
                              hBefore
                          rw [hOtherRole] at hOtherKnown
                          have hThread :=
                            hOtherKnown.1.symm.trans hRun
                          exact
                            ⟨taskId, task, op, job, stage,
                              otherId, other, job', cells, rfl,
                              hNext, hRole, hWrites, hBefore,
                              hOtherRole,
                              Option.some_inj.mp hThread, hLater⟩
                  | _ => cases hDue
              | _ =>
                  rw [hOtherRole] at hDue
                  cases hDue
            · rw [hAfter, hRole] at hDue
              exact
                absurd (run_of_operates hDue)
                  (Nat.ne_of_gt hLater)
  | _ => cases hNext

end Surgeries

/-
  A surgery removes no message that a later run of the thread
  wrote, as long as no later run writes a message with calls
  while the surgery of an earlier run is due, and only running
  runs are paused.
-/
theorem surgery_confined
    {registry : Registry}
    {first second third fourth : System}
    {action surgery : Action}
    {runId other : RunId}
    {threadId : ThreadId}
    {message : CheckpointMessage}
    (hReachable : Reachable registry Confined first)
    (hConfined : Confined first action)
    (hStep : first.step registry action = some second)
    (hMakes : Makes first second action other threadId message)
    (hRun : first.world.db.hasRun runId threadId)
    (hLater : runId < other)
    (hThen :
      Execution (System.step registry) Confined second third)
    (hAllowed : Confined third surgery)
    (hSurgery : Operates third surgery runId threadId)
    (hLast : third.step registry surgery = some fourth)
    (hMem : message ∈ third.world.db.checkpoints threadId) :
    message ∈ fourth.world.db.checkpoints threadId := by
  have hSecond : Reachable registry Confined second :=
    hReachable.tail ⟨action, hConfined, hStep⟩
  have hHolds :=
    holds_of_execution
      (sustains_onRoles (sustains_past runId threadId message))
      hSecond
      (past_of_makes hReachable hConfined hStep hMakes hRun
        hLater)
      hThen
  rcases
      operates_of_step (hSecond.trans hThen) hAllowed hLast
        hSurgery with
    ⟨⟨taskId, task, hTask, hDue⟩, hCheckpoint⟩
  by_cases hCalls : message.calls = []
  · rcases hCheckpoint with hCut | hSame
    · rw [hCut]
      apply mem_withoutPending hMem
      intro message' hMem' hCalls' id hId hId'
      exact
        hHolds.globally.apart hCalls message' hMem' hCalls' id
          hId' hId
    · rw [hSame]
      exact hMem
  · exact
      absurd hDue (hHolds.locally taskId task hTask hCalls)

------------------------------------------------------------
-- Recorded Surgeries
------------------------------------------------------------

/- A step that writes no message with calls is confined. -/
def System.writesNoCalls
    (system : System)
    (action : Action) :
    Bool :=
  !system.resurrects action &&
    (system.call? action).all fun call =>
      call.2.writesCalls.isNone

theorem confined_of_writesNoCalls
    {system : System}
    {action : Action}
    (hTest : system.writesNoCalls action = true) :
    Confined system action := by
  simp only [System.writesNoCalls, Bool.and_eq_true,
    Bool.not_eq_true'] at hTest
  refine ⟨hTest.1, ?_⟩
  rintro ⟨_, _, _, _, _, _, _, _, _, rfl, hCall, _, hWrites, _⟩
  have hNone := hTest.2
  rw [hCall] at hNone
  simp [hWrites] at hNone

/- So is a step for the first run. -/
def System.firstRun (system : System) (action : Action) : Bool :=
  !system.resurrects action &&
    (system.call? action).all fun call =>
      call.2.writesCalls.isNone ||
        call.1.phase.role.job?.all fun job =>
          (List.range job.run).all fun runId =>
            (system.world.db.runs.get? runId).isNone

theorem confined_of_firstRun
    {registry : Registry}
    {system : System}
    (hReachable :
      Reachable registry
        (fun system action => system.firstRun action = true)
        system) :
    Reachable registry Confined system := by
  induction hReachable with
  | refl => exact .refl
  | tail hRun hNext ih =>
      rcases hNext with ⟨action, hTest, hStep⟩
      refine ih.tail ⟨action, ?_, hStep⟩
      simp only [System.firstRun, Bool.and_eq_true,
        Bool.not_eq_true'] at hTest
      refine ⟨hTest.1, ?_⟩
      rintro
        ⟨taskId, task, op, job, stage, otherId, other, job', cells,
          rfl, hCall, hRole, hWrites, hOther, hOtherRole, -, hLt⟩
      have hKnown := known_of_reachable hRun hOther
      rw [hOtherRole] at hKnown
      rcases Option.map_eq_some_iff.mp hKnown.1 with
        ⟨run, hGet, -⟩
      have hNone := hTest.2
      simp only [hCall, Option.all_some, hWrites, hRole,
        Role.job?, Option.isNone_some, Bool.false_or,
        List.all_eq_true, List.mem_range] at hNone
      have hMissing := hNone job'.run hLt
      rw [hGet] at hMissing
      cases hMissing

/- A surgery that is done for a run after a message was made. -/
structure Recorded
    (first second third : System)
    (action surgery : Action)
    (runId : RunId)
    (job : Job)
    (message : CheckpointMessage) :
    Prop where
  works : first.works? action = some job
  run :
    (first.world.db.runs.get? runId).map Run.threadId =
      some job.thread
  unwritten : message ∉ first.world.db.checkpoints job.thread
  written : message ∈ second.world.db.checkpoints job.thread
  kept : message ∈ third.world.db.checkpoints job.thread
  surgeon :
    third.surgeon? surgery =
      some (⟨runId, job.thread, runId⟩, job.thread)

instance
    (first second third : System)
    (action surgery : Action)
    (runId : RunId)
    (job : Job)
    (message : CheckpointMessage) :
    Decidable
      (Recorded first second third action surgery runId job
        message) :=
  decidable_of_iff
    (first.works? action = some job ∧
      (first.world.db.runs.get? runId).map Run.threadId =
          some job.thread ∧
        message ∉ first.world.db.checkpoints job.thread ∧
          message ∈ second.world.db.checkpoints job.thread ∧
            message ∈ third.world.db.checkpoints job.thread ∧
              third.surgeon? surgery =
                some
                  (⟨runId, job.thread, runId⟩, job.thread))
    ⟨fun ⟨h₁, h₂, h₃, h₄, h₅, h₆⟩ => ⟨h₁, h₂, h₃, h₄, h₅, h₆⟩,
      fun ⟨h₁, h₂, h₃, h₄, h₅, h₆⟩ => ⟨h₁, h₂, h₃, h₄, h₅, h₆⟩⟩

theorem Recorded.makes
    {first second third : System}
    {action surgery : Action}
    {runId : RunId}
    {job : Job}
    {message : CheckpointMessage}
    (hRecorded :
      Recorded first second third action surgery runId job
        message) :
    Makes first second action job.run job.thread message where
  works := ⟨job, hRecorded.works, rfl, rfl⟩
  unwritten := hRecorded.unwritten
  written := hRecorded.written

theorem Recorded.operates
    {first second third : System}
    {action surgery : Action}
    {runId : RunId}
    {job : Job}
    {message : CheckpointMessage}
    (hRecorded :
      Recorded first second third action surgery runId job
        message) :
    Operates third surgery runId job.thread :=
  ⟨_, hRecorded.surgeon, rfl⟩

/- A question between the end of a run and its surgery. -/
def askedEarly : List Action :=
  pausedRun ++ [.request 2 0 (.resume 0 false none [])] ++
    turns 2 4 ++ [.request 3 0 (.start 0 "n".toList none [])] ++
    turns 3 8

/- The surgery leaves the question of the next run. -/
theorem surgery_confined_question :
    ∃ first second third fourth,
      execute (System.step .single) askedEarly .initial =
          some first ∧
        first.step .single (.turn 3 false) = some second ∧
          execute (System.step .single) (turns 2 2) second =
              some third ∧
            third.step .single (.turn 2 false) = some fourth ∧
              .human (.str "n".toList) ∈
                fourth.world.db.checkpoints 0 := by
  have hView :
      ((execute (System.step .single) askedEarly .initial).bind
          fun first =>
            (first.step .single (.turn 3 false)).bind
              fun second =>
                (execute (System.step .single) (turns 2 2)
                    second).bind fun third =>
                  (third.step .single (.turn 2 false)).map
                    fun _ =>
                      decide
                          (Recorded first second third
                            (.turn 3 false) (.turn 2 false) 1
                            ⟨5, 0, 5⟩
                            (.human (.str "n".toList))) &&
                        first.writesNoCalls (.turn 3 false) &&
                        passes (System.step .single)
                          System.writesNoCalls (turns 2 2)
                          second &&
                        third.writesNoCalls (.turn 2 false)) =
        some true := by
    decide +kernel
  simp only [Option.bind_eq_some_iff, Option.map_eq_some_iff,
    Bool.and_eq_true, decide_eq_true_eq] at hView
  rcases hView with
    ⟨first, hFirst, second, hSecond, third, hThird, fourth,
      hFourth, ⟨⟨hRecorded, hTest⟩, hThen⟩, hLast⟩
  have hPasses :
      passes (System.step .single) System.firstRun askedEarly
          .initial =
        true := by
    decide +kernel
  have hReachable : Reachable .single Confined first :=
    confined_of_firstRun
      (run_of_execute hFirst hPasses fun _ _ hHolds => hHolds)
  exact
    ⟨first, second, third, fourth, hFirst, hSecond, hThird,
      hFourth,
      surgery_confined hReachable
        (confined_of_writesNoCalls hTest) hSecond
        hRecorded.makes hRecorded.run (by decide)
        (run_of_execute hThird hThen fun _ _ =>
          confined_of_writesNoCalls)
        (confined_of_writesNoCalls hLast) hRecorded.operates
        hFourth hRecorded.kept⟩

/-
  A run whose user cancels it, that another instance ends, and
  whose driver clears the checkpoint after the next run has
  paused.  The pause is rejected, and a third run calls a tool
  before the surgery.
-/
def clearedEarly : List Action :=
  [.request 0 0 (.createThread none)] ++ turns 0 1 ++
    [.request 1 0 (.start 0 [] none [.agent (.str []) []])] ++
    turns 1 9 ++ [.request 2 0 (.interrupt 1)] ++ turns 2 3 ++
    [.request 3 1 (.interrupt 1)] ++ turns 3 5 ++
    [.request 4 0
      (.start 0 [] none
        [.agent (.str []) (toolCalls ["b"]),
          .interrupt none])] ++
    turns 4 21 ++ turns 1 2 ++
    [.request 5 0 (.resume 0 false none [])] ++ turns 5 4 ++
    [.request 6 0
      (.start 0 [] none
        [.agent (.str []) (toolCalls ["c"]),
          .interrupt none])] ++
    turns 6 8

/- The surgery removes the message of the third run. -/
theorem surgery_intrudes :
    ¬ ∀ (registry : Registry)
        (first second third fourth : System)
        (action surgery : Action) (runId other : RunId)
        (threadId : ThreadId) (message : CheckpointMessage),
      Reachable registry (fun _ _ => True) first →
        first.step registry action = some second →
          Makes first second action other threadId message →
            first.world.db.hasRun runId threadId →
              runId < other →
                Execution (System.step registry)
                    (fun _ _ => True) second third →
                  Operates third surgery runId threadId →
                    third.step registry surgery = some fourth →
                      message ∈
                          third.world.db.checkpoints
                            threadId →
                        message ∈
                          fourth.world.db.checkpoints
                            threadId := by
  intro hConfined
  have hView :
      ((execute (System.step .single) clearedEarly
            .initial).bind fun first =>
          (first.step .single (.turn 6 false)).bind fun second =>
            (execute (System.step .single) (turns 5 2)
                second).bind fun third =>
              (third.step .single (.turn 5 false)).map
                fun fourth =>
                  decide
                      (Recorded first second third
                        (.turn 6 false) (.turn 5 false) 4
                        ⟨8, 0, 8⟩
                        (.ai 10 (.str []) (toolCalls ["c"]))) &&
                    !(fourth.world.db.checkpoints 0).contains
                      (.ai 10 (.str []) (toolCalls ["c"]))) =
        some true := by
    decide +kernel
  simp only [Option.bind_eq_some_iff, Option.map_eq_some_iff,
    Bool.and_eq_true, decide_eq_true_eq, Bool.not_eq_true']
    at hView
  rcases hView with
    ⟨first, hFirst, second, hSecond, third, hThird, fourth,
      hFourth, hRecorded, hGone⟩
  have hMem :=
    hConfined .single first second third fourth _ _ 4 8 0 _
      (execution_of_execute hFirst) hSecond hRecorded.makes
      hRecorded.run (by decide) (execution_of_execute hThird)
      hRecorded.operates hFourth hRecorded.kept
  have hNot := List.contains_iff_mem.mpr hMem
  rw [hGone] at hNot
  cases hNot

end LegalAgent
