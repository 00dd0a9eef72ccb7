import LegalAgent.Properties.RecordedTasks

/-
  The log never runs ahead of the transcript.

  Every task records what an event announces before it logs
  the event, and no other task takes it back.  So every logged
  event is recorded, in every order of the calls, wherever a
  task fails and whenever an instance crashes.

  Key definitions include:
    * `recordedOutline`

  Key theorems include:
    * `events_recorded`
-/

------------------------------------------------------------
-- Recorded Logs
------------------------------------------------------------

namespace LegalAgent

open Library

section Reachable

variable {registry : Registry}
variable {allowed : System → Action → Prop}

/-
  Every logged event is recorded, and every task goes on to
  log what it has recorded.
-/
def recordedOutline : Outline World Task where
  globally := fun world =>
    ∀ row ∈ world.db.runEvents,
      Records world.db row.threadId ⟨row.data, row.seq⟩
  locally := fun world task =>
    ∃ pre : Db → Prop,
      storeRely.Stable pre ∧ pre world.db ∧
        task.program.Tells pre fun _ _ => True
  mutually := fun _ _ => True

/- What is recorded stays so when the rows are retained. -/
theorem bears_of_retains
    {world world' : World}
    (hRows :
      ∀ row ∈ world'.db.runEvents, row ∈ world.db.runEvents)
    (hRetains : Retains world.db world'.db)
    (hHolds : recordedOutline.globally world) :
    recordedOutline.Bears world world' where
  globally row hRow :=
    records_of_retains (hHolds row (hRows row hRow)) hRetains
  locally := by
    rintro task ⟨pre, hStable, hPre, hTells⟩
    exact ⟨pre, hStable, hStable _ _ hPre hRetains, hTells⟩

/- The log is still recorded once a call has succeeded. -/
theorem recorded_log
    {inst : InstanceId}
    {op : Op}
    {world world' : World}
    {value : op.Reply}
    (hExec : exec inst op world = (.ok value, world'))
    (hNeeds : storeRely.needs world.db op)
    (hHolds : recordedOutline.globally world) :
    recordedOutline.globally world' := by
  have hRetains := retains_of_exec hExec
  intro row hRow
  rcases log_of_exec hExec with
    hSame | ⟨threadId, runId, event, rfl, hLog⟩
  · rw [hSame] at hRow
    exact records_of_retains (hHolds row hRow) hRetains
  · rw [hLog, List.mem_append, List.mem_singleton] at hRow
    rcases hRow with hOld | rfl
    · exact records_of_retains (hHolds row hOld) hRetains
    · exact records_of_retains hNeeds hRetains

/- A step of the maintenance retains the rows. -/
theorem retains_sweep
    (db : Db)
    (selects : Run → Bool) :
    Retains db (db.sweep selects) :=
  retains_of_runs
    (retained_update (runs_sweep db selects)
      fun run => retained_transition run _ _ _)
    (messageRecords_sweep db selects) rfl rfl

theorem retains_heartbeat
    (db : Db)
    (runIds : List RunId) :
    Retains db (db.heartbeat runIds) :=
  retains_of_runs
    (retained_update (runs_heartbeat db runIds)
      fun _ => ⟨rfl, rfl, fun hEnded => hEnded⟩)
    rfl rfl rfl

/- Every step keeps the log recorded. -/
theorem sustains_recordedOutline :
    Sustains registry allowed recordedOutline where
  request := by
    intro system taskId inst request _ _
    exact
      ⟨fun _ => True, stable_true, trivial,
        tells_request request⟩
  alone := by
    intro inst request other
    exact ⟨trivial, trivial⟩
  call := by
    intro system taskId fault task op reply world' next hCall
      hProgram hHolds
    rcases hHolds.locally taskId task hCall.present with
      ⟨pre, hStable, hPre, hTells⟩
    rw [hProgram] at hTells
    apply keeps_of_apart (fun _ _ => trivial) hCall hHolds
    · rintro exn rfl
      refine
        ⟨storeRely.after pre op (.error exn),
          Rely.stable_after, ?_, hTells.2 _⟩
      exact
        ⟨_, _, hPre,
          ⟨retains_refl _, fun value hValue => by cases hValue⟩,
          retains_refl _⟩
    · rintro value rfl rfl hExec
      have hRetains := retains_of_exec hExec
      have hFresh :=
        (wellFormed_of_reachable hCall.reachable).freshRun
      refine
        ⟨recorded_log hExec (hTells.1 _ hPre) hHolds.globally,
          ?_, ?_⟩
      · refine
          ⟨storeRely.after pre op (.ok value),
            Rely.stable_after, ?_, hTells.2 _⟩
        refine
          ⟨_, _, hPre, ⟨hRetains, ?_⟩, retains_refl _⟩
        rintro _ ⟨⟩
        exact learns_of_exec hExec hFresh
      · rintro other ⟨pre', hStable', hPre', hTells'⟩
        exact
          ⟨pre', hStable', hStable' _ _ hPre' hRetains, hTells'⟩
  sent := by
    intro system taskId task event next _ hTask hProgram _ hHolds
    rcases hHolds.locally taskId task hTask with
      ⟨pre, hStable, hPre, hTells⟩
    rw [hProgram] at hTells
    refine
      ⟨hHolds.globally, ⟨pre, hStable, hPre, hTells.2 _⟩, ?_⟩
    intro otherId other _ _ hOther _
    exact ⟨hOther, trivial, trivial⟩
  advance := by
    intro system seconds _ _ hHolds
    exact
      bears_of_retains (fun _ hRow => hRow)
        (retains_of_runs
          (fun _ run hRun => ⟨run, hRun, retained_refl run⟩)
          rfl rfl rfl)
        hHolds.globally
  heartbeat := by
    intro system inst _ _ hHolds
    exact
      bears_of_retains (fun _ hRow => hRow)
        (retains_heartbeat _ _) hHolds.globally
  sweep := by
    intro system action selects _ _ _ hHolds
    exact
      bears_of_retains (fun _ hRow => hRow)
        (retains_sweep _ selects) hHolds.globally
  collect := by
    intro system retention _ _ hHolds
    exact
      bears_of_retains
        (fun _ hRow => (List.mem_filter.mp hRow).1)
        (retains_of_runs
          (fun _ run hRun => ⟨run, hRun, retained_refl run⟩)
          rfl rfl rfl)
        hHolds.globally
  crash := by
    intro system inst _ hHolds
    exact ⟨hHolds.globally, fun task _ hTask => hTask⟩

/- The rows of every reachable state are recorded. -/
theorem recorded_of_reachable
    {system : System}
    (hReachable : Reachable registry allowed system) :
    recordedOutline.globally system.world :=
  (holds_of_reachable sustains_recordedOutline
    (fun _ hMem => by cases hMem) hReachable).globally

/-
  In every reachable state every logged event is recorded:
  the run, the cell, the article, the pause or the answer that
  it speaks of is in the rows.
-/
theorem events_recorded
    {system : System}
    (hReachable : Reachable registry allowed system)
    {row : RunEventRow}
    (hRow : row ∈ system.world.db.runEvents) :
    Records system.world.db row.threadId
      ⟨row.data, row.seq⟩ :=
  recorded_of_reachable hReachable row hRow

end Reachable

/- A run that calls a tool and then answers. -/
def toldRun : List Action :=
  [.request 0 0 (.createThread none)] ++ turns 0 1 ++
    [.request 1 0
      (.start 0 "질문".toList none
        [.agent (.str []) (toolCalls ["a"]),
          .tools fun _ => ⟨.str "결과".toList, .absent⟩,
          .agent (.str "답".toList) []])] ++
    turns 1 27

/- The log of `toldRun` from its start to its answer. -/
theorem events_recorded_told :
    ∃ system,
      execute (System.step .single) toldRun .initial =
          some system ∧
        (system.world.db.runEvents.map fun row =>
            row.data.name) =
          [.runStarted, .toolCall, .toolResult,
            .messageCompleted, .runDone] ∧
        ∀ row ∈ system.world.db.runEvents,
          Records system.world.db row.threadId
            ⟨row.data, row.seq⟩ := by
  rcases
      exists_of_execute
        (show
          (execute (System.step .single) toldRun .initial).map
              (fun system =>
                system.world.db.runEvents.map fun row =>
                  row.data.name) =
            some
              [.runStarted, .toolCall, .toolResult,
                .messageCompleted, .runDone] by
          decide +kernel) with
    ⟨system, hSystem, hNames⟩
  have hReachable :
      Reachable .single (fun _ _ => True) system :=
    execution_of_execute hSystem
  exact
    ⟨system, hSystem, hNames,
      fun row hRow => events_recorded hReachable hRow⟩

end LegalAgent
