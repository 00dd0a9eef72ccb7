import LegalAgent.Properties.Polling

/-
  The numbers of logged events.

  The numbers of a thread are drawn one by one, and a task
  logs an event under a number that only it holds.  So no two
  events of a thread have one number, and the clause
  `ON CONFLICT DO NOTHING` of the log never drops an event.

  Key theorems include:
    * `free_of_next`
    * `events_never_collide`
-/

------------------------------------------------------------
-- Free Numbers
------------------------------------------------------------

namespace LegalAgent

open Library

section Reachable

variable {registry : Registry}
variable {allowed : System → Action → Prop}

/- The number under which a task logs next is free. -/
theorem free_of_next
    {system : System}
    (hReachable : Reachable registry allowed system)
    {taskId : TaskId}
    {task : Task}
    (hTask : system.tasks taskId = some task)
    {threadId : ThreadId}
    {runId : RunId}
    {event : RunEvent}
    (hOp :
      task.op? = some (.appendRunEvent threadId runId event)) :
    system.world.db.unlogged threadId event.seq ∧
      system.world.db.hasRun runId threadId := by
  have hHolds :=
    holds_of_reachable (sustains_drawn registry allowed)
      (fun _ hRow => by cases hRow) hReachable
  have hKnown := known_of_reachable hReachable hTask
  rcases conforms_of_reachable hReachable taskId task hTask with
    ⟨quiet, -, hFollows⟩
  rcases task with ⟨inst, request, program, phase, sent⟩
  cases program with
  | ret result => cases hOp
  | yield event next => cases hOp
  | call op next =>
      cases hOp
      rcases hFollows.1 with ⟨hAllows, hDrawn⟩
      exact
        ⟨(hHolds.locally taskId _ hTask).2 threadId event.seq
            (thread_of_logs hAllows) hDrawn,
          hasRun_of_logged hKnown hAllows⟩

/- A free number is the key of no event of the run. -/
theorem appendEvent_of_free
    {db : Db}
    (hFormed : db.WellFormed)
    {threadId : ThreadId}
    {runId : RunId}
    {event : RunEvent}
    (hFree : db.unlogged threadId event.seq)
    (hRun : db.hasRun runId threadId) :
    (db.appendEvent threadId runId event).runEvents =
      db.runEvents ++
        [{ threadId := threadId
           runId := runId
           seq := event.seq
           data := event.data
           createdAt := db.now }] := by
  have hNew :
      (db.runEvents.any fun row =>
          row.runId == runId && row.seq == event.seq) =
        false := by
    rw [List.any_eq_false]
    intro row hRow hSame
    simp only [Bool.and_eq_true, beq_iff_eq] at hSame
    have hIn := hFormed.eventRuns row hRow
    rw [hSame.1, Db.hasRun, hRun, Option.some_inj] at hIn
    exact hFree.2 row hRow hIn.symm hSame.2
  rw [Db.appendEvent, hNew, if_neg Bool.false_ne_true]

------------------------------------------------------------
-- Distinct Numbers
------------------------------------------------------------

/- The events of a thread have different numbers. -/
def Db.EventsApart (db : Db) : Prop :=
  db.runEvents.Pairwise fun row other =>
    row.threadId = other.threadId → row.seq ≠ other.seq

/- An event under a free number is apart from the others. -/
theorem apart_of_append
    {db : Db}
    (hApart : db.EventsApart)
    {row : RunEventRow}
    (hFree : db.unlogged row.threadId row.seq) :
    (db.runEvents ++ [row]).Pairwise fun row other =>
      row.threadId = other.threadId → row.seq ≠ other.seq := by
  apply List.pairwise_append.mpr
  refine ⟨hApart, List.pairwise_singleton _ _, ?_⟩
  intro other hOther last hLast hThread
  rw [List.mem_singleton] at hLast
  subst hLast
  exact hFree.2 other hOther hThread

/- Every step keeps the events of a thread apart. -/
theorem keeps_eventsApart :
    KeptInDb registry allowed Db.EventsApart where
  exec := by
    intro system taskId task op value world' hCall hExec hApart
    rcases log_of_exec hExec with
      hSame | ⟨threadId, runId, event, rfl, hLog⟩
    · rw [Db.EventsApart, hSame]
      exact hApart
    · rw [Db.EventsApart, hLog]
      exact
        apart_of_append hApart
          (free_of_next hCall.reachable hCall.present
            hCall.next).1
  advance _ _ hApart := hApart
  heartbeat _ _ hApart := hApart
  sweep _ _ hApart := hApart
  collect _ _ hApart :=
    List.Pairwise.sublist List.filter_sublist hApart

/-
  In every reachable state the events of a thread have
  different numbers, and each event that a task is about to
  log will be added to the log.
-/
theorem events_never_collide
    {system : System}
    (hReachable : Reachable registry allowed system) :
    (system.world.db.runEvents.Pairwise fun row other =>
        row.threadId = other.threadId → row.seq ≠ other.seq) ∧
      ∀ taskId task threadId runId event,
        system.tasks taskId = some task →
          task.op? =
              some (.appendRunEvent threadId runId event) →
            (system.world.db.appendEvent threadId runId
                event).runEvents =
              system.world.db.runEvents ++
                [{ threadId := threadId
                   runId := runId
                   seq := event.seq
                   data := event.data
                   createdAt := system.world.db.now }] := by
  constructor
  · exact
      preserved_of_reachable
        (preserves_of_kept keeps_eventsApart)
        List.Pairwise.nil hReachable
  · intro taskId task threadId runId event hTask hOp
    rcases free_of_next hReachable hTask hOp with ⟨hFree, hRun⟩
    exact
      appendEvent_of_free (wellFormed_of_reachable hReachable)
        hFree hRun

end Reachable

/- A run that another instance is asked to interrupt. -/
def racingRuns : List Action :=
  [.request 0 0 (.createThread none)] ++ turns 0 1 ++
    [.request 1 0 (.start 0 [] none [])] ++ turns 1 8 ++
    [.request 2 1 (.interrupt 1)] ++ turns 2 4

/- The interrupt is about to log the end of the run. -/
theorem events_never_collide_racing :
    ∃ system,
      execute (System.step .single) racingRuns .initial =
          some system ∧
        ((system.tasks 2).bind Task.op?).map Op.isLog =
            some true ∧
          (system.world.db.runEvents.Pairwise fun row other =>
              row.threadId = other.threadId →
                row.seq ≠ other.seq) ∧
            ∀ task threadId runId event,
              system.tasks 2 = some task →
                task.op? =
                    some (.appendRunEvent threadId runId event) →
                  (system.world.db.appendEvent threadId runId
                      event).runEvents.length =
                    system.world.db.runEvents.length + 1 := by
  rcases
      exists_of_execute
        (show
          (execute (System.step .single) racingRuns .initial).map
              (fun system =>
                ((system.tasks 2).bind Task.op?).map Op.isLog) =
            some (some true) by
          decide +kernel) with
    ⟨system, hSystem, hLogs⟩
  have hReachable :
      Reachable .single (fun _ _ => True) system :=
    execution_of_execute hSystem
  have hHolds := events_never_collide hReachable
  refine ⟨system, hSystem, hLogs, hHolds.1, ?_⟩
  intro task threadId runId event hTask hOp
  rw [hHolds.2 2 task threadId runId event hTask hOp,
    List.length_append]
  rfl

end LegalAgent
