import LegalAgent.Properties.RecordedEvents

/-
  How long events stay in the log.

  The maintenance deletes the log of a run once the run has
  ended long ago.  A logged event of a run that has not ended
  is in the log whatever happens, and once it has been seen
  before the end of its run it stays for a whole window, so a
  client that was cut off can still come back for it.

  Key definitions include:
    * `Db.EndsAfter`
    * `Lasts`

  Key theorems include:
    * `lasts_step`
    * `keeps_lasts`
    * `events_outlive_run`
-/

------------------------------------------------------------
-- Ends Of Runs
------------------------------------------------------------

namespace LegalAgent

open Library

/- A run, if it has ended, has not ended before a time. -/
def Db.EndsAfter
    (db : Db)
    (runId : RunId)
    (time : Time) :
    Prop :=
  ∀ run ended,
    db.runs.get? runId = some run →
      run.endedAt = some ended → time ≤ ended

/- A run after a transition ended before or ends now. -/
theorem endedAt_transition
    {run : Run}
    {status : RunStatus}
    {isEnded : Bool}
    {now ended : Time}
    (hEnd :
      (run.transition status isEnded now).endedAt = some ended) :
    run.endedAt = some ended ∨ ended = now := by
  unfold Run.transition at hEnd
  cases isEnded with
  | true =>
      right
      cases hEnd
      rfl
  | false => exact Or.inl hEnd

/- A run behind a call ended before or ends now. -/
theorem endedAt_of_changes
    {db db' : Db}
    {op : Op}
    {value : op.Reply}
    (hChanges : ChangesRuns db db' op value)
    (hFresh : db.runs.get? db.nextId = none)
    {runId : RunId}
    {run' : Run}
    (hRun' : db'.runs.get? runId = some run')
    {ended : Time}
    (hEnd : run'.endedAt = some ended) :
    (∃ run,
        db.runs.get? runId = some run ∧
          run.endedAt = some ended) ∨
      ended = db.now := by
  have hWritten :
      ∀ other status isEnded,
        db'.runs = (db.writeStatus other status isEnded).runs →
          (∃ run,
              db.runs.get? runId = some run ∧
                run.endedAt = some ended) ∨
            ended = db.now := by
    intro other status isEnded hRuns
    rw [hRuns, get?_writeStatus] at hRun'
    split at hRun'
    · rcases Option.map_eq_some_iff.mp hRun' with
        ⟨run, hRun, rfl⟩
      rcases endedAt_transition hEnd with hOld | hNow
      · exact Or.inl ⟨run, hRun, hOld⟩
      · exact Or.inr hNow
    · exact Or.inl ⟨run', hRun', hEnd⟩
  cases hChanges with
  | opened hThread hAlone hRuns =>
      rw [hRuns, Table.get?_insert hFresh] at hRun'
      split at hRun'
      · cases hRun'
        cases hEnd
      · exact Or.inl ⟨run', hRun', hEnd⟩
  | set _ _ hRuns => exact hWritten _ _ _ hRuns
  | moved _ _ _ hRuns => exact hWritten _ _ _ hRuns
  | committed _ _ hRuns => exact hWritten _ _ _ hRuns
  | missing _ hRuns =>
      rw [hRuns] at hRun'
      exact Or.inl ⟨run', hRun', hEnd⟩
  | kept _ hRuns =>
      rw [hRuns] at hRun'
      exact Or.inl ⟨run', hRun', hEnd⟩

------------------------------------------------------------
-- Lasting Events
------------------------------------------------------------

/-
  What has become of an event that was logged at first: it is
  still there, or its run has ended, and that by now for a
  whole window if the run had not ended at first.
-/
structure Lasts
    (first : Db)
    (row : RunEventRow)
    (window : Nat)
    (db : Db) :
    Prop where
  now : first.now ≤ db.now
  ends :
    ¬first.hasEnd row.runId → db.EndsAfter row.runId first.now
  kept :
    row ∈ db.runEvents ∨
      db.hasEnd row.runId ∧
        (first.hasEnd row.runId ∨
          first.now + window < db.now)

section Lasting

variable {first db db' : Db} {row : RunEventRow}
variable {window : Nat}

/- An event lasts at first. -/
theorem lasts_refl
    (hRow : row ∈ first.runEvents) :
    Lasts first row window first where
  now := Nat.le_refl _
  ends := by
    intro hNot run ended hRun hEnd
    exact absurd ⟨run, hRun, by rw [hEnd]; rfl⟩ hNot
  kept := Or.inl hRow

/- A step that keeps the log lets an event last. -/
theorem lasts_step
    (hLasts : Lasts first row window db)
    (hNow : db.now ≤ db'.now)
    (hRetains : Retains db db')
    (hEnds :
      ∀ run' ended,
        db'.runs.get? row.runId = some run' →
          run'.endedAt = some ended →
            (∃ run,
                db.runs.get? row.runId = some run ∧
                  run.endedAt = some ended) ∨
              ended = db.now)
    (hLog : row ∈ db.runEvents → row ∈ db'.runEvents) :
    Lasts first row window db' where
  now := Nat.le_trans hLasts.now hNow
  ends := by
    intro hNot run' ended hRun' hEnd
    rcases hEnds run' ended hRun' hEnd with
      ⟨run, hRun, hOld⟩ | rfl
    · exact hLasts.ends hNot run ended hRun hOld
    · exact hLasts.now
  kept := by
    rcases hLasts.kept with hRow | ⟨hEnd, hGone⟩
    · exact Or.inl (hLog hRow)
    · refine Or.inr ⟨hasEnd_of_retains hEnd hRetains, ?_⟩
      rcases hGone with hFirst | hLate
      · exact Or.inl hFirst
      · exact Or.inr (Nat.lt_of_lt_of_le hLate hNow)

/- The log of a run that has ended long ago is collected. -/
theorem lasts_collect
    (hLasts : Lasts first row window db)
    (hRun :
      row ∈ db.runEvents → db.hasRun row.runId row.threadId)
    {retention : Nat}
    (hWindow : window ≤ retention) :
    Lasts first row window (db.collect retention) where
  now := hLasts.now
  ends := hLasts.ends
  kept := by
    rcases hLasts.kept with hRow | hGone
    · cases hKeeps : db.keepsEvent retention row with
      | true =>
          exact Or.inl (List.mem_filter.mpr ⟨hRow, hKeeps⟩)
      | false =>
          right
          rcases Option.map_eq_some_iff.mp (hRun hRow) with
            ⟨run, hGet, -⟩
          unfold Db.keepsEvent at hKeeps
          rw [hGet] at hKeeps
          dsimp only at hKeeps
          rw [Bool.not_eq_false', Option.any_eq_true] at hKeeps
          rcases hKeeps with ⟨ended, hEnd, hOld⟩
          rw [decide_eq_true_eq] at hOld
          refine ⟨⟨run, hGet, by rw [hEnd]; rfl⟩, ?_⟩
          by_cases hFirst : first.hasEnd row.runId
          · exact Or.inl hFirst
          · right
            have hAfter := hLasts.ends hFirst run ended hGet hEnd
            exact
              Nat.lt_of_le_of_lt (Nat.add_le_add hAfter hWindow)
                hOld
    · exact Or.inr hGone

end Lasting

------------------------------------------------------------
-- Runs
------------------------------------------------------------

section Runs

variable {registry : Registry}
variable {allowed : System → Action → Prop}
variable {window : Nat}

/- The maintenance keeps logs for a window at least. -/
def KeepsLogs
    (allowed : System → Action → Prop)
    (window : Nat) :
    Prop :=
  ∀ system retention,
    allowed system (.collectEvents retention) →
      window ≤ retention

/- Every step lets an event last. -/
theorem keeps_lasts
    (hWindow : KeepsLogs allowed window)
    (first : Db)
    (row : RunEventRow) :
    KeptInDb registry allowed (Lasts first row window) where
  exec := by
    intro system taskId task op value world' hCall hExec hLasts
    have hFresh :=
      (wellFormed_of_reachable hCall.reachable).freshRun
    apply
      lasts_step hLasts
        (Nat.le_of_eq (frames_of_exec hExec).now.symm)
        (retains_of_exec hExec)
    · intro run' ended hRun' hEnd
      exact
        endedAt_of_changes (changesRuns_of_exec hExec) hFresh
          hRun' hEnd
    · intro hRow
      rcases log_of_exec hExec with hSame | ⟨_, _, _, -, hLog⟩
      · rw [hSame]
        exact hRow
      · rw [hLog]
        exact List.mem_append_left _ hRow
  advance _ _ hLasts :=
    lasts_step hLasts (Nat.le_add_right _ _)
      (retains_of_runs (fun _ run hRun =>
        ⟨run, hRun, retained_refl run⟩) rfl rfl rfl)
      (fun run ended hRun hEnd => Or.inl ⟨run, hRun, hEnd⟩) id
  heartbeat := by
    intro db runIds hLasts
    apply
      @lasts_step first db (db.heartbeat runIds) row window
        hLasts (Nat.le_refl _) (retains_heartbeat db runIds)
    · intro run' ended hRun' hEnd
      rw [get?_heartbeat] at hRun'
      rcases Option.map_eq_some_iff.mp hRun' with ⟨run, hRun, rfl⟩
      refine Or.inl ⟨run, hRun, ?_⟩
      split at hEnd
      · exact hEnd
      · exact hEnd
    · exact id
  sweep := by
    intro db selects hLasts
    apply
      @lasts_step first db (db.sweep selects) row window hLasts
        (Nat.le_refl _) (retains_sweep db selects)
    · intro run' ended hRun' hEnd
      rw [get?_sweep] at hRun'
      rcases Option.map_eq_some_iff.mp hRun' with ⟨run, hRun, rfl⟩
      split at hEnd
      · rcases endedAt_transition hEnd with hOld | hNow
        · exact Or.inl ⟨run, hRun, hOld⟩
        · exact Or.inr hNow
      · exact Or.inl ⟨run, hRun, hEnd⟩
    · exact id
  collect := by
    intro system retention hReachable hAllowed hLasts
    exact
      lasts_collect hLasts
        (fun hRow =>
          (wellFormed_of_reachable hReachable).eventRuns row hRow)
        (hWindow system retention hAllowed)

/-
  An event that is in the log is there in every later state,
  unless its run has ended by then; and if its run had not
  ended before, the window has to be over as well.
-/
theorem events_outlive_run
    (hWindow : KeepsLogs allowed window)
    {system later : System}
    (hReachable : Reachable registry allowed system)
    (hLater :
      Execution (System.step registry) allowed system later)
    {row : RunEventRow}
    (hRow : row ∈ system.world.db.runEvents) :
    row ∈ later.world.db.runEvents ∨
      later.world.db.hasEnd row.runId ∧
        (system.world.db.hasEnd row.runId ∨
          system.world.db.now + window < later.world.db.now) :=
  (preserved_of_execution
    (preserves_of_kept (keeps_lasts hWindow system.world.db row))
    hReachable (lasts_refl hRow) hLater).kept

end Runs

/- Whether an action keeps logs for a window. -/
def Action.keepsLogs (window : Nat) : Action → Bool
| .collectEvents retention => decide (window ≤ retention)
| _ => true

/- The rest of `toldRun`, and a collection after its end. -/
def collectedSoon : List Action :=
  toldRun.drop 16 ++ turns 1 1 ++
    [.advance 5, .collectEvents 10]

/- The start of a run is in the log after a collection. -/
theorem events_outlive_run_collected :
    ∃ system later,
      execute (System.step .single) (toldRun.take 16)
            .initial =
          some system ∧
        execute (System.step .single) collectedSoon system =
            some later ∧
          later.world.db.hasEnd 1 ∧
            ∃ row ∈ system.world.db.runEvents,
              row.runId = 1 ∧
                row ∈ later.world.db.runEvents := by
  have hView :
      ((execute (System.step .single) (toldRun.take 16)
          .initial).bind fun system =>
        (execute (System.step .single) collectedSoon
            system).map fun later =>
          ((system.world.db.runs.get? 1).all fun run =>
              run.endedAt.isNone) &&
            ((later.world.db.runs.get? 1).any fun run =>
              run.endedAt.isSome) &&
            decide
              (later.world.db.now ≤
                system.world.db.now + 10) &&
            (system.world.db.runEvents.any fun row =>
              row.runId == 1) &&
            passes (System.step .single)
              (fun _ action => action.keepsLogs 10)
              collectedSoon system) =
        some true := by
    decide +kernel
  simp only [Option.bind_eq_some_iff, Option.map_eq_some_iff,
    Bool.and_eq_true, decide_eq_true_eq] at hView
  rcases hView with
    ⟨system, hSystem, later, hLater,
      ⟨⟨⟨⟨hOpen, hEnd⟩, hSoon⟩, hAny⟩, hPasses⟩⟩
  rcases List.any_eq_true.mp hAny with ⟨row, hRow, hRun⟩
  rw [beq_iff_eq] at hRun
  have hWindow :
      KeepsLogs (fun _ action => action.keepsLogs 10 = true)
        10 :=
    fun _ _ hAllowed => of_decide_eq_true hAllowed
  have hReachable :
      Reachable .single
        (fun _ action => action.keepsLogs 10 = true) system :=
    run_of_execute hSystem
      (show
        passes (System.step .single)
            (fun _ action => action.keepsLogs 10)
            (toldRun.take 16) .initial =
          true by
        decide +kernel)
      fun _ _ hTest => hTest
  have hThen :
      Execution (System.step .single)
        (fun _ action => action.keepsLogs 10 = true) system
        later :=
    run_of_execute hLater hPasses fun _ _ hTest => hTest
  refine ⟨system, later, hSystem, hLater, ?_, row, hRow, hRun, ?_⟩
  · rw [Option.any_eq_true] at hEnd
    rcases hEnd with ⟨run, hGet, hIs⟩
    exact ⟨run, hGet, hIs⟩
  · rcases events_outlive_run hWindow hReachable hThen hRow with
      hKept | ⟨-, ⟨run, hGet, hIs⟩ | hLate⟩
    · exact hKept
    · rw [hRun] at hGet
      rw [hGet, Option.all_some, Option.isNone_iff_eq_none]
        at hOpen
      rw [hOpen] at hIs
      cases hIs
    · exact absurd hLate (Nat.not_lt.mpr hSoon)

end LegalAgent
