import LegalAgent.Store.Repository

/-
  What the statements of the repository change.

  Every statement that writes runs or messages has one lemma
  that says when it succeeds and which rows differ after it.

  Key theorems include:
    * `of_openRun`
    * `of_setRunStatus`
    * `of_tryTransition`
    * `of_forkThread`
    * `of_insertMessage`
    * `of_commitAgentAnswer`
    * `status?_writeStatus`
-/

------------------------------------------------------------
-- Runs
------------------------------------------------------------

namespace LegalAgent

open Library

theorem runs_writeStatus
    (db : Db)
    (runId : RunId)
    (status : RunStatus)
    (ended : Bool) :
    (db.writeStatus runId status ended).runs =
      db.runs.update (fun other _ => other == runId)
        (Run.transition status ended db.now) := rfl

/- The run after a status change of one run. -/
theorem get?_writeStatus
    (db : Db)
    (runId : RunId)
    (status : RunStatus)
    (ended : Bool)
    (other : RunId) :
    (db.writeStatus runId status ended).runs.get? other =
      if other = runId then
        (db.runs.get? other).map
          (Run.transition status ended db.now)
      else
        db.runs.get? other := by
  rw [Db.writeStatus, Table.get?_update]
  by_cases hEq : other = runId
  · simp [hEq]
  · simp [hEq]

/- The status of a run after a status change. -/
theorem status?_writeStatus
    (db : Db)
    (runId : RunId)
    (status : RunStatus)
    (ended : Bool)
    (other : RunId) :
    (db.writeStatus runId status ended).status? other =
      if other = runId then
        (db.status? other).map fun _ => status
      else
        db.status? other := by
  rw [Db.status?, get?_writeStatus, Db.status?]
  split
  · cases db.runs.get? other with
    | none => rfl
    | some run => rfl
  · rfl

/- The status of a run after calls that keep the runs. -/
theorem status?_of_runs
    {db db' : Db}
    (hRuns : db'.runs = db.runs)
    (runId : RunId) :
    db'.status? runId = db.status? runId := by
  rw [Db.status?, hRuns, Db.status?]

/- The status of another run after a status change. -/
theorem status?_of_other
    {db db' : Db}
    {runId other : RunId}
    {status : RunStatus}
    {ended : Bool}
    (hRuns : db'.runs = (db.writeStatus other status ended).runs)
    (hNe : runId ≠ other) :
    db'.status? runId = db.status? runId := by
  have hWrite := status?_writeStatus db other status ended runId
  rw [if_neg hNe] at hWrite
  rw [Db.status?, hRuns]
  exact hWrite

/- The status of a run after it was changed. -/
theorem status?_of_written
    {db db' : Db}
    {runId : RunId}
    {status : RunStatus}
    {ended : Bool}
    {run : Run}
    (hRun : db.runs.get? runId = some run)
    (hRuns :
      db'.runs = (db.writeStatus runId status ended).runs) :
    db'.status? runId = some status := by
  rw [Db.status?, hRuns, get?_writeStatus, if_pos rfl, hRun]
  rfl

/- A run that was opened. -/
theorem of_openRun
    {threadId : ThreadId}
    {model : Option Text}
    {db db' : Db}
    {runId : RunId}
    (hOpen :
      openRun threadId model db = .ok (runId, db')) :
    runId = db.nextId ∧
      (db.threads.get? threadId).isSome = true ∧
      db.activeElsewhere threadId runId = false ∧
      db' =
        { db.drawId with
          runs := db.runs.insert runId
            { threadId := threadId
              status := .running
              startedAt := db.now
              endedAt := none
              heartbeatAt := db.now
              model := model } } := by
  unfold openRun at hOpen
  split at hOpen
  · cases hOpen
  · rename_i hThread
    split at hOpen
    · cases hOpen
    · rename_i hActive
      cases hOpen
      refine ⟨rfl, ?_, ?_, rfl⟩
      · cases hGet : db.threads.get? threadId with
        | none => simp [hGet] at hThread
        | some thread => rfl
      · simpa using hActive

/- A status that was set. -/
theorem of_setRunStatus
    {runId : RunId}
    {status : RunStatus}
    {ended : Bool}
    {db db' : Db}
    (hSet :
      setRunStatus runId status ended db = .ok ((), db')) :
    (db.runs.get? runId = none ∧ db' = db) ∨
      ∃ run,
        db.runs.get? runId = some run ∧
          (status.active = true →
            db.activeElsewhere run.threadId runId = false) ∧
          db' = db.writeStatus runId status ended := by
  unfold setRunStatus at hSet
  split at hSet
  · rename_i hNone
    cases hSet
    exact Or.inl ⟨hNone, rfl⟩
  · rename_i run hRun
    split at hSet
    · cases hSet
    · rename_i hIndex
      cases hSet
      refine Or.inr ⟨run, hRun, ?_, rfl⟩
      intro hActive
      simpa [hActive] using hIndex

/- A status that the index accepts is set. -/
theorem setRunStatus_eq
    {runId : RunId}
    {db : Db}
    {run : Run}
    (status : RunStatus)
    (ended : Bool)
    (hRun : db.runs.get? runId = some run)
    (hAlone : db.activeElsewhere run.threadId runId = false) :
    setRunStatus runId status ended db =
      .ok ((), db.writeStatus runId status ended) := by
  simp [setRunStatus, hRun, hAlone]

/- A status change that was tried. -/
theorem of_tryTransition
    {runId : RunId}
    {fromStatus toStatus : RunStatus}
    {ended won : Bool}
    {db db' : Db}
    (hTry :
      tryTransition runId fromStatus toStatus ended db =
        .ok (won, db')) :
    (won = false ∧ db.status? runId ≠ some fromStatus ∧
        db' = db) ∨
      (won = true ∧
        ∃ run,
          db.runs.get? runId = some run ∧
            run.status = fromStatus ∧
            (toStatus.active = true →
              db.activeElsewhere run.threadId runId =
                false) ∧
            db' = db.writeStatus runId toStatus ended) := by
  unfold tryTransition at hTry
  split at hTry
  · rename_i hNone
    cases hTry
    exact Or.inl ⟨rfl, by simp [Db.status?, hNone], rfl⟩
  · rename_i run hRun
    split at hTry
    · rename_i hStatus
      cases hTry
      exact Or.inl
        ⟨rfl, by simpa [Db.status?, hRun] using hStatus, rfl⟩
    · rename_i hStatus
      rw [not_not] at hStatus
      split at hTry
      · cases hTry
      · rename_i hIndex
        cases hTry
        refine Or.inr ⟨rfl, run, hRun, hStatus, ?_, rfl⟩
        intro hActive
        simpa [hActive] using hIndex

theorem runs_heartbeat
    (db : Db)
    (runIds : List RunId) :
    (db.heartbeat runIds).runs =
      db.runs.update
        (fun runId run =>
          runIds.contains runId && run.status == .running)
        fun run => { run with heartbeatAt := db.now } := rfl

theorem runs_sweep
    (db : Db)
    (selects : Run → Bool) :
    (db.sweep selects).runs =
      db.runs.update (fun _ run => selects run)
        (Run.transition .error true db.now) := rfl

/- A sweep moves the selected runs to `error`. -/
theorem get?_sweep
    (db : Db)
    (selects : Run → Bool)
    (runId : RunId) :
    (db.sweep selects).runs.get? runId =
      (db.runs.get? runId).map fun run =>
        if selects run then
          run.transition .error true db.now
        else
          run := by
  rw [Db.sweep, Table.get?_update]

/- The status of a run after a sweep. -/
theorem status?_sweep
    (db : Db)
    (selects : Run → Bool)
    (runId : RunId) :
    (db.sweep selects).status? runId =
      (db.runs.get? runId).map fun run =>
        if selects run then .error else run.status := by
  rw [Db.status?, get?_sweep, Option.map_map]
  congr 1
  funext run
  rw [Function.comp_apply]
  split <;> rfl

/- Heartbeats refresh the given runs that are running. -/
theorem get?_heartbeat
    (db : Db)
    (runIds : List RunId)
    (runId : RunId) :
    (db.heartbeat runIds).runs.get? runId =
      (db.runs.get? runId).map fun run =>
        if runIds.contains runId && run.status == .running then
          { run with heartbeatAt := db.now }
        else
          run := by
  rw [runs_heartbeat, Table.get?_update]

/- Heartbeats leave the statuses of the runs. -/
@[simp] theorem status?_heartbeat
    (db : Db)
    (runIds : List RunId)
    (runId : RunId) :
    (db.heartbeat runIds).status? runId = db.status? runId := by
  rw [Db.status?, runs_heartbeat, Table.get?_update,
    Option.map_map, Db.status?]
  congr 1
  funext run
  rw [Function.comp_apply]
  split <;> rfl

------------------------------------------------------------
-- Messages
------------------------------------------------------------

/- A number that was drawn. -/
theorem of_nextSeq
    {threadId : ThreadId}
    {db db' : Db}
    {seq : Nat}
    (hNext : nextSeq threadId db = .ok (seq, db')) :
    ∃ thread,
      db.threads.get? threadId = some thread ∧
        seq = thread.lastSeq + 1 ∧
        db' =
          { db with
            threads :=
              db.threads.update
                (fun other _ => other == threadId)
                fun thread =>
                  { thread with
                    lastSeq := thread.lastSeq + 1 } } := by
  unfold nextSeq at hNext
  split at hNext
  · cases hNext
  · rename_i thread hThread
    cases hNext
    exact ⟨thread, hThread, rfl, rfl⟩

/- A thread that was branched off. -/
theorem of_forkThread
    {parentId : ThreadId}
    {forkPoint : MessageId}
    {db db' : Db}
    {threadId : ThreadId}
    (hFork :
      forkThread parentId forkPoint db =
        .ok (threadId, db')) :
    threadId = db.nextId ∧
      ∃ message,
        message ∈ db.messages ∧
          message.id = forkPoint ∧
          message.threadId = parentId ∧
          db' =
            { db.drawId with
              threads := db.threads.insert db.nextId
                { title := none
                  forkedFrom := some parentId
                  forkPoint := some forkPoint
                  lastSeq := message.seq } } := by
  unfold forkThread at hFork
  split at hFork
  · cases hFork
  · rename_i message hFind
    have hMem := List.mem_of_find?_eq_some hFind
    have hMessage := List.find?_some hFind
    simp only [Bool.and_eq_true, beq_iff_eq] at hMessage
    cases hFork
    exact ⟨rfl, message, hMem, hMessage.1, hMessage.2, rfl⟩

/- A message that was inserted. -/
theorem of_insertMessage
    {threadId : ThreadId}
    {new : NewMessage}
    {db db' : Db}
    {messageId seq : Nat}
    (hInsert :
      insertMessage threadId new db =
        .ok ((messageId, seq), db')) :
    messageId = db.nextId ∧
      ∃ thread db₁,
        db.threads.get? threadId = some thread ∧
          seq = thread.lastSeq + 1 ∧
          nextSeq threadId db.drawId = .ok (seq, db₁) ∧
          db₁.admits
              (new.toMessage messageId threadId seq) =
            true ∧
          db' =
            { db₁ with
              messages :=
                db.messages ++
                  [new.toMessage messageId threadId seq] } := by
  unfold insertMessage at hInsert
  split at hInsert
  · cases hInsert
  · rename_i seq' db₁ hNext
    rcases of_nextSeq hNext with ⟨thread, hThread, hSeq, hDb⟩
    dsimp only at hInsert
    split at hInsert
    · rename_i hAdmits
      cases hInsert
      refine
        ⟨rfl, thread, db₁, hThread, hSeq, hNext, hAdmits, ?_⟩
      rw [hDb]
      rfl
    · cases hInsert

/- Links change nothing but the links. -/
theorem of_linkCitations
    {messageId : MessageId}
    {ids : List Text}
    {db db' : Db}
    (hLink :
      ids.foldlM (fun db id => linkCitation messageId id db)
          db =
        .ok db') :
    ∃ links, db' = { db with messageCitations := links } := by
  induction ids generalizing db with
  | nil =>
      cases hLink
      exact ⟨_, rfl⟩
  | cons id ids ih =>
      simp only [List.foldlM_cons, bind,
        Except.bind] at hLink
      split at hLink
      · cases hLink
      · rename_i db₁ hOne
        rcases ih hLink with ⟨links, hDb⟩
        unfold linkCitation at hOne
        split at hOne
        · cases hOne
        · split at hOne
          · cases hOne
            exact ⟨links, hDb⟩
          · cases hOne
            exact ⟨links, hDb⟩

/-
  A commit that found its run ended changes nothing; another
  one completes the run and appends the answer.
-/
theorem of_commitAgentAnswer
    {threadId : ThreadId}
    {runId : RunId}
    {contentMd : Text}
    {citationIds : List Text}
    {parentId : Option MessageId}
    {model : Option Text}
    {db db' : Db}
    {row : Option (MessageId × Nat)}
    (hCommit :
      commitAgentAnswer threadId runId contentMd citationIds
          parentId model db =
        .ok (row, db')) :
    (row = none ∧ db.status? runId ≠ some .running ∧
        db' = db) ∨
      ∃ messageId seq links db₁,
        row = some (messageId, seq) ∧
          db.status? runId = some .running ∧
          insertMessage threadId
              (agentMessage runId contentMd parentId model)
              (db.writeStatus runId .completed true) =
            .ok ((messageId, seq), db₁) ∧
          db' = { db₁ with messageCitations := links } := by
  unfold commitAgentAnswer at hCommit
  split at hCommit
  · rename_i hStatus
    cases hCommit
    exact Or.inl ⟨rfl, hStatus, rfl⟩
  · rename_i hStatus
    rw [not_not] at hStatus
    dsimp only at hCommit
    split at hCommit
    · cases hCommit
    · rename_i row' db₁ hInsert
      rcases row' with ⟨messageId, seq⟩
      split at hCommit
      · cases hCommit
      · rename_i db₂ hLink
        rcases of_linkCitations hLink with ⟨links, hDb⟩
        cases hCommit
        exact Or.inr
          ⟨messageId, seq, links, db₁, rfl, hStatus, hInsert,
            hDb⟩

end LegalAgent
