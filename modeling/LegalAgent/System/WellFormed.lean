import LegalAgent.System.Invariant

/-
  What is true of the rows in every reachable system.

  The keys of the runs and messages are drawn before, a thread
  has at most one active run, the messages of a thread are
  numbered in their order, and the run that a role is about
  exists.

  Key definitions include:
    * `Db.hasRun`
    * `Db.WellFormed`
    * `Role.Known`

  Key theorems include:
    * `wellFormed_of_reachable`
    * `known_of_reachable`
-/

------------------------------------------------------------
-- Rows
------------------------------------------------------------

namespace LegalAgent

open Library

/- Whether a run exists and belongs to a thread. -/
def Db.hasRun
    (db : Db)
    (runId : RunId)
    (threadId : ThreadId) :
    Prop :=
  (db.runs.get? runId).map Run.threadId = some threadId

/- What is true of the rows of every reachable database. -/
structure Db.WellFormed (db : Db) : Prop where
  runIds :
    ∀ runId run,
      db.runs.get? runId = some run → runId < db.nextId
  alone :
    ∀ runId other run run',
      db.runs.get? runId = some run →
        db.runs.get? other = some run' →
          run.threadId = run'.threadId →
            run.status.active = true →
              run'.status.active = true →
                runId = other
  slotRuns :
    ∀ slot ∈ db.slots, ∀ runId,
      slot.runId = some runId →
        db.hasRun runId slot.threadId
  slotIds : ∀ slot ∈ db.slots, slot.id < db.nextId
  slotSeqs :
    ∀ slot ∈ db.slots, slot.seq ≤ db.lastSeq slot.threadId
  slotOrder :
    db.slots.Pairwise fun slot other =>
      slot.id < other.id ∧
        (slot.threadId = other.threadId →
          slot.seq < other.seq)
  eventRuns :
    ∀ row ∈ db.runEvents, db.hasRun row.runId row.threadId

/- What is known of the run of a role. -/
def Role.Known (db : Db) : Role → Prop
| .on job _ =>
    db.hasRun job.run job.thread ∧ db.hasRun job.log job.thread
| .looking log threadId _ => db.hasRun log threadId
| .watching threadId runId => db.hasRun runId threadId
| _ => True

section Runs

variable {db db' : Db} {op : Op} {value : op.Reply}

/- The next id is the id of no run. -/
theorem Db.WellFormed.freshRun
    (hFormed : db.WellFormed) :
    db.runs.get? db.nextId = none := by
  cases hGet : db.runs.get? db.nextId with
  | none => rfl
  | some run =>
      exact
        absurd (hFormed.runIds _ run hGet) (Nat.lt_irrefl _)

/- A thread without another active run. -/
theorem activeElsewhere_eq_false
    {threadId : ThreadId}
    {runId other : RunId}
    {run : Run}
    (hAlone : db.activeElsewhere threadId runId = false)
    (hRun : db.runs.get? other = some run)
    (hThread : run.threadId = threadId)
    (hActive : run.status.active = true) :
    other = runId := by
  by_contra hNe
  have hElsewhere : db.activeElsewhere threadId runId = true := by
    rw [Db.activeElsewhere, Table.any_eq_true_iff]
    exact ⟨other, run, hRun, by simp [hNe, hThread, hActive]⟩
  rw [hAlone] at hElsewhere
  cases hElsewhere

/- A run stays in its thread. -/
theorem hasRun_of_changes
    (hChanges : ChangesRuns db db' op value)
    (hFresh : db.runs.get? db.nextId = none)
    {runId : RunId}
    {threadId : ThreadId}
    (hRun : db.hasRun runId threadId) :
    db'.hasRun runId threadId := by
  have hWritten :
      ∀ other status ended,
        db'.runs = (db.writeStatus other status ended).runs →
          db'.hasRun runId threadId := by
    intro other status ended hRuns
    rw [Db.hasRun, hRuns, get?_writeStatus]
    split
    · rw [Option.map_map]
      exact hRun
    · exact hRun
  cases hChanges with
  | opened hThread hAlone hRuns =>
      rw [Db.hasRun, hRuns, Table.get?_insert hFresh]
      split
      · rename_i hEq
        rw [Db.hasRun, hEq, hFresh] at hRun
        cases hRun
      · exact hRun
  | set _ _ hRuns => exact hWritten _ _ _ hRuns
  | missing _ hRuns => rwa [Db.hasRun, hRuns]
  | moved _ _ _ hRuns => exact hWritten _ _ _ hRuns
  | committed _ _ hRuns => exact hWritten _ _ _ hRuns
  | kept _ hRuns => rwa [Db.hasRun, hRuns]

/- A key of a run was drawn before. -/
theorem runIds_of_changes
    (hChanges : ChangesRuns db db' op value)
    (hFormed : db.WellFormed)
    (hNext : db.nextId ≤ db'.nextId)
    (hOpened :
      ∀ threadId model,
        op = .openRun threadId model →
          db.nextId < db'.nextId)
    {runId : RunId}
    {run : Run}
    (hRun : db'.runs.get? runId = some run) :
    runId < db'.nextId := by
  have hOld :
      ∀ run,
        db.runs.get? runId = some run → runId < db'.nextId :=
    fun run hGet =>
      Nat.lt_of_lt_of_le (hFormed.runIds runId run hGet) hNext
  have hWritten :
      ∀ other status ended,
        db'.runs = (db.writeStatus other status ended).runs →
          runId < db'.nextId := by
    intro other status ended hRuns
    rw [hRuns, get?_writeStatus] at hRun
    split at hRun
    · rcases Option.map_eq_some_iff.mp hRun with ⟨run', hGet, -⟩
      exact hOld run' hGet
    · exact hOld run hRun
  cases hChanges with
  | opened hThread hAlone hRuns =>
      rw [hRuns, Table.get?_insert hFormed.freshRun] at hRun
      split at hRun
      · rename_i hEq
        rw [hEq]
        exact hOpened _ _ rfl
      · exact hOld run hRun
  | set _ _ hRuns => exact hWritten _ _ _ hRuns
  | missing _ hRuns => exact hOld run (hRuns ▸ hRun)
  | moved _ _ _ hRuns => exact hWritten _ _ _ hRuns
  | committed _ _ hRuns => exact hWritten _ _ _ hRuns
  | kept _ hRuns => exact hOld run (hRuns ▸ hRun)

/- The only active run of a thread after a status change. -/
theorem alone_of_written
    (hFormed : db.WellFormed)
    {runId : RunId}
    {status : RunStatus}
    {ended : Bool}
    {written : Run}
    (hWritten : db.runs.get? runId = some written)
    (hAlone :
      status.active = true →
        db.activeElsewhere written.threadId runId = false)
    {first second : RunId}
    {run run' : Run}
    (hFirst :
      (db.writeStatus runId status ended).runs.get? first =
        some run)
    (hSecond :
      (db.writeStatus runId status ended).runs.get? second =
        some run')
    (hThread : run.threadId = run'.threadId)
    (hActive : run.status.active = true)
    (hActive' : run'.status.active = true) :
    first = second := by
  rw [get?_writeStatus] at hFirst hSecond
  split at hFirst
  · rename_i hEq
    subst hEq
    rw [hWritten] at hFirst
    cases hFirst
    split at hSecond
    · rename_i hEq
      exact hEq.symm
    · exact
        (activeElsewhere_eq_false (hAlone hActive) hSecond
          hThread.symm hActive').symm
  · split at hSecond
    · rename_i hEq
      subst hEq
      rw [hWritten] at hSecond
      cases hSecond
      exact
        activeElsewhere_eq_false (hAlone hActive') hFirst
          hThread hActive
    · exact
        hFormed.alone first second run run' hFirst hSecond
          hThread hActive hActive'

/- A thread has at most one active run after a call. -/
theorem alone_of_changes
    (hChanges : ChangesRuns db db' op value)
    (hFormed : db.WellFormed)
    {first second : RunId}
    {run run' : Run}
    (hFirst : db'.runs.get? first = some run)
    (hSecond : db'.runs.get? second = some run')
    (hThread : run.threadId = run'.threadId)
    (hActive : run.status.active = true)
    (hActive' : run'.status.active = true) :
    first = second := by
  cases hChanges with
  | opened _ hAlone hRuns =>
      rw [hRuns, Table.get?_insert hFormed.freshRun]
        at hFirst hSecond
      split at hFirst
      · rename_i hEq
        cases hFirst
        split at hSecond
        · rename_i hEq'
          exact hEq.trans hEq'.symm
        · rw [hEq]
          exact
            (activeElsewhere_eq_false hAlone hSecond
              hThread.symm hActive').symm
      · split at hSecond
        · rename_i hEq
          cases hSecond
          rw [hEq]
          exact
            activeElsewhere_eq_false hAlone hFirst hThread
              hActive
        · exact
            hFormed.alone first second run run' hFirst hSecond
              hThread hActive hActive'
  | set hRun hAlone hRuns =>
      rw [hRuns] at hFirst hSecond
      exact
        alone_of_written hFormed hRun hAlone hFirst hSecond
          hThread hActive hActive'
  | moved hRun _ hAlone hRuns =>
      rw [hRuns] at hFirst hSecond
      exact
        alone_of_written hFormed hRun hAlone hFirst hSecond
          hThread hActive hActive'
  | committed hRun _ hRuns =>
      rw [hRuns] at hFirst hSecond
      exact
        alone_of_written hFormed hRun (by simp [RunStatus.active])
          hFirst hSecond hThread hActive hActive'
  | missing _ hRuns =>
      rw [hRuns] at hFirst hSecond
      exact
        hFormed.alone first second run run' hFirst hSecond
          hThread hActive hActive'
  | kept _ hRuns =>
      rw [hRuns] at hFirst hSecond
      exact
        hFormed.alone first second run run' hFirst hSecond
          hThread hActive hActive'

end Runs

------------------------------------------------------------
-- Messages
------------------------------------------------------------

/- The messages that a call adds belong to the run of its role. -/
theorem hasRun_of_added
    {db : Db}
    {role : Role}
    {op : Op}
    (hKnown : role.Known db)
    (hAllows : role.Allows op) :
    (∀ threadId new,
        op = .addMessage threadId new →
          db.hasRun new.runId threadId) ∧
      ∀ threadId runId contentMd citationIds parentId model,
        op =
            .commitAgentAnswer threadId runId contentMd
              citationIds parentId model →
          db.hasRun runId threadId := by
  constructor
  · rintro threadId new rfl
    cases hAllows with
    | on hStage => cases hStage <;> exact hKnown.1
  · rintro threadId runId contentMd citationIds parentId model
      rfl
    cases hAllows with
    | on hStage =>
        cases hStage
        exact hKnown.1

/- The slots of a database with one more message. -/
theorem slots_of_added
    {db db' : Db}
    {new : NewMessage}
    {threadId : ThreadId}
    {seq : Nat}
    (hFormed : db.WellFormed)
    (hSlots :
      db'.slots =
        db.slots ++ [new.slot threadId (db.nextId, seq)])
    (hRun : db.hasRun new.runId threadId)
    (hMono :
      ∀ runId threadId,
        db.hasRun runId threadId → db'.hasRun runId threadId)
    (hNext : db.nextId < db'.nextId)
    (hLast : ∀ other, db.lastSeq other ≤ db'.lastSeq other)
    (hSeq :
      seq = db.lastSeq threadId + 1 ∧
        db'.lastSeq threadId = seq) :
    (∀ slot ∈ db'.slots, ∀ runId,
        slot.runId = some runId →
          db'.hasRun runId slot.threadId) ∧
      (∀ slot ∈ db'.slots, slot.id < db'.nextId) ∧
        (∀ slot ∈ db'.slots,
            slot.seq ≤ db'.lastSeq slot.threadId) ∧
          db'.slots.Pairwise fun slot other =>
            slot.id < other.id ∧
              (slot.threadId = other.threadId →
                slot.seq < other.seq) := by
  rw [hSlots]
  simp only [List.mem_append, List.mem_singleton]
  refine ⟨?_, ?_, ?_, ?_⟩
  · rintro slot (hMem | rfl) runId hSlot
    · exact hMono _ _ (hFormed.slotRuns slot hMem runId hSlot)
    · cases hSlot
      exact hMono _ _ hRun
  · rintro slot (hMem | rfl)
    · exact Nat.lt_trans (hFormed.slotIds slot hMem) hNext
    · exact hNext
  · rintro slot (hMem | rfl)
    · exact
        Nat.le_trans (hFormed.slotSeqs slot hMem)
          (hLast slot.threadId)
    · exact Nat.le_of_eq hSeq.2.symm
  · rw [List.pairwise_append]
    refine ⟨hFormed.slotOrder, List.pairwise_singleton _ _, ?_⟩
    intro slot hMem other hOther
    rw [List.mem_singleton] at hOther
    subst hOther
    refine ⟨hFormed.slotIds slot hMem, ?_⟩
    intro hThread
    have hLe := hFormed.slotSeqs slot hMem
    rw [hThread] at hLe
    simp only [NewMessage.slot] at hLe ⊢
    omega

------------------------------------------------------------
-- Events
------------------------------------------------------------

/- The events that a call logs belong to the run of its role. -/
theorem hasRun_of_logged
    {db : Db}
    {role : Role}
    {threadId : ThreadId}
    {runId : RunId}
    {event : RunEvent}
    (hKnown : role.Known db)
    (hAllows :
      role.Allows (.appendRunEvent threadId runId event)) :
    db.hasRun runId threadId := by
  cases hAllows with
  | lookingLog hName => exact hKnown
  | on hStage => cases hStage <;> exact hKnown.2

/- The log after a successful call. -/
theorem log_of_exec
    {inst : InstanceId}
    {op : Op}
    {world world' : World}
    {value : op.Reply}
    (hExec : exec inst op world = (.ok value, world')) :
    world'.db.runEvents = world.db.runEvents ∨
      ∃ threadId runId event,
        op = .appendRunEvent threadId runId event ∧
          world'.db.runEvents =
            world.db.runEvents ++
              [{ threadId := threadId
                 runId := runId
                 seq := event.seq
                 data := event.data
                 createdAt := world.db.now }] := by
  cases op with
  | appendRunEvent threadId runId event =>
      cases hExec
      change
        (world.db.appendEvent threadId runId event).runEvents =
            _ ∨
          ∃ threadId' runId' event', _ ∧
            (world.db.appendEvent threadId runId
              event).runEvents = _
      unfold Db.appendEvent
      split
      · exact Or.inl rfl
      · exact Or.inr ⟨threadId, runId, event, rfl, rfl⟩
  | _ => exact Or.inl ((frames_of_exec hExec).log rfl)

------------------------------------------------------------
-- Replies
------------------------------------------------------------

/- The run that `getActiveRun` replies. -/
theorem of_getActiveRun
    {db db' : Db}
    {threadId : ThreadId}
    {runId : RunId}
    {status : RunStatus}
    (hActive :
      getActiveRun threadId db =
        .ok (some (runId, status), db')) :
    db' = db ∧
      ∃ run,
        db.runs.get? runId = some run ∧
          run.threadId = threadId ∧
            run.status = status ∧
              run.status.active = true := by
  simp only [getActiveRun, Statement.query, Except.ok.injEq,
    Prod.mk.injEq, Option.map_eq_some_iff] at hActive
  rcases hActive with ⟨⟨row, hHead, rfl, rfl⟩, rfl⟩
  have hMem := List.mem_of_mem_head? hHead
  rw [List.mem_insertionSort, List.mem_filter,
    Bool.and_eq_true, beq_iff_eq] at hMem
  exact
    ⟨rfl, row.2, Table.get?_of_mem hMem.1, hMem.2.1, rfl,
      hMem.2.2⟩

/- The active run of a thread belongs to the thread. -/
theorem hasRun_of_getActiveRun
    {inst : InstanceId}
    {world world' : World}
    {threadId : ThreadId}
    {runId : RunId}
    {status : RunStatus}
    (hExec :
      exec inst (.getActiveRun threadId) world =
        (.ok (some (runId, status)), world')) :
    world'.db.hasRun runId threadId := by
  have hStatement :
      getActiveRun threadId world.db =
        .ok (some (runId, status), world'.db) :=
    statement_of_onDb hExec
  rcases of_getActiveRun hStatement with
    ⟨hDb, run, hRun, hThread, -, -⟩
  rw [Db.hasRun, hDb, hRun, Option.map_some, hThread]

/- A run that is read belongs to the thread that is read. -/
theorem hasRun_of_getRun
    {inst : InstanceId}
    {world world' : World}
    {runId : RunId}
    {threadId : ThreadId}
    {status : RunStatus}
    (hExec :
      exec inst (.getRun runId) world =
        (.ok (some (threadId, status)), world')) :
    world'.db.hasRun runId threadId := by
  have hRead :
      getRun runId world.db =
        .ok (some (threadId, status), world'.db) :=
    statement_of_onDb hExec
  simp only [getRun, Statement.query, Except.ok.injEq,
    Prod.mk.injEq, Option.map_eq_some_iff] at hRead
  rcases hRead with ⟨⟨run, hRun, rfl, -⟩, hDb⟩
  rw [Db.hasRun, ← hDb, hRun, Option.map_some]

/- The role behind a successful call knows its run. -/
theorem known_after
    {inst : InstanceId}
    {role : Role}
    {op : Op}
    {world world' : World}
    {value : op.Reply}
    (hExec : exec inst op world = (.ok value, world'))
    (hFresh : world.db.runs.get? world.db.nextId = none)
    (hMono :
      ∀ runId threadId,
        world.db.hasRun runId threadId →
          world'.db.hasRun runId threadId)
    (hAllows : role.Allows op)
    (hKnown : role.Known world.db) :
    (role.after op (.ok value)).Known world'.db := by
  cases hAllows with
  | @freshOpen threadId model =>
      rcases of_openRun (statement_of_onDb hExec) with
        ⟨hId, -, -, hDb⟩
      have hRun : world'.db.hasRun value threadId := by
        rw [Db.hasRun, hDb, hId, Table.get?_insert hFresh,
          if_pos rfl]
        rfl
      exact ⟨hRun, hRun⟩
  | freshActive =>
      match value with
      | some (runId, .awaitingApproval) =>
          exact hasRun_of_getActiveRun hExec
      | none => trivial
      | some (_, .running) => trivial
      | some (_, .completed) => trivial
      | some (_, .rejected) => trivial
      | some (_, .interrupted) => trivial
      | some (_, .error) => trivial
  | @freshRead runId =>
      match value with
      | none => trivial
      | some (threadId, status) => exact hasRun_of_getRun hExec
  | lookingActive =>
      match value with
      | some (runId, .awaitingApproval) =>
          exact
            ⟨hasRun_of_getActiveRun hExec, hMono _ _ hKnown⟩
      | none => exact hMono _ _ hKnown
      | some (_, .running) => exact hMono _ _ hKnown
      | some (_, .completed) => exact hMono _ _ hKnown
      | some (_, .rejected) => exact hMono _ _ hKnown
      | some (_, .interrupted) => exact hMono _ _ hKnown
      | some (_, .error) => exact hMono _ _ hKnown
  | watchingRunning =>
      cases value with
      | true => exact ⟨hMono _ _ hKnown, hMono _ _ hKnown⟩
      | false => exact hMono _ _ hKnown
  | watchingPaused =>
      cases value with
      | true => exact ⟨hMono _ _ hKnown, hMono _ _ hKnown⟩
      | false => exact hMono _ _ hKnown
  | on hStage =>
      exact ⟨hMono _ _ hKnown.1, hMono _ _ hKnown.2⟩
  | lookingAdd => exact hMono _ _ hKnown
  | lookingDiscard => exact hMono _ _ hKnown
  | lookingRead => exact hMono _ _ hKnown
  | lookingSeq => exact hMono _ _ hKnown
  | lookingLog _ => exact hMono _ _ hKnown
  | watchingGet => exact hMono _ _ hKnown
  | watchingSet => exact hMono _ _ hKnown
  | _ => trivial

/- The role behind a failed call knows its run. -/
theorem known_failed
    {db : Db}
    {role : Role}
    {op : Op}
    {exn : Exn}
    (hAllows : role.Allows op)
    (hKnown : role.Known db) :
    (role.after op (.error exn)).Known db := by
  cases hAllows <;> exact hKnown

------------------------------------------------------------
-- Preservation
------------------------------------------------------------

/- A call keeps the rows well formed. -/
theorem wellFormed_of_exec
    {inst : InstanceId}
    {role : Role}
    {op : Op}
    {world world' : World}
    {value : op.Reply}
    (hExec : exec inst op world = (.ok value, world'))
    (hFormed : world.db.WellFormed)
    (hKnown : role.Known world.db)
    (hAllows : role.Allows op) :
    world'.db.WellFormed := by
  have hFrame := frames_of_exec hExec
  have hRuns := changesRuns_of_exec hExec
  have hMono :
      ∀ runId threadId,
        world.db.hasRun runId threadId →
          world'.db.hasRun runId threadId :=
    fun _ _ => hasRun_of_changes hRuns hFormed.freshRun
  have hLast := lastSeq_of_exec hExec
  have hAdded := hasRun_of_added hKnown hAllows
  have hSlots :
      (∀ slot ∈ world'.db.slots, ∀ runId,
          slot.runId = some runId →
            world'.db.hasRun runId slot.threadId) ∧
        (∀ slot ∈ world'.db.slots,
            slot.id < world'.db.nextId) ∧
          (∀ slot ∈ world'.db.slots,
              slot.seq ≤ world'.db.lastSeq slot.threadId) ∧
            world'.db.slots.Pairwise fun slot other =>
              slot.id < other.id ∧
                (slot.threadId = other.threadId →
                  slot.seq < other.seq) := by
    have hSlots := changesSlots_of_exec hExec
    cases hSlots with
    | @added threadId new thread hThread hSlots =>
        exact
          slots_of_added hFormed hSlots
            (hAdded.1 threadId new rfl) hMono
            (nextId_of_exec hExec (Or.inl rfl))
            (fun other => (hLast other).1)
            ((hLast threadId).2 _ rfl)
    | @committed threadId runId contentMd citationIds parentId
        model thread hThread hSlots =>
        exact
          slots_of_added hFormed hSlots
            (hAdded.2 threadId runId contentMd citationIds
              parentId model rfl) hMono
            (nextId_of_exec hExec (Or.inl rfl))
            (fun other => (hLast other).1)
            ((hLast threadId).2 _ rfl)
    | kept _ hSlots =>
        rw [hSlots]
        refine ⟨?_, ?_, ?_, hFormed.slotOrder⟩
        · intro slot hMem runId hRun
          exact
            hMono _ _ (hFormed.slotRuns slot hMem runId hRun)
        · intro slot hMem
          exact
            Nat.lt_of_lt_of_le (hFormed.slotIds slot hMem)
              hFrame.nextId
        · intro slot hMem
          exact
            Nat.le_trans (hFormed.slotSeqs slot hMem)
              (hLast slot.threadId).1
  rcases hSlots with
    ⟨hSlotRuns, hSlotIds, hSlotSeqs, hSlotOrder⟩
  refine
    ⟨?_, ?_, hSlotRuns, hSlotIds, hSlotSeqs, hSlotOrder, ?_⟩
  · intro runId run hRun
    refine
      runIds_of_changes hRuns hFormed hFrame.nextId ?_ hRun
    rintro threadId model rfl
    exact nextId_of_exec hExec (Or.inr ⟨threadId, model, rfl⟩)
  · intro runId other run run'
    exact alone_of_changes hRuns hFormed
  · rcases log_of_exec hExec with
      hLog | ⟨threadId, runId, event, rfl, hLog⟩
    · rw [hLog]
      intro row hMem
      exact hMono _ _ (hFormed.eventRuns row hMem)
    · rw [hLog]
      intro row hMem
      rw [List.mem_append, List.mem_singleton] at hMem
      rcases hMem with hMem | rfl
      · exact hMono _ _ (hFormed.eventRuns row hMem)
      · exact hMono _ _ (hasRun_of_logged hKnown hAllows)

/- An update of runs that keeps their threads. -/
theorem hasRun_of_update
    {db db' : Db}
    {selects : RunId → Run → Bool}
    {change : Run → Run}
    (hRuns : db'.runs = db.runs.update selects change)
    (hChange : ∀ run, (change run).threadId = run.threadId)
    {runId : RunId}
    {threadId : ThreadId}
    (hRun : db.hasRun runId threadId) :
    db'.hasRun runId threadId := by
  rw [Db.hasRun, hRuns, Table.get?_update, Option.map_map]
  rcases Option.map_eq_some_iff.mp hRun with
    ⟨run, hGet, hThread⟩
  rw [hGet, Option.map_some, Function.comp_apply]
  split
  · rw [hChange, hThread]
  · rw [hThread]

/- A change of runs that activates none keeps the rows. -/
theorem wellFormed_of_update
    {db db' : Db}
    {selects : RunId → Run → Bool}
    {change : Run → Run}
    (hFormed : db.WellFormed)
    (hRuns : db'.runs = db.runs.update selects change)
    (hChange : ∀ run, (change run).threadId = run.threadId)
    (hActive :
      ∀ run,
        (change run).status.active = true →
          run.status.active = true)
    (hSlots : db'.slots = db.slots)
    (hThreads : db'.threads = db.threads)
    (hNext : db'.nextId = db.nextId)
    (hLog : db'.runEvents = db.runEvents) :
    db'.WellFormed := by
  have hMono :
      ∀ runId threadId,
        db.hasRun runId threadId → db'.hasRun runId threadId :=
    fun _ _ => hasRun_of_update hRuns hChange
  have hOld :
      ∀ runId run',
        db'.runs.get? runId = some run' →
          ∃ run,
            db.runs.get? runId = some run ∧
              run'.threadId = run.threadId ∧
                (run'.status.active = true →
                  run.status.active = true) := by
    intro runId run' hGet
    rw [hRuns, Table.get?_update] at hGet
    rcases Option.map_eq_some_iff.mp hGet with ⟨run, hRun, rfl⟩
    refine ⟨run, hRun, ?_⟩
    split
    · exact ⟨hChange run, hActive run⟩
    · exact ⟨rfl, id⟩
  refine ⟨?_, ?_, ?_, ?_, ?_, ?_, ?_⟩
  · intro runId run' hGet
    rcases hOld runId run' hGet with ⟨run, hRun, -⟩
    rw [hNext]
    exact hFormed.runIds runId run hRun
  · intro runId other run run' hGet hGet' hThread hFirst hSecond
    rcases hOld runId run hGet with
      ⟨old, hOldRun, hOldThread, hOldActive⟩
    rcases hOld other run' hGet' with
      ⟨old', hOldRun', hOldThread', hOldActive'⟩
    exact
      hFormed.alone runId other old old' hOldRun hOldRun'
        (hOldThread.symm.trans (hThread.trans hOldThread'))
        (hOldActive hFirst) (hOldActive' hSecond)
  · rw [hSlots]
    intro slot hMem runId hRun
    exact hMono _ _ (hFormed.slotRuns slot hMem runId hRun)
  · rw [hSlots, hNext]
    exact hFormed.slotIds
  · rw [hSlots]
    intro slot hMem
    rw [Db.lastSeq, hThreads]
    exact hFormed.slotSeqs slot hMem
  · rw [hSlots]
    exact hFormed.slotOrder
  · rw [hLog]
    intro row hMem
    exact hMono _ _ (hFormed.eventRuns row hMem)

/- Heartbeats keep the rows well formed. -/
theorem wellFormed_heartbeat
    {db : Db}
    (runIds : List RunId)
    (hFormed : db.WellFormed) :
    (db.heartbeat runIds).WellFormed :=
  wellFormed_of_update hFormed (runs_heartbeat db runIds)
    (fun _ => rfl) (fun _ hActive => hActive) rfl rfl rfl rfl

/- A sweep keeps the rows well formed. -/
theorem wellFormed_sweep
    {db : Db}
    (selects : Run → Bool)
    (hFormed : db.WellFormed) :
    (db.sweep selects).WellFormed :=
  wellFormed_of_update hFormed (runs_sweep db selects)
    (fun _ => rfl) (by simp [Run.transition, RunStatus.active])
    (slots_sweep db selects) rfl rfl rfl

/- Collecting old logs keeps the rows well formed. -/
theorem wellFormed_collect
    {db : Db}
    (retention : Nat)
    (hFormed : db.WellFormed) :
    (db.collect retention).WellFormed :=
  { hFormed with
    eventRuns := fun row hMem =>
      hFormed.eventRuns row (List.mem_of_mem_filter hMem) }

/- What is known of a role stays known. -/
theorem Role.Known.mono
    {db db' : Db}
    {role : Role}
    (hKnown : role.Known db)
    (hMono :
      ∀ runId threadId,
        db.hasRun runId threadId →
          db'.hasRun runId threadId) :
    role.Known db' := by
  cases role with
  | on job stage =>
      exact ⟨hMono _ _ hKnown.1, hMono _ _ hKnown.2⟩
  | looking log threadId synthetic => exact hMono _ _ hKnown
  | watching threadId runId => exact hMono _ _ hKnown
  | _ => trivial

/- The rows are well formed and every role knows its run. -/
def formedOutline : Outline Db Role where
  globally := Db.WellFormed
  locally := fun db role => role.Known db
  mutually := fun _ _ => True

variable {registry : Registry}
variable {allowed : System → Action → Prop}

/- Every step keeps the rows well formed. -/
theorem sustains_formedOutline :
    SustainsRoles registry allowed formedOutline where
  idle := by
    intro db role hIdle _
    cases role <;> trivial
  alone := fun _ _ _ => ⟨trivial, trivial⟩
  done := by
    intro system taskId task op value world' hCall hExec hHolds
    have hFormed : system.world.db.WellFormed := hHolds.globally
    have hKnown : task.phase.role.Known system.world.db :=
      hHolds.locally taskId task hCall.present
    have hMono :
        ∀ runId threadId,
          system.world.db.hasRun runId threadId →
            world'.db.hasRun runId threadId :=
      fun _ _ =>
        hasRun_of_changes (changesRuns_of_exec hExec)
          hFormed.freshRun
    refine
      ⟨wellFormed_of_exec hExec hFormed hKnown hCall.allows,
        known_after hExec hFormed.freshRun hMono hCall.allows
          hKnown, ?_⟩
    intro _ other _ _ hOther _
    exact ⟨Role.Known.mono hOther hMono, trivial, trivial⟩
  failed := by
    intro system taskId fault task op exn hCall _ hHolds
    refine
      ⟨hHolds.globally,
        known_failed hCall.allows
          (hHolds.locally taskId task hCall.present), ?_⟩
    intro _ other _ _ hOther _
    exact ⟨hOther, trivial, trivial⟩
  advance := by
    intro db seconds hFormed
    exact ⟨{ hFormed with }, fun _ hKnown => hKnown⟩
  heartbeat := by
    intro db runIds hFormed
    refine ⟨wellFormed_heartbeat runIds hFormed, ?_⟩
    intro role hKnown
    exact
      Role.Known.mono hKnown fun _ _ =>
        hasRun_of_update (runs_heartbeat db runIds)
          fun _ => rfl
  sweep := by
    intro db selects _ hFormed
    refine ⟨wellFormed_sweep selects hFormed, ?_⟩
    intro role hKnown
    exact
      Role.Known.mono hKnown fun _ _ =>
        hasRun_of_update (runs_sweep db selects)
          fun _ => rfl
  collect := by
    intro db retention hFormed
    exact
      ⟨wellFormed_collect retention hFormed,
        fun _ hKnown => hKnown⟩

/- The rows are well formed before the first request. -/
theorem wellFormed_empty : Db.empty.WellFormed := by
  constructor <;> simp [Db.empty, Db.slots]

/- The rows of a reachable system are well formed. -/
theorem wellFormed_of_reachable
    {system : System}
    (hReachable : Reachable registry allowed system) :
    system.world.db.WellFormed :=
  (roles_of_reachable sustains_formedOutline
    wellFormed_empty hReachable).globally

/- Every role of a reachable system knows its run. -/
theorem known_of_reachable
    {system : System}
    (hReachable : Reachable registry allowed system)
    {taskId : TaskId}
    {task : Task}
    (hTask : system.tasks taskId = some task) :
    task.phase.role.Known system.world.db :=
  (roles_of_reachable sustains_formedOutline
    wellFormed_empty hReachable).locally taskId task hTask

end LegalAgent
