import LegalAgent.Service.Roles
import LegalAgent.Store.Cascade
import LegalAgent.System.WellFormed

/-
  Runs and messages stay in one thread.

  No id is drawn twice, so what belonged to a thread belongs
  to no other thread later.  A task adds messages only to the
  thread of its run, and these refer only to its run and to
  the user message of the run.  That remains so when threads
  are deleted beside the tasks.

  Key definitions include:
    * `Db.ownsRun`
    * `Db.ownsMessage`
    * `Evolves`
    * `Db.Apart`
    * `Role.Owns`
    * `System.Sound`

  Key theorems include:
    * `apart_of_exec`
    * `owns_after`
    * `apart_withoutThread`
    * `kin_of_apart`
    * `sound_systemStep`
-/

------------------------------------------------------------
-- Owners
------------------------------------------------------------

namespace LegalAgent

open Library

/- A run was drawn, and no other thread has it. -/
def Db.ownsRun
    (db : Db)
    (threadId : ThreadId)
    (runId : RunId) :
    Prop :=
  runId < db.nextId ∧
    ∀ other, db.hasRun runId other → other = threadId

/- A message was drawn, and no other thread has it. -/
def Db.ownsMessage
    (db : Db)
    (threadId : ThreadId)
    (messageId : MessageId) :
    Prop :=
  messageId < db.nextId ∧
    ∀ slot ∈ db.slots,
      slot.id = messageId → slot.threadId = threadId

/- New runs and messages have ids that are drawn meanwhile. -/
structure Evolves (db db' : Db) : Prop where
  nextId : db.nextId ≤ db'.nextId
  runs :
    ∀ runId threadId,
      db'.hasRun runId threadId →
        db.hasRun runId threadId ∨
          (db.nextId ≤ runId ∧ runId < db'.nextId)
  slots :
    ∀ slot ∈ db'.slots,
      slot ∈ db.slots ∨
        (db.nextId ≤ slot.id ∧ slot.id < db'.nextId)

/-
  The runs and messages of the threads are apart: every key
  was drawn, the messages have distinct keys, and what a
  message refers to is in its own thread.
-/
structure Db.Apart (db : Db) : Prop where
  runIds :
    ∀ runId threadId,
      db.hasRun runId threadId → runId < db.nextId
  slotIds : ∀ slot ∈ db.slots, slot.id < db.nextId
  distinct : (db.slots.map Slot.id).Nodup
  slotRuns :
    ∀ slot ∈ db.slots, ∀ runId,
      slot.runId = some runId → db.hasRun runId slot.threadId
  slotParents :
    ∀ slot ∈ db.slots, ∀ parentId,
      slot.parentId = some parentId →
        db.ownsMessage slot.threadId parentId

section Owners

variable {db db' : Db}
variable {threadId : ThreadId} {runId : RunId}

/- A run is in one thread. -/
theorem eq_of_hasRun
    {other : ThreadId}
    (hRun : db.hasRun runId threadId)
    (hOther : db.hasRun runId other) :
    other = threadId := by
  rw [Db.hasRun, hRun] at hOther
  exact (Option.some.inj hOther).symm

/- A thread owns the runs that it has. -/
theorem Db.Apart.ownsRun
    (hApart : db.Apart)
    (hRun : db.hasRun runId threadId) :
    db.ownsRun threadId runId :=
  ⟨hApart.runIds runId threadId hRun,
    fun _ hOther => eq_of_hasRun hRun hOther⟩

/- The next id is the id of no run. -/
theorem Db.Apart.freshRun
    (hApart : db.Apart) :
    db.runs.get? db.nextId = none := by
  cases hGet : db.runs.get? db.nextId with
  | none => rfl
  | some run =>
      have hRun : db.hasRun db.nextId run.threadId := by
        rw [Db.hasRun, hGet]
        rfl
      exact
        absurd (hApart.runIds _ _ hRun) (Nat.lt_irrefl _)

/- An owned run stays owned. -/
theorem ownsRun_of_evolves
    (hEvolves : Evolves db db')
    (hOwns : db.ownsRun threadId runId) :
    db'.ownsRun threadId runId := by
  refine ⟨Nat.lt_of_lt_of_le hOwns.1 hEvolves.nextId, ?_⟩
  intro other hOther
  rcases hEvolves.runs runId other hOther with hOld | hNew
  · exact hOwns.2 other hOld
  · exact absurd hOwns.1 (Nat.not_lt.mpr hNew.1)

/- An owned message stays owned. -/
theorem ownsMessage_of_evolves
    {messageId : MessageId}
    (hEvolves : Evolves db db')
    (hOwns : db.ownsMessage threadId messageId) :
    db'.ownsMessage threadId messageId := by
  refine ⟨Nat.lt_of_lt_of_le hOwns.1 hEvolves.nextId, ?_⟩
  intro slot hMem hId
  rcases hEvolves.slots slot hMem with hOld | hNew
  · exact hOwns.2 slot hOld hId
  · rw [hId] at hNew
    exact absurd hOwns.1 (Nat.not_lt.mpr hNew.1)

/- The keys of the runs are drawn. -/
theorem runIds_of_evolves
    (hApart : db.Apart)
    (hEvolves : Evolves db db')
    (hRun : db'.hasRun runId threadId) :
    runId < db'.nextId := by
  rcases hEvolves.runs runId threadId hRun with hOld | hNew
  · exact
      Nat.lt_of_lt_of_le (hApart.runIds runId threadId hOld)
        hEvolves.nextId
  · exact hNew.2

/- The keys of the messages are drawn. -/
theorem slotIds_of_evolves
    {slot : Slot}
    (hApart : db.Apart)
    (hEvolves : Evolves db db')
    (hMem : slot ∈ db'.slots) :
    slot.id < db'.nextId := by
  rcases hEvolves.slots slot hMem with hOld | hNew
  · exact
      Nat.lt_of_lt_of_le (hApart.slotIds slot hOld)
        hEvolves.nextId
  · exact hNew.2

/- Rows that stay apart when messages go. -/
theorem apart_of_sublist
    (hApart : db.Apart)
    (hEvolves : Evolves db db')
    (hSlots : db'.slots.Sublist db.slots)
    (hRuns :
      ∀ slot ∈ db'.slots, ∀ runId,
        db.hasRun runId slot.threadId →
          db'.hasRun runId slot.threadId) :
    db'.Apart where
  runIds := fun _ _ => runIds_of_evolves hApart hEvolves
  slotIds := fun _ => slotIds_of_evolves hApart hEvolves
  distinct := hApart.distinct.sublist (hSlots.map Slot.id)
  slotRuns := by
    intro slot hMem runId hRun
    exact
      hRuns slot hMem runId
        (hApart.slotRuns slot (hSlots.subset hMem) runId hRun)
  slotParents := by
    intro slot hMem parentId hParent
    exact
      ownsMessage_of_evolves hEvolves
        (hApart.slotParents slot (hSlots.subset hMem) parentId
          hParent)

/- Rows that stay apart when a message is added. -/
theorem apart_of_added
    {added : Slot}
    (hApart : db.Apart)
    (hEvolves : Evolves db db')
    (hSlots : db'.slots = db.slots ++ [added])
    (hId : added.id = db.nextId)
    (hMono :
      ∀ runId threadId,
        db.hasRun runId threadId → db'.hasRun runId threadId)
    (hRun :
      ∀ runId,
        added.runId = some runId →
          db.hasRun runId added.threadId)
    (hParent :
      ∀ parentId,
        added.parentId = some parentId →
          db.ownsMessage added.threadId parentId) :
    db'.Apart where
  runIds := fun _ _ => runIds_of_evolves hApart hEvolves
  slotIds := fun _ => slotIds_of_evolves hApart hEvolves
  distinct := by
    rw [hSlots, List.map_append, List.map_singleton,
      ← List.concat_eq_append, List.nodup_concat]
    refine ⟨?_, hApart.distinct⟩
    intro hMem
    rcases List.mem_map.mp hMem with ⟨slot, hSlot, hSame⟩
    have hLt := hApart.slotIds slot hSlot
    rw [hSame, hId] at hLt
    exact absurd hLt (Nat.lt_irrefl _)
  slotRuns := by
    rw [hSlots]
    intro slot hMem runId hSlot
    rw [List.mem_append, List.mem_singleton] at hMem
    rcases hMem with hMem | rfl
    · exact hMono _ _ (hApart.slotRuns slot hMem runId hSlot)
    · exact hMono _ _ (hRun runId hSlot)
  slotParents := by
    intro slot hMem parentId hSlot
    apply ownsMessage_of_evolves hEvolves
    rw [hSlots, List.mem_append, List.mem_singleton] at hMem
    rcases hMem with hMem | rfl
    · exact hApart.slotParents slot hMem parentId hSlot
    · exact hParent parentId hSlot

end Owners

------------------------------------------------------------
-- Roles
------------------------------------------------------------

/- The user message that a stage knows. -/
def Stage.root? : Stage → Option MessageId
| .opened root => root
| .driving root _ _ => root
| .gated root => root
| .finalizing root => root
| .won root _ => root.join
| _ => none

/- The thread of a role owns its run and its user message. -/
def Role.Owns (db : Db) : Role → Prop
| .on job stage =>
    db.ownsRun job.thread job.run ∧
      ∀ root,
        stage.root? = some root →
          db.ownsMessage job.thread root
| .watching threadId runId => db.ownsRun threadId runId
| _ => True

/- The user message that a call with its reply made known. -/
def Op.rooted : (op : Op) → op.Reply → Option MessageId
| .addMessage .., row => some row.1
| .getTurnRoot .., root => root
| _, _ => none

section Roles

variable {job : Job} {stage : Stage}
variable {role : Role} {op : Op}

/- What a role owns stays owned. -/
theorem Role.Owns.mono
    {db db' : Db}
    (hEvolves : Evolves db db')
    (hOwns : role.Owns db) :
    role.Owns db' := by
  cases role with
  | on job stage =>
      exact
        ⟨ownsRun_of_evolves hEvolves hOwns.1,
          fun root hRoot =>
            ownsMessage_of_evolves hEvolves
              (hOwns.2 root hRoot)⟩
  | watching threadId runId =>
      exact ownsRun_of_evolves hEvolves hOwns
  | _ => trivial

/- A stage knows its user message, or its call made it known. -/
theorem root_after
    {value : op.Reply}
    {root : MessageId}
    (hAllows : Stage.Allows job stage op)
    (hRoot : (stage.after op (.ok value)).root? = some root) :
    stage.root? = some root ∨ op.rooted value = some root := by
  cases hAllows with
  | openedAsk => exact Or.inr hRoot
  | wonRoot => exact Or.inr hRoot
  | drivingNext =>
      rcases value with _ | ⟨_ | _, _⟩
      all_goals exact Or.inl hRoot
  | closingLog =>
      simp only [Stage.after] at hRoot
      split at hRoot <;> cases hRoot
  | _ =>
      first
        | exact Or.inl hRoot
        | cases hRoot
        | (cases value <;> cases hRoot)

/- A stage whose call failed knows no other user message. -/
theorem root_failed
    {exn : Exn}
    {root : MessageId}
    (hAllows : Stage.Allows job stage op)
    (hRoot : (stage.after op (.error exn)).root? = some root) :
    stage.root? = some root := by
  cases hAllows <;> first | exact hRoot | cases hRoot

end Roles

------------------------------------------------------------
-- Calls
------------------------------------------------------------

section Calls

variable {inst : InstanceId}
variable {role : Role} {op : Op} {value : op.Reply}
variable {world world' : World}

/- A call adds at most a run and a message, with new ids. -/
theorem evolves_of_exec
    (hExec : exec inst op world = (.ok value, world'))
    (hApart : world.db.Apart) :
    Evolves world.db world'.db where
  nextId := (frames_of_exec hExec).nextId
  runs := by
    intro runId threadId hRun
    have hWritten :
        ∀ other status ended,
          world'.db.runs =
              (world.db.writeStatus other status ended).runs →
            world.db.hasRun runId threadId := by
      intro other status ended hRuns
      rw [Db.hasRun, hRuns, get?_writeStatus] at hRun
      split at hRun
      · rw [Option.map_map] at hRun
        exact hRun
      · exact hRun
    have hChanges := changesRuns_of_exec hExec
    cases hChanges with
    | @opened opened model hThread hAlone hRuns =>
        rw [Db.hasRun, hRuns,
          Table.get?_insert hApart.freshRun] at hRun
        split at hRun
        · rename_i hEq
          right
          rw [hEq]
          exact
            ⟨Nat.le_refl _,
              nextId_of_exec hExec (Or.inr ⟨_, _, rfl⟩)⟩
        · exact Or.inl hRun
    | set _ _ hRuns => exact Or.inl (hWritten _ _ _ hRuns)
    | moved _ _ _ hRuns => exact Or.inl (hWritten _ _ _ hRuns)
    | committed _ _ hRuns => exact Or.inl (hWritten _ _ _ hRuns)
    | missing _ hRuns =>
        left
        rwa [Db.hasRun, hRuns] at hRun
    | kept _ hRuns =>
        left
        rwa [Db.hasRun, hRuns] at hRun
  slots := by
    intro slot hMem
    have hChanges := changesSlots_of_exec hExec
    cases hChanges with
    | added hThread hSlots =>
        rw [hSlots, List.mem_append, List.mem_singleton] at hMem
        rcases hMem with hMem | rfl
        · exact Or.inl hMem
        · exact
            Or.inr
              ⟨Nat.le_refl _, nextId_of_exec hExec (Or.inl rfl)⟩
    | committed hThread hSlots =>
        rw [hSlots, List.mem_append, List.mem_singleton] at hMem
        rcases hMem with hMem | rfl
        · exact Or.inl hMem
        · exact
            Or.inr
              ⟨Nat.le_refl _, nextId_of_exec hExec (Or.inl rfl)⟩
    | kept _ hSlots =>
        rw [hSlots] at hMem
        exact Or.inl hMem

/- The run of a message that a call adds exists. -/
theorem isSome_of_added
    {threadId : ThreadId}
    {new : NewMessage}
    {row : MessageId × Nat}
    (hExec :
      exec inst (.addMessage threadId new) world =
        (.ok row, world')) :
    (world.db.runs.get? new.runId).isSome = true := by
  rcases row with ⟨messageId, seq⟩
  rcases of_insertMessage (statement_of_onDb hExec) with
    ⟨-, thread, db₁, -, -, hNext, hAdmits, -⟩
  rcases of_nextSeq hNext with ⟨_, -, -, rfl⟩
  simp only [Db.admits, Bool.and_eq_true] at hAdmits
  exact hAdmits.1.1

/- An existing run is a run of its owner. -/
theorem hasRun_of_ownsRun
    {db : Db}
    {threadId : ThreadId}
    {runId : RunId}
    (hOwns : db.ownsRun threadId runId)
    (hSome : (db.runs.get? runId).isSome = true) :
    db.hasRun runId threadId := by
  rcases Option.isSome_iff_exists.mp hSome with ⟨run, hRun⟩
  have hOwn : db.hasRun runId run.threadId := by
    rw [Db.hasRun, hRun]
    rfl
  rwa [← hOwns.2 run.threadId hOwn]

/- A message that a call adds refers to what its thread owns. -/
theorem owns_of_added
    {db : Db}
    {threadId : ThreadId}
    {new : NewMessage}
    (hOwns : role.Owns db)
    (hAllows : role.Allows (.addMessage threadId new)) :
    db.ownsRun threadId new.runId ∧
      ∀ parentId,
        new.parentId = some parentId →
          db.ownsMessage threadId parentId := by
  cases hAllows with
  | on hStage =>
      cases hStage with
      | openedAsk => exact ⟨hOwns.1, nofun⟩
      | drivingCell => exact hOwns

/- A call keeps the rows of the threads apart. -/
theorem apart_of_exec
    (hExec : exec inst op world = (.ok value, world'))
    (hApart : world.db.Apart)
    (hOwns : role.Owns world.db)
    (hAllows : role.Allows op) :
    world'.db.Apart := by
  have hEvolves := evolves_of_exec hExec hApart
  have hMono :
      ∀ runId threadId,
        world.db.hasRun runId threadId →
          world'.db.hasRun runId threadId :=
    fun _ _ =>
      hasRun_of_changes (changesRuns_of_exec hExec)
        hApart.freshRun
  have hChanges := changesSlots_of_exec hExec
  cases hChanges with
  | added hThread hSlots =>
      have hOwned := owns_of_added hOwns hAllows
      have hRun :=
        hasRun_of_ownsRun hOwned.1 (isSome_of_added hExec)
      refine
        apart_of_added hApart hEvolves hSlots rfl hMono ?_
          hOwned.2
      intro runId hId
      cases hId
      exact hRun
  | @committed threadId runId contentMd citationIds parentId
      model thread hThread hSlots =>
      rcases commit_of_allows hAllows with ⟨job, rfl, rfl, rfl⟩
      have hRuns := changesRuns_of_exec hExec
      have hSome :
          (world.db.runs.get? job.run).isSome = true := by
        cases hRuns with
        | committed hRun _ _ =>
            rw [hRun]
            rfl
        | kept hKept _ => cases hKept
      have hRun := hasRun_of_ownsRun hOwns.1 hSome
      refine
        apart_of_added hApart hEvolves hSlots rfl hMono ?_
          hOwns.2
      intro runId hId
      cases hId
      exact hRun
  | kept _ hSlots =>
      refine apart_of_sublist hApart hEvolves ?_ ?_
      · rw [hSlots]
      · intro slot _ runId hRun
        exact hMono runId _ hRun

/- A user message that a call made known is of the thread. -/
theorem owns_of_rooted
    {job : Job}
    {stage : Stage}
    {root : MessageId}
    (hExec : exec inst op world = (.ok value, world'))
    (hApart : world.db.Apart)
    (hOwns : world.db.ownsRun job.thread job.run)
    (hAllows : Stage.Allows job stage op)
    (hRooted : op.rooted value = some root) :
    world'.db.ownsMessage job.thread root := by
  have hEvolves := evolves_of_exec hExec hApart
  have hAdded :
      ∀ new,
        op = .addMessage job.thread new →
          world'.db.ownsMessage job.thread root := by
    rintro new rfl
    have hChanges := changesSlots_of_exec hExec
    cases hChanges with
    | added hThread hSlots =>
        cases hRooted
        refine
          ⟨nextId_of_exec hExec (Or.inl rfl), ?_⟩
        intro slot hMem hId
        rw [hSlots, List.mem_append, List.mem_singleton] at hMem
        rcases hMem with hMem | rfl
        · have hLt := hApart.slotIds slot hMem
          rw [hId] at hLt
          exact absurd hLt (Nat.lt_irrefl _)
        · rfl
    | kept hKept _ => cases hKept
  cases hAllows with
  | openedAsk => exact hAdded _ rfl
  | drivingCell => exact hAdded _ rfl
  | wonRoot =>
      apply ownsMessage_of_evolves hEvolves
      have hRead :
          getTurnRoot job.run world.db =
            .ok (value, world'.db) :=
        statement_of_onDb hExec
      simp only [getTurnRoot, Statement.query, Except.ok.injEq,
        Prod.mk.injEq] at hRead
      have hValue : value = some root := hRooted
      rw [hValue, Option.map_eq_some_iff] at hRead
      rcases hRead with ⟨⟨message, hHead, rfl⟩, -⟩
      have hMem := List.mem_of_mem_head? hHead
      rw [bySeq, List.mem_insertionSort, List.mem_filter,
        Bool.and_eq_true, beq_iff_eq] at hMem
      have hSlot : message.slot ∈ world.db.slots :=
        List.mem_map_of_mem hMem.1
      have hRun :=
        hApart.slotRuns message.slot hSlot job.run hMem.2.1
      have hThread : message.threadId = job.thread :=
        hOwns.2 _ hRun
      refine ⟨hApart.slotIds message.slot hSlot, ?_⟩
      intro slot hOther hId
      have hEq : slot = message.slot :=
        List.inj_on_of_nodup_map hApart.distinct hOther hSlot hId
      rw [hEq]
      exact hThread
  | _ => cases hRooted

/- The role behind a successful call owns what it knows. -/
theorem owns_after
    (hExec : exec inst op world = (.ok value, world'))
    (hApart : world.db.Apart)
    (hApart' : world'.db.Apart)
    (hOwns : role.Owns world.db)
    (hAllows : role.Allows op) :
    (role.after op (.ok value)).Owns world'.db := by
  have hEvolves := evolves_of_exec hExec hApart
  have hMono : role.Owns world'.db :=
    Role.Owns.mono hEvolves hOwns
  cases hAllows with
  | @freshOpen threadId model =>
      rcases of_openRun (statement_of_onDb hExec) with
        ⟨hId, -, -, hDb⟩
      have hRun : world'.db.hasRun value threadId := by
        rw [Db.hasRun, hDb, hId,
          Table.get?_insert hApart.freshRun, if_pos rfl]
        rfl
      exact ⟨hApart'.ownsRun hRun, by rintro _ ⟨⟩⟩
  | @freshRead runId =>
      cases value with
      | none => trivial
      | some found =>
          rcases found with ⟨threadId, status⟩
          exact hApart'.ownsRun (hasRun_of_getRun hExec)
  | freshActive =>
      rcases value with _ | ⟨runId, status⟩
      · trivial
      · cases status <;> trivial
  | lookingActive =>
      rcases value with _ | ⟨runId, status⟩
      · trivial
      · cases status with
        | awaitingApproval =>
            exact
              ⟨hApart'.ownsRun (hasRun_of_getActiveRun hExec),
                by rintro _ ⟨⟩⟩
        | _ => trivial
  | watchingRunning =>
      cases value with
      | true => exact ⟨hMono, by rintro _ ⟨⟩⟩
      | false => exact hMono
  | watchingPaused =>
      cases value with
      | true => exact ⟨hMono, by rintro _ ⟨⟩⟩
      | false => exact hMono
  | watchingGet => exact hMono
  | watchingSet => exact hMono
  | on hStage =>
      refine ⟨hMono.1, ?_⟩
      intro root hRoot
      rcases root_after hStage hRoot with hOld | hRooted
      · exact hMono.2 root hOld
      · exact
          owns_of_rooted hExec hApart hOwns.1 hStage hRooted
  | _ => trivial

/- The role behind a failed call owns what it knows. -/
theorem owns_failed
    {db : Db}
    {exn : Exn}
    (hOwns : role.Owns db)
    (hAllows : role.Allows op) :
    (role.after op (.error exn)).Owns db := by
  cases hAllows with
  | on hStage =>
      exact
        ⟨hOwns.1,
          fun root hRoot =>
            hOwns.2 root (root_failed hStage hRoot)⟩
  | _ => exact hOwns

end Calls

------------------------------------------------------------
-- Maintenance And Deletion
------------------------------------------------------------

section Changes

variable {db db' : Db}

/- Rows whose runs and messages are what they were evolve. -/
theorem evolves_of_same
    (hNext : db.nextId ≤ db'.nextId)
    (hRuns :
      ∀ runId threadId,
        db'.hasRun runId threadId ↔ db.hasRun runId threadId)
    (hSlots : db'.slots = db.slots) :
    Evolves db db' where
  nextId := hNext
  runs := fun runId threadId hRun =>
    Or.inl ((hRuns runId threadId).mp hRun)
  slots := by
    rw [hSlots]
    exact fun _ hMem => Or.inl hMem

/- Rows whose runs and messages are what they were are apart. -/
theorem apart_of_same
    (hApart : db.Apart)
    (hNext : db.nextId ≤ db'.nextId)
    (hRuns :
      ∀ runId threadId,
        db'.hasRun runId threadId ↔ db.hasRun runId threadId)
    (hSlots : db'.slots = db.slots) :
    db'.Apart := by
  refine
    apart_of_sublist hApart
      (evolves_of_same hNext hRuns hSlots) ?_ ?_
  · rw [hSlots]
  · intro slot _ runId hRun
    exact (hRuns runId slot.threadId).mpr hRun

/- An update that keeps the threads of the runs. -/
theorem hasRun_update
    {selects : RunId → Run → Bool}
    {change : Run → Run}
    (hRuns : db'.runs = db.runs.update selects change)
    (hChange : ∀ run, (change run).threadId = run.threadId)
    (runId : RunId)
    (threadId : ThreadId) :
    db'.hasRun runId threadId ↔ db.hasRun runId threadId := by
  rw [Db.hasRun, hRuns, Table.get?_update, Db.hasRun]
  cases db.runs.get? runId with
  | none => rfl
  | some run =>
      simp only [Option.map_some]
      split
      · rw [hChange]
      · rfl

/- The runs that are left when a thread is deleted. -/
theorem hasRun_withoutThread
    {threadId other : ThreadId}
    {runId : RunId} :
    (db.withoutThread threadId).hasRun runId other ↔
      db.hasRun runId other ∧ other ≠ threadId := by
  simp only [Db.hasRun, Db.withoutThread, Table.get?_remove]
  cases db.runs.get? runId with
  | none => simp
  | some run =>
      by_cases hEq : run.threadId = threadId
      · simp [Option.filter_some, hEq, eq_comm]
      · simp only [Option.filter_some, hEq, Bool.not_eq_true',
          beq_eq_false_iff_ne, ne_eq, not_false_eq_true,
          if_true, Option.map_some, Option.some_inj]
        constructor
        · rintro rfl
          exact ⟨rfl, hEq⟩
        · exact fun hBoth => hBoth.1

/- The messages that are left when a thread is deleted. -/
theorem slots_withoutThread (threadId : ThreadId) :
    (db.withoutThread threadId).slots =
      db.slots.filter fun slot => slot.threadId != threadId := by
  rw [Db.slots, Db.slots, List.filter_map]
  rfl

/- A deletion draws no id. -/
theorem evolves_withoutThread (threadId : ThreadId) :
    Evolves db (db.withoutThread threadId) where
  nextId := Nat.le_refl _
  runs := fun _ _ hRun =>
    Or.inl (hasRun_withoutThread.mp hRun).1
  slots := by
    rw [slots_withoutThread]
    exact fun _ hMem => Or.inl (List.mem_of_mem_filter hMem)

/- A deletion keeps the rows of the threads apart. -/
theorem apart_withoutThread
    (hApart : db.Apart)
    (threadId : ThreadId) :
    (db.withoutThread threadId).Apart := by
  refine
    apart_of_sublist hApart (evolves_withoutThread threadId)
      ?_ ?_
  · rw [slots_withoutThread]
    exact List.filter_sublist
  · intro slot hMem runId hRun
    rw [slots_withoutThread, List.mem_filter] at hMem
    exact
      hasRun_withoutThread.mpr
        ⟨hRun, bne_iff_ne.mp hMem.2⟩

/- Rows that are apart are kin. -/
theorem kin_of_apart
    (hApart : db.Apart) :
    db.Kin where
  runs := by
    intro message hMem runId run hRun hGet
    have hHas :=
      hApart.slotRuns message.slot (List.mem_map_of_mem hMem)
        runId hRun
    rw [Db.hasRun, hGet, Option.map_some,
      Option.some_inj] at hHas
    exact hHas
  parents := by
    intro message hMem parent hParent hId
    have hOwns :=
      hApart.slotParents message.slot
        (List.mem_map_of_mem hMem) parent.id hId
    exact
      hOwns.2 parent.slot (List.mem_map_of_mem hParent) rfl
  distinct := by
    have hDistinct := hApart.distinct
    rw [Db.slots, List.map_map] at hDistinct
    exact hDistinct

end Changes

------------------------------------------------------------
-- Systems
------------------------------------------------------------

/-
  Every task conforms to the protocol, the rows of the threads
  are apart, and every role owns what it knows.
-/
structure System.Sound (system : System) : Prop where
  conforms : system.Conforms
  apart : system.world.db.Apart
  owns :
    ∀ taskId task,
      system.tasks taskId = some task →
        task.phase.role.Owns system.world.db

/- A change of the rows beside the tasks. -/
theorem sound_of_evolves
    {system next : System}
    (hSound : system.Sound)
    (hTasks :
      ∀ taskId task,
        next.tasks taskId = some task →
          system.tasks taskId = some task)
    (hEvolves : Evolves system.world.db next.world.db)
    (hApart : next.world.db.Apart) :
    next.Sound where
  conforms taskId task hTask :=
    hSound.conforms taskId task (hTasks taskId task hTask)
  apart := hApart
  owns taskId task hTask :=
    Role.Owns.mono hEvolves
      (hSound.owns taskId task (hTasks taskId task hTask))

/- A change beside the tasks that keeps runs and messages. -/
theorem sound_of_same
    {system next : System}
    (hSound : system.Sound)
    (hTasks :
      ∀ taskId task,
        next.tasks taskId = some task →
          system.tasks taskId = some task)
    (hNext : system.world.db.nextId ≤ next.world.db.nextId)
    (hRuns :
      ∀ runId threadId,
        next.world.db.hasRun runId threadId ↔
          system.world.db.hasRun runId threadId)
    (hSlots : next.world.db.slots = system.world.db.slots) :
    next.Sound :=
  sound_of_evolves hSound hTasks
    (evolves_of_same hNext hRuns hSlots)
    (apart_of_same hSound.apart hNext hRuns hSlots)

/- A step of the server keeps the system sound. -/
theorem sound_systemStep
    {registry : Registry}
    {system next : System}
    {action : Action}
    (hSound : system.Sound)
    (hStep : system.step registry action = some next) :
    next.Sound := by
  have hSame :
      ∀ taskId task,
        system.tasks taskId = some task →
          system.tasks taskId = some task :=
    fun _ _ hTask => hTask
  cases action with
  | request taskId inst request =>
      have hConforms := conforms_step hSound.conforms hStep
      rcases of_request_step hStep with ⟨-, rfl⟩
      refine ⟨hConforms, hSound.apart, ?_⟩
      intro other task hTask
      simp only [System.setTask] at hTask
      split at hTask
      · cases hTask
        cases request <;> trivial
      · exact hSound.owns other task hTask
  | turn taskId fault =>
      have hConforms := conforms_step hSound.conforms hStep
      rcases of_turn_step hStep with
        ⟨task, task', world', hTask, hTurn, rfl⟩
      have hTurns :=
        (turns_of_turn (hSound.conforms taskId task hTask)
          hTurn).1
      have hOwns := hSound.owns taskId task hTask
      have hSystem :
          Evolves system.world.db world'.db ∧
            world'.db.Apart ∧
              task'.phase.role.Owns world'.db := by
        have hStay :
            Evolves system.world.db system.world.db :=
          evolves_of_same (Nat.le_refl _)
            (fun _ _ => Iff.rfl) rfl
        cases hTurns with
        | sent hProgram hRole =>
            exact ⟨hStay, hSound.apart, hOwns⟩
        | called hProgram hAllows hDrawn hExecutes =>
            cases hExecutes with
            | done hExec =>
                have hApart :=
                  apart_of_exec hExec hSound.apart hOwns
                    hAllows
                exact
                  ⟨evolves_of_exec hExec hSound.apart,
                    hApart,
                    owns_after hExec hSound.apart hApart
                      hOwns hAllows⟩
            | refused _ =>
                exact
                  ⟨hStay, hSound.apart,
                    owns_failed hOwns hAllows⟩
            | fault _ =>
                exact
                  ⟨hStay, hSound.apart,
                    owns_failed hOwns hAllows⟩
      rcases hSystem with ⟨hEvolves, hApart, hRole⟩
      refine ⟨hConforms, hApart, ?_⟩
      intro other task'' hOther
      simp only [System.setTask] at hOther
      split at hOther
      · cases hOther
        exact hRole
      · exact
          Role.Owns.mono hEvolves
            (hSound.owns other task'' hOther)
  | advance seconds =>
      cases hStep
      exact
        sound_of_same hSound hSame (Nat.le_refl _)
          (fun _ _ => Iff.rfl) rfl
  | heartbeat inst =>
      cases hStep
      exact
        sound_of_same hSound hSame (Nat.le_refl _)
          (hasRun_update (runs_heartbeat _ _) fun _ => rfl) rfl
  | reconcile stale =>
      cases hStep
      exact
        sound_of_same hSound hSame (Nat.le_refl _)
          (hasRun_update (runs_sweep _ _) fun _ => rfl)
          (slots_sweep _ _)
  | timeoutApprovals ttl =>
      cases hStep
      exact
        sound_of_same hSound hSame (Nat.le_refl _)
          (hasRun_update (runs_sweep _ _) fun _ => rfl)
          (slots_sweep _ _)
  | timeoutRuns ttl =>
      cases hStep
      exact
        sound_of_same hSound hSame (Nat.le_refl _)
          (hasRun_update (runs_sweep _ _) fun _ => rfl)
          (slots_sweep _ _)
  | collectEvents retention =>
      cases hStep
      exact
        sound_of_same hSound hSame (Nat.le_refl _)
          (fun _ _ => Iff.rfl) rfl
  | crash inst =>
      cases hStep
      refine
        sound_of_same hSound ?_ (Nat.le_refl _)
          (fun _ _ => Iff.rfl) rfl
      intro taskId task hTask
      rw [Option.filter_eq_some_iff] at hTask
      exact hTask.1

/- The system before the first request is sound. -/
theorem sound_initial : System.initial.Sound where
  conforms := nofun
  apart := by
    constructor <;>
      simp [System.initial, World.empty, Db.empty, Db.slots,
        Db.hasRun]
  owns := nofun

end LegalAgent
