import LegalAgent.Library.Tracking
import LegalAgent.Properties.LiveStream
import LegalAgent.Properties.Orphans
import LegalAgent.Store.Cascade

/-
  The sweep of orphan checkpoints.

  The tables of the checkpoints have no foreign key, so a write
  that is under way while its thread is deleted still lands.
  A thread is there before its checkpoint is ever written.  So
  the sweep deletes rows of deleted threads only, and all of
  them: the store is as if those writes had not landed.

  Key definitions include:
    * `gcOrphanCheckpoints`
    * `Db.withoutThreads`
    * `forkTracker`
    * `rootedOutline`
    * `Wrote`

  Key theorems include:
    * `sustains_rootedOutline`
    * `late_writes_swept`
-/

------------------------------------------------------------
-- The Sweep
------------------------------------------------------------

namespace LegalAgent

open Library

variable {Saved : Type}

/- Whether a saved row has its thread. -/
def Db.roots (db : Db) (row : ThreadId × Saved) : Bool :=
  (db.threads.get? row.1).isSome

/- Delete the rows of a table that have no thread. -/
def sweepOrphans
    (db : Db)
    (rows : List (ThreadId × Saved)) :
    Nat × List (ThreadId × Saved) :=
  (rows.countP fun row => !db.roots row, rows.filter db.roots)

/-
  Delete the saved rows that have no thread, and reply how
  many.  Without its checkpoints a thread has no graph state.
-/
def gcOrphanCheckpoints
    (store : Store Saved) :
    Nat × Store Saved :=
  let writes :=
    sweepOrphans store.db store.tables.checkpointWrites
  let blobs :=
    sweepOrphans store.db store.tables.checkpointBlobs
  let checkpoints :=
    sweepOrphans store.db store.tables.checkpoints
  (writes.1 + blobs.1 + checkpoints.1,
    { db :=
        { store.db with
          checkpoints := fun threadId =>
            if (store.db.threads.get? threadId).isSome then
              store.db.checkpoints threadId
            else
              [] }
      tables :=
        { store.tables with
          checkpointWrites := writes.2
          checkpointBlobs := blobs.2
          checkpoints := checkpoints.2 } })

/- The rows of the graph, in all of its tables. -/
def Tables.saved
    (tables : Tables Saved) :
    List (ThreadId × Saved) :=
  tables.checkpointWrites ++ tables.checkpointBlobs ++
    tables.checkpoints

/- The tables without the rows of some threads. -/
def Tables.spare
    (tables : Tables Saved)
    (threadIds : List ThreadId) :
    Tables Saved :=
  { tables with
    checkpointWrites :=
      tables.checkpointWrites.filter fun row =>
        !threadIds.contains row.1
    checkpointBlobs :=
      tables.checkpointBlobs.filter fun row =>
        !threadIds.contains row.1
    checkpoints :=
      tables.checkpoints.filter fun row =>
        !threadIds.contains row.1 }

/- The rows that deletions of threads leave, one by one. -/
def Db.withoutThreads
    (db : Db)
    (threadIds : List ThreadId) :
    Db :=
  threadIds.foldl Db.withoutThread db

/- Every checkpoint that is not empty has its thread. -/
def Db.Rooted (db : Db) : Prop :=
  ∀ threadId,
    db.checkpoints threadId ≠ [] →
      (db.threads.get? threadId).isSome = true

section Sweep

variable {db : Db} {threadIds : List ThreadId}

/- The threads that are left behind deletions. -/
theorem isSome_withoutThreads
    (db : Db)
    (threadIds : List ThreadId)
    (threadId : ThreadId) :
    ((db.withoutThreads threadIds).threads.get?
        threadId).isSome =
      ((db.threads.get? threadId).isSome &&
        !threadIds.contains threadId) := by
  induction threadIds generalizing db with
  | nil => simp [Db.withoutThreads]
  | cons deleted threadIds ih =>
      have hStep :=
        ih (db.withoutThread deleted)
      rw [Db.withoutThreads, List.foldl_cons,
        ← Db.withoutThreads, hStep]
      simp only [Db.withoutThread, Table.get?_remove,
        Table.get?_update, List.contains_cons, Bool.not_or]
      by_cases hEq : threadId = deleted
      · cases db.threads.get? threadId <;>
          simp [hEq, Option.filter_some]
      · have hNe : (threadId == deleted) = false :=
          beq_false_of_ne hEq
        cases db.threads.get? threadId <;>
          simp [hNe, Option.filter_some]

/- The checkpoints that are left behind deletions. -/
theorem checkpoints_withoutThreads
    (db : Db)
    (threadIds : List ThreadId)
    (threadId : ThreadId) :
    (db.withoutThreads threadIds).checkpoints threadId =
      if threadId ∈ threadIds then []
      else db.checkpoints threadId := by
  induction threadIds generalizing db with
  | nil => rfl
  | cons deleted threadIds ih =>
      rw [Db.withoutThreads, List.foldl_cons,
        ← Db.withoutThreads, ih (db.withoutThread deleted)]
      simp only [Db.withoutThread, List.mem_cons]
      by_cases hEq : threadId = deleted <;> simp [hEq]

/- A sweep of rows whose threads were there or are deleted. -/
theorem sweepOrphans_deleted
    {swept : Db}
    (hThreads :
      swept.threads = (db.withoutThreads threadIds).threads)
    {rows : List (ThreadId × Saved)}
    (hRows : ∀ row ∈ rows, db.roots row = true) :
    sweepOrphans swept rows =
      (rows.countP fun row => threadIds.contains row.1,
        rows.filter fun row => !threadIds.contains row.1) := by
  have hRoots :
      ∀ row ∈ rows,
        swept.roots row = !threadIds.contains row.1 := by
    intro row hRow
    have hHad := hRows row hRow
    rw [Db.roots] at hHad
    rw [Db.roots, hThreads, isSome_withoutThreads, hHad,
      Bool.true_and]
  refine Prod.ext ?_ (List.filter_congr hRoots)
  apply List.countP_congr
  intro row hRow
  rw [hRoots row hRow, Bool.not_not]

/-
  The sweep of late writes, where every checkpoint and every
  row had its thread before some threads were deleted.
-/
theorem gcOrphanCheckpoints_deleted
    (hRooted : db.Rooted)
    {tables : Tables Saved}
    (hRows : ∀ row ∈ tables.saved, db.roots row = true)
    {graph : ThreadId → List CheckpointMessage}
    (hGraph :
      ∀ threadId,
        threadId ∉ threadIds →
          graph threadId = db.checkpoints threadId) :
    gcOrphanCheckpoints
        ⟨{ db.withoutThreads threadIds with
            checkpoints := graph },
          tables⟩ =
      (tables.saved.countP fun row =>
          threadIds.contains row.1,
        ⟨db.withoutThreads threadIds, tables.spare threadIds⟩) := by
  have hSweep :
      ∀ rows : List (ThreadId × Saved),
        (∀ row ∈ rows, row ∈ tables.saved) →
          sweepOrphans
              { db.withoutThreads threadIds with
                checkpoints := graph }
              rows =
            (rows.countP fun row => threadIds.contains row.1,
              rows.filter fun row =>
                !threadIds.contains row.1) := by
    intro rows hSaved
    exact
      sweepOrphans_deleted rfl fun row hRow =>
        hRows row (hSaved row hRow)
  have hWrites := hSweep tables.checkpointWrites
    fun row hRow => by simp [Tables.saved, hRow]
  have hBlobs := hSweep tables.checkpointBlobs
    fun row hRow => by simp [Tables.saved, hRow]
  have hCheckpoints := hSweep tables.checkpoints
    fun row hRow => by simp [Tables.saved, hRow]
  have hLeft :
      (fun threadId =>
          if ((db.withoutThreads threadIds).threads.get?
              threadId).isSome then
            graph threadId
          else
            []) =
        (db.withoutThreads threadIds).checkpoints := by
    funext threadId
    rw [isSome_withoutThreads, checkpoints_withoutThreads]
    by_cases hMem : threadId ∈ threadIds
    · simp [hMem]
    · rw [hGraph threadId hMem, if_neg hMem]
      by_cases hEmpty : db.checkpoints threadId = []
      · simp [hEmpty]
      · simp [hRooted threadId hEmpty, hMem]
  simp only [gcOrphanCheckpoints, hWrites, hBlobs,
    hCheckpoints, hLeft, Tables.spare, Tables.saved,
    List.countP_append]

end Sweep

------------------------------------------------------------
-- Forks
------------------------------------------------------------

/- The thread whose checkpoint a fork seeds. -/
def Op.seeds? : Op → Option ThreadId
| .forkState threadId _ => some threadId
| _ => none

/- Whether a call makes a thread of a fork or seeds it. -/
def Op.forks : Op → Bool
| .forkThread .. | .forkState .. => true
| _ => false

/- A task seeds only threads that it forked before. -/
def forkTracker :
    Tracker Op Op.Reply Exn (List ThreadId) where
  allows forked op :=
    ∀ threadId, op.seeds? = some threadId → threadId ∈ forked
  after forked op reply :=
    match op, reply with
    | .forkThread .., .ok threadId => threadId :: forked
    | _, _ => forked

/- A driver that seeds what it forked. -/
abbrev Driver.Seeds
    {α : Type}
    (program : Driver α)
    (forked : List ThreadId) :
    Prop :=
  Gen.Tracked forkTracker program forked fun _ _ => True

section Forks

variable {α : Type} {forked : List ThreadId}
variable {op : Op}

/- A call that forks nothing is allowed and not recorded. -/
theorem tracks_of_unforked
    (hForks : op.forks = false)
    (forked : List ThreadId) :
    forkTracker.allows forked op ∧
      ∀ reply, forkTracker.after forked op reply = forked := by
  constructor
  · intro threadId hSeeds
    cases op with
    | forkState => cases hForks
    | _ => cases hSeeds
  · intro reply
    cases op <;> first | rfl | cases hForks

/- The rule of a call that forks nothing. -/
theorem seeds_call
    {next : op.Reply → Driver α}
    (hForks : op.forks = false)
    (hNext : ∀ value, (next value).Seeds forked) :
    (call op >>= next).Seeds forked := by
  rcases tracks_of_unforked hForks forked with
    ⟨hAllows, hAfter⟩
  refine
    Gen.tracked_perform_bind hAllows (fun value => ?_)
      fun _ => trivial
  rw [hAfter]
  exact hNext value

/- A fork seeds the thread that it makes. -/
theorem seeds_fork
    (parentId : ThreadId)
    (forkPoint : MessageId) :
    (RunService.fork parentId forkPoint).Seeds [] := by
  refine Gen.tracked_perform_bind ?_ ?_ fun _ => trivial
  · intro threadId hSeeds
    cases hSeeds
  · intro threadId
    change Driver.Seeds _ [threadId]
    refine seeds_call rfl ?_
    intro messages
    refine Gen.tracked_perform_bind ?_ ?_ fun _ => trivial
    · rintro _ ⟨⟩
      exact List.mem_singleton_self _
    · intro seeded
      change Driver.Seeds _ [threadId]
      dsimp only
      split
      · exact seeds_call rfl fun _ => trivial
      · exact trivial

/- A page of a log makes no call. -/
theorem seeds_sendPage
    {cursor : RunManager.StreamCursor}
    (events : List RunEvent) :
    Gen.Tracked forkTracker (RunManager.sendPage cursor events)
      forked fun _ forked' => forked' = forked := by
  induction events generalizing cursor with
  | nil => exact rfl
  | cons event events ih =>
      rw [RunManager.sendPage]
      refine Gen.tracked_emit_bind ?_ fun _ => rfl
      split
      · exact rfl
      · exact ih

/- A stream forks nothing. -/
theorem seeds_stream
    (runId : RunId)
    (polls : Nat)
    (cursor : Option Nat) :
    (RunManager.stream runId polls cursor).Seeds forked := by
  induction polls generalizing cursor with
  | zero => exact trivial
  | succ polls ih =>
      rw [RunManager.stream]
      refine seeds_call rfl ?_
      intro rows
      refine
        Gen.tracked_bind (seeds_sendPage rows) ?_
          fun _ _ _ => trivial
      rintro sent forked' rfl
      split
      · exact trivial
      · split
        · refine seeds_call rfl ?_
          intro run
          split
          · split
            · intro reply
              exact trivial
            · exact ih sent.last
          · exact ih sent.last
        · exact ih sent.last

/- A request that concerns no run seeds what it forks. -/
theorem seeds_request
    (registry : Registry)
    {request : Request}
    (hRole : request.phase.role = .aside) :
    (request.program registry).Seeds [] := by
  cases request with
  | createThread title => exact seeds_call rfl fun _ => trivial
  | fork parentId forkPoint => exact seeds_fork _ _
  | stream runId polls cursor => exact seeds_stream _ _ _
  | start => cases hRole
  | resume => cases hRole
  | interrupt => cases hRole

end Forks

------------------------------------------------------------
-- Rooted Checkpoints
------------------------------------------------------------

/-
  The checkpoint that a call writes is that of its job's
  thread, or the call seeds a fork.
-/
theorem graph_of_allows
    {role : Role}
    {op : Op}
    {threadId : ThreadId}
    (hAllows : role.Allows op)
    (hGraph : op.graph? = some threadId) :
    (role = .aside ∧ op.seeds? = some threadId) ∨
      ∃ job, role.job? = some job ∧ job.thread = threadId := by
  cases hAllows with
  | asideSeed => exact Or.inl ⟨rfl, hGraph⟩
  | on hStage =>
      right
      refine ⟨_, rfl, ?_⟩
      cases hStage <;> cases hGraph <;> rfl
  | _ => cases hGraph

/- No call puts a task aside. -/
theorem aside_of_after
    {role : Role}
    {op : Op}
    {reply : Except Exn op.Reply}
    (hAside : role.after op reply = .aside) :
    role = .aside := by
  cases role with
  | aside => rfl
  | fresh =>
      simp only [Role.after] at hAside
      split at hAside <;> cases hAside
  | looking =>
      simp only [Role.after] at hAside
      split at hAside <;> cases hAside
  | watching =>
      simp only [Role.after] at hAside
      split at hAside <;> cases hAside
  | on job stage => cases hAside

/- What a fork made is there. -/
theorem isSome_forked
    {inst : InstanceId}
    {parentId : ThreadId}
    {forkPoint : MessageId}
    {world world' : World}
    {threadId : ThreadId}
    (hExec :
      exec inst (.forkThread parentId forkPoint) world =
        (.ok threadId, world')) :
    (world'.db.threads.get? threadId).isSome = true := by
  rcases of_forkThread (statement_of_onDb hExec) with
    ⟨rfl, message, -, -, -, hDb⟩
  rw [hDb]
  cases hKey : world.db.threads.get? world.db.nextId with
  | some old =>
      rw [Table.insert_of_get? hKey, hKey]
      rfl
  | none =>
      rw [Table.get?_insert hKey, if_pos rfl]
      rfl

/- What a task forked is there, and it seeds nothing else. -/
structure Task.Seeding (task : Task) (db : Db) : Prop where
  seeds :
    ∃ forked,
      (∀ threadId ∈ forked,
        (db.threads.get? threadId).isSome = true) ∧
      task.program.Seeds forked

/-
  Every checkpoint has its thread, and the tasks that concern
  no run seed the threads that they forked.
-/
def rootedOutline : Outline World Task where
  globally world := world.db.Rooted
  locally world task :=
    task.phase.role = .aside → task.Seeding world.db
  mutually _ _ := True

/- A task that seeds goes on so when no thread goes. -/
theorem Task.Seeding.mono
    {task : Task}
    {db db' : Db}
    (hSeeding : task.Seeding db)
    (hThreads :
      ∀ threadId,
        (db.threads.get? threadId).isSome = true →
          (db'.threads.get? threadId).isSome = true) :
    task.Seeding db' := by
  rcases hSeeding with ⟨forked, hForked, hSeeds⟩
  exact
    ⟨forked,
      fun threadId hMem => hThreads threadId (hForked _ hMem),
      hSeeds⟩

/- A task goes on behind a call to seed what it forked. -/
theorem Task.Seeding.turn
    {task : Task}
    {db db' : Db}
    {op : Op}
    {reply : Except Exn op.Reply}
    {next : Except Exn op.Reply → Driver Unit}
    (hSeeding : task.Seeding db)
    (hProgram : task.program = .call op next)
    (hAfter :
      ∀ forked,
        (∀ threadId ∈ forked,
          (db.threads.get? threadId).isSome = true) →
        ∀ threadId ∈ forkTracker.after forked op reply,
          (db'.threads.get? threadId).isSome = true)
    (phase : Phase) :
    Task.Seeding
      { task with program := next reply, phase := phase }
      db' := by
  rcases hSeeding with ⟨forked, hForked, hTracked⟩
  rw [hProgram] at hTracked
  exact ⟨_, hAfter forked hForked, hTracked.2 reply⟩

/- What leaves the threads and the checkpoints keeps both. -/
theorem bears_of_threads
    {world world' : World}
    (hThreads : world'.db.threads = world.db.threads)
    (hGraph : world'.db.checkpoints = world.db.checkpoints)
    (hRooted : world.db.Rooted) :
    rootedOutline.Bears world world' where
  globally := by
    intro threadId hSome
    rw [hGraph] at hSome
    rw [hThreads]
    exact hRooted threadId hSome
  locally := by
    intro task hSeeding hRole
    apply (hSeeding hRole).mono
    intro threadId hThread
    rwa [hThreads]

section Runs

variable {registry : Registry}
variable {allowed : System → Action → Prop}
variable {system : System} {taskId : TaskId}
variable {fault : Bool} {task : Task} {op : Op}
variable {reply : Except Exn op.Reply} {world' : World}

/- The threads of the runs of a reachable server are there. -/
theorem housed_of_reachable
    (hReachable : Reachable registry allowed system) :
    system.world.db.Housed :=
  preserved_of_reachable (preserves_of_kept keeps_housed)
    (fun _ _ hRun => by cases hRun) hReachable

/- The thread whose checkpoint a task is about to write. -/
theorem thread_of_graph
    (hReachable : Reachable registry allowed system)
    (hTask : system.tasks taskId = some task)
    (hSeeding :
      task.phase.role = .aside → task.Seeding system.world.db)
    {next : Except Exn op.Reply → Driver Unit}
    (hProgram : task.program = .call op next)
    (hAllows : task.phase.role.Allows op)
    {threadId : ThreadId}
    (hGraph : op.graph? = some threadId) :
    (system.world.db.threads.get? threadId).isSome = true := by
  rcases graph_of_allows hAllows hGraph with
    ⟨hAside, hSeeds⟩ | ⟨job, hJob, rfl⟩
  · rcases hSeeding hAside with ⟨forked, hForked, hTracked⟩
    rw [hProgram] at hTracked
    exact hForked threadId (hTracked.1 threadId hSeeds)
  · have hRun :=
      known_of_job hJob (known_of_reachable hReachable hTask)
    exact housed_of_reachable hReachable _ _ hRun

/- A call records no thread that is not there. -/
theorem forked_after
    {inst : InstanceId}
    {world : World}
    {value : op.Reply}
    (hExec : exec inst op world = (.ok value, world'))
    {forked : List ThreadId}
    (hForked :
      ∀ threadId ∈ forked,
        (world.db.threads.get? threadId).isSome = true) :
    ∀ threadId ∈ forkTracker.after forked op (.ok value),
      (world'.db.threads.get? threadId).isSome = true := by
  intro threadId hMem
  have hKept :
      threadId ∈ forked →
        (world'.db.threads.get? threadId).isSome = true :=
    fun hOld =>
      isSome_thread_of_exec hExec (hForked threadId hOld)
  cases op with
  | forkThread parentId forkPoint =>
      rcases List.mem_cons.mp hMem with rfl | hOld
      · exact isSome_forked hExec
      · exact hKept hOld
  | _ => exact hKept hMem

/- A call leaves every checkpoint rooted. -/
theorem checkpoints_rooted_of_exec
    {inst : InstanceId}
    {world : World}
    {value : op.Reply}
    (hExec : exec inst op world = (.ok value, world'))
    (hRooted : world.db.Rooted)
    (hGraph :
      ∀ threadId,
        op.graph? = some threadId →
          (world.db.threads.get? threadId).isSome = true) :
    world'.db.Rooted := by
  intro threadId hSome
  apply isSome_thread_of_exec hExec
  by_cases hOwn : op.graph? = some threadId
  · exact hGraph threadId hOwn
  · rw [checkpoints_of_exec hExec hOwn] at hSome
    exact hRooted threadId hSome

/- Every step leaves the checkpoints rooted. -/
theorem sustains_rootedOutline :
    Sustains registry allowed rootedOutline where
  request := by
    intro system taskId inst request _ _ hRole
    exact
      ⟨[], fun _ hMem => absurd hMem List.not_mem_nil,
        seeds_request registry hRole⟩
  alone _ _ _ := ⟨trivial, trivial⟩
  call := by
    intro system taskId fault task op reply world' next hCall
      hProgram hHolds
    have hSeeding := hHolds.locally taskId task hCall.present
    apply keeps_of_apart (fun _ _ => trivial) hCall hHolds
    · rintro exn rfl hRole
      refine
        (hSeeding (aside_of_after hRole)).turn hProgram ?_ _
      intro forked hForked threadId hMem
      apply hForked
      cases op <;> exact hMem
    · rintro value rfl rfl hExec
      refine
        ⟨checkpoints_rooted_of_exec hExec hHolds.globally ?_,
          fun hRole =>
            (hSeeding (aside_of_after hRole)).turn hProgram
              (fun forked => forked_after hExec) _,
          ?_⟩
      · intro threadId
        exact
          thread_of_graph hCall.reachable hCall.present
            hSeeding hProgram hCall.allows
      · intro other hOther hRole
        exact
          (hOther hRole).mono fun threadId =>
            isSome_thread_of_exec hExec
  sent := by
    intro system taskId task event next _ hTask hProgram hRole
      hHolds
    rcases hHolds.locally taskId task hTask hRole with
      ⟨forked, hForked, hTracked⟩
    rw [hProgram] at hTracked
    refine
      ⟨hHolds.globally,
        fun _ => ⟨forked, hForked, hTracked _⟩, ?_⟩
    intro otherId other _ _ hOther _
    exact ⟨hOther, trivial, trivial⟩
  advance := by
    intro system seconds _ _ hHolds
    exact bears_of_threads rfl rfl hHolds.globally
  heartbeat := by
    intro system inst _ _ hHolds
    exact bears_of_threads rfl rfl hHolds.globally
  sweep := by
    intro system action selects _ _ _ hHolds
    exact bears_of_threads rfl rfl hHolds.globally
  collect := by
    intro system retention _ _ hHolds
    exact bears_of_threads rfl rfl hHolds.globally
  crash := by
    intro system inst _ hHolds
    exact ⟨hHolds.globally, fun task _ hTask => hTask⟩

/- The checkpoints of a reachable server are rooted. -/
theorem rooted_of_reachable
    (hReachable : Reachable registry allowed system) :
    rootedOutline.Holds system.world system.tasks :=
  holds_of_reachable sustains_rootedOutline
    (fun _ hSome => absurd rfl hSome) hReachable

/- Threads stay. -/
theorem keeps_thread (threadId : ThreadId) :
    KeptInDb registry allowed fun db =>
      (db.threads.get? threadId).isSome = true where
  exec _ hExec hSome := isSome_thread_of_exec hExec hSome
  advance _ _ hSome := hSome
  heartbeat _ _ hSome := hSome
  sweep _ _ hSome := hSome
  collect _ _ hSome := hSome

/-
  A thread whose checkpoint a task of a run came to write,
  whether or not the write has landed.
-/
structure Wrote
    (registry : Registry)
    (allowed : System → Action → Prop)
    (threadId : ThreadId)
    (later : System) :
    Prop where
  writer :
    ∃ system taskId task op,
      Reachable registry allowed system ∧
        Execution (System.step registry) allowed system later ∧
          system.tasks taskId = some task ∧
            task.op? = some op ∧ op.graph? = some threadId

/- A thread is there before its checkpoint is written. -/
theorem thread_of_wrote
    {threadId : ThreadId}
    (hWrote : Wrote registry allowed threadId system) :
    (system.world.db.threads.get? threadId).isSome = true := by
  rcases hWrote with
    ⟨first, taskId, task, op, hReachable, hLater, hTask, hOp,
      hGraph⟩
  apply
    preserved_of_execution
      (preserves_of_kept (keeps_thread threadId)) hReachable
      ?_ hLater
  have hSeeding :=
    (rooted_of_reachable hReachable).locally taskId task hTask
  have hConforms :=
    conforms_of_reachable hReachable taskId task hTask
  rcases task with ⟨inst, request, program, phase, sent⟩
  rcases hConforms with ⟨quiet, -, hFollows⟩
  cases program with
  | ret result => cases hOp
  | yield event next => cases hOp
  | call other next =>
      cases hOp
      exact
        thread_of_graph hReachable hTask hSeeding rfl
          hFollows.1.1 hGraph

/-
  Threads are deleted while writes of their checkpoints are
  under way, and the writes land after that.  The sweep deletes
  the late rows and no others, and leaves the store that the
  deletions left.
-/
theorem late_writes_swept
    (hReachable : Reachable registry allowed system)
    {tables : Tables Saved}
    (hWritten :
      ∀ row ∈ tables.saved,
        Wrote registry allowed row.1 system)
    {deleted : List ThreadId}
    {graph : ThreadId → List CheckpointMessage}
    (hLate :
      ∀ threadId,
        threadId ∉ deleted →
          graph threadId =
            system.world.db.checkpoints threadId) :
    gcOrphanCheckpoints
        ⟨{ system.world.db.withoutThreads deleted with
            checkpoints := graph },
          tables⟩ =
      (tables.saved.countP fun row => deleted.contains row.1,
        ⟨system.world.db.withoutThreads deleted,
          tables.spare deleted⟩) :=
  gcOrphanCheckpoints_deleted
    (rooted_of_reachable hReachable).globally
    (fun row hRow => thread_of_wrote (hWritten row hRow)) hLate

end Runs

/- Two runs that are about to write their checkpoints. -/
def writingRuns : List Action :=
  [.request 0 0 (.createThread none)] ++ turns 0 1 ++
    [.request 1 0 (.createThread none)] ++ turns 1 1 ++
    [.request 2 0
      (.start 0 "질문".toList none
        [.agent (.str "답".toList) []])] ++
    turns 2 8 ++
    [.request 3 0
      (.start 1 "질문".toList none
        [.agent (.str "답".toList) []])] ++
    turns 3 8

/- The rows that both runs write in the end. -/
def lateTables : Tables Unit where
  summaries := []
  checkpointWrites := [(0, ()), (1, ())]
  checkpointBlobs := [(0, ())]
  checkpoints := [(1, ()), (0, ())]

/-
  The first thread is deleted and its question lands in its
  checkpoint after that; its three rows are swept.
-/
theorem late_writes_swept_first :
    ∃ system,
      execute (System.step .single) writingRuns .initial =
          some system ∧
        (system.world.db.threads.get? 0).isSome = true ∧
          gcOrphanCheckpoints
              ⟨{ system.world.db.withoutThreads [0] with
                  checkpoints := fun threadId =>
                    if threadId = 0 then
                      [.human (.str "질문".toList)]
                    else
                      system.world.db.checkpoints threadId },
                lateTables⟩ =
            (3,
              ⟨system.world.db.withoutThreads [0],
                { summaries := []
                  checkpointWrites := [(1, ())]
                  checkpointBlobs := []
                  checkpoints := [(1, ())] }⟩) := by
  rcases
      exists_of_execute
        (show
          (execute (System.step .single) writingRuns
                .initial).map
              (fun system =>
                ((system.world.db.threads.get? 0).isSome,
                  [2, 3].map fun taskId =>
                    (system.tasks taskId).bind fun task =>
                      task.op?.bind Op.graph?)) =
            some (true, [some 0, some 1]) by
          decide +kernel) with
    ⟨system, hSystem, hFound⟩
  have hReachable :
      Reachable .single (fun _ _ => True) system :=
    execution_of_execute hSystem
  simp only [Prod.mk.injEq, List.map_cons, List.map_nil,
    List.cons.injEq, Option.bind_eq_some_iff] at hFound
  rcases hFound with
    ⟨hThread, ⟨task, hTask, op, hOp, hGraph⟩,
      ⟨task', hTask', op', hOp', hGraph'⟩, -⟩
  have hFirst : Wrote .single (fun _ _ => True) 0 system :=
    ⟨system, 2, task, op, hReachable, .refl, hTask, hOp, hGraph⟩
  have hOther : Wrote .single (fun _ _ => True) 1 system :=
    ⟨system, 3, task', op', hReachable, .refl, hTask', hOp',
      hGraph'⟩
  refine ⟨system, hSystem, hThread, ?_⟩
  apply late_writes_swept hReachable
  · intro row hRow
    simp only [Tables.saved, lateTables, List.cons_append,
      List.nil_append, List.mem_cons, List.not_mem_nil,
      or_false] at hRow
    rcases hRow with rfl | rfl | rfl | rfl | rfl
    · exact hFirst
    · exact hOther
    · exact hFirst
    · exact hOther
    · exact hFirst
  · intro threadId hMem
    exact if_neg fun hEq => hMem (by simp [hEq])

end LegalAgent
