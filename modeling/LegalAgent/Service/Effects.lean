import LegalAgent.Service.Operation
import LegalAgent.Store.Effects

/-
  What executed calls change.

  Each part of the database is written by few calls.  For each
  part there is one inductive that lists how a successful call
  may change it, and one theorem that says that every call
  does.

  Key definitions include:
    * `Frames`
    * `ChangesRuns`
    * `Slot`
    * `ChangesSlots`

  Key theorems include:
    * `frames_of_exec`
    * `changesRuns_of_exec`
    * `changesSlots_of_exec`
    * `lastSeq_of_exec`
    * `memory_of_exec`
-/

------------------------------------------------------------
-- Statements Of Calls
------------------------------------------------------------

namespace LegalAgent

open Library

/- A call of the database that succeeds is a statement. -/
theorem statement_of_onDb
    {α : Type}
    {world world' : World}
    {statement : Statement α}
    {value : α}
    (hExec : world.onDb statement = (.ok value, world')) :
    statement world.db = .ok (value, world'.db) := by
  simp only [World.onDb, Statement.commit] at hExec
  split at hExec
  · rename_i value' db' hStatement
    cases hExec
    exact hStatement
  · cases hExec

------------------------------------------------------------
-- Frames
------------------------------------------------------------

/- Whether a call with its reply changed the runs. -/
def Op.wroteRuns : (op : Op) → op.Reply → Bool
| .openRun .., _ => true
| .setRunStatus .., _ => true
| .tryTransition .., won => won
| .commitAgentAnswer .., row => row.isSome
| _, _ => false

/- Whether a call with its reply changed the messages. -/
def Op.wroteMessages : (op : Op) → op.Reply → Bool
| .addMessage .., _ => true
| .commitAgentAnswer .., row => row.isSome
| .setToolResult .., _ => true
| .markPartialApproval .., _ => true
| .resolveOrphanToolCells .., _ => true
| .setPendingApproval .., _ => true
| _, _ => false

/- Whether a call with its reply changed a checkpoint. -/
def Op.wroteCheckpoint : (op : Op) → op.Reply → Bool
| .graphInput .., _ => true
| .graphNext _ _ (some (.agent ..)), reply => reply.isSome
| .graphNext _ _ (some (.tools _)), reply => reply.isSome
| .rejectPending _, _ => true
| .clearInterruptedTools _, _ => true
| .approvePartial .., _ => true
| .forkState .., _ => true
| _, _ => false

/- Whether a call logs an event. -/
def Op.logs : Op → Bool
| .appendRunEvent .. => true
| _ => false

/- Whether a call with its reply changed the threads. -/
def Op.wroteThreads : (op : Op) → op.Reply → Bool
| .createThread .., _ => true
| .forkThread .., _ => true
| .setThreadTitleIfEmpty .., _ => true
| .nextSeq .., _ => true
| .addMessage .., _ => true
| .commitAgentAnswer .., row => row.isSome
| _, _ => false

/- What a successful call does not change. -/
structure Frames
    (db db' : Db)
    (op : Op)
    (value : op.Reply) :
    Prop where
  runs : op.wroteRuns value = false → db'.runs = db.runs
  messages :
    op.wroteMessages value = false →
      db'.messages = db.messages
  links :
    op.wroteMessages value = false →
      db'.messageCitations = db.messageCitations
  log : op.logs = false → db'.runEvents = db.runEvents
  checkpoints :
    op.wroteCheckpoint value = false →
      db'.checkpoints = db.checkpoints
  threads :
    op.wroteThreads value = false → db'.threads = db.threads
  nextId : db.nextId ≤ db'.nextId
  now : db'.now = db.now

/- A call that changes nothing has its frame. -/
theorem frames_refl
    (db : Db)
    (op : Op)
    (value : op.Reply) :
    Frames db db op value := by
  constructor <;> simp

/- Every successful call has its frame. -/
theorem frames_of_exec
    {inst : InstanceId}
    {op : Op}
    {world world' : World}
    {value : op.Reply}
    (hExec : exec inst op world = (.ok value, world')) :
    Frames world.db world'.db op value := by
  cases op with
  | openRun threadId model =>
      rcases of_openRun (statement_of_onDb hExec) with
        ⟨-, -, -, hDb⟩
      rw [hDb]
      constructor <;>
        first | rfl | exact Nat.le_succ _ | exact fun _ => rfl |
          rintro ⟨⟩
  | setRunStatus runId status ended =>
      rcases of_setRunStatus (statement_of_onDb hExec) with
        ⟨-, hDb⟩ | ⟨run, -, -, hDb⟩
      · rw [hDb]
        exact frames_refl _ _ _
      · rw [hDb]
        constructor <;>
          first | rfl | exact fun _ => rfl | rintro ⟨⟩
  | tryTransition runId fromStatus toStatus ended =>
      rcases of_tryTransition (statement_of_onDb hExec) with
        ⟨rfl, -, hDb⟩ | ⟨rfl, run, -, -, -, hDb⟩
      · rw [hDb]
        exact frames_refl _ _ _
      · rw [hDb]
        constructor <;>
          first | rfl | exact fun _ => rfl | rintro ⟨⟩
  | commitAgentAnswer threadId runId contentMd citationIds
      parentId model =>
      rcases of_commitAgentAnswer (statement_of_onDb hExec) with
        ⟨rfl, -, hDb⟩ |
          ⟨messageId, seq, links, db₁, rfl, -, hInsert, hDb⟩
      · rw [hDb]
        exact frames_refl _ _ _
      · rcases of_insertMessage hInsert with
          ⟨-, thread, db₂, -, -, hNext, -, rfl⟩
        rcases of_nextSeq hNext with ⟨_, -, -, rfl⟩
        rw [hDb]
        constructor <;>
          first | rfl | exact Nat.le_succ _ |
            exact fun _ => rfl | rintro ⟨⟩
  | createThread title =>
      cases hExec
      constructor <;>
        first | rfl | exact Nat.le_succ _ | exact fun _ => rfl |
          rintro ⟨⟩
  | nextSeq threadId =>
      rcases of_nextSeq (statement_of_onDb hExec) with
        ⟨_, -, -, hDb⟩
      rw [hDb]
      constructor <;> first | rfl | exact fun _ => rfl | rintro ⟨⟩
  | addMessage threadId new =>
      rcases value with ⟨messageId, seq⟩
      rcases of_insertMessage (statement_of_onDb hExec) with
        ⟨-, thread, db₁, -, -, hNext, -, hDb⟩
      rcases of_nextSeq hNext with ⟨_, -, -, rfl⟩
      rw [hDb]
      constructor <;>
        first | rfl | exact Nat.le_succ _ | exact fun _ => rfl |
          rintro ⟨⟩
  | forkThread parentId forkPoint =>
      rcases of_forkThread (statement_of_onDb hExec) with
        ⟨-, message, -, -, -, hDb⟩
      rw [hDb]
      constructor <;>
        first | rfl | exact Nat.le_succ _ | exact fun _ => rfl |
          rintro ⟨⟩
  | graphNext threadId state step =>
      have hNext :
          graphNext threadId state step world.db =
            .ok (value, world'.db) :=
        statement_of_onDb hExec
      generalize world'.db = db' at hNext ⊢
      unfold graphNext at hNext
      repeat' split at hNext
      all_goals cases hNext
      all_goals
        constructor <;>
          first | rfl | exact Nat.le_succ _ |
            exact fun _ => rfl | rintro ⟨⟩
  | approvePartial threadId approved =>
      have hApprove :
          approvePartial threadId approved world.db =
            .ok (value, world'.db) :=
        statement_of_onDb hExec
      generalize world'.db = db' at hApprove ⊢
      unfold approvePartial at hApprove
      dsimp only at hApprove
      repeat' split at hApprove
      all_goals cases hApprove
      all_goals
        constructor <;>
          first | rfl | exact fun _ => rfl | rintro ⟨⟩
  | appendRunEvent threadId runId event =>
      cases hExec
      change
        Frames _ (world.db.appendEvent threadId runId event) _ _
      unfold Db.appendEvent
      split
      · exact frames_refl _ _ _
      · constructor <;>
          first | rfl | exact fun _ => rfl | rintro ⟨⟩
  | cancelsSetdefault runId =>
      simp only [exec] at hExec
      split at hExec <;> cases hExec
      all_goals exact frames_refl _ _ _
  | _ =>
      cases hExec
      constructor <;> first | rfl | exact fun _ => rfl | rintro ⟨⟩

------------------------------------------------------------
-- Runs
------------------------------------------------------------

/- How a successful call changes the runs. -/
inductive ChangesRuns
    (db db' : Db) :
    (op : Op) → op.Reply → Prop where
  | opened {threadId model}
      (hThread : (db.threads.get? threadId).isSome = true)
      (hAlone :
        db.activeElsewhere threadId db.nextId = false)
      (hRuns :
        db'.runs =
          db.runs.insert db.nextId
            { threadId := threadId
              status := .running
              startedAt := db.now
              endedAt := none
              heartbeatAt := db.now
              model := model }) :
      ChangesRuns db db' (.openRun threadId model) db.nextId
  | set {runId status ended run}
      (hRun : db.runs.get? runId = some run)
      (hAlone :
        status.active = true →
          db.activeElsewhere run.threadId runId = false)
      (hRuns :
        db'.runs = (db.writeStatus runId status ended).runs) :
      ChangesRuns db db' (.setRunStatus runId status ended) ()
  | missing {runId status ended}
      (hRun : db.runs.get? runId = none)
      (hRuns : db'.runs = db.runs) :
      ChangesRuns db db' (.setRunStatus runId status ended) ()
  | moved {runId fromStatus toStatus ended run}
      (hRun : db.runs.get? runId = some run)
      (hStatus : run.status = fromStatus)
      (hAlone :
        toStatus.active = true →
          db.activeElsewhere run.threadId runId = false)
      (hRuns :
        db'.runs =
          (db.writeStatus runId toStatus ended).runs) :
      ChangesRuns db db'
        (.tryTransition runId fromStatus toStatus ended) true
  | committed {threadId runId contentMd citationIds parentId
      model row run}
      (hRun : db.runs.get? runId = some run)
      (hStatus : run.status = .running)
      (hRuns :
        db'.runs =
          (db.writeStatus runId .completed true).runs) :
      ChangesRuns db db'
        (.commitAgentAnswer threadId runId contentMd
          citationIds parentId model)
        (some row)
  | kept {op value}
      (hKept : op.wroteRuns value = false)
      (hRuns : db'.runs = db.runs) :
      ChangesRuns db db' op value

/- An inserted message leaves the runs. -/
theorem runs_of_insertMessage
    {threadId : ThreadId}
    {new : NewMessage}
    {db db' : Db}
    {row : MessageId × Nat}
    (hInsert :
      insertMessage threadId new db = .ok (row, db')) :
    db'.runs = db.runs := by
  rcases row with ⟨messageId, seq⟩
  rcases of_insertMessage hInsert with
    ⟨-, thread, db₁, -, -, hNext, -, rfl⟩
  rcases of_nextSeq hNext with ⟨_, -, -, rfl⟩
  rfl

/- Each successful call changes the runs in one of the ways. -/
theorem changesRuns_of_exec
    {inst : InstanceId}
    {op : Op}
    {world world' : World}
    {value : op.Reply}
    (hExec : exec inst op world = (.ok value, world')) :
    ChangesRuns world.db world'.db op value := by
  cases op with
  | openRun threadId model =>
      rcases of_openRun (statement_of_onDb hExec) with
        ⟨rfl, hThread, hAlone, hDb⟩
      exact .opened hThread hAlone (congrArg Db.runs hDb)
  | setRunStatus runId status ended =>
      rcases of_setRunStatus (statement_of_onDb hExec) with
        ⟨hRun, hDb⟩ | ⟨run, hRun, hAlone, hDb⟩
      · exact .missing hRun (congrArg Db.runs hDb)
      · exact .set hRun hAlone (congrArg Db.runs hDb)
  | tryTransition runId fromStatus toStatus ended =>
      rcases of_tryTransition (statement_of_onDb hExec) with
        ⟨rfl, -, hDb⟩ | ⟨rfl, run, hRun, hStatus, hAlone, hDb⟩
      · exact .kept rfl (congrArg Db.runs hDb)
      · exact .moved hRun hStatus hAlone (congrArg Db.runs hDb)
  | commitAgentAnswer threadId runId contentMd citationIds
      parentId model =>
      rcases of_commitAgentAnswer (statement_of_onDb hExec) with
        ⟨rfl, -, hDb⟩ |
          ⟨messageId, seq, links, db₁, rfl, hStatus, hInsert,
            hDb⟩
      · exact .kept rfl (congrArg Db.runs hDb)
      · rcases Option.map_eq_some_iff.mp hStatus with
          ⟨run, hRun, hRunning⟩
        refine .committed hRun hRunning ?_
        have hRuns := runs_of_insertMessage hInsert
        rw [hDb]
        exact hRuns
  | _ =>
      exact .kept rfl ((frames_of_exec hExec).runs rfl)

------------------------------------------------------------
-- Slots
------------------------------------------------------------

/- What no call changes of a message. -/
structure Slot where
  id : MessageId
  threadId : ThreadId
  runId : Option RunId
  seq : Nat
  parentId : Option MessageId
  role : MessageRole

def Message.slot (message : Message) : Slot where
  id := message.id
  threadId := message.threadId
  runId := message.runId
  seq := message.seq
  parentId := message.parentId
  role := message.role

/- The slots of the messages. -/
def Db.slots (db : Db) : List Slot :=
  db.messages.map Message.slot

/- The slot of a new message. -/
def NewMessage.slot
    (new : NewMessage)
    (threadId : ThreadId)
    (row : MessageId × Nat) :
    Slot where
  id := row.1
  threadId := threadId
  runId := some new.runId
  seq := row.2
  parentId := new.parentId
  role := new.role

/- Updates that keep the slots of the messages. -/
theorem slots_map
    {db db' : Db}
    {change : Message → Message}
    (hMessages : db'.messages = db.messages.map change)
    (hChange : ∀ message, (change message).slot = message.slot) :
    db'.slots = db.slots := by
  rw [Db.slots, hMessages, List.map_map, Db.slots]
  exact List.map_congr_left fun message _ => hChange message

/- An update of selected messages keeps the slots. -/
theorem slots_updateMessages
    (db : Db)
    (selects : Message → Bool)
    {change : Message → Message}
    (hChange : ∀ message, (change message).slot = message.slot) :
    (db.updateMessages selects change).slots = db.slots := by
  apply slots_map rfl
  intro message
  split
  · exact hChange message
  · rfl

/- A sweep keeps the slots. -/
theorem slots_sweep
    (db : Db)
    (selects : Run → Bool) :
    (db.sweep selects).slots = db.slots := by
  apply slots_map rfl
  intro message
  split <;> rfl

/- Whether a call with its reply added a message. -/
def Op.addedMessage : (op : Op) → op.Reply → Bool
| .addMessage .., _ => true
| .commitAgentAnswer .., row => row.isSome
| _, _ => false

/- How a successful call changes the slots. -/
inductive ChangesSlots
    (db db' : Db) :
    (op : Op) → op.Reply → Prop where
  | added {threadId new thread}
      (hThread : db.threads.get? threadId = some thread)
      (hSlots :
        db'.slots =
          db.slots ++
            [new.slot threadId
              (db.nextId, thread.lastSeq + 1)]) :
      ChangesSlots db db' (.addMessage threadId new)
        (db.nextId, thread.lastSeq + 1)
  | committed {threadId runId contentMd citationIds parentId
      model thread}
      (hThread : db.threads.get? threadId = some thread)
      (hSlots :
        db'.slots =
          db.slots ++
            [(agentMessage runId contentMd parentId model).slot
              threadId (db.nextId, thread.lastSeq + 1)]) :
      ChangesSlots db db'
        (.commitAgentAnswer threadId runId contentMd
          citationIds parentId model)
        (some (db.nextId, thread.lastSeq + 1))
  | kept {op value}
      (hKept : op.addedMessage value = false)
      (hSlots : db'.slots = db.slots) :
      ChangesSlots db db' op value

/- Each successful call changes the slots in one of the ways. -/
theorem changesSlots_of_exec
    {inst : InstanceId}
    {op : Op}
    {world world' : World}
    {value : op.Reply}
    (hExec : exec inst op world = (.ok value, world')) :
    ChangesSlots world.db world'.db op value := by
  have hFrame := frames_of_exec hExec
  cases op with
  | addMessage threadId new =>
      rcases value with ⟨messageId, seq⟩
      rcases of_insertMessage (statement_of_onDb hExec) with
        ⟨rfl, thread, db₁, hThread, rfl, -, -, hDb⟩
      refine .added hThread ?_
      rw [hDb, Db.slots, List.map_append, Db.slots]
      rfl
  | commitAgentAnswer threadId runId contentMd citationIds
      parentId model =>
      rcases of_commitAgentAnswer (statement_of_onDb hExec) with
        ⟨rfl, -, hDb⟩ |
          ⟨messageId, seq, links, db₁, rfl, -, hInsert, hDb⟩
      · exact .kept rfl (by rw [hDb])
      · rcases of_insertMessage hInsert with
          ⟨rfl, thread, db₂, hThread, rfl, -, -, rfl⟩
        refine .committed hThread ?_
        rw [hDb, Db.slots, List.map_append, Db.slots]
        rfl
  | setToolResult runId toolCallId toolResult =>
      cases hExec
      exact .kept rfl (slots_updateMessages _ _ fun _ => rfl)
  | markPartialApproval runId rejectedIds marker =>
      cases hExec
      refine .kept rfl ?_
      have hRejected :
          (world.db.rejectCells runId rejectedIds
              marker).slots =
            world.db.slots :=
        slots_updateMessages _ _ fun _ => rfl
      rw [← hRejected]
      exact slots_updateMessages _ _ fun _ => rfl
  | resolveOrphanToolCells runId marker =>
      cases hExec
      exact .kept rfl (slots_updateMessages _ _ fun _ => rfl)
  | setPendingApproval runId state =>
      cases hExec
      exact .kept rfl (slots_updateMessages _ _ fun _ => rfl)
  | _ =>
      refine .kept rfl ?_
      rw [Db.slots, hFrame.messages rfl, Db.slots]

/- A run or a message is added under the next id. -/
theorem nextId_of_exec
    {inst : InstanceId}
    {op : Op}
    {world world' : World}
    {value : op.Reply}
    (hExec : exec inst op world = (.ok value, world'))
    (hAdded :
      op.addedMessage value = true ∨
        ∃ threadId model, op = .openRun threadId model) :
    world.db.nextId < world'.db.nextId := by
  cases op with
  | openRun threadId model =>
      rcases of_openRun (statement_of_onDb hExec) with
        ⟨-, -, -, hDb⟩
      rw [hDb]
      exact Nat.lt_succ_self _
  | addMessage threadId new =>
      rcases value with ⟨messageId, seq⟩
      rcases of_insertMessage (statement_of_onDb hExec) with
        ⟨-, thread, db₁, -, -, hNext, -, hDb⟩
      rcases of_nextSeq hNext with ⟨_, -, -, rfl⟩
      rw [hDb]
      exact Nat.lt_succ_self _
  | commitAgentAnswer threadId runId contentMd citationIds
      parentId model =>
      rcases of_commitAgentAnswer (statement_of_onDb hExec) with
        ⟨rfl, -, -⟩ |
          ⟨messageId, seq, links, db₁, rfl, -, hInsert, hDb⟩
      · rcases hAdded with hAdded | ⟨_, _, hAdded⟩ <;>
          cases hAdded
      · rcases of_insertMessage hInsert with
          ⟨-, thread, db₂, -, -, hNext, -, rfl⟩
        rcases of_nextSeq hNext with ⟨_, -, -, rfl⟩
        rw [hDb]
        exact Nat.lt_succ_self _
  | _ =>
      rcases hAdded with hAdded | ⟨_, _, hAdded⟩ <;>
        cases hAdded

------------------------------------------------------------
-- Numbers
------------------------------------------------------------

/- The number that a thread drew last. -/
def Db.lastSeq (db : Db) (threadId : ThreadId) : Nat :=
  (db.threads.get? threadId).elim 0 Thread.lastSeq

/- The number that a call drew for a thread. -/
def Op.drew : (op : Op) → op.Reply → Option (ThreadId × Nat)
| .nextSeq threadId, seq => some (threadId, seq)
| .addMessage threadId _, row => some (threadId, row.2)
| .commitAgentAnswer threadId .., row =>
    row.map fun row => (threadId, row.2)
| _, _ => none

/- An inserted thread hides no number. -/
theorem lastSeq_insert
    (threads : Table ThreadId Thread)
    (key : ThreadId)
    (thread : Thread)
    (threadId : ThreadId) :
    (threads.get? threadId).elim 0 Thread.lastSeq ≤
      ((threads.insert key thread).get? threadId).elim 0
        Thread.lastSeq := by
  cases hKey : threads.get? key with
  | some old => rw [Table.insert_of_get? hKey]
  | none =>
      rw [Table.get?_insert hKey]
      split
      · rename_i hEq
        rw [hEq, hKey]
        exact Nat.zero_le _
      · exact Nat.le_refl _

/- A drawn number is the next one of its thread. -/
theorem lastSeq_of_nextSeq
    {threadId : ThreadId}
    {db db' : Db}
    {seq : Nat}
    (hNext : nextSeq threadId db = .ok (seq, db'))
    (other : ThreadId) :
    seq = db.lastSeq threadId + 1 ∧
      db'.lastSeq other =
        if other = threadId then seq else db.lastSeq other := by
  rcases of_nextSeq hNext with ⟨thread, hThread, rfl, rfl⟩
  refine ⟨by simp [Db.lastSeq, hThread], ?_⟩
  simp only [Db.lastSeq, Table.get?_update]
  by_cases hEq : other = threadId
  · subst hEq
    simp [hThread]
  · cases db.threads.get? other <;> simp [hEq]

/-
  Numbers of a thread grow, and each call draws at most the
  next one.
-/
theorem lastSeq_of_exec
    {inst : InstanceId}
    {op : Op}
    {world world' : World}
    {value : op.Reply}
    (hExec : exec inst op world = (.ok value, world'))
    (threadId : ThreadId) :
    world.db.lastSeq threadId ≤ world'.db.lastSeq threadId ∧
      ∀ seq,
        op.drew value = some (threadId, seq) →
          seq = world.db.lastSeq threadId + 1 ∧
            world'.db.lastSeq threadId = seq := by
  have hDraws :
      ∀ drawnId seq db db',
        nextSeq drawnId db = .ok (seq, db') →
          db.threads = world.db.threads →
            world'.db.threads = db'.threads →
              op.drew value = some (drawnId, seq) →
                world.db.lastSeq threadId ≤
                    world'.db.lastSeq threadId ∧
                  ∀ seq,
                    op.drew value = some (threadId, seq) →
                      seq = world.db.lastSeq threadId + 1 ∧
                        world'.db.lastSeq threadId = seq := by
    intro drawnId seq db db' hNext hDb hDb' hDrew
    have hLast := lastSeq_of_nextSeq hNext threadId
    simp only [Db.lastSeq, hDb, ← hDb'] at hLast
    change
      seq = world.db.lastSeq drawnId + 1 ∧
        world'.db.lastSeq threadId = _ at hLast
    constructor
    · rw [hLast.2]
      split
      · rename_i hEq
        rw [hEq, hLast.1]
        exact Nat.le_succ _
      · exact Nat.le_refl _
    · intro seq' hSeq
      rw [hDrew] at hSeq
      cases hSeq
      rw [if_pos rfl] at hLast
      exact hLast
  cases op with
  | nextSeq drawnId =>
      exact
        hDraws drawnId value _ _ (statement_of_onDb hExec) rfl
          rfl rfl
  | addMessage drawnId new =>
      rcases value with ⟨messageId, seq⟩
      rcases of_insertMessage (statement_of_onDb hExec) with
        ⟨-, thread, db₁, -, -, hNext, -, hDb⟩
      exact hDraws drawnId seq _ db₁ hNext rfl (by rw [hDb]) rfl
  | commitAgentAnswer drawnId runId contentMd citationIds
      parentId model =>
      rcases of_commitAgentAnswer (statement_of_onDb hExec) with
        ⟨rfl, -, hDb⟩ |
          ⟨messageId, seq, links, db₁, rfl, -, hInsert, hDb⟩
      · rw [hDb]
        exact ⟨Nat.le_refl _, by rintro _ ⟨⟩⟩
      · rcases of_insertMessage hInsert with
          ⟨-, thread, db₂, -, -, hNext, -, rfl⟩
        exact
          hDraws drawnId seq _ db₂ hNext rfl (by rw [hDb]) rfl
  | createThread title =>
      cases hExec
      exact ⟨lastSeq_insert _ _ _ _, by rintro _ ⟨⟩⟩
  | forkThread parentId forkPoint =>
      rcases of_forkThread (statement_of_onDb hExec) with
        ⟨-, message, -, -, -, hDb⟩
      rw [hDb]
      exact ⟨lastSeq_insert _ _ _ _, by rintro _ ⟨⟩⟩
  | setThreadTitleIfEmpty titledId title =>
      cases hExec
      refine ⟨Nat.le_of_eq ?_, by rintro _ ⟨⟩⟩
      simp only [Db.lastSeq, Table.get?_update]
      cases world.db.threads.get? threadId with
      | none => rfl
      | some thread =>
          simp only [Option.map_some, Option.elim_some]
          split <;> rfl
  | _ =>
      have hThreads := (frames_of_exec hExec).threads rfl
      rw [Db.lastSeq, Db.lastSeq, hThreads]
      exact ⟨Nat.le_refl _, by rintro _ ⟨⟩⟩

------------------------------------------------------------
-- Memory
------------------------------------------------------------

/-
  A successful call keeps the times of the heartbeats and the
  active sets, but for a run that it discards.
-/
theorem memory_of_exec
    {inst : InstanceId}
    {op : Op}
    {world world' : World}
    {value : op.Reply}
    (hExec : exec inst op world = (.ok value, world')) :
    world'.ticks = world.ticks ∧
      ∀ other runId,
        runId ∈ (world.instances other).active →
          (op = .activeDiscard runId ∧ inst = other) ∨
            runId ∈ (world'.instances other).active := by
  have hWorld : (exec inst op world).2 = world' := by
    rw [hExec]
  have hCancel :
      ∀ cancelled flag,
        world'.instances =
            (world.setInstance inst
              ((world.instances inst).setCancel cancelled
                flag)).instances →
          ∀ other runId,
            runId ∈ (world.instances other).active →
              runId ∈ (world'.instances other).active := by
    intro cancelled flag hInstances other runId hMem
    rw [hInstances]
    simp only [World.setInstance]
    split
    · rename_i hEq
      rw [← hEq]
      exact hMem
    · exact hMem
  cases op with
  | cancelsCreate runId =>
      cases hExec
      refine ⟨rfl, fun other runId' hMem => Or.inr ?_⟩
      exact
        hCancel runId (some world.nextFlag) rfl other runId'
          hMem
  | cancelsSetdefault runId =>
      simp only [exec] at hExec
      split at hExec
      · cases hExec
        refine ⟨rfl, fun other runId' hMem => Or.inr ?_⟩
        exact
          hCancel runId (some world.nextFlag) rfl other runId'
            hMem
      · cases hExec
        exact ⟨rfl, fun _ _ hMem => Or.inr hMem⟩
  | cancelsPop runId =>
      cases hExec
      refine ⟨rfl, fun other runId' hMem => Or.inr ?_⟩
      exact hCancel runId none rfl other runId' hMem
  | cancelsGet runId =>
      cases hExec
      exact ⟨rfl, fun _ _ hMem => Or.inr hMem⟩
  | flagSet flag =>
      cases hExec
      exact ⟨rfl, fun _ _ hMem => Or.inr hMem⟩
  | flagIsSet flag =>
      cases hExec
      exact ⟨rfl, fun _ _ hMem => Or.inr hMem⟩
  | activeAdd runId =>
      cases hExec
      refine ⟨rfl, fun other runId' hMem => Or.inr ?_⟩
      simp only [World.setInstance]
      split
      · rename_i hEq
        rw [← hEq]
        exact List.mem_insert_of_mem hMem
      · exact hMem
  | activeDiscard runId =>
      cases hExec
      refine ⟨rfl, ?_⟩
      intro other runId' hMem
      by_cases hInst : other = inst
      · by_cases hRun : runId' = runId
        · exact Or.inl ⟨by rw [hRun], hInst.symm⟩
        · right
          simp only [World.setInstance, if_pos hInst]
          rw [← hInst]
          exact List.mem_filter.mpr ⟨hMem, by simp [hRun]⟩
      · right
        simpa only [World.setInstance, if_neg hInst] using hMem
  | _ =>
      rw [← hWorld]
      exact ⟨rfl, fun _ _ hMem => Or.inr hMem⟩

end LegalAgent
