import LegalAgent.Store.Fork

/-
  The deletion of a thread beside forks and run starts.

  The handler of `DELETE /threads` checks for a running run,
  then for forks of the thread, and then deletes the thread in
  one transaction that clears the parent of every fork.  As
  long as no fork of a thread is made between the second check
  and the transaction, no other thread loses a message.

  Key definitions include:
    * `hasRunningRun`
    * `hasForkChildren`
    * `deleteThread`
    * `Deleting.step`
    * `Unforked`

  Key theorems include:
    * `deletion_keeps_transcripts`
-/

------------------------------------------------------------
-- Statements
------------------------------------------------------------

namespace LegalAgent

open Library

/- Whether a run of a thread is running. -/
def hasRunningRun (threadId : ThreadId) : Statement Bool :=
  .query fun db =>
    db.runs.any fun _ run =>
      run.threadId == threadId && run.status == .running

/- Whether a thread was branched off a thread. -/
def Db.hasForks (db : Db) (threadId : ThreadId) : Bool :=
  db.threads.any fun _ thread =>
    thread.forkedFrom == some threadId

def hasForkChildren (threadId : ThreadId) : Statement Bool :=
  .query fun db => db.hasForks threadId

/- The rows without a thread and what is keyed by it. -/
def Db.withoutThread (db : Db) (threadId : ThreadId) : Db :=
  { db with
    threads :=
      (db.threads.update
        (fun _ thread => thread.forkedFrom == some threadId)
        fun thread => { thread with forkedFrom := none }).remove
          fun other _ => other == threadId
    runs :=
      db.runs.remove fun _ run => run.threadId == threadId
    messages :=
      db.messages.filter fun message =>
        message.threadId != threadId
    messageCitations :=
      db.messageCitations.filter fun link =>
        !db.messages.any fun message =>
          message.id == link.1 && message.threadId == threadId
    runEvents :=
      db.runEvents.filter fun row => row.threadId != threadId
    checkpoints := fun other =>
      if other = threadId then [] else db.checkpoints other }

/- Whether the keys that the messages refer to exist. -/
def Db.linked (db : Db) : Bool :=
  db.messages.all fun message =>
    (message.runId.all fun runId =>
        (db.runs.get? runId).isSome) &&
      message.parentId.all fun parentId =>
        db.messages.any fun other => other.id == parentId

/-
  Delete a thread with its rows in one transaction, and reply
  whether there was one.
-/
def deleteThread (threadId : ThreadId) : Statement Bool :=
  fun db =>
    let db' := db.withoutThread threadId
    if db'.linked then
      .ok ((db.threads.get? threadId).isSome, db')
    else
      .error .database

------------------------------------------------------------
-- Handlers
------------------------------------------------------------

/- How far a handler of a deletion has come. -/
inductive DeleteStage where
  | requested
  | idle
  | childless
deriving DecidableEq

/- A handler of `DELETE /threads/{thread_id}`. -/
structure DeleteHandler where
  threadId : ThreadId
  stage : DeleteStage
deriving DecidableEq

/- The store and the handlers of all instances. -/
structure Deleting where
  db : Db
  handlers : List DeleteHandler

/-
  What happens next: a statement of another request, a change
  of the status of a run, a request to delete a thread, or the
  next step of a handler.
-/
inductive DeleteAction where
  | store (action : StoreAction)
  | settle
      (runId : RunId)
      (status : RunStatus)
      (ended : Bool)
  | request (threadId : ThreadId)
  | handle (handler : DeleteHandler)

/- A handler goes on to its next stage. -/
def Deleting.advance
    (state : Deleting)
    (handler : DeleteHandler)
    (stage : DeleteStage) :
    Deleting :=
  { state with
    handlers :=
      { handler with stage := stage } ::
        state.handlers.erase handler }

/- A handler has replied. -/
def Deleting.reply
    (state : Deleting)
    (handler : DeleteHandler)
    (db : Db) :
    Deleting where
  db := db
  handlers := state.handlers.erase handler

/- The state after an action, if the action can happen. -/
def Deleting.step
    (state : Deleting) :
    DeleteAction → Option Deleting
| .store action =>
    (storeStep state.db action).map fun db =>
      { state with db := db }
| .settle runId status ended =>
    ((setRunStatus runId status ended).after state.db).map
      fun db => { state with db := db }
| .request threadId =>
    some
      { state with
        handlers := ⟨threadId, .requested⟩ :: state.handlers }
| .handle handler =>
    if handler ∈ state.handlers then
      match handler.stage with
      | .requested =>
          match hasRunningRun handler.threadId state.db with
          | .ok (false, _) => some (state.advance handler .idle)
          | _ => some (state.reply handler state.db)
      | .idle =>
          match hasForkChildren handler.threadId state.db with
          | .ok (false, _) =>
              some (state.advance handler .childless)
          | _ => some (state.reply handler state.db)
      | .childless =>
          match deleteThread handler.threadId state.db with
          | .ok (_, db) => some (state.reply handler db)
          | .error _ => some (state.reply handler state.db)
    else
      none

/- The empty store without a handler. -/
def Deleting.initial : Deleting where
  db := .empty
  handlers := []

/-
  No thread is branched off while a handler has found that it
  has no forks and has not deleted it yet.
-/
def Unforked (state : Deleting) : DeleteAction → Prop
| .store (.forkThread parentId _) =>
    ⟨parentId, .childless⟩ ∉ state.handlers
| _ => True

instance
    (state : Deleting) :
    DecidablePred (Unforked state)
| .store (.forkThread parentId _) =>
    inferInstanceAs
      (Decidable (⟨parentId, .childless⟩ ∉ state.handlers))
| .store (.createThread _) => isTrue trivial
| .store (.addMessage ..) => isTrue trivial
| .store (.nextSeq _) => isTrue trivial
| .store (.openRun ..) => isTrue trivial
| .store (.freezeCitation _) => isTrue trivial
| .settle .. => isTrue trivial
| .request _ => isTrue trivial
| .handle _ => isTrue trivial

------------------------------------------------------------
-- Deleted Threads
------------------------------------------------------------

section Deleted

variable {db : Db} {threadId : ThreadId}

/- No thread was branched off a thread without forks. -/
theorem forkedFrom_ne
    (hForks : db.hasForks threadId = false)
    {other : ThreadId}
    {thread : Thread}
    (hThread : db.threads.get? other = some thread) :
    thread.forkedFrom ≠ some threadId := by
  intro hFrom
  have hAny : db.hasForks threadId = true :=
    Table.any_eq_true_iff.mpr
      ⟨other, thread, hThread, beq_iff_eq.mpr hFrom⟩
  rw [hForks] at hAny
  cases hAny

/- The threads that are left after a deletion. -/
theorem get?_withoutThread
    (hForks : db.hasForks threadId = false)
    (other : ThreadId) :
    (db.withoutThread threadId).threads.get? other =
      if other = threadId then none
      else db.threads.get? other := by
  simp only [Db.withoutThread, Table.get?_remove,
    Table.get?_update]
  cases hThread : db.threads.get? other with
  | none => simp
  | some thread =>
      have hNe := forkedFrom_ne hForks hThread
      have hBeq :
          (thread.forkedFrom == some threadId) = false := by
        rw [beq_eq_false_iff_ne]
        exact hNe
      rw [Option.map_some, hBeq, if_neg Bool.false_ne_true]
      by_cases hEq : other = threadId
      · simp [hEq, Option.filter_some]
      · simp [hEq, Option.filter_some]

/- The messages that are left after a deletion. -/
theorem mem_withoutThread
    {message : Message} :
    message ∈ (db.withoutThread threadId).messages ↔
      message ∈ db.messages ∧ message.threadId ≠ threadId := by
  simp [Db.withoutThread]

/- The deletion of a thread without forks keeps the shape. -/
theorem forked_withoutThread
    (hForked : db.Forked)
    (hForks : db.hasForks threadId = false) :
    (db.withoutThread threadId).Forked where
  threadIds := by
    intro other thread hThread
    rw [get?_withoutThread hForks] at hThread
    split at hThread
    · cases hThread
    · exact hForked.threadIds other thread hThread
  messageIds := by
    intro message hMem
    exact hForked.messageIds message (mem_withoutThread.mp hMem).1
  numbered := by
    intro message hMem
    rcases mem_withoutThread.mp hMem with ⟨hMem, hNe⟩
    rcases hForked.numbered message hMem with
      ⟨thread, hThread, hLe⟩
    refine ⟨thread, ?_, hLe⟩
    rw [get?_withoutThread hForks, if_neg hNe, hThread]
  ordered := hForked.ordered.sublist List.filter_sublist
  forks := by
    intro other thread parentId hThread hParent
    rw [get?_withoutThread hForks] at hThread
    split at hThread
    · cases hThread
    · rcases
          hForked.forks other thread parentId hThread hParent with
        ⟨hLt, point, hPoint, hId, hOwner, hLe, hBehind⟩
      have hNe : parentId ≠ threadId := by
        rintro rfl
        exact forkedFrom_ne hForks hThread hParent
      refine
        ⟨hLt, point, mem_withoutThread.mpr ⟨hPoint, ?_⟩, hId,
          hOwner, hLe, ?_⟩
      · rw [hOwner]
        exact hNe
      · intro message hMem hMine
        exact hBehind message (mem_withoutThread.mp hMem).1 hMine

/- Another thread sees what it saw before the deletion. -/
theorem sees_withoutThread
    (hForked : db.Forked)
    (hForks : db.hasForks threadId = false)
    {other : ThreadId}
    (hNe : other ≠ threadId)
    {message : Message} :
    Sees (db.withoutThread threadId) other message ↔
      Sees db other message := by
  constructor
  · intro hSees
    induction hSees with
    | own hMem hMine =>
        exact Sees.own (mem_withoutThread.mp hMem).1 hMine
    | inherited hThread hParent hPoint hId _ hLe ih =>
        rw [get?_withoutThread hForks, if_neg hNe] at hThread
        have hNe' := forkedFrom_ne hForks hThread
        refine
          Sees.inherited hThread hParent
            (mem_withoutThread.mp hPoint).1 hId (ih ?_) hLe
        rintro rfl
        exact hNe' hParent
  · intro hSees
    induction hSees with
    | own hMem hMine =>
        refine Sees.own (mem_withoutThread.mpr ⟨hMem, ?_⟩) hMine
        rw [hMine]
        exact hNe
    | @inherited other thread parentId point message hThread
        hParent hPoint hId _ hLe ih =>
        have hNe' := forkedFrom_ne hForks hThread
        have hParentNe : parentId ≠ threadId := by
          rintro rfl
          exact hNe' hParent
        rcases hForked.of_point hThread hParent hPoint hId with
          ⟨hOwner, -⟩
        refine
          Sees.inherited ?_ hParent
            (mem_withoutThread.mpr ⟨hPoint, ?_⟩) hId
            (ih hParentNe) hLe
        · rw [get?_withoutThread hForks, if_neg hNe]
          exact hThread
        · rw [hOwner]
          exact hParentNe

/- Another thread has the transcript of before the deletion. -/
theorem threadMessages_withoutThread
    (hForked : db.Forked)
    (hForks : db.hasForks threadId = false)
    {other : ThreadId}
    (hNe : other ≠ threadId) :
    (db.withoutThread threadId).threadMessages other =
      db.threadMessages other := by
  have hForked' := forked_withoutThread hForked hForks
  have hThreads := get?_withoutThread hForks other
  rw [if_neg hNe] at hThreads
  cases hThread : db.threads.get? other with
  | none =>
      rw [hThread] at hThreads
      rw [threadMessages_of_none hThread,
        threadMessages_of_none hThreads]
  | some thread =>
      rw [hThread] at hThreads
      apply
        eq_of_mem_iff (sorted_threadMessages hForked' other)
          (sorted_threadMessages hForked other)
      intro message
      rw [mem_threadMessages hForked' hThreads,
        mem_threadMessages hForked hThread,
        sees_withoutThread hForked hForks hNe]

end Deleted

------------------------------------------------------------
-- Steps
------------------------------------------------------------

/- The threads after a statement that draws a number. -/
theorem origin_of_nextSeq
    {db db' : Db}
    {threadId : ThreadId}
    {seq : Nat}
    (hNext : nextSeq threadId db = .ok (seq, db'))
    {other : ThreadId}
    {thread' : Thread}
    (hThread : db'.threads.get? other = some thread') :
    ∃ thread,
      db.threads.get? other = some thread ∧
        thread'.forkedFrom = thread.forkedFrom := by
  rcases of_nextSeq hNext with ⟨_, -, -, rfl⟩
  rw [Table.get?_update] at hThread
  rcases Option.map_eq_some_iff.mp hThread with
    ⟨thread, hOld, rfl⟩
  refine ⟨thread, hOld, ?_⟩
  split <;> rfl

/-
  A thread after a statement of the store was there before, or
  it is new and its parent is that of the fork.
-/
theorem origin_of_step
    {db db' : Db}
    (hForked : db.Forked)
    {action : StoreAction}
    (hStep : storeStep db action = some db')
    {other : ThreadId}
    {thread' : Thread}
    (hThread : db'.threads.get? other = some thread') :
    (∃ thread,
        db.threads.get? other = some thread ∧
          thread'.forkedFrom = thread.forkedFrom) ∨
      other = db.nextId ∧
        ∀ parentId,
          thread'.forkedFrom = some parentId →
            ∃ forkPoint, action = .forkThread parentId forkPoint := by
  have hInsert := Table.get?_insert hForked.freshThread
  cases action with
  | createThread title =>
      cases hStep
      rw [hInsert] at hThread
      split at hThread
      · rename_i hEq
        cases hThread
        refine Or.inr ⟨hEq, ?_⟩
        intro _ hParent
        cases hParent
      · exact Or.inl ⟨thread', hThread, rfl⟩
  | forkThread parentId forkPoint =>
      rcases of_after hStep with ⟨threadId, hFork⟩
      rcases of_forkThread hFork with ⟨-, point, -, -, -, rfl⟩
      rw [hInsert] at hThread
      split at hThread
      · rename_i hEq
        cases hThread
        refine Or.inr ⟨hEq, ?_⟩
        intro parentId' hParent
        cases hParent
        exact ⟨forkPoint, rfl⟩
      · exact Or.inl ⟨thread', hThread, rfl⟩
  | addMessage threadId row citationIds =>
      rcases of_after hStep with ⟨value, hAdd⟩
      left
      rcases of_addCitedMessage hAdd with ⟨db₁, links, hNext, rfl⟩
      exact origin_of_nextSeq hNext hThread
  | nextSeq threadId =>
      rcases of_after hStep with ⟨seq, hNext⟩
      exact Or.inl (origin_of_nextSeq hNext hThread)
  | openRun threadId model =>
      rcases of_after hStep with ⟨runId, hOpen⟩
      rcases of_openRun hOpen with ⟨-, -, -, rfl⟩
      exact Or.inl ⟨thread', hThread, rfl⟩
  | freezeCitation ref =>
      cases hStep
      exact Or.inl ⟨thread', hThread, rfl⟩

/-
  Threads that are left were there before and have what they
  saw at the beginning of their transcripts.
-/
structure Keeps (db db' : Db) : Prop where
  next : db.nextId ≤ db'.nextId
  kept :
    ∀ threadId thread',
      db'.threads.get? threadId = some thread' →
        threadId < db.nextId →
          (∃ thread, db.threads.get? threadId = some thread) ∧
            db.threadMessages threadId <+:
              db'.threadMessages threadId

theorem keeps_refl (db : Db) : Keeps db db where
  next := Nat.le_refl _
  kept := fun _ thread hThread _ =>
    ⟨⟨thread, hThread⟩, List.prefix_rfl⟩

theorem keeps_trans
    {db db' db'' : Db}
    (hFirst : Keeps db db')
    (hSecond : Keeps db' db'') :
    Keeps db db'' where
  next := Nat.le_trans hFirst.next hSecond.next
  kept := by
    intro threadId thread'' hThread'' hLt
    rcases
        hSecond.kept threadId thread'' hThread''
          (Nat.lt_of_lt_of_le hLt hFirst.next) with
      ⟨⟨thread', hThread'⟩, hPrefix'⟩
    rcases hFirst.kept threadId thread' hThread' hLt with
      ⟨hThread, hPrefix⟩
    exact ⟨hThread, hPrefix.trans hPrefix'⟩

/- A statement that keeps threads and messages. -/
theorem keeps_of_frame
    {db db' : Db}
    (hThreads : db'.threads = db.threads)
    (hMessages : db'.messages = db.messages)
    (hNext : db.nextId ≤ db'.nextId)
    (hForked : db.Forked) :
    Keeps db db' := by
  rcases forked_of_frame hForked hThreads hMessages hNext with
    ⟨hForked', hGrows⟩
  refine ⟨hNext, ?_⟩
  intro threadId thread' hThread' _
  rw [hThreads] at hThread'
  rcases
      threadMessages_grows hForked hForked' hGrows hThread' with
    ⟨own, hOwn, -⟩
  exact ⟨⟨thread', hThread'⟩, own, hOwn.symm⟩

/- Numbers are only drawn. -/
theorem nextId_le_of_step
    {db db' : Db}
    {action : StoreAction}
    (hStep : storeStep db action = some db') :
    db.nextId ≤ db'.nextId := by
  cases action with
  | createThread title =>
      cases hStep
      exact Nat.le_succ _
  | forkThread parentId forkPoint =>
      rcases of_after hStep with ⟨threadId, hFork⟩
      rcases of_forkThread hFork with ⟨-, point, -, -, -, rfl⟩
      exact Nat.le_succ _
  | addMessage threadId row citationIds =>
      rcases of_after hStep with ⟨value, hAdd⟩
      rcases of_addCitedMessage hAdd with ⟨db₁, links, hNext, rfl⟩
      rcases of_nextSeq hNext with ⟨_, -, -, rfl⟩
      exact Nat.le_succ _
  | nextSeq threadId =>
      rcases of_after hStep with ⟨seq, hNext⟩
      rcases of_nextSeq hNext with ⟨_, -, -, rfl⟩
      exact Nat.le_refl _
  | openRun threadId model =>
      rcases of_after hStep with ⟨runId, hOpen⟩
      rcases of_openRun hOpen with ⟨-, -, -, rfl⟩
      exact Nat.le_succ _
  | freezeCitation ref =>
      cases hStep
      exact Nat.le_refl _

/- A statement of the store keeps what threads saw. -/
theorem keeps_of_step
    {db db' : Db}
    (hForked : db.Forked)
    {action : StoreAction}
    (hStep : storeStep db action = some db') :
    Keeps db db' := by
  rcases forked_step hForked hStep with ⟨hForked', hGrows⟩
  refine ⟨nextId_le_of_step hStep, ?_⟩
  intro threadId thread' hThread' hLt
  rcases origin_of_step hForked hStep hThread' with
    ⟨thread, hThread, -⟩ | ⟨rfl, -⟩
  · rcases
        threadMessages_grows hForked hForked' hGrows hThread with
      ⟨own, hOwn, -⟩
    exact ⟨⟨thread, hThread⟩, own, hOwn.symm⟩
  · exact absurd hLt (Nat.lt_irrefl _)

/- The deletion of a thread without forks keeps the others. -/
theorem keeps_withoutThread
    {db : Db}
    (hForked : db.Forked)
    {threadId : ThreadId}
    (hForks : db.hasForks threadId = false) :
    Keeps db (db.withoutThread threadId) where
  next := Nat.le_refl _
  kept := by
    intro other thread' hThread' _
    rw [get?_withoutThread hForks] at hThread'
    split at hThread'
    · cases hThread'
    · rename_i hNe
      rw [threadMessages_withoutThread hForked hForks hNe]
      exact ⟨⟨thread', hThread'⟩, List.prefix_rfl⟩

/- The forks of a thread after a statement of the store. -/
theorem hasForks_step
    {db db' : Db}
    (hForked : db.Forked)
    {action : StoreAction}
    (hStep : storeStep db action = some db')
    {threadId : ThreadId}
    (hForks : db.hasForks threadId = false)
    (hOther :
      ∀ forkPoint, action ≠ .forkThread threadId forkPoint) :
    db'.hasForks threadId = false := by
  by_contra hSome
  rw [Bool.not_eq_false] at hSome
  rcases Table.any_eq_true_iff.mp hSome with
    ⟨other, thread', hThread', hFrom⟩
  rw [beq_iff_eq] at hFrom
  rcases origin_of_step hForked hStep hThread' with
    ⟨thread, hThread, hSame⟩ | ⟨-, hNew⟩
  · exact forkedFrom_ne hForks hThread (hSame.symm.trans hFrom)
  · rcases hNew threadId hFrom with ⟨forkPoint, hAction⟩
    exact hOther forkPoint hAction

/- A deletion adds no fork. -/
theorem hasForks_withoutThread
    {db : Db}
    {threadId other : ThreadId}
    (hForks : db.hasForks threadId = false)
    (hOther : db.hasForks other = false) :
    (db.withoutThread threadId).hasForks other = false := by
  by_contra hSome
  rw [Bool.not_eq_false] at hSome
  rcases Table.any_eq_true_iff.mp hSome with
    ⟨child, thread, hThread, hFrom⟩
  rw [beq_iff_eq] at hFrom
  rw [get?_withoutThread hForks] at hThread
  split at hThread
  · cases hThread
  · exact forkedFrom_ne hOther hThread hFrom

/-
  The store has its shape, and a handler that found no forks
  still has none.
-/
structure Guarded (state : Deleting) : Prop where
  forked : state.db.Forked
  childless :
    ∀ handler ∈ state.handlers,
      handler.stage = .childless →
        state.db.hasForks handler.threadId = false

/- A handler that goes on or replies keeps the others. -/
theorem guarded_advance
    {state : Deleting}
    (hGuarded : Guarded state)
    {handler : DeleteHandler}
    {stage : DeleteStage}
    (hStage :
      stage = .childless →
        state.db.hasForks handler.threadId = false) :
    Guarded (state.advance handler stage) where
  forked := hGuarded.forked
  childless := by
    intro other hMem hOther
    rcases List.mem_cons.mp hMem with rfl | hOld
    · exact hStage hOther
    · exact
        hGuarded.childless other (List.mem_of_mem_erase hOld)
          hOther

theorem guarded_reply
    {state : Deleting}
    (hGuarded : Guarded state)
    (handler : DeleteHandler) :
    Guarded (state.reply handler state.db) where
  forked := hGuarded.forked
  childless := by
    intro other hMem hOther
    exact
      hGuarded.childless other (List.mem_of_mem_erase hMem)
        hOther

/- A handler deletes a thread without forks. -/
theorem of_deleteThread
    {threadId : ThreadId}
    {db db' : Db}
    {found : Bool}
    (hDelete : deleteThread threadId db = .ok (found, db')) :
    db' = db.withoutThread threadId := by
  simp only [deleteThread] at hDelete
  split at hDelete
  · cases hDelete
    rfl
  · cases hDelete

/- The next step of a handler keeps what threads saw. -/
theorem guarded_handle
    {state next : Deleting}
    {handler : DeleteHandler}
    (hGuarded : Guarded state)
    (hStep : state.step (.handle handler) = some next) :
    Guarded next ∧ Keeps state.db next.db := by
  have hReply := guarded_reply hGuarded handler
  simp only [Deleting.step] at hStep
  split at hStep
  · rename_i hMem
    split at hStep
    · split at hStep
      · cases hStep
        exact
          ⟨guarded_advance hGuarded nofun, keeps_refl _⟩
      · cases hStep
        exact ⟨hReply, keeps_refl _⟩
    · split at hStep
      · rename_i hForks
        cases hStep
        refine ⟨guarded_advance hGuarded ?_, keeps_refl _⟩
        intro _
        have hReply := Except.ok.inj hForks
        exact congrArg Prod.fst hReply
      · cases hStep
        exact ⟨hReply, keeps_refl _⟩
    · rename_i hStage
      have hForks := hGuarded.childless handler hMem hStage
      split at hStep
      · rename_i found db hDelete
        cases hStep
        cases of_deleteThread hDelete
        refine
          ⟨⟨forked_withoutThread hGuarded.forked hForks, ?_⟩,
            keeps_withoutThread hGuarded.forked hForks⟩
        intro other hOther hOtherStage
        exact
          hasForks_withoutThread hForks
            (hGuarded.childless other
              (List.mem_of_mem_erase hOther) hOtherStage)
      · cases hStep
        exact ⟨hReply, keeps_refl _⟩
  · cases hStep

/- Every step without a late fork keeps what threads saw. -/
theorem guarded_step
    {state next : Deleting}
    {action : DeleteAction}
    (hGuarded : Guarded state)
    (hAllowed : Unforked state action)
    (hStep : state.step action = some next) :
    Guarded next ∧ Keeps state.db next.db := by
  have hForked := hGuarded.forked
  cases action with
  | store action =>
      rcases Option.map_eq_some_iff.mp hStep with
        ⟨db, hStore, rfl⟩
      refine
        ⟨⟨(forked_step hForked hStore).1, ?_⟩,
          keeps_of_step hForked hStore⟩
      intro handler hMem hStage
      apply
        hasForks_step hForked hStore
          (hGuarded.childless handler hMem hStage)
      rintro forkPoint rfl
      apply hAllowed
      rw [← hStage]
      exact hMem
  | settle runId status ended =>
      rcases Option.map_eq_some_iff.mp hStep with
        ⟨db, hAfter, rfl⟩
      rcases of_after hAfter with ⟨value, hSet⟩
      have hFrame :
          db.threads = state.db.threads ∧
            db.messages = state.db.messages ∧
              db.nextId = state.db.nextId := by
        rcases of_setRunStatus hSet with
          ⟨-, rfl⟩ | ⟨run, -, -, rfl⟩
        · exact ⟨rfl, rfl, rfl⟩
        · exact ⟨rfl, rfl, rfl⟩
      rcases hFrame with ⟨hThreads, hMessages, hNext⟩
      refine
        ⟨⟨(forked_of_frame hForked hThreads hMessages
            (Nat.le_of_eq hNext.symm)).1, ?_⟩,
          keeps_of_frame hThreads hMessages
            (Nat.le_of_eq hNext.symm) hForked⟩
      intro handler hMem hStage
      have hForks := hGuarded.childless handler hMem hStage
      unfold Db.hasForks at hForks ⊢
      rw [hThreads]
      exact hForks
  | request threadId =>
      cases hStep
      refine ⟨⟨hForked, ?_⟩, keeps_refl _⟩
      intro handler hMem hStage
      rcases List.mem_cons.mp hMem with rfl | hOld
      · cases hStage
      · exact hGuarded.childless handler hOld hStage
  | handle handler =>
      exact guarded_handle hGuarded hStep

/- A run without a late fork keeps what threads saw. -/
theorem guarded_run
    {state later : Deleting}
    (hGuarded : Guarded state)
    (hRun : Execution Deleting.step Unforked state later) :
    Guarded later ∧ Keeps state.db later.db := by
  induction hRun with
  | refl => exact ⟨hGuarded, keeps_refl _⟩
  | tail _ hNext ih =>
      rcases hNext with ⟨action, hAllowed, hStep⟩
      rcases guarded_step ih.1 hAllowed hStep with
        ⟨hNext, hKeeps⟩
      exact ⟨hNext, keeps_trans ih.2 hKeeps⟩

/- The empty store without a handler is guarded. -/
theorem guarded_initial : Guarded .initial where
  forked := forked_empty
  childless := fun _ hMem => nomatch hMem

------------------------------------------------------------
-- Transcripts
------------------------------------------------------------

/-
  In every run in which no thread is branched off between the
  check of a handler for forks of it and its transaction, a
  thread that still exists has every message that was ever in
  its transcript.
-/
theorem deletion_keeps_transcripts
    {state later : Deleting}
    (hRun : Execution Deleting.step Unforked .initial state)
    (hLater : Execution Deleting.step Unforked state later)
    {threadId : ThreadId}
    (hThread :
      (later.db.threads.get? threadId).isSome = true) :
    ∀ message ∈ state.db.threadMessages threadId,
      message ∈ later.db.threadMessages threadId := by
  intro message hMem
  have hGuarded := (guarded_run guarded_initial hRun).1
  rcases guarded_run hGuarded hLater with ⟨-, hKeeps⟩
  rcases Option.isSome_iff_exists.mp hThread with
    ⟨thread', hThread'⟩
  cases hOld : state.db.threads.get? threadId with
  | none =>
      rw [threadMessages_of_none hOld] at hMem
      cases hMem
  | some thread =>
      have hLt := hGuarded.forked.threadIds threadId thread hOld
      rcases hKeeps.kept threadId thread' hThread' hLt with
        ⟨-, hPrefix⟩
      exact hPrefix.subset hMem

/- A thread of one message and a fork of it. -/
def forkedThread : List DeleteAction :=
  [.store (.createThread none),
    .store (.addMessage 0 blankMessage []),
    .store (.forkThread 0 1)]

/- A handler that deletes a thread. -/
def deletion (threadId : ThreadId) : List DeleteAction :=
  [.request threadId, .handle ⟨threadId, .requested⟩,
    .handle ⟨threadId, .idle⟩, .handle ⟨threadId, .childless⟩]

/- The thread keeps its message when its fork is deleted. -/
theorem deletion_keeps_transcripts_fork :
    ∃ state later,
      execute Deleting.step forkedThread .initial = some state ∧
        execute Deleting.step (deletion 2) state = some later ∧
          (later.db.threads.get? 2).isSome = false ∧
            ∀ message ∈ state.db.threadMessages 0,
              message ∈ later.db.threadMessages 0 := by
  rcases
      exists_of_execute
        (show
          (execute Deleting.step forkedThread .initial).map
              (fun state =>
                passes Deleting.step
                  (fun state action =>
                    decide (Unforked state action))
                  (deletion 2) state) =
            some true by
          decide +kernel) with
    ⟨state, hState, hPasses⟩
  rcases
      exists_of_execute
        (show
          (execute Deleting.step (forkedThread ++ deletion 2)
              .initial).map (fun later =>
                ((later.db.threads.get? 0).isSome,
                  (later.db.threads.get? 2).isSome)) =
            some (true, false) by
          decide +kernel) with
    ⟨later, hLater, hThreads⟩
  rw [execute_append, hState, Option.bind_some] at hLater
  have hTest :
      ∀ (state : Deleting) (action : DeleteAction),
        decide (Unforked state action) = true →
          Unforked state action :=
    fun _ _ hHolds => of_decide_eq_true hHolds
  have hFirst :
      passes Deleting.step
          (fun state action => decide (Unforked state action))
          forkedThread .initial =
        true := by
    decide +kernel
  simp only [Prod.mk.injEq] at hThreads
  exact
    ⟨state, later, hState, hLater, hThreads.2,
      deletion_keeps_transcripts
        (run_of_execute hState hFirst hTest)
        (run_of_execute hLater hPasses hTest) hThreads.1⟩

/- A fork between the check of a handler and its deletion. -/
def lateFork : List DeleteAction :=
  [.store (.createThread none),
    .store (.addMessage 0 blankMessage []),
    .request 0, .handle ⟨0, .requested⟩, .handle ⟨0, .idle⟩,
    .store (.forkThread 0 1)]

/- A fork that a handler overlooks loses its transcript. -/
theorem deletion_truncates_transcript :
    ¬ ∀ (state later : Deleting) (threadId : ThreadId),
      Execution Deleting.step (fun _ _ => True) .initial state →
        Execution Deleting.step (fun _ _ => True) state later →
          (later.db.threads.get? threadId).isSome = true →
            ∀ message ∈ state.db.threadMessages threadId,
              message ∈ later.db.threadMessages threadId := by
  intro hKept
  rcases
      exists_of_execute
        (show
          (execute Deleting.step lateFork .initial).map
              (fun state =>
                (state.db.threadMessages 2).map Message.id) =
            some [1] by
          decide +kernel) with
    ⟨state, hState, hBefore⟩
  rcases
      exists_of_execute
        (show
          (execute Deleting.step
              (lateFork ++ [.handle ⟨0, .childless⟩])
              .initial).map (fun later =>
                ((later.db.threads.get? 2).isSome,
                  (later.db.threadMessages 2).map Message.id)) =
            some (true, []) by
          decide +kernel) with
    ⟨later, hLater, hAfter⟩
  rw [execute_append, hState, Option.bind_some] at hLater
  simp only [Prod.mk.injEq, List.map_eq_nil_iff] at hAfter
  rcases
      List.mem_map.mp (hBefore ▸ List.mem_singleton_self 1) with
    ⟨message, hMem, -⟩
  have hSeen :=
    hKept state later 2 (execution_of_execute hState)
      (execution_of_execute hLater) hAfter.1 message hMem
  rw [hAfter.2] at hSeen
  cases hSeen

end LegalAgent
