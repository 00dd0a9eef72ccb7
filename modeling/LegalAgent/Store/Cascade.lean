import LegalAgent.Library.Transaction
import LegalAgent.Store.Deletion

/-
  The statements of `delete_thread` and the foreign keys.

  A thread is deleted by ten statements in one transaction,
  children before parents.  No statement violates a foreign
  key as long as no message refers to a run or to a message of
  another thread.  The rows keyed by the thread are gone then,
  and the rows of the other threads are as they were, up to
  the pointers to the thread.

  Key definitions include:
    * `Store`
    * `ForeignKeys`
    * `cascade`
    * `Store.deleteThread`
    * `Db.Kin`
    * `Cascaded`
    * `Spared`

  Key theorems include:
    * `foreignKeys_behind`
    * `cascaded_behind`
    * `spared_behind`
-/

------------------------------------------------------------
-- Stores
------------------------------------------------------------

namespace LegalAgent

open Library

/- A row of `summaries`. -/
structure Summary where
  id : Nat
  threadId : ThreadId
  coversFromSeq : Option Nat
  coversToSeq : Option Nat
  contentMd : Text

/-
  The tables that no request of a run reads: the summaries,
  and the tables in which the graph saves its state.
-/
structure Tables (Saved : Type) where
  summaries : List Summary
  checkpointWrites : List (ThreadId × Saved)
  checkpointBlobs : List (ThreadId × Saved)
  checkpoints : List (ThreadId × Saved)

/- All tables. -/
structure Store (Saved : Type) where
  db : Db
  tables : Tables Saved

variable {Saved : Type}

/- The foreign keys of the schema. -/
structure ForeignKeys (store : Store Saved) : Prop where
  forkedFrom :
    ∀ row ∈ store.db.threads.rows,
      (row.2.forkedFrom.all fun parentId =>
        (store.db.threads.get? parentId).isSome) = true
  runThread :
    ∀ row ∈ store.db.runs.rows,
      (store.db.threads.get? row.2.threadId).isSome = true
  messageThread :
    ∀ message ∈ store.db.messages,
      (store.db.threads.get? message.threadId).isSome = true
  messageRun :
    ∀ message ∈ store.db.messages,
      (message.runId.all fun runId =>
        (store.db.runs.get? runId).isSome) = true
  messageParent :
    ∀ message ∈ store.db.messages,
      (message.parentId.all fun parentId =>
          store.db.messages.any fun other =>
            other.id == parentId) =
        true
  linkMessage :
    ∀ link ∈ store.db.messageCitations,
      (store.db.messages.any fun message =>
          message.id == link.1) =
        true
  linkCitation :
    ∀ link ∈ store.db.messageCitations,
      (store.db.citations.get? link.2).isSome = true
  summaryThread :
    ∀ summary ∈ store.tables.summaries,
      (store.db.threads.get? summary.threadId).isSome = true

instance (store : Store Saved) : Decidable (ForeignKeys store) :=
  decidable_of_iff
    ((∀ row ∈ store.db.threads.rows, _) ∧
      (∀ row ∈ store.db.runs.rows, _) ∧
        (∀ message ∈ store.db.messages, _) ∧
          (∀ message ∈ store.db.messages, _) ∧
            (∀ message ∈ store.db.messages, _) ∧
              (∀ link ∈ store.db.messageCitations, _) ∧
                (∀ link ∈ store.db.messageCitations, _) ∧
                  ∀ summary ∈ store.tables.summaries, _)
    ⟨fun ⟨hFork, hRun, hThread, hOwner, hParent, hLink,
        hCitation, hSummary⟩ =>
      ⟨hFork, hRun, hThread, hOwner, hParent, hLink, hCitation,
        hSummary⟩,
      fun ⟨hFork, hRun, hThread, hOwner, hParent, hLink,
        hCitation, hSummary⟩ =>
      ⟨hFork, hRun, hThread, hOwner, hParent, hLink, hCitation,
        hSummary⟩⟩

------------------------------------------------------------
-- The Cascade
------------------------------------------------------------

/- Change the rows of the database. -/
def Store.withDb (store : Store Saved) (db : Db) : Store Saved :=
  { store with db := db }

/- Change the rows of the other tables. -/
def Store.withTables
    (store : Store Saved)
    (tables : Tables Saved) :
    Store Saved :=
  { store with tables := tables }

def deleteMessageCitations
    (threadId : ThreadId)
    (store : Store Saved) :
    Store Saved :=
  store.withDb
    { store.db with
      messageCitations :=
        store.db.messageCitations.filter fun link =>
          !store.db.messages.any fun message =>
            message.id == link.1 && message.threadId == threadId }

def deleteMessages
    (threadId : ThreadId)
    (store : Store Saved) :
    Store Saved :=
  store.withDb
    { store.db with
      messages :=
        store.db.messages.filter fun message =>
          message.threadId != threadId }

def deleteRunEvents
    (threadId : ThreadId)
    (store : Store Saved) :
    Store Saved :=
  store.withDb
    { store.db with
      runEvents :=
        store.db.runEvents.filter fun row =>
          row.threadId != threadId }

def deleteRuns
    (threadId : ThreadId)
    (store : Store Saved) :
    Store Saved :=
  store.withDb
    { store.db with
      runs :=
        store.db.runs.remove fun _ run =>
          run.threadId == threadId }

def deleteSummaries
    (threadId : ThreadId)
    (store : Store Saved) :
    Store Saved :=
  store.withTables
    { store.tables with
      summaries :=
        store.tables.summaries.filter fun summary =>
          summary.threadId != threadId }

def deleteCheckpointWrites
    (threadId : ThreadId)
    (store : Store Saved) :
    Store Saved :=
  store.withTables
    { store.tables with
      checkpointWrites :=
        store.tables.checkpointWrites.filter fun row =>
          row.1 != threadId }

def deleteCheckpointBlobs
    (threadId : ThreadId)
    (store : Store Saved) :
    Store Saved :=
  store.withTables
    { store.tables with
      checkpointBlobs :=
        store.tables.checkpointBlobs.filter fun row =>
          row.1 != threadId }

/- Without its checkpoints a thread has no graph state. -/
def deleteCheckpoints
    (threadId : ThreadId)
    (store : Store Saved) :
    Store Saved where
  db :=
    { store.db with
      checkpoints := fun other =>
        if other = threadId then []
        else store.db.checkpoints other }
  tables :=
    { store.tables with
      checkpoints :=
        store.tables.checkpoints.filter fun row =>
          row.1 != threadId }

def clearForkedFrom
    (threadId : ThreadId)
    (store : Store Saved) :
    Store Saved :=
  store.withDb
    { store.db with
      threads :=
        store.db.threads.update
          (fun _ thread => thread.forkedFrom == some threadId)
          fun thread => { thread with forkedFrom := none } }

def deleteThreadRow
    (threadId : ThreadId)
    (store : Store Saved) :
    Store Saved :=
  store.withDb
    { store.db with
      threads :=
        store.db.threads.remove fun other _ =>
          other == threadId }

/- The statements of `delete_thread` in their order. -/
def cascade
    (threadId : ThreadId) :
    List (Store Saved → Store Saved) :=
  [deleteMessageCitations threadId, deleteMessages threadId,
    deleteRunEvents threadId, deleteRuns threadId,
    deleteSummaries threadId, deleteCheckpointWrites threadId,
    deleteCheckpointBlobs threadId, deleteCheckpoints threadId,
    clearForkedFrom threadId, deleteThreadRow threadId]

/-
  Delete a thread in one transaction.  The reply is whether
  the last statement found the thread.
-/
def Store.deleteThread
    (threadId : ThreadId)
    (fault : Option Nat)
    (store : Store Saved) :
    Except Exn Bool × Store Saved :=
  match transact (fun store => decide (ForeignKeys store))
      (cascade threadId) fault store with
  | (true, next) =>
      (.ok (store.db.threads.get? threadId).isSome, next)
  | (false, next) => (.error .database, next)

/- The cascade is the deletion of the thread of a database. -/
theorem db_behind
    (store : Store Saved)
    (threadId : ThreadId) :
    (behind (cascade threadId) 10 store).db =
      store.db.withoutThread threadId := rfl

------------------------------------------------------------
-- Foreign Keys
------------------------------------------------------------

/-
  No message refers to a run or to a message of another
  thread, and the ids of the messages are distinct.
-/
structure Db.Kin (db : Db) : Prop where
  runs :
    ∀ message ∈ db.messages, ∀ runId run,
      message.runId = some runId →
        db.runs.get? runId = some run →
          run.threadId = message.threadId
  parents :
    ∀ message ∈ db.messages, ∀ parent ∈ db.messages,
      message.parentId = some parent.id →
        parent.threadId = message.threadId
  distinct : (db.messages.map Message.id).Nodup

section Keys

variable {store : Store Saved} {threadId : ThreadId}

/- The keys are of six of the tables. -/
theorem ForeignKeys.congr
    {store' : Store Saved}
    (hKeys : ForeignKeys store)
    (hThreads : store'.db.threads = store.db.threads)
    (hRuns : store'.db.runs = store.db.runs)
    (hMessages : store'.db.messages = store.db.messages)
    (hLinks :
      store'.db.messageCitations = store.db.messageCitations)
    (hCitations : store'.db.citations = store.db.citations)
    (hSummaries :
      store'.tables.summaries = store.tables.summaries) :
    ForeignKeys store' := by
  constructor
  · rw [hThreads]
    exact hKeys.forkedFrom
  · rw [hThreads, hRuns]
    exact hKeys.runThread
  · rw [hThreads, hMessages]
    exact hKeys.messageThread
  · rw [hRuns, hMessages]
    exact hKeys.messageRun
  · rw [hMessages]
    exact hKeys.messageParent
  · rw [hMessages, hLinks]
    exact hKeys.linkMessage
  · rw [hCitations, hLinks]
    exact hKeys.linkCitation
  · rw [hThreads, hSummaries]
    exact hKeys.summaryThread

/- Links whose messages stay keep their keys. -/
theorem keys_deleteMessageCitations
    (hKeys : ForeignKeys store) :
    ForeignKeys (deleteMessageCitations threadId store) where
  forkedFrom := hKeys.forkedFrom
  runThread := hKeys.runThread
  messageThread := hKeys.messageThread
  messageRun := hKeys.messageRun
  messageParent := hKeys.messageParent
  linkMessage link hLink :=
    hKeys.linkMessage link (List.mem_of_mem_filter hLink)
  linkCitation link hLink :=
    hKeys.linkCitation link (List.mem_of_mem_filter hLink)
  summaryThread := hKeys.summaryThread

/- No parent and no linked message of another thread goes. -/
theorem keys_deleteMessages
    (hKeys : ForeignKeys store)
    (hKin : store.db.Kin)
    (hLinks :
      ∀ link ∈ store.db.messageCitations,
        ∀ message ∈ store.db.messages,
          message.id = link.1 → message.threadId ≠ threadId) :
    ForeignKeys (deleteMessages threadId store) where
  forkedFrom := hKeys.forkedFrom
  runThread := hKeys.runThread
  messageThread message hMem :=
    hKeys.messageThread message (List.mem_of_mem_filter hMem)
  messageRun message hMem :=
    hKeys.messageRun message (List.mem_of_mem_filter hMem)
  messageParent := by
    intro message hMem
    rcases List.mem_filter.mp hMem with ⟨hOld, hNe⟩
    have hParent := hKeys.messageParent message hOld
    rw [Option.all_eq_true] at hParent ⊢
    intro parentId hId
    rcases List.any_eq_true.mp (hParent parentId hId) with
      ⟨parent, hOther, hSame⟩
    have hThread : parent.threadId = message.threadId :=
      hKin.parents message hOld parent hOther
        (by rw [hId, beq_iff_eq.mp hSame])
    refine List.any_eq_true.mpr ⟨parent, ?_, hSame⟩
    rw [deleteMessages]
    rw [← hThread] at hNe
    exact List.mem_filter.mpr ⟨hOther, hNe⟩
  linkMessage := by
    intro link hLink
    rcases List.any_eq_true.mp (hKeys.linkMessage link hLink) with
      ⟨message, hMem, hSame⟩
    have hNe := hLinks link hLink message hMem (beq_iff_eq.mp hSame)
    refine List.any_eq_true.mpr ⟨message, ?_, hSame⟩
    exact List.mem_filter.mpr ⟨hMem, bne_iff_ne.mpr hNe⟩
  linkCitation := hKeys.linkCitation
  summaryThread := hKeys.summaryThread

/- No run of a message of another thread goes. -/
theorem keys_deleteRuns
    (hKeys : ForeignKeys store)
    (hKin : store.db.Kin)
    (hMessages :
      ∀ message ∈ store.db.messages,
        message.threadId ≠ threadId) :
    ForeignKeys (deleteRuns threadId store) where
  forkedFrom := hKeys.forkedFrom
  runThread row hRow :=
    hKeys.runThread row (List.mem_of_mem_filter hRow)
  messageThread := hKeys.messageThread
  messageRun := by
    intro message hMem
    have hRun := hKeys.messageRun message hMem
    rw [Option.all_eq_true] at hRun ⊢
    intro runId hId
    rcases Option.isSome_iff_exists.mp (hRun runId hId) with
      ⟨run, hGet⟩
    have hThread := hKin.runs message hMem runId run hId hGet
    have hNe : run.threadId ≠ threadId := by
      rw [hThread]
      exact hMessages message hMem
    simp only [deleteRuns, Store.withDb, Table.get?_remove, hGet,
      Option.filter_some]
    simp [hNe]
  messageParent := hKeys.messageParent
  linkMessage := hKeys.linkMessage
  linkCitation := hKeys.linkCitation
  summaryThread := hKeys.summaryThread

/- The keys of the threads stay when a pointer is cleared. -/
theorem isSome_clearForkedFrom (other : ThreadId) :
    ((clearForkedFrom threadId store).db.threads.get?
        other).isSome =
      (store.db.threads.get? other).isSome := by
  simp only [clearForkedFrom, Store.withDb, Table.get?_update,
    Option.isSome_map]

/- A pointer that is cleared refers to nothing. -/
theorem keys_clearForkedFrom
    (hKeys : ForeignKeys store) :
    ForeignKeys (clearForkedFrom threadId store) where
  forkedFrom := by
    intro row hRow
    rw [Option.all_eq_true]
    intro parentId hParent
    rw [isSome_clearForkedFrom]
    rcases List.mem_map.mp hRow with ⟨old, hOld, rfl⟩
    have hKey := hKeys.forkedFrom old hOld
    rw [Option.all_eq_true] at hKey
    dsimp only at hParent
    split at hParent
    · cases hParent
    · exact hKey parentId hParent
  runThread row hRow := by
    rw [isSome_clearForkedFrom]
    exact hKeys.runThread row hRow
  messageThread message hMem := by
    rw [isSome_clearForkedFrom]
    exact hKeys.messageThread message hMem
  messageRun := hKeys.messageRun
  messageParent := hKeys.messageParent
  linkMessage := hKeys.linkMessage
  linkCitation := hKeys.linkCitation
  summaryThread summary hMem := by
    rw [isSome_clearForkedFrom]
    exact hKeys.summaryThread summary hMem

/- Nothing refers to the thread that goes. -/
theorem keys_deleteThreadRow
    (hKeys : ForeignKeys store)
    (hPointers :
      ∀ row ∈ store.db.threads.rows,
        row.2.forkedFrom ≠ some threadId)
    (hRuns :
      ∀ row ∈ store.db.runs.rows, row.2.threadId ≠ threadId)
    (hMessages :
      ∀ message ∈ store.db.messages,
        message.threadId ≠ threadId)
    (hSummaries :
      ∀ summary ∈ store.tables.summaries,
        summary.threadId ≠ threadId) :
    ForeignKeys (deleteThreadRow threadId store) := by
  have hKept :
      ∀ other,
        other ≠ threadId →
          (store.db.threads.get? other).isSome = true →
            ((deleteThreadRow threadId store).db.threads.get?
                other).isSome =
              true := by
    intro other hNe hSome
    rcases Option.isSome_iff_exists.mp hSome with
      ⟨thread, hThread⟩
    simp only [deleteThreadRow, Store.withDb, Table.get?_remove,
      hThread, Option.filter_some]
    simp [hNe]
  refine
    ⟨?_, ?_, ?_, hKeys.messageRun, hKeys.messageParent,
      hKeys.linkMessage, hKeys.linkCitation, ?_⟩
  · intro row hRow
    have hOld := List.mem_of_mem_filter hRow
    have hParent := hKeys.forkedFrom row hOld
    rw [Option.all_eq_true] at hParent ⊢
    intro parentId hId
    refine hKept parentId ?_ (hParent parentId hId)
    rintro rfl
    exact hPointers row hOld hId
  · intro row hRow
    exact hKept _ (hRuns row hRow) (hKeys.runThread row hRow)
  · intro message hMem
    exact
      hKept _ (hMessages message hMem)
        (hKeys.messageThread message hMem)
  · intro summary hMem
    exact
      hKept _ (hSummaries summary hMem)
        (hKeys.summaryThread summary hMem)

/- The messages of other threads are still kin. -/
theorem Db.Kin.filter
    {db db' : Db}
    {keeps : Message → Bool}
    (hKin : db.Kin)
    (hRuns : db'.runs = db.runs)
    (hMessages : db'.messages = db.messages.filter keeps) :
    db'.Kin where
  runs := by
    rw [hRuns, hMessages]
    intro message hMem
    exact hKin.runs message (List.mem_of_mem_filter hMem)
  parents := by
    rw [hMessages]
    intro message hMem parent hParent
    exact
      hKin.parents message (List.mem_of_mem_filter hMem) parent
        (List.mem_of_mem_filter hParent)
  distinct := by
    rw [hMessages]
    exact hKin.distinct.sublist (List.filter_sublist.map _)

/- A link that is left is of a message of another thread. -/
theorem ne_of_link
    {link : MessageId × CitationId}
    (hLink :
      link ∈
        (deleteMessageCitations threadId
          store).db.messageCitations)
    {message : Message}
    (hMem : message ∈ store.db.messages)
    (hId : message.id = link.1) :
    message.threadId ≠ threadId := by
  intro hMine
  have hNone := (List.mem_filter.mp hLink).2
  have hSome :
      (store.db.messages.any fun message =>
          message.id == link.1 &&
            message.threadId == threadId) =
        true :=
    List.any_eq_true.mpr ⟨message, hMem, by simp [hId, hMine]⟩
  rw [hSome] at hNone
  cases hNone

/- No statement of the cascade violates a foreign key. -/
theorem foreignKeys_behind
    (hKeys : ForeignKeys store)
    (hKin : store.db.Kin)
    (number : Nat) :
    ForeignKeys (behind (cascade threadId) number store) := by
  have hMine :
      ∀ message ∈
          (behind (cascade threadId) 2 store).db.messages,
        message.threadId ≠ threadId := by
    intro message hMem
    exact bne_iff_ne.mp (List.mem_filter.mp hMem).2
  have hKept : (behind (cascade threadId) 2 store).db.Kin :=
    hKin.filter rfl rfl
  have h₁ : ForeignKeys (behind (cascade threadId) 1 store) :=
    keys_deleteMessageCitations hKeys
  have h₂ : ForeignKeys (behind (cascade threadId) 2 store) :=
    keys_deleteMessages h₁
      ⟨hKin.runs, hKin.parents, hKin.distinct⟩
      fun _ hLink _ => ne_of_link hLink
  have h₃ : ForeignKeys (behind (cascade threadId) 3 store) :=
    h₂.congr rfl rfl rfl rfl rfl rfl
  have h₄ : ForeignKeys (behind (cascade threadId) 4 store) :=
    keys_deleteRuns h₃
      ⟨hKept.runs, hKept.parents, hKept.distinct⟩ hMine
  have h₅ : ForeignKeys (behind (cascade threadId) 5 store) :=
    ⟨h₄.forkedFrom, h₄.runThread, h₄.messageThread,
      h₄.messageRun, h₄.messageParent, h₄.linkMessage,
      h₄.linkCitation,
      fun summary hMem =>
        h₄.summaryThread summary (List.mem_of_mem_filter hMem)⟩
  -- the graph's own tables have no foreign key
  have h₈ : ForeignKeys (behind (cascade threadId) 8 store) :=
    h₅.congr rfl rfl rfl rfl rfl rfl
  have h₉ : ForeignKeys (behind (cascade threadId) 9 store) :=
    keys_clearForkedFrom h₈
  have h₁₀ :
      ForeignKeys (behind (cascade threadId) 10 store) := by
    refine keys_deleteThreadRow h₉ ?_ ?_ hMine ?_
    · intro row hRow hPointer
      rcases List.mem_map.mp hRow with ⟨old, -, rfl⟩
      dsimp only at hPointer
      split at hPointer
      · cases hPointer
      · rename_i hNot
        exact hNot (beq_iff_eq.mpr hPointer)
    · intro row hRow hThread
      have hNot := (List.mem_filter.mp hRow).2
      simp [hThread] at hNot
    · intro summary hMem
      exact bne_iff_ne.mp (List.mem_filter.mp hMem).2
  match number with
  | 0 => exact hKeys
  | 1 => exact h₁
  | 2 => exact h₂
  | 3 => exact h₃
  | 4 => exact h₄
  | 5 => exact h₅
  | 6 => exact h₅.congr rfl rfl rfl rfl rfl rfl
  | 7 => exact h₅.congr rfl rfl rfl rfl rfl rfl
  | 8 => exact h₈
  | 9 => exact h₉
  | number + 10 =>
      rw [behind,
        List.take_of_length_le (Nat.le_add_left 10 number)]
      exact h₁₀

end Keys

------------------------------------------------------------
-- Rows
------------------------------------------------------------

/- A thread without its pointer to a deleted one. -/
def Thread.unlink (thread : Thread) (threadId : ThreadId) :
    Thread :=
  if thread.forkedFrom = some threadId then
    { thread with forkedFrom := none }
  else
    thread

/- The rows keyed by a thread, and the pointers, are gone. -/
structure Cascaded
    (store store' : Store Saved)
    (threadId : ThreadId) :
    Prop where
  thread : store'.db.threads.get? threadId = none
  pointers :
    ∀ other thread,
      store'.db.threads.get? other = some thread →
        thread.forkedFrom ≠ some threadId
  runs :
    ∀ runId run,
      store'.db.runs.get? runId = some run →
        run.threadId ≠ threadId
  messages :
    ∀ message ∈ store'.db.messages,
      message.threadId ≠ threadId
  links :
    ∀ message ∈ store.db.messages,
      message.threadId = threadId →
        ∀ key, (message.id, key) ∉ store'.db.messageCitations
  runEvents :
    ∀ row ∈ store'.db.runEvents, row.threadId ≠ threadId
  summaries :
    ∀ summary ∈ store'.tables.summaries,
      summary.threadId ≠ threadId
  checkpointWrites :
    ∀ row ∈ store'.tables.checkpointWrites, row.1 ≠ threadId
  checkpointBlobs :
    ∀ row ∈ store'.tables.checkpointBlobs, row.1 ≠ threadId
  checkpoints :
    ∀ row ∈ store'.tables.checkpoints, row.1 ≠ threadId
  graph : store'.db.checkpoints threadId = []

/-
  The citations and the rows of the other threads are as they
  were, in their order, up to the pointers to the thread.
-/
structure Spared
    (store store' : Store Saved)
    (threadId : ThreadId) :
    Prop where
  citations : store'.db.citations = store.db.citations
  threads :
    ∀ other,
      other ≠ threadId →
        store'.db.threads.get? other =
          (store.db.threads.get? other).map fun thread =>
            thread.unlink threadId
  runs :
    ∀ runId run,
      run.threadId ≠ threadId →
        (store'.db.runs.get? runId = some run ↔
          store.db.runs.get? runId = some run)
  messages :
    store'.db.messages =
      store.db.messages.filter fun message =>
        message.threadId != threadId
  links :
    ∀ message ∈ store.db.messages,
      message.threadId ≠ threadId →
        ∀ key,
          (message.id, key) ∈ store'.db.messageCitations ↔
            (message.id, key) ∈ store.db.messageCitations
  runEvents :
    store'.db.runEvents =
      store.db.runEvents.filter fun row =>
        row.threadId != threadId
  summaries :
    store'.tables.summaries =
      store.tables.summaries.filter fun summary =>
        summary.threadId != threadId
  checkpointWrites :
    store'.tables.checkpointWrites =
      store.tables.checkpointWrites.filter fun row =>
        row.1 != threadId
  checkpointBlobs :
    store'.tables.checkpointBlobs =
      store.tables.checkpointBlobs.filter fun row =>
        row.1 != threadId
  checkpoints :
    store'.tables.checkpoints =
      store.tables.checkpoints.filter fun row =>
        row.1 != threadId
  graph :
    ∀ other,
      other ≠ threadId →
        store'.db.checkpoints other = store.db.checkpoints other

section Rows

variable {store : Store Saved} {threadId : ThreadId}

/- The threads that are left, without pointers. -/
theorem get?_behind (other : ThreadId) :
    (behind (cascade threadId) 10 store).db.threads.get?
        other =
      if other = threadId then none
      else
        (store.db.threads.get? other).map fun thread =>
          thread.unlink threadId := by
  rw [db_behind]
  simp only [Db.withoutThread, Table.get?_remove,
    Table.get?_update]
  by_cases hEq : other = threadId
  · rw [if_pos hEq]
    cases store.db.threads.get? other <;>
      simp [hEq, Option.filter_some]
  · rw [if_neg hEq]
    cases store.db.threads.get? other with
    | none => rfl
    | some thread =>
        simp [hEq, Option.filter_some, Thread.unlink]

/- The runs that are left. -/
theorem runs_behind
    {runId : RunId}
    {run : Run} :
    (behind (cascade threadId) 10 store).db.runs.get? runId =
        some run ↔
      store.db.runs.get? runId = some run ∧
        run.threadId ≠ threadId := by
  rw [db_behind]
  simp only [Db.withoutThread, Table.get?_remove,
    Option.filter_eq_some_iff]
  simp

/- The links that are left. -/
theorem link_behind
    {link : MessageId × CitationId} :
    link ∈
        (behind (cascade threadId) 10
          store).db.messageCitations ↔
      link ∈ store.db.messageCitations ∧
        ∀ message ∈ store.db.messages,
          message.id = link.1 →
            message.threadId ≠ threadId := by
  rw [db_behind]
  simp [Db.withoutThread]

/- The cascade is complete. -/
theorem cascaded_behind :
    Cascaded store (behind (cascade threadId) 10 store)
      threadId where
  thread := by
    rw [get?_behind, if_pos rfl]
  pointers := by
    intro other thread hThread hPointer
    rw [get?_behind] at hThread
    split at hThread
    · cases hThread
    · rcases Option.map_eq_some_iff.mp hThread with
        ⟨old, -, rfl⟩
      unfold Thread.unlink at hPointer
      split at hPointer
      · cases hPointer
      · rename_i hNot
        exact hNot hPointer
  runs runId run hRun := (runs_behind.mp hRun).2
  messages message hMem :=
    bne_iff_ne.mp (List.mem_filter.mp hMem).2
  links message hMem hMine key hLink :=
    (link_behind.mp hLink).2 message hMem rfl hMine
  runEvents row hMem :=
    bne_iff_ne.mp (List.mem_filter.mp hMem).2
  summaries summary hMem :=
    bne_iff_ne.mp (List.mem_filter.mp hMem).2
  checkpointWrites row hMem :=
    bne_iff_ne.mp (List.mem_filter.mp hMem).2
  checkpointBlobs row hMem :=
    bne_iff_ne.mp (List.mem_filter.mp hMem).2
  checkpoints row hMem :=
    bne_iff_ne.mp (List.mem_filter.mp hMem).2
  graph := by
    rw [db_behind]
    exact if_pos rfl

/- The cascade is confined to the thread. -/
theorem spared_behind
    (hKin : store.db.Kin) :
    Spared store (behind (cascade threadId) 10 store)
      threadId where
  citations := rfl
  threads other hNe := by
    rw [get?_behind, if_neg hNe]
  runs runId run hNe := by
    rw [runs_behind]
    exact and_iff_left hNe
  messages := rfl
  links := by
    intro message hMem hNe key
    rw [link_behind]
    apply and_iff_left
    intro other hOther hSame
    have hEq : other = message :=
      List.inj_on_of_nodup_map hKin.distinct hOther hMem hSame
    rw [hEq]
    exact hNe
  runEvents := rfl
  summaries := rfl
  checkpointWrites := rfl
  checkpointBlobs := rfl
  checkpoints := rfl
  graph other hNe := by
    rw [db_behind]
    exact if_neg hNe

end Rows

end LegalAgent
