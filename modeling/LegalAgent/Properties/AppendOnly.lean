import LegalAgent.Properties.RecordedEvents
import LegalAgent.Service.Summaries
import LegalAgent.Store.Fork

/-
  Transcripts that only grow.

  The store of a running server has the shape of a store that
  threads, forks and messages build: whatever the drivers, the
  requests, the maintenance and the crashes do, the records of
  the messages that a thread shows stay as they are, and new
  ones of its own come behind them.  A summary of a range of a
  transcript therefore never becomes stale.

  Key definitions include:
    * `Refits`
    * `Db.recorded`

  Key theorems include:
    * `forked_of_exec`
    * `keeps_grown`
    * `transcript_append_only`
    * `summary_never_stale`
-/

------------------------------------------------------------
-- Updated Stores
------------------------------------------------------------

namespace LegalAgent

open Library

/-
  An update of the rows that keeps the slots of the messages
  and, of the threads, their numbers and their fork points.
-/
structure Refits (db db' : Db) : Prop where
  kept :
    ∀ threadId thread,
      db.threads.get? threadId = some thread →
        ∃ thread',
          db'.threads.get? threadId = some thread' ∧
            thread'.forkedFrom = thread.forkedFrom ∧
              thread'.forkPoint = thread.forkPoint ∧
                thread'.lastSeq = thread.lastSeq
  known :
    ∀ threadId,
      (db'.threads.get? threadId).isSome = true →
        (db.threads.get? threadId).isSome = true
  slots : db'.slots = db.slots
  nextId : db.nextId ≤ db'.nextId

/- Threads that stay are kept and known. -/
theorem refits_of_threads
    {db db' : Db}
    (hThreads : db'.threads = db.threads)
    (hSlots : db'.slots = db.slots)
    (hNext : db.nextId ≤ db'.nextId) :
    Refits db db' where
  kept := by
    rw [hThreads]
    exact fun _ thread hThread =>
      ⟨thread, hThread, rfl, rfl, rfl⟩
  known := by
    rw [hThreads]
    exact fun _ hSome => hSome
  slots := hSlots
  nextId := hNext

section Refits

variable {db db' : Db}

/- The thread before an update. -/
theorem Refits.of_thread
    (hRefits : Refits db db')
    {threadId : ThreadId}
    {thread' : Thread}
    (hThread : db'.threads.get? threadId = some thread') :
    ∃ thread,
      db.threads.get? threadId = some thread ∧
        thread'.forkedFrom = thread.forkedFrom ∧
          thread'.forkPoint = thread.forkPoint ∧
            thread'.lastSeq = thread.lastSeq := by
  have hKnown :=
    hRefits.known threadId (by rw [hThread, Option.isSome_some])
  rcases Option.isSome_iff_exists.mp hKnown with
    ⟨thread, hOld⟩
  rcases hRefits.kept threadId thread hOld with
    ⟨other, hOther, hKept⟩
  rw [hThread, Option.some_inj] at hOther
  subst hOther
  exact ⟨thread, hOld, hKept⟩

/- The message before an update. -/
theorem Refits.of_message
    (hRefits : Refits db db')
    {message' : Message}
    (hMem : message' ∈ db'.messages) :
    ∃ message ∈ db.messages, message.slot = message'.slot := by
  have hSlot : message'.slot ∈ db'.slots :=
    List.mem_map_of_mem hMem
  rw [hRefits.slots] at hSlot
  exact List.mem_map.mp hSlot

/- The message behind an update. -/
theorem Refits.message
    (hRefits : Refits db db')
    {message : Message}
    (hMem : message ∈ db.messages) :
    ∃ message' ∈ db'.messages,
      message'.slot = message.slot := by
  have hSlot : message.slot ∈ db.slots :=
    List.mem_map_of_mem hMem
  rw [← hRefits.slots] at hSlot
  exact List.mem_map.mp hSlot

/- An update keeps the shape of a store. -/
theorem forked_of_refits
    (hForked : db.Forked)
    (hRefits : Refits db db') :
    db'.Forked where
  threadIds := by
    intro threadId thread' hThread'
    rcases hRefits.of_thread hThread' with ⟨thread, hThread, -⟩
    exact
      Nat.lt_of_lt_of_le
        (hForked.threadIds threadId thread hThread)
        hRefits.nextId
  messageIds := by
    intro message' hMem'
    rcases hRefits.of_message hMem' with ⟨message, hMem, hSlot⟩
    have hId : message.id = message'.id :=
      congrArg Slot.id hSlot
    rw [← hId]
    exact
      Nat.lt_of_lt_of_le (hForked.messageIds message hMem)
        hRefits.nextId
  numbered := by
    intro message' hMem'
    rcases hRefits.of_message hMem' with ⟨message, hMem, hSlot⟩
    rcases hForked.numbered message hMem with
      ⟨thread, hThread, hLe⟩
    rcases hRefits.kept _ thread hThread with
      ⟨thread', hThread', -, -, hLast⟩
    have hOwner : message.threadId = message'.threadId :=
      congrArg Slot.threadId hSlot
    have hSeq : message.seq = message'.seq :=
      congrArg Slot.seq hSlot
    refine ⟨thread', ?_, ?_⟩
    · rw [← hOwner]
      exact hThread'
    · rw [hLast, ← hSeq]
      exact hLe
  ordered := by
    have hSlots :
        db.slots.Pairwise fun slot other =>
          slot.id ≠ other.id ∧
            (slot.threadId = other.threadId →
              slot.seq < other.seq) :=
      List.pairwise_map.mpr hForked.ordered
    rw [← hRefits.slots] at hSlots
    exact List.pairwise_map.mp hSlots
  forks := by
    intro threadId thread' parentId hThread' hParent
    rcases hRefits.of_thread hThread' with
      ⟨thread, hThread, hFrom, hForkPoint, hLast⟩
    rw [hFrom] at hParent
    rcases
        hForked.forks threadId thread parentId hThread hParent
      with
      ⟨hLt, point, hPoint, hId, hOwner, hLe, hBehind⟩
    rcases hRefits.message hPoint with ⟨point', hPoint', hSlot⟩
    have hPointId : point'.id = point.id :=
      congrArg Slot.id hSlot
    have hPointOwner : point'.threadId = point.threadId :=
      congrArg Slot.threadId hSlot
    have hPointSeq : point'.seq = point.seq :=
      congrArg Slot.seq hSlot
    refine ⟨hLt, point', hPoint', ?_, ?_, ?_, ?_⟩
    · rw [hForkPoint, hId, hPointId]
    · rw [hPointOwner, hOwner]
    · rw [hLast, hPointSeq]
      exact hLe
    · intro message' hMem' hMine
      rcases hRefits.of_message hMem' with
        ⟨message, hMem, hSame⟩
      have hMessageOwner : message.threadId = message'.threadId :=
        congrArg Slot.threadId hSame
      have hMessageSeq : message.seq = message'.seq :=
        congrArg Slot.seq hSame
      rw [hPointSeq, ← hMessageSeq]
      exact hBehind message hMem (hMessageOwner.trans hMine)

end Refits

------------------------------------------------------------
-- Calls
------------------------------------------------------------

/-
  Threads keep their fork points, however the messages change.
-/
def Db.KeepsForks (db db' : Db) : Prop :=
  ∀ threadId thread,
    db.threads.get? threadId = some thread →
      ∃ thread',
        db'.threads.get? threadId = some thread' ∧
          thread'.forkedFrom = thread.forkedFrom ∧
            thread'.forkPoint = thread.forkPoint

section Calls

variable {db db' : Db}

/- An update keeps the fork points. -/
theorem keepsForks_of_refits
    (hRefits : Refits db db') :
    db.KeepsForks db' := by
  intro threadId thread hThread
  rcases hRefits.kept threadId thread hThread with
    ⟨thread', hThread', hFrom, hPoint, -⟩
  exact ⟨thread', hThread', hFrom, hPoint⟩

/- An inserted message is one that the store adds. -/
theorem forked_of_insert
    (hForked : db.Forked)
    {threadId : ThreadId}
    {new : NewMessage}
    {row : MessageId × Nat}
    (hInsert : insertMessage threadId new db = .ok (row, db')) :
    db'.Forked ∧ Grows db db' := by
  have hAdd :
      addCitedMessage threadId (new.toMessage 0 0 0) [] db =
        .ok (row, db') := by
    unfold insertMessage at hInsert
    unfold addCitedMessage
    cases hNext : nextSeq threadId db.drawId with
    | error exn =>
        rw [hNext] at hInsert
        cases hInsert
    | ok next =>
        rw [hNext] at hInsert
        exact hInsert
  exact forked_addCitedMessage hForked hAdd

/- Every call keeps the shape of the store. -/
theorem forked_of_exec
    {inst : InstanceId}
    {op : Op}
    {world world' : World}
    {value : op.Reply}
    (hExec : exec inst op world = (.ok value, world'))
    (hForked : world.db.Forked) :
    world'.db.Forked ∧ world.db.KeepsForks world'.db := by
  have hFrame := frames_of_exec hExec
  have hStored :
      ∀ action,
        storeStep world.db action = some world'.db →
          world'.db.Forked ∧
            world.db.KeepsForks world'.db := by
    intro action hStep
    rcases forked_step hForked hStep with ⟨hForked', hGrows⟩
    exact ⟨hForked', hGrows.threads⟩
  have hRefitted :
      Refits world.db world'.db →
        world'.db.Forked ∧ world.db.KeepsForks world'.db :=
    fun hRefits =>
      ⟨forked_of_refits hForked hRefits,
        keepsForks_of_refits hRefits⟩
  cases op with
  | createThread title =>
      cases hExec
      exact hStored (.createThread title) rfl
  | forkThread parentId forkPoint =>
      have hFork := statement_of_onDb hExec
      apply hStored (.forkThread parentId forkPoint)
      simp only [storeStep, Statement.after, hFork]
  | nextSeq threadId =>
      have hNext := statement_of_onDb hExec
      apply hStored (.nextSeq threadId)
      simp only [storeStep, Statement.after, hNext]
  | addMessage threadId new =>
      rcases
          forked_of_insert hForked (statement_of_onDb hExec) with
        ⟨hForked', hGrows⟩
      exact ⟨hForked', hGrows.threads⟩
  | commitAgentAnswer threadId runId contentMd citationIds
      parentId model =>
      rcases of_commitAgentAnswer (statement_of_onDb hExec) with
        ⟨-, -, hDb⟩ |
          ⟨messageId, seq, links, db₁, -, -, hInsert, hDb⟩
      · apply hRefitted
        rw [hDb]
        exact refits_of_threads rfl rfl (Nat.le_refl _)
      · have hEnded :
            Refits world.db
              (world.db.writeStatus runId .completed true) :=
          refits_of_threads rfl rfl (Nat.le_refl _)
        rcases
            forked_of_insert
              (forked_of_refits hForked hEnded) hInsert with
          ⟨hForked₁, hGrows⟩
        have hLinked : Refits db₁ world'.db := by
          rw [hDb]
          exact refits_of_threads rfl rfl (Nat.le_refl _)
        refine ⟨forked_of_refits hForked₁ hLinked, ?_⟩
        rw [hDb]
        exact hGrows.threads
  | setThreadTitleIfEmpty titledId title =>
      cases hExec
      apply hRefitted
      refine ⟨?_, ?_, rfl, Nat.le_refl _⟩
      · intro threadId thread hThread
        simp only [Table.get?_update, hThread, Option.map_some]
        refine ⟨_, rfl, ?_⟩
        split
        · exact ⟨rfl, rfl, rfl⟩
        · exact ⟨rfl, rfl, rfl⟩
      · intro threadId hSome
        rw [Table.get?_update, Option.isSome_map] at hSome
        exact hSome
  | _ =>
      apply hRefitted
      apply refits_of_threads (hFrame.threads rfl) ?_ hFrame.nextId
      cases changesSlots_of_exec hExec with
      | kept _ hSlots => exact hSlots

end Calls

------------------------------------------------------------
-- Recorded Stores
------------------------------------------------------------

/- The message that a record keeps, as it was inserted. -/
def MessageRecord.message (record : MessageRecord) : Message where
  id := record.id
  threadId := record.threadId
  runId := record.runId
  seq := record.seq
  parentId := record.parentId
  role := record.role
  contentMd := record.contentMd
  toolName := record.call.name
  toolArgs := record.call.args
  toolResult := none
  approvalState := none
  toolCallId := record.call.id
  model := record.model

/- The store with its messages as they were inserted. -/
def Db.recorded (db : Db) : Db :=
  { db with
    messages := db.messageRecords.map MessageRecord.message }

section Recorded

variable {db db' : Db}

/- The recorded store is an update. -/
theorem refits_recorded (db : Db) : Refits db db.recorded := by
  refine
    @refits_of_threads db db.recorded rfl ?_
      (Nat.le_refl db.nextId)
  rw [Db.slots, Db.recorded, Db.messageRecords, List.map_map,
    List.map_map, Db.slots]
  rfl

/- Stores that keep the forks and add to the records. -/
theorem grows_recorded
    (hForks : db.KeepsForks db')
    (hRecords :
      ∃ new, db'.messageRecords = db.messageRecords ++ new) :
    Grows db.recorded db'.recorded where
  threads := hForks
  messages := by
    rcases hRecords with ⟨new, hNew⟩
    refine ⟨new.map MessageRecord.message, ?_⟩
    rw [Db.recorded, Db.recorded, hNew, List.map_append]

/- A change that keeps the numbers keeps their order. -/
theorem bySeq_map
    (change : Message → Message)
    (hSeq : ∀ message, (change message).seq = message.seq)
    (messages : List Message) :
    bySeq (messages.map change) = (bySeq messages).map change := by
  unfold bySeq
  symm
  apply List.map_insertionSort
  intro message _ other _
  rw [hSeq, hSeq]

/- The recorded store shows the recorded messages. -/
theorem threadMessages_recorded
    (db : Db)
    (threadId : ThreadId) :
    db.recorded.threadMessages threadId =
      (db.threadMessages threadId).map fun message =>
        message.record.message := by
  have hFind :
      ∀ id,
        ((db.messages.map fun message =>
              message.record.message).find? fun message =>
            message.id == id).map Message.seq =
          (db.messages.find? fun message =>
            message.id == id).map Message.seq := by
    intro id
    rw [List.find?_map, Option.map_map]
    rfl
  have hMessages :
      db.recorded.messages =
        db.messages.map fun message =>
          message.record.message := by
    rw [Db.recorded, Db.messageRecords, List.map_map]
    rfl
  have hChain :
      ∀ depth threadId cut,
        db.recorded.chain depth threadId cut =
          db.chain depth threadId cut := by
    intro depth
    induction depth with
    | zero => exact fun _ _ => rfl
    | succ depth ih =>
        intro threadId cut
        rw [Db.chain, Db.chain]
        simp only [ih]
        rw [hMessages]
        simp only [hFind]
        rfl
  have hVisible :
      ∀ message,
        db.recorded.visible threadId
            (Message.record message).message =
          db.visible threadId message := by
    intro message
    unfold Db.visible
    rw [hChain]
    rfl
  rw [Db.threadMessages, hMessages, List.filter_map,
    Db.threadMessages]
  rw [bySeq_map (fun message => message.record.message)
    fun _ => rfl]
  congr 2
  apply List.filter_congr
  intro message _
  exact hVisible message

end Recorded

------------------------------------------------------------
-- Runs
------------------------------------------------------------

section Runs

variable {registry : Registry}
variable {allowed : System → Action → Prop}

/-
  A store that has the shape of built stores, and that has
  grown from a first one but for results and approvals.
-/
structure Db.GrownFrom (first db : Db) : Prop where
  forked : db.Forked
  grown : Grows first.recorded db.recorded

/- An update that keeps the records keeps a store grown. -/
theorem Db.GrownFrom.refit
    {first db db' : Db}
    (hGrown : first.GrownFrom db)
    (hRefits : Refits db db')
    (hRecords : db'.messageRecords = db.messageRecords) :
    first.GrownFrom db' where
  forked := forked_of_refits hGrown.forked hRefits
  grown :=
    grows_trans hGrown.grown
      (grows_recorded (keepsForks_of_refits hRefits)
        ⟨[], by rw [hRecords, List.append_nil]⟩)

/- Every step of the server grows the store. -/
theorem keeps_grown (first : Db) :
    KeptInDb registry allowed first.GrownFrom where
  exec := by
    intro system taskId task op value world' _ hExec hGrown
    rcases forked_of_exec hExec hGrown.forked with
      ⟨hForked, hForks⟩
    exact
      ⟨hForked,
        grows_trans hGrown.grown
          (grows_recorded hForks
            ⟨_, messageRecords_of_exec hExec⟩)⟩
  advance _ _ hGrown :=
    hGrown.refit (refits_of_threads rfl rfl (Nat.le_refl _)) rfl
  heartbeat _ _ hGrown :=
    hGrown.refit (refits_of_threads rfl rfl (Nat.le_refl _)) rfl
  sweep := by
    intro db selects hGrown
    exact
      hGrown.refit
        (refits_of_threads rfl (slots_sweep db selects)
          (Nat.le_refl _))
        (messageRecords_sweep db selects)
  collect _ _ hGrown :=
    hGrown.refit (refits_of_threads rfl rfl (Nat.le_refl _)) rfl

variable {system later : System}

/- The store of a reachable server has the shape. -/
theorem forked_of_reachable
    (hReachable : Reachable registry allowed system) :
    system.world.db.Forked :=
  (preserved_of_reachable
    (preserves_of_kept (keeps_grown .empty))
    ⟨forked_empty, grows_refl _⟩ hReachable).forked

/- The store has grown over a run. -/
theorem grown_of_execution
    (hReachable : Reachable registry allowed system)
    (hLater :
      Execution (System.step registry) allowed system later) :
    system.world.db.GrownFrom later.world.db :=
  preserved_of_execution
    (preserves_of_kept (keeps_grown system.world.db)) hReachable
    ⟨forked_of_reachable hReachable, grows_refl _⟩ hLater

/-
  What a grown store shows of a thread begins with what it
  showed at first.
-/
theorem records_of_grown
    {first db : Db}
    (hForked : first.Forked)
    (hGrown : first.GrownFrom db)
    {threadId : ThreadId}
    {thread : Thread}
    (hThread : first.threads.get? threadId = some thread) :
    ∃ own,
      (db.threadMessages threadId).map Message.record =
          (first.threadMessages threadId).map Message.record ++
            own ∧
        ∀ record ∈ own, record.threadId = threadId := by
  rcases
      threadMessages_grows
        (forked_of_refits hForked (refits_recorded _))
        (forked_of_refits hGrown.forked (refits_recorded _))
        hGrown.grown hThread with
    ⟨own, hOwn, hMine⟩
  refine ⟨own.map Message.record, ?_, ?_⟩
  · rw [threadMessages_recorded, threadMessages_recorded] at hOwn
    have hRecords := congrArg (List.map Message.record) hOwn
    rw [List.map_append, List.map_map, List.map_map] at hRecords
    exact hRecords
  · intro record hMem
    rcases List.mem_map.mp hMem with ⟨message, hMessage, rfl⟩
    exact hMine message hMessage

/- A message that was shown is shown in a grown store. -/
theorem shown_of_grown
    {first db : Db}
    (hForked : first.Forked)
    (hGrown : first.GrownFrom db)
    {threadId : ThreadId}
    {thread : Thread}
    (hThread : first.threads.get? threadId = some thread)
    {message : Message}
    (hShown : message ∈ first.threadMessages threadId) :
    ∃ message' ∈ db.threadMessages threadId,
      message'.id = message.id := by
  rcases records_of_grown hForked hGrown hThread with
    ⟨own, hRecords, -⟩
  have hMem :
      message.record ∈
        (db.threadMessages threadId).map Message.record := by
    rw [hRecords]
    exact
      List.mem_append_left _ (List.mem_map_of_mem hShown)
  rcases List.mem_map.mp hMem with ⟨message', hShown', hSame⟩
  exact ⟨message', hShown', congrArg MessageRecord.id hSame⟩

/-
  Whatever happens in a run, what a thread shows stays as it
  was recorded and in its order, with new messages of the
  thread itself behind it.
-/
theorem transcript_append_only
    (hReachable : Reachable registry allowed system)
    (hLater :
      Execution (System.step registry) allowed system later)
    {threadId : ThreadId}
    {thread : Thread}
    (hThread :
      system.world.db.threads.get? threadId = some thread) :
    ∃ own,
      (later.world.db.threadMessages threadId).map
            Message.record =
          (system.world.db.threadMessages threadId).map
              Message.record ++
            own ∧
        (∀ record ∈ own, record.threadId = threadId) ∧
          (later.world.db.threadMessages threadId).Pairwise
            fun message other => message.seq < other.seq := by
  have hGrown := grown_of_execution hReachable hLater
  rcases
      records_of_grown (forked_of_reachable hReachable) hGrown
        hThread with
    ⟨own, hRecords, hMine⟩
  exact
    ⟨own, hRecords, hMine,
      sorted_threadMessages hGrown.forked threadId⟩

/-
  The draft of a summary stays the draft of the range that it
  covers, whatever happens between the reading of the thread
  and the storing of the summary, and from then on.
-/
theorem summary_never_stale
    (hReachable : Reachable registry allowed system)
    (hLater :
      Execution (System.step registry) allowed system later)
    {threadId : ThreadId}
    {fromSeq toSeq : Option Nat}
    {draft : SummaryDraft}
    (hDraft :
      system.world.db.summaryDraft threadId fromSeq toSeq =
        some draft) :
    later.world.db.summaryDraft threadId
        (some draft.coversFromSeq) (some draft.coversToSeq) =
      some draft := by
  rcases grown_of_execution hReachable hLater with
    ⟨hForked', hGrown⟩
  have hForked := forked_of_reachable hReachable
  have hRecorded :
      ∀ db : Db, ∀ fromSeq toSeq,
        draftOf fromSeq toSeq (db.recorded.threadMessages threadId) =
          db.summaryDraft threadId fromSeq toSeq := by
    intro db fromSeq toSeq
    rw [threadMessages_recorded, Db.summaryDraft]
    exact
      draftOf_map _ (fun _ => rfl) (fun _ => rfl) fun _ => rfl
  cases hThread : system.world.db.threads.get? threadId with
  | none =>
      rw [Db.summaryDraft, threadMessages_of_none hThread] at hDraft
      cases hDraft
  | some thread =>
      have hShaped :=
        forked_of_refits hForked' (refits_recorded _)
      rcases
          threadMessages_grows
            (forked_of_refits hForked (refits_recorded _))
            hShaped hGrown hThread with
        ⟨own, hOwn, -⟩
      have hSorted := sorted_threadMessages hShaped threadId
      rw [← hRecorded] at hDraft ⊢
      rw [hOwn] at hSorted ⊢
      exact draftOf_append hDraft hSorted

end Runs

/- The end of `toldRun`, and another question with its answer. -/
def furtherQuestion : List Action :=
  turns 1 1 ++
    [.request 2 0
      (.start 0 "다음".toList none
        [.agent (.str "둘째".toList) []])] ++
    turns 2 14

/- Another question adds two messages to the three of a run. -/
theorem transcript_append_only_further :
    ∃ system later,
      execute (System.step .single) toldRun .initial =
          some system ∧
        execute (System.step .single) furtherQuestion system =
            some later ∧
          ∃ own,
            own.length = 2 ∧
              (later.world.db.threadMessages 0).map
                  Message.record =
                (system.world.db.threadMessages 0).map
                    Message.record ++
                  own := by
  have hView :
      ((execute (System.step .single) toldRun .initial).bind
          fun system =>
        (execute (System.step .single) furtherQuestion
            system).map fun later =>
          (system.world.db.threads.get? 0).isSome &&
            decide
              ((system.world.db.threadMessages 0).length = 3) &&
            decide
              ((later.world.db.threadMessages 0).length = 5)) =
        some true := by
    decide +kernel
  simp only [Option.bind_eq_some_iff, Option.map_eq_some_iff,
    Bool.and_eq_true, decide_eq_true_eq] at hView
  rcases hView with
    ⟨system, hSystem, later, hLater, ⟨hSome, hThree⟩, hFive⟩
  rcases Option.isSome_iff_exists.mp hSome with
    ⟨thread, hThread⟩
  have hReachable :
      Reachable .single (fun _ _ => True) system :=
    execution_of_execute hSystem
  rcases
      transcript_append_only hReachable
        (execution_of_execute hLater) hThread with
    ⟨own, hOwn, -, -⟩
  refine ⟨system, later, hSystem, hLater, own, ?_, hOwn⟩
  have hLength := congrArg List.length hOwn
  rw [List.length_map, List.length_append, List.length_map,
    hThree, hFive] at hLength
  omega

/- The summary of a run outlives another question. -/
theorem summary_never_stale_further :
    ∃ system later draft,
      execute (System.step .single) toldRun .initial =
          some system ∧
        execute (System.step .single) furtherQuestion system =
            some later ∧
          system.world.db.summaryDraft 0 none none =
              some draft ∧
            later.world.db.summaryDraft 0 none none ≠
                some draft ∧
              later.world.db.summaryDraft 0
                  (some draft.coversFromSeq)
                  (some draft.coversToSeq) =
                some draft := by
  have hView :
      ((execute (System.step .single) toldRun .initial).bind
          fun system =>
        (execute (System.step .single) furtherQuestion
            system).bind fun later =>
          (system.world.db.summaryDraft 0 none none).map
            fun draft =>
              decide
                (later.world.db.summaryDraft 0 none none ≠
                  some draft)) =
        some true := by
    decide +kernel
  simp only [Option.bind_eq_some_iff, Option.map_eq_some_iff,
    decide_eq_true_eq] at hView
  rcases hView with
    ⟨system, hSystem, later, hLater, draft, hDraft, hNe⟩
  have hReachable :
      Reachable .single (fun _ _ => True) system :=
    execution_of_execute hSystem
  exact
    ⟨system, later, draft, hSystem, hLater, hDraft, hNe,
      summary_never_stale hReachable
        (execution_of_execute hLater) hDraft⟩

end LegalAgent
