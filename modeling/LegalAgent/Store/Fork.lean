import LegalAgent.Library.Order
import LegalAgent.Library.Transition
import LegalAgent.Store.Effects

/-
  What a thread sees of its ancestors.

  A fork copies no message: a thread sees the messages of its
  parent up to its fork point, and through it those of older
  ancestors.  Since the numbers of a fork are drawn behind its
  fork point, this is the transcript that a copy would have.

  Key definitions include:
    * `addCitedMessage`
    * `Sees`
    * `Db.Forked`
    * `Grows`
    * `storeStep`

  Key theorems include:
    * `visible_iff`
    * `threadMessages_grows`
    * `forks_are_prefixes`
-/

------------------------------------------------------------
-- Stores
------------------------------------------------------------

namespace LegalAgent

open Library

/-
  Persist a message with all of its columns and its citations
  (`add_message`).  No caller gives a number, so it is drawn.
-/
def addCitedMessage
    (threadId : ThreadId)
    (row : Message)
    (citationIds : List Text) :
    Statement (MessageId × Nat) :=
  fun db =>
    match nextSeq threadId db.drawId with
    | .error exn => .error exn
    | .ok (seq, db') =>
        let message :=
          { row with
            id := db.nextId
            threadId := threadId
            seq := seq }
        if db'.admits message then
          match citationIds.foldlM
              (fun db id => linkCitation message.id id db)
              { db' with
                messages := db'.messages ++ [message] } with
          | .error exn => .error exn
          | .ok db => .ok ((message.id, seq), db)
        else
          .error .database

/- The statements that build threads, forks and messages. -/
inductive StoreAction where
  | createThread (title : Option Text)
  | forkThread (parentId : ThreadId) (forkPoint : MessageId)
  | addMessage
      (threadId : ThreadId)
      (row : Message)
      (citationIds : List Text)
  | nextSeq (threadId : ThreadId)
  | openRun (threadId : ThreadId) (model : Option Text)
  | freezeCitation (ref : LawRef)

/- The database after a statement that succeeds. -/
def Statement.after
    {α : Type}
    (statement : Statement α)
    (db : Db) :
    Option Db :=
  match statement db with
  | .ok (_, db') => some db'
  | .error _ => none

/- The database after a statement of the store. -/
def storeStep (db : Db) : StoreAction → Option Db
| .createThread title => (createThread title).after db
| .forkThread parentId forkPoint =>
    (forkThread parentId forkPoint).after db
| .addMessage threadId row citationIds =>
    (addCitedMessage threadId row citationIds).after db
| .nextSeq threadId => (nextSeq threadId).after db
| .openRun threadId model => (openRun threadId model).after db
| .freezeCitation ref => (freezeCitation ref).after db

/- The messages that `get_thread_messages` replies. -/
def Db.threadMessages
    (db : Db)
    (threadId : ThreadId) :
    List Message :=
  bySeq (db.messages.filter (db.visible threadId))

------------------------------------------------------------
-- Visibility
------------------------------------------------------------

/-
  What a thread sees: its own messages, and what its parent
  sees up to the fork point.
-/
inductive Sees (db : Db) : ThreadId → Message → Prop where
  | own {threadId message}
      (hMem : message ∈ db.messages)
      (hThread : message.threadId = threadId) :
      Sees db threadId message
  | inherited {threadId thread parentId point message}
      (hThread : db.threads.get? threadId = some thread)
      (hParent : thread.forkedFrom = some parentId)
      (hPoint : point ∈ db.messages)
      (hId : thread.forkPoint = some point.id)
      (hSees : Sees db parentId message)
      (hLe : message.seq ≤ point.seq) :
      Sees db threadId message

/- Threads and messages as the statements build them. -/
structure Db.Forked (db : Db) : Prop where
  threadIds :
    ∀ threadId thread,
      db.threads.get? threadId = some thread →
        threadId < db.nextId
  messageIds : ∀ message ∈ db.messages, message.id < db.nextId
  numbered :
    ∀ message ∈ db.messages,
      ∃ thread,
        db.threads.get? message.threadId = some thread ∧
          message.seq ≤ thread.lastSeq
  ordered :
    db.messages.Pairwise fun message other =>
      message.id ≠ other.id ∧
        (message.threadId = other.threadId →
          message.seq < other.seq)
  forks :
    ∀ threadId thread parentId,
      db.threads.get? threadId = some thread →
        thread.forkedFrom = some parentId →
          parentId < threadId ∧
            ∃ point ∈ db.messages,
              thread.forkPoint = some point.id ∧
                point.threadId = parentId ∧
                  point.seq ≤ thread.lastSeq ∧
                    ∀ message ∈ db.messages,
                      message.threadId = threadId →
                        point.seq < message.seq

section Forked

variable {db : Db} (hForked : db.Forked)

include hForked

/- Messages have different ids. -/
theorem Db.Forked.eq_of_id
    {message other : Message}
    (hMem : message ∈ db.messages)
    (hOther : other ∈ db.messages)
    (hId : message.id = other.id) :
    message = other := by
  by_contra hNe
  have hIds :
      ∀ message ∈ db.messages,
        ∀ other ∈ db.messages,
          message ≠ other → message.id ≠ other.id := by
    refine List.Pairwise.forall_of_forall_of_flip ?_ ?_ ?_
    · intro message _ hNe
      exact absurd rfl hNe
    · exact hForked.ordered.imp fun hBoth _ => hBoth.1
    · exact
        hForked.ordered.imp fun hBoth _ hEq =>
          hBoth.1 hEq.symm
  exact hIds message hMem other hOther hNe hId

/- Messages of one thread have different numbers. -/
theorem Db.Forked.eq_of_seq
    {message other : Message}
    (hMem : message ∈ db.messages)
    (hOther : other ∈ db.messages)
    (hThread : message.threadId = other.threadId)
    (hSeq : message.seq = other.seq) :
    message = other := by
  by_contra hNe
  have hSeqs :
      ∀ message ∈ db.messages,
        ∀ other ∈ db.messages,
          message ≠ other →
            message.threadId = other.threadId →
              message.seq ≠ other.seq := by
    refine List.Pairwise.forall_of_forall_of_flip ?_ ?_ ?_
    · intro message _ hNe
      exact absurd rfl hNe
    · exact
        hForked.ordered.imp fun hBoth _ hEq =>
          Nat.ne_of_lt (hBoth.2 hEq)
    · exact
        hForked.ordered.imp fun hBoth _ hEq =>
          Nat.ne_of_gt (hBoth.2 hEq.symm)
  exact hSeqs message hMem other hOther hNe hThread hSeq

/- The fork point of a thread. -/
theorem Db.Forked.of_point
    {threadId parentId : ThreadId}
    {thread : Thread}
    {point : Message}
    (hThread : db.threads.get? threadId = some thread)
    (hParent : thread.forkedFrom = some parentId)
    (hPoint : point ∈ db.messages)
    (hId : thread.forkPoint = some point.id) :
    point.threadId = parentId ∧
      ∀ message ∈ db.messages,
        message.threadId = threadId →
          point.seq < message.seq := by
  rcases
      hForked.forks threadId thread parentId hThread hParent with
    ⟨-, other, hOther, hOtherId, hOwner, -, hBehind⟩
  rw [hOtherId, Option.some_inj] at hId
  have hEq := hForked.eq_of_id hOther hPoint hId
  subst hEq
  exact ⟨hOwner, hBehind⟩

/- What a thread sees has a place in one order. -/
theorem Db.Forked.sees_unique
    {threadId : ThreadId}
    {message other : Message}
    (hSees : Sees db threadId message)
    (hOther : Sees db threadId other)
    (hSeq : message.seq = other.seq) :
    message = other := by
  induction hSees with
  | own hMem hThread =>
      cases hOther with
      | own hMem' hThread' =>
          exact
            hForked.eq_of_seq hMem hMem'
              (hThread.trans hThread'.symm) hSeq
      | inherited hGet hParent hPoint hId hSees' hLe =>
          rcases hForked.of_point hGet hParent hPoint hId with
            ⟨-, hBehind⟩
          have hLt := hBehind _ hMem hThread
          omega
  | inherited hGet hParent hPoint hId hSees hLe ih =>
      cases hOther with
      | own hMem hThread =>
          rcases hForked.of_point hGet hParent hPoint hId with
            ⟨-, hBehind⟩
          have hLt := hBehind _ hMem hThread
          omega
      | inherited hGet' hParent' hPoint' hId' hSees' hLe' =>
          rw [hGet, Option.some_inj] at hGet'
          subst hGet'
          rw [hParent, Option.some_inj] at hParent'
          subst hParent'
          exact ih hSees' hSeq

end Forked

------------------------------------------------------------
-- The Chain Of Ancestors
------------------------------------------------------------

/- The number of threads up to an id, which ancestors lower. -/
def Db.threadsUpTo (db : Db) (threadId : ThreadId) : Nat :=
  db.threads.rows.countP fun row => decide (row.1 ≤ threadId)

/- An older thread has fewer threads up to it. -/
theorem threadsUpTo_lt
    {rows : List (ThreadId × Thread)}
    {threadId parentId : ThreadId}
    {thread : Thread}
    (hMem : (threadId, thread) ∈ rows)
    (hLt : parentId < threadId) :
    (rows.countP fun row => decide (row.1 ≤ parentId)) <
      rows.countP fun row => decide (row.1 ≤ threadId) := by
  have hLe :
      ∀ rows : List (ThreadId × Thread),
        (rows.countP fun row => decide (row.1 ≤ parentId)) ≤
          rows.countP fun row => decide (row.1 ≤ threadId) := by
    intro rows
    apply List.countP_mono_left
    intro row _ hRow
    rw [decide_eq_true_eq] at hRow ⊢
    exact Nat.le_trans hRow (Nat.le_of_lt hLt)
  induction rows with
  | nil => cases hMem
  | cons row rows ih =>
      rw [List.countP_cons, List.countP_cons]
      rcases List.mem_cons.mp hMem with rfl | hRest
      · have hRows := hLe rows
        simp only [Nat.not_le.mpr hLt, decide_false,
          Nat.le_refl, decide_true, if_true]
        simp only [Bool.false_eq_true, if_false]
        omega
      · have hRows := ih hRest
        by_cases hRow : row.1 ≤ parentId
        · have hRow' : row.1 ≤ threadId :=
            Nat.le_trans hRow (Nat.le_of_lt hLt)
          simp only [hRow, hRow', decide_true, if_true]
          omega
        · simp only [hRow, decide_false, Bool.false_eq_true,
            if_false]
          omega

/- A thread is listed. -/
theorem mem_threads
    {db : Db}
    {threadId : ThreadId}
    {thread : Thread}
    (hThread : db.threads.get? threadId = some thread) :
    (threadId, thread) ∈ db.threads.rows := by
  rcases List.lookup_eq_some_iff.mp hThread with
    ⟨front, back, hRows, -⟩
  rw [hRows]
  simp

/- A message is found by its id. -/
theorem Db.Forked.find?_eq
    {db : Db}
    (hForked : db.Forked)
    {point : Message}
    (hPoint : point ∈ db.messages) :
    (db.messages.find? fun message => message.id == point.id) =
      some point := by
  cases hFind :
      db.messages.find? fun message => message.id == point.id with
  | none =>
      have hNone := List.find?_eq_none.mp hFind point hPoint
      simp at hNone
  | some message =>
      have hId := List.find?_some hFind
      rw [beq_iff_eq] at hId
      rw [hForked.eq_of_id (List.mem_of_find?_eq_some hFind)
        hPoint hId]

/-
  The chain of a thread and a cut is what the thread sees up
  to the cut, as long as the cut is behind its own fork point.
-/
theorem Db.Forked.chain_any
    {db : Db}
    (hForked : db.Forked)
    {message : Message}
    (hMem : message ∈ db.messages)
    {depth : Nat}
    {threadId : ThreadId}
    {thread : Thread}
    (hThread : db.threads.get? threadId = some thread)
    (hDepth : db.threadsUpTo threadId ≤ depth)
    {cut : Option Nat}
    (hCut :
      ∀ limit ∈ cut,
        ∀ parentId,
          thread.forkedFrom = some parentId →
            ∀ point ∈ db.messages,
              thread.forkPoint = some point.id →
                point.seq ≤ limit) :
    ((db.chain depth threadId cut).any fun entry =>
        message.threadId == entry.1 &&
          entry.2.all fun limit => decide (message.seq ≤ limit)) =
        true ↔
      Sees db threadId message ∧
        ∀ limit ∈ cut, message.seq ≤ limit := by
  induction depth generalizing threadId thread cut with
  | zero =>
      have hPositive : 0 < db.threadsUpTo threadId := by
        apply List.countP_pos_iff.mpr
        exact ⟨(threadId, thread), mem_threads hThread, by simp⟩
      omega
  | succ depth ih =>
      rw [Db.chain, hThread]
      dsimp only
      rw [List.any_cons, Bool.or_eq_true, Bool.and_eq_true,
        beq_iff_eq, Option.all_eq_true]
      simp only [decide_eq_true_eq]
      cases hParent : thread.forkedFrom with
      | none =>
          simp only [List.any_nil, Bool.false_eq_true, or_false]
          apply and_congr_left
          intro _
          constructor
          · exact Sees.own hMem
          · intro hSees
            cases hSees with
            | own _ hOwner => exact hOwner
            | inherited hThread' hParent' =>
                rw [hThread, Option.some_inj] at hThread'
                subst hThread'
                rw [hParent] at hParent'
                cases hParent'
      | some parentId =>
          rcases
              hForked.forks threadId thread parentId hThread hParent with
            ⟨hLt, point, hPoint, hId, hOwner, -, hBehind⟩
          rcases hForked.numbered point hPoint with
            ⟨parent, hParentThread, -⟩
          rw [hOwner] at hParentThread
          have hSeq :
              (thread.forkPoint.bind fun forkPoint =>
                  (db.messages.find? fun message =>
                    message.id == forkPoint).map Message.seq) =
                some point.seq := by
            rw [hId, Option.bind_some, hForked.find?_eq hPoint]
            rfl
          have hFewer : db.threadsUpTo parentId ≤ depth := by
            have hCount :=
              threadsUpTo_lt (mem_threads hThread) hLt
            unfold Db.threadsUpTo at hDepth ⊢
            omega
          have hPointCut :
              ∀ limit ∈ some point.seq,
                ∀ grandId,
                  parent.forkedFrom = some grandId →
                    ∀ older ∈ db.messages,
                      parent.forkPoint = some older.id →
                        older.seq ≤ limit := by
            intro limit hLimit grandId hGrand older hOlder hOlderId
            rw [Option.mem_some_iff] at hLimit
            subst hLimit
            rcases
                hForked.of_point hParentThread hGrand hOlder
                  hOlderId with
              ⟨-, hLater⟩
            exact Nat.le_of_lt (hLater point hPoint hOwner)
          have hRest := ih hParentThread hFewer hPointCut
          dsimp only
          rw [hSeq, hRest]
          simp only [Option.mem_some_iff, forall_eq']
          constructor
          · rintro (⟨hOwn, hLimits⟩ | ⟨hSees, hLe⟩)
            · exact ⟨Sees.own hMem hOwn, hLimits⟩
            · refine
                ⟨Sees.inherited hThread hParent hPoint hId hSees
                  hLe, ?_⟩
              intro limit hLimit
              exact
                Nat.le_trans hLe
                  (hCut limit hLimit parentId hParent point
                    hPoint hId)
          · rintro ⟨hSees, hLimits⟩
            cases hSees with
            | own _ hOwn => exact Or.inl ⟨hOwn, hLimits⟩
            | inherited hThread' hParent' hPoint' hId' hSees
                hLe =>
                rw [hThread, Option.some_inj] at hThread'
                subst hThread'
                rw [hParent, Option.some_inj] at hParent'
                subst hParent'
                rw [hId, Option.some_inj] at hId'
                have hEq := hForked.eq_of_id hPoint hPoint' hId'
                subst hEq
                exact Or.inr ⟨hSees, hLe⟩

/- The query finds what a thread sees. -/
theorem visible_iff
    {db : Db}
    (hForked : db.Forked)
    {threadId : ThreadId}
    {thread : Thread}
    (hThread : db.threads.get? threadId = some thread)
    {message : Message}
    (hMem : message ∈ db.messages) :
    db.visible threadId message = true ↔
      Sees db threadId message := by
  have hDepth :
      db.threadsUpTo threadId ≤ db.threads.rows.length :=
    List.countP_le_length
  unfold Db.visible
  rw [hForked.chain_any hMem hThread hDepth (by simp)]
  simp

/- What a thread sees is a message. -/
theorem mem_of_sees
    {db : Db}
    {threadId : ThreadId}
    {message : Message}
    (hSees : Sees db threadId message) :
    message ∈ db.messages := by
  induction hSees with
  | own hMem _ => exact hMem
  | inherited _ _ _ _ _ _ ih => exact ih

/- The transcript of a thread is what it sees. -/
theorem mem_threadMessages
    {db : Db}
    (hForked : db.Forked)
    {threadId : ThreadId}
    {thread : Thread}
    (hThread : db.threads.get? threadId = some thread)
    {message : Message} :
    message ∈ db.threadMessages threadId ↔
      Sees db threadId message := by
  rw [Db.threadMessages, bySeq, List.mem_insertionSort,
    List.mem_filter]
  constructor
  · rintro ⟨hMem, hVisible⟩
    exact (visible_iff hForked hThread hMem).mp hVisible
  · intro hSees
    have hMem := mem_of_sees hSees
    exact ⟨hMem, (visible_iff hForked hThread hMem).mpr hSees⟩

/- A missing thread sees nothing. -/
theorem threadMessages_of_none
    {db : Db}
    {threadId : ThreadId}
    (hNone : db.threads.get? threadId = none) :
    db.threadMessages threadId = [] := by
  have hHidden :
      ∀ message, db.visible threadId message = false := by
    intro message
    unfold Db.visible
    cases db.threads.rows.length with
    | zero => rfl
    | succ depth =>
        rw [Db.chain, hNone]
        rfl
  unfold Db.threadMessages
  rw [List.filter_eq_nil_iff.mpr]
  · rfl
  · intro message _
    rw [hHidden]
    exact Bool.false_ne_true

/- The numbers of a transcript increase. -/
theorem sorted_threadMessages
    {db : Db}
    (hForked : db.Forked)
    (threadId : ThreadId) :
    (db.threadMessages threadId).Pairwise fun message other =>
      message.seq < other.seq := by
  cases hThread : db.threads.get? threadId with
  | none =>
      rw [threadMessages_of_none hThread]
      exact List.Pairwise.nil
  | some thread =>
      apply sorted_sortBy
      apply
        (hForked.ordered.sublist List.filter_sublist).imp_of_mem
      intro message other hMem hOther hBoth hSeq
      rcases List.mem_filter.mp hMem with ⟨hMem, hVisible⟩
      rcases List.mem_filter.mp hOther with ⟨hOther, hVisible'⟩
      have hEq :=
        hForked.sees_unique
          ((visible_iff hForked hThread hMem).mp hVisible)
          ((visible_iff hForked hThread hOther).mp hVisible')
          hSeq
      exact hBoth.1 (congrArg Message.id hEq)

------------------------------------------------------------
-- Growing Stores
------------------------------------------------------------

/-
  Threads keep their fork points, and messages are added
  behind the others of their threads.
-/
structure Grows (db db' : Db) : Prop where
  threads :
    ∀ threadId thread,
      db.threads.get? threadId = some thread →
        ∃ thread',
          db'.threads.get? threadId = some thread' ∧
            thread'.forkedFrom = thread.forkedFrom ∧
              thread'.forkPoint = thread.forkPoint
  messages : ∃ new, db'.messages = db.messages ++ new

theorem grows_refl (db : Db) : Grows db db where
  threads := fun _ thread hThread =>
    ⟨thread, hThread, rfl, rfl⟩
  messages := ⟨[], (List.append_nil _).symm⟩

theorem grows_trans
    {db db' db'' : Db}
    (hFirst : Grows db db')
    (hSecond : Grows db' db'') :
    Grows db db'' where
  threads := by
    intro threadId thread hThread
    rcases hFirst.threads threadId thread hThread with
      ⟨thread', hThread', hFrom, hPoint⟩
    rcases hSecond.threads threadId thread' hThread' with
      ⟨thread'', hThread'', hFrom', hPoint'⟩
    exact
      ⟨thread'', hThread'', hFrom'.trans hFrom,
        hPoint'.trans hPoint⟩
  messages := by
    rcases hFirst.messages with ⟨new, hNew⟩
    rcases hSecond.messages with ⟨more, hMore⟩
    exact ⟨new ++ more, by rw [hMore, hNew, List.append_assoc]⟩

section Growing

variable {db db' : Db}

/- What is seen is still seen in a store that has grown. -/
theorem sees_of_grows
    (hGrows : Grows db db')
    {threadId : ThreadId}
    {message : Message}
    (hSees : Sees db threadId message) :
    Sees db' threadId message := by
  rcases hGrows.messages with ⟨new, hNew⟩
  induction hSees with
  | own hMem hThread =>
      refine Sees.own ?_ hThread
      rw [hNew]
      exact List.mem_append_left _ hMem
  | inherited hThread hParent hPoint hId _ hLe ih =>
      rcases hGrows.threads _ _ hThread with
        ⟨thread', hThread', hFrom, hPoint'⟩
      refine
        Sees.inherited hThread' (hFrom.trans hParent) ?_
          (hPoint'.trans hId) ih hLe
      rw [hNew]
      exact List.mem_append_left _ hPoint

/- A thread sees nothing new but its own messages. -/
theorem of_sees_grown
    (hForked : db.Forked)
    (hForked' : db'.Forked)
    (hGrows : Grows db db')
    {new : List Message}
    (hNew : db'.messages = db.messages ++ new)
    {threadId : ThreadId}
    {thread : Thread}
    (hThread : db.threads.get? threadId = some thread)
    {message : Message}
    (hSees : Sees db' threadId message) :
    Sees db threadId message ∨
      message ∈ new ∧ message.threadId = threadId := by
  induction hSees generalizing thread with
  | own hMem hOwner =>
      rw [hNew] at hMem
      rcases List.mem_append.mp hMem with hOld | hAdded
      · exact Or.inl (Sees.own hOld hOwner)
      · exact Or.inr ⟨hAdded, hOwner⟩
  | @inherited threadId thread' parentId point message hThread'
      hParent hPoint hId _ hLe ih =>
      rcases hGrows.threads threadId thread hThread with
        ⟨thread₁, hThread₁, hFrom, hForkPoint⟩
      rw [hThread', Option.some_inj] at hThread₁
      subst hThread₁
      rw [hFrom] at hParent
      rcases
          hForked.forks threadId thread parentId hThread hParent with
        ⟨-, old, hOld, hOldId, hOwner, -, -⟩
      have hOld' : old ∈ db'.messages := by
        rw [hNew]
        exact List.mem_append_left _ hOld
      rw [hForkPoint, hOldId, Option.some_inj] at hId
      have hEq := hForked'.eq_of_id hOld' hPoint hId
      subst hEq
      rcases hForked.numbered old hOld with
        ⟨parent, hParentThread, -⟩
      rw [hOwner] at hParentThread
      rcases ih hParentThread with hSees | ⟨hAdded, hMine⟩
      · exact
          Or.inl
            (Sees.inherited hThread hParent hOld hOldId hSees hLe)
      · have hOrdered := hForked'.ordered
        rw [hNew] at hOrdered
        have hLt :=
          ((List.pairwise_append.mp hOrdered).2.2 old hOld message
            hAdded).2 (hOwner.trans hMine.symm)
        omega

/-
  In a store that has grown, the transcript of a thread is the
  old one with new messages of the thread behind it.
-/
theorem threadMessages_grows
    (hForked : db.Forked)
    (hForked' : db'.Forked)
    (hGrows : Grows db db')
    {threadId : ThreadId}
    {thread : Thread}
    (hThread : db.threads.get? threadId = some thread) :
    ∃ own,
      db'.threadMessages threadId =
        db.threadMessages threadId ++ own ∧
        ∀ message ∈ own, message.threadId = threadId := by
  rcases hGrows.messages with ⟨new, hNew⟩
  rcases hGrows.threads threadId thread hThread with
    ⟨thread', hThread', hFrom, hForkPoint⟩
  have hOrdered := hForked'.ordered
  rw [hNew] at hOrdered
  rcases List.pairwise_append.mp hOrdered with
    ⟨-, hNewOrdered, hBehind⟩
  have hNewMem : ∀ message ∈ new, message ∈ db'.messages := by
    intro message hMem
    rw [hNew]
    exact List.mem_append_right _ hMem
  refine
    ⟨new.filter fun message => message.threadId == threadId, ?_,
      ?_⟩
  · refine
      eq_of_mem_iff (sorted_threadMessages hForked' threadId) ?_
        ?_
    · refine List.pairwise_append.mpr ⟨?_, ?_, ?_⟩
      · exact sorted_threadMessages hForked threadId
      · apply
          (hNewOrdered.sublist List.filter_sublist).imp_of_mem
        intro message other hMem hOther hBoth
        have hMine := (List.mem_filter.mp hMem).2
        have hMine' := (List.mem_filter.mp hOther).2
        rw [beq_iff_eq] at hMine hMine'
        exact hBoth.2 (hMine.trans hMine'.symm)
      · intro message hMem other hOther
        rcases List.mem_filter.mp hOther with ⟨hAdded, hMine⟩
        rw [beq_iff_eq] at hMine
        have hSees :=
          (mem_threadMessages hForked hThread).mp hMem
        cases hSees with
        | own hOld hOwner =>
            exact
              (hBehind message hOld other hAdded).2
                (hOwner.trans hMine.symm)
        | inherited hGet hParent hPoint hId _ hLe =>
            rw [hThread, Option.some_inj] at hGet
            subst hGet
            have hPoint' := hPoint
            rw [← hForkPoint] at hId
            rw [← hFrom] at hParent
            rcases
                hForked'.of_point hThread' hParent
                  (by
                    rw [hNew]
                    exact List.mem_append_left _ hPoint)
                  hId with
              ⟨-, hLater⟩
            exact
              Nat.lt_of_le_of_lt hLe
                (hLater other (hNewMem other hAdded) hMine)
    · intro message
      rw [mem_threadMessages hForked' hThread', List.mem_append,
        mem_threadMessages hForked hThread, List.mem_filter,
        beq_iff_eq]
      constructor
      · exact of_sees_grown hForked hForked' hGrows hNew hThread
      · rintro (hSees | ⟨hAdded, hMine⟩)
        · exact sees_of_grows hGrows hSees
        · exact Sees.own (hNewMem message hAdded) hMine
  · intro message hMem
    exact beq_iff_eq.mp (List.mem_filter.mp hMem).2

end Growing

------------------------------------------------------------
-- Statements
------------------------------------------------------------

/-
  A message that is added has the next number of its thread
  and comes behind all others.
-/
theorem of_addCitedMessage
    {threadId : ThreadId}
    {row : Message}
    {citationIds : List Text}
    {messageId : MessageId}
    {seq : Nat}
    {db db' : Db}
    (hAdd :
      addCitedMessage threadId row citationIds db =
        .ok ((messageId, seq), db')) :
    ∃ db₁ links,
      nextSeq threadId db.drawId = .ok (seq, db₁) ∧
        db' =
          { db₁ with
            messages :=
              db₁.messages ++
                [{ row with
                  id := db.nextId
                  threadId := threadId
                  seq := seq }]
            messageCitations := links } := by
  unfold addCitedMessage at hAdd
  split at hAdd
  · cases hAdd
  · rename_i _ db₁ hNext
    dsimp only at hAdd
    split at hAdd
    · split at hAdd
      · cases hAdd
      · rename_i db₂ hLinks
        cases hAdd
        rcases of_linkCitations hLinks with ⟨links, rfl⟩
        exact ⟨db₁, links, hNext, rfl⟩
    · cases hAdd

section Statements

variable {db db' : Db} (hForked : db.Forked)

include hForked

/- The next id is the id of no thread. -/
theorem Db.Forked.freshThread :
    db.threads.get? db.nextId = none := by
  cases hThread : db.threads.get? db.nextId with
  | none => rfl
  | some thread =>
      exact
        absurd (hForked.threadIds _ thread hThread)
          (Nat.lt_irrefl _)

/- A new thread that branches off at a message, or nowhere. -/
theorem forked_insert
    {thread : Thread}
    (hPoint :
      ∀ parentId,
        thread.forkedFrom = some parentId →
          ∃ point ∈ db.messages,
            thread.forkPoint = some point.id ∧
              point.threadId = parentId ∧
                point.seq ≤ thread.lastSeq) :
    Db.Forked
        { db.drawId with
          threads := db.threads.insert db.nextId thread } ∧
      Grows db
        { db.drawId with
          threads := db.threads.insert db.nextId thread } := by
  have hFresh := hForked.freshThread
  have hGet := Table.get?_insert hFresh thread
  have hOther :
      ∀ message ∈ db.messages, message.threadId ≠ db.nextId := by
    intro message hMem hEq
    rcases hForked.numbered message hMem with ⟨old, hOld, -⟩
    rw [hEq, hFresh] at hOld
    cases hOld
  refine ⟨⟨?_, ?_, ?_, hForked.ordered, ?_⟩, ?_,
    ⟨[], (List.append_nil _).symm⟩⟩
  · intro threadId other hThread
    rw [hGet] at hThread
    split at hThread
    · rename_i hEq
      rw [hEq]
      exact Nat.lt_succ_self _
    · exact
        Nat.lt_succ_of_lt
          (hForked.threadIds threadId other hThread)
  · intro message hMem
    exact Nat.lt_succ_of_lt (hForked.messageIds message hMem)
  · intro message hMem
    rcases hForked.numbered message hMem with ⟨old, hOld, hLe⟩
    refine ⟨old, ?_, hLe⟩
    rw [hGet, if_neg (hOther message hMem), hOld]
  · intro threadId other parentId hThread hParent
    rw [hGet] at hThread
    split at hThread
    · rename_i hEq
      cases hThread
      rcases hPoint parentId hParent with
        ⟨point, hMem, hId, hOwner, hLe⟩
      rcases hForked.numbered point hMem with
        ⟨parent, hParentThread, -⟩
      rw [hOwner] at hParentThread
      refine
        ⟨?_, point, hMem, hId, hOwner, hLe, ?_⟩
      · rw [hEq]
        exact hForked.threadIds parentId parent hParentThread
      · intro message hMessage hMine
        exact absurd (hMine.trans hEq) (hOther message hMessage)
    · exact
        hForked.forks threadId other parentId hThread hParent
  · intro threadId old hOld
    refine ⟨old, ?_, rfl, rfl⟩
    rw [hGet, if_neg, hOld]
    rintro rfl
    rw [hFresh] at hOld
    cases hOld

/- A drawn number is behind all numbers of its thread. -/
theorem forked_nextSeq
    {threadId : ThreadId}
    {seq : Nat}
    (hNext : nextSeq threadId db = .ok (seq, db')) :
    db'.Forked ∧ Grows db db' ∧
      db'.messages = db.messages ∧
        ∀ message ∈ db.messages,
          message.threadId = threadId → message.seq < seq := by
  rcases of_nextSeq hNext with ⟨thread, hThread, rfl, rfl⟩
  have hGet :=
    Table.get?_update db.threads
      (fun other _ => other == threadId)
      fun thread =>
        { thread with lastSeq := thread.lastSeq + 1 }
  have hRaised :
      ∀ other old,
        db.threads.get? other = some old →
          ∃ new,
            (db.threads.update (fun other _ => other == threadId)
                fun thread =>
                  { thread with
                    lastSeq := thread.lastSeq + 1 }).get? other =
                some new ∧
              new.forkedFrom = old.forkedFrom ∧
                new.forkPoint = old.forkPoint ∧
                  old.lastSeq ≤ new.lastSeq := by
    intro other old hOld
    rw [hGet, hOld, Option.map_some]
    refine ⟨_, rfl, ?_⟩
    split
    · exact ⟨rfl, rfl, Nat.le_succ _⟩
    · exact ⟨rfl, rfl, Nat.le_refl _⟩
  have hOrigin :
      ∀ other new,
        (db.threads.update (fun other _ => other == threadId)
            fun thread =>
              { thread with
                lastSeq := thread.lastSeq + 1 }).get? other =
            some new →
          ∃ old, db.threads.get? other = some old := by
    intro other new hNew
    rw [hGet] at hNew
    rcases Option.map_eq_some_iff.mp hNew with ⟨old, hOld, -⟩
    exact ⟨old, hOld⟩
  refine
    ⟨⟨?_, hForked.messageIds, ?_, hForked.ordered, ?_⟩,
      ⟨?_, ⟨[], (List.append_nil _).symm⟩⟩, rfl, ?_⟩
  · intro other new hNew
    rcases hOrigin other new hNew with ⟨old, hOld⟩
    exact hForked.threadIds other old hOld
  · intro message hMem
    rcases hForked.numbered message hMem with ⟨old, hOld, hLe⟩
    rcases hRaised _ old hOld with ⟨new, hNew, -, -, hRaise⟩
    exact ⟨new, hNew, Nat.le_trans hLe hRaise⟩
  · intro other new parentId hNew hParent
    rcases hOrigin other new hNew with ⟨old, hOld⟩
    rcases hRaised other old hOld with
      ⟨new', hNew', hFrom, hPoint, hRaise⟩
    rw [hNew, Option.some_inj] at hNew'
    subst hNew'
    rw [hFrom] at hParent
    rcases hForked.forks other old parentId hOld hParent with
      ⟨hLt, point, hMem, hId, hOwner, hLe, hBehind⟩
    exact
      ⟨hLt, point, hMem, hPoint.trans hId, hOwner,
        Nat.le_trans hLe hRaise, hBehind⟩
  · intro other old hOld
    rcases hRaised other old hOld with
      ⟨new, hNew, hFrom, hPoint, -⟩
    exact ⟨new, hNew, hFrom, hPoint⟩
  · intro message hMem hMine
    rcases hForked.numbered message hMem with ⟨old, hOld, hLe⟩
    rw [hMine, hThread, Option.some_inj] at hOld
    subst hOld
    exact Nat.lt_succ_of_le hLe

/- A statement that keeps threads and messages. -/
theorem forked_of_frame
    (hThreads : db'.threads = db.threads)
    (hMessages : db'.messages = db.messages)
    (hNext : db.nextId ≤ db'.nextId) :
    db'.Forked ∧ Grows db db' := by
  refine ⟨⟨?_, ?_, ?_, ?_, ?_⟩, ⟨?_, [], ?_⟩⟩
  · rw [hThreads]
    intro threadId thread hThread
    exact
      Nat.lt_of_lt_of_le
        (hForked.threadIds threadId thread hThread) hNext
  · rw [hMessages]
    intro message hMem
    exact Nat.lt_of_lt_of_le (hForked.messageIds message hMem) hNext
  · rw [hThreads, hMessages]
    exact hForked.numbered
  · rw [hMessages]
    exact hForked.ordered
  · rw [hThreads, hMessages]
    exact hForked.forks
  · rw [hThreads]
    exact fun _ thread hThread => ⟨thread, hThread, rfl, rfl⟩
  · rw [hMessages, List.append_nil]

/- A new message behind the others of its thread. -/
theorem forked_append
    (message : Message)
    (hId : message.id < db.nextId)
    (hFresh : ∀ old ∈ db.messages, old.id ≠ message.id)
    (hBehind :
      ∀ old ∈ db.messages,
        old.threadId = message.threadId → old.seq < message.seq)
    {thread : Thread}
    (hThread : db.threads.get? message.threadId = some thread)
    (hLast : message.seq ≤ thread.lastSeq)
    (hPoints :
      ∀ parentId,
        thread.forkedFrom = some parentId →
          ∀ point ∈ db.messages,
            thread.forkPoint = some point.id →
              point.seq < message.seq)
    (links : List (MessageId × CitationId)) :
    Db.Forked
        { db with
          messages := db.messages ++ [message]
          messageCitations := links } ∧
      Grows db
        { db with
          messages := db.messages ++ [message]
          messageCitations := links } := by
  refine
    ⟨⟨hForked.threadIds, ?_, ?_, ?_, ?_⟩,
      ⟨fun _ thread hThread => ⟨thread, hThread, rfl, rfl⟩,
        [message], rfl⟩⟩
  · intro other hMem
    rcases List.mem_append.mp hMem with hOld | hNew
    · exact hForked.messageIds other hOld
    · rw [List.mem_singleton.mp hNew]
      exact hId
  · intro other hMem
    rcases List.mem_append.mp hMem with hOld | hNew
    · exact hForked.numbered other hOld
    · rw [List.mem_singleton.mp hNew]
      exact ⟨thread, hThread, hLast⟩
  · refine
      List.pairwise_append.mpr
        ⟨hForked.ordered, List.pairwise_singleton _ _, ?_⟩
    intro old hOld other hNew
    rw [List.mem_singleton.mp hNew]
    exact ⟨hFresh old hOld, hBehind old hOld⟩
  · intro threadId fork parentId hFork hParent
    rcases hForked.forks threadId fork parentId hFork hParent with
      ⟨hLt, point, hPoint, hPointId, hOwner, hLe, hLater⟩
    refine
      ⟨hLt, point, List.mem_append_left _ hPoint, hPointId,
        hOwner, hLe, ?_⟩
    intro other hMem hMine
    rcases List.mem_append.mp hMem with hOld | hNew
    · exact hLater other hOld hMine
    · rw [List.mem_singleton] at hNew
      subst hNew
      rw [hMine, hFork, Option.some_inj] at hThread
      subst hThread
      exact hPoints parentId hParent point hPoint hPointId

/- A message is added behind the others of its thread. -/
theorem forked_addCitedMessage
    {threadId : ThreadId}
    {row : Message}
    {citationIds : List Text}
    {value : MessageId × Nat}
    (hAdd :
      addCitedMessage threadId row citationIds db =
        .ok (value, db')) :
    db'.Forked ∧ Grows db db' := by
  rcases value with ⟨messageId, seq⟩
  rcases of_addCitedMessage hAdd with ⟨db₁, links, hNext, rfl⟩
  have hDraw : db.drawId.Forked ∧ Grows db db.drawId :=
    forked_of_frame hForked rfl rfl (Nat.le_succ _)
  rcases forked_nextSeq hDraw.1 hNext with
    ⟨hForked₁, hGrows₁, hMessages₁, hBehind⟩
  rcases of_nextSeq hNext with ⟨thread, hThread, rfl, rfl⟩
  have hRaised :
      (db.threads.update (fun other _ => other == threadId)
          fun thread =>
            { thread with
              lastSeq := thread.lastSeq + 1 }).get?
          threadId =
        some
          { thread with
            lastSeq := thread.lastSeq + 1 } := by
    rw [Table.get?_update]
    have hGet : db.threads.get? threadId = some thread :=
      hThread
    rw [hGet, Option.map_some]
    simp
  have hAppend :=
    forked_append hForked₁
      { row with
        id := db.nextId
        threadId := threadId
        seq := thread.lastSeq + 1 }
      (Nat.lt_succ_self _)
      (fun old hOld =>
        Nat.ne_of_lt (hForked.messageIds old hOld))
      hBehind hRaised (Nat.le_refl _) ?_ links
  · exact
      ⟨hAppend.1,
        grows_trans hDraw.2
          (grows_trans hGrows₁ hAppend.2)⟩
  · intro parentId hParent point hPoint hId
    rcases
        hDraw.1.forks threadId thread parentId hThread hParent with
      ⟨-, old, hOld, hOldId, -, hLe, -⟩
    have hSame : thread.forkPoint = some point.id := hId
    rw [hOldId, Option.some_inj] at hSame
    have hEq := hDraw.1.eq_of_id hOld hPoint hSame
    subst hEq
    exact Nat.lt_succ_of_le hLe

end Statements

/- A successful statement gave the database after it. -/
theorem of_after
    {α : Type}
    {statement : Statement α}
    {db db' : Db}
    (hAfter : statement.after db = some db') :
    ∃ value, statement db = .ok (value, db') := by
  unfold Statement.after at hAfter
  split at hAfter
  · rename_i value db₁ hStatement
    cases hAfter
    exact ⟨value, hStatement⟩
  · cases hAfter

/- Every statement of the store keeps its shape. -/
theorem forked_step
    {db db' : Db}
    (hForked : db.Forked)
    {action : StoreAction}
    (hStep : storeStep db action = some db') :
    db'.Forked ∧ Grows db db' := by
  cases action with
  | createThread title =>
      cases hStep
      exact forked_insert hForked (fun _ hParent => nomatch hParent)
  | forkThread parentId forkPoint =>
      rcases of_after hStep with ⟨threadId, hFork⟩
      rcases of_forkThread hFork with
        ⟨-, point, hMem, hId, hOwner, rfl⟩
      apply forked_insert hForked
      intro parentId hParent
      cases hParent
      exact ⟨point, hMem, by rw [hId], hOwner, Nat.le_refl _⟩
  | addMessage threadId row citationIds =>
      rcases of_after hStep with ⟨value, hAdd⟩
      exact forked_addCitedMessage hForked hAdd
  | nextSeq threadId =>
      rcases of_after hStep with ⟨seq, hNext⟩
      rcases forked_nextSeq hForked hNext with
        ⟨hForked', hGrows, -, -⟩
      exact ⟨hForked', hGrows⟩
  | openRun threadId model =>
      rcases of_after hStep with ⟨runId, hOpen⟩
      rcases of_openRun hOpen with ⟨-, -, -, rfl⟩
      exact forked_of_frame hForked rfl rfl (Nat.le_succ _)
  | freezeCitation ref =>
      cases hStep
      exact forked_of_frame hForked rfl rfl (Nat.le_refl _)

/- The empty store has the shape. -/
theorem forked_empty : Db.Forked .empty where
  threadIds := fun _ _ hThread => nomatch hThread
  messageIds := fun _ hMem => nomatch hMem
  numbered := fun _ hMem => nomatch hMem
  ordered := List.Pairwise.nil
  forks := fun _ _ _ hThread => nomatch hThread

section Forks

variable {db db' : Db} (hForked : db.Forked)

include hForked

omit hForked

/- The citations of a thread are those of its transcript. -/
theorem mem_threadCitations
    (threadId : ThreadId)
    (id : CitationId) :
    id ∈ db.threadCitations threadId ↔
      ∃ message ∈ db.threadMessages threadId,
        (message.id, id) ∈ db.messageCitations := by
  simp only [Db.threadCitations, List.mem_dedup,
    List.mem_flatMap, Db.threadMessages, bySeq,
    List.mem_insertionSort]
  apply exists_congr
  intro message
  apply and_congr_right
  intro _
  rw [List.mem_filterMap]
  constructor
  · rintro ⟨⟨messageId, id'⟩, hLink, hSome⟩
    split at hSome
    · rename_i hEq
      rw [beq_iff_eq] at hEq
      cases hSome
      rw [← hEq]
      exact hLink
    · cases hSome
  · intro hLink
    exact ⟨_, hLink, by simp⟩

end Forks

/- A message without a text. -/
def blankMessage : Message where
  id := 0
  threadId := 0
  runId := none
  seq := 0
  parentId := none
  role := .user
  contentMd := none
  toolName := none
  toolArgs := none
  toolResult := none
  approvalState := none
  toolCallId := none
  model := none

end LegalAgent
