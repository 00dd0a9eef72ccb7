import LegalAgent.Properties.PausedCalls

/-
  What a decision makes of a paused run.

  A decision approves some of the calls that wait and rejects
  the others.  The checkpoint keeps the approved calls, and
  the cells tell which calls those are.

  Key definitions include:
    * `approves`
    * `Settles`

  Key theorems include:
    * `run_rejectRun`
    * `run_approveRun`
    * `settles_of_posed`
    * `approval_settles`
-/

------------------------------------------------------------
-- Decisions
------------------------------------------------------------

namespace LegalAgent

open Library

/-
  Whether a decision approves a call: all or none of them, or
  the given ones.
-/
def approves
    (approve : Bool)
    (approvedIds : Option (List Text))
    (call : ToolCall) :
    Bool :=
  match approvedIds with
  | none => approve
  | some ids => call.isIn ids

/- The calls that wait and are approved. -/
def Db.approvedCalls
    (db : Db)
    (runId : RunId)
    (approved : ToolCall → Bool) :
    List ToolCall :=
  (db.pendingToolCalls runId).filter approved

/- The ids of the calls that wait and are not approved. -/
def Db.rejectedIds
    (db : Db)
    (runId : RunId)
    (approved : ToolCall → Bool) :
    List (Option Text) :=
  ((db.pendingToolCalls runId).filter fun call =>
    !approved call).map ToolCall.id

/- The messages with other ids than that of a message. -/
def othersOf
    (pending : CheckpointMessage)
    (messages : List CheckpointMessage) :
    List CheckpointMessage :=
  messages.filter fun message => !pending.sameId message

/-
  What a decision makes of a run whose checkpoint poses its
  calls in its last message: the message keeps the approved
  calls, or is gone when there are none; the other messages
  stay, the cells that wait are decided, and the graph goes
  on with the approved calls.
-/
structure Settles
    (db db' : Db)
    (runId : RunId)
    (threadId : ThreadId)
    (approved : ToolCall → Bool)
    (events : List EventData) :
    Prop where
  cells :
    db'.messages =
      db.messages.map
        (Message.decided runId (db.rejectedIds runId approved)
          rejectedTool)
  status :
    db'.status? runId =
      some
        (if (db.approvedCalls runId approved).isEmpty then
          .rejected
        else .running)
  events :
    events =
      if (db.approvedCalls runId approved).isEmpty then
        [.runDone runId (some .rejected)]
      else
        (db.rejectedIds runId approved).map fun id =>
          .toolResult id (.str rejectedTool) true
  resumed :
    (db.approvedCalls runId approved).isEmpty = false →
      graphResume threadId db' =
        .ok (.toolsNext (db.approvedCalls runId approved), db')
  pending :
    ∃ front id content,
      db.checkpoints threadId =
          front ++ [.ai id content (db.pendingToolCalls runId)] ∧
        if (db.approvedCalls runId approved).isEmpty then
          db'.checkpoints threadId =
            othersOf (.ai id content (db.pendingToolCalls runId))
              front
        else
          ∃ front',
            othersOf
                  (.ai id content (db.pendingToolCalls runId))
                  front' =
                othersOf
                  (.ai id content (db.pendingToolCalls runId))
                  front ∧
              db'.checkpoints threadId =
                front' ++
                  [.ai id content
                    (db.approvedCalls runId approved)]

------------------------------------------------------------
-- Sequential Calls
------------------------------------------------------------

section Exec

variable {inst : InstanceId} {world : World}
variable {threadId : ThreadId} {runId : RunId}

/- A statement that succeeds is a call that does. -/
theorem onDb_of_statement
    {α : Type}
    {statement : Statement α}
    {value : α}
    {db' : Db}
    (hStatement : statement world.db = .ok (value, db')) :
    world.onDb statement =
      (.ok value, { world with db := db' }) := by
  simp only [World.onDb, Statement.commit, hStatement]

/- The only active run of a thread is found. -/
theorem exec_getActiveRun
    (inst : InstanceId)
    (hFormed : world.db.WellFormed)
    (hRun : world.db.hasRun runId threadId)
    {status : RunStatus}
    (hStatus : world.db.status? runId = some status)
    (hActive : status.active = true) :
    exec inst (.getActiveRun threadId) world =
      (.ok (some (runId, status)), world) := by
  rcases Option.map_eq_some_iff.mp hRun with
    ⟨run, hGet, hThread⟩
  rw [Db.status?, hGet, Option.map_some, Option.some_inj]
    at hStatus
  have hIn :
      (runId, run) ∈
        world.db.runs.rows.filter fun row =>
          row.2.threadId == threadId && row.2.status.active := by
    refine List.mem_filter.mpr ⟨Table.mem_of_get? hGet, ?_⟩
    rw [Bool.and_eq_true, beq_iff_eq, hStatus]
    exact ⟨hThread, hActive⟩
  cases hFound : getActiveRun threadId world.db with
  | error exn => cases hFound
  | ok found =>
      rcases found with ⟨reply, db'⟩
      apply (onDb_of_statement hFound).trans
      cases reply with
      | none =>
          simp only [getActiveRun, Statement.query,
            Except.ok.injEq, Prod.mk.injEq,
            Option.map_eq_none_iff, List.head?_eq_none_iff]
            at hFound
          have hNone := List.length_eq_zero_iff.mpr hFound.1
          rw [List.length_insertionSort,
            List.length_eq_zero_iff] at hNone
          rw [hNone] at hIn
          cases hIn
      | some pair =>
          rcases pair with ⟨other, status'⟩
          rcases of_getActiveRun hFound with
            ⟨rfl, run', hGet', hThread', rfl, hActive'⟩
          have hSame :=
            hFormed.alone runId other run run' hGet hGet'
              (hThread.trans hThread'.symm)
              (by rw [hStatus]; exact hActive) hActive'
          subst hSame
          rw [hGet, Option.some_inj] at hGet'
          rw [← hGet', hStatus]

/- An active run is the only one of its thread. -/
theorem not_activeElsewhere
    {db : Db}
    {run : Run}
    (hFormed : db.WellFormed)
    (hGet : db.runs.get? runId = some run)
    (hActive : run.status.active = true) :
    db.activeElsewhere run.threadId runId = false := by
  rw [Bool.eq_false_iff]
  intro hElsewhere
  rw [Db.activeElsewhere, Table.any_eq_true_iff] at hElsewhere
  rcases hElsewhere with ⟨other, run', hGet', hSelected⟩
  simp only [Bool.and_eq_true, bne_iff_ne, beq_iff_eq]
    at hSelected
  exact
    hSelected.1.1
      (hFormed.alone other runId run' run hGet' hGet
        hSelected.1.2 hSelected.2 hActive)

/- A paused run is decided once. -/
theorem exec_tryTransition
    (inst : InstanceId)
    (hFormed : world.db.WellFormed)
    (hStatus :
      world.db.status? runId = some .awaitingApproval)
    (toStatus : RunStatus)
    (ended : Bool) :
    exec inst
        (.tryTransition runId .awaitingApproval toStatus ended)
        world =
      (.ok true,
        { world with
          db := world.db.writeStatus runId toStatus ended }) := by
  apply onDb_of_statement
  rcases Option.map_eq_some_iff.mp hStatus with
    ⟨run, hGet, hRun⟩
  have hAlone :=
    not_activeElsewhere hFormed hGet (by rw [hRun]; rfl)
  simp [tryTransition, hGet, hRun, hAlone]

/- What the drawing of numbers leaves of a database. -/
structure Draws (db db' : Db) : Prop where
  runs : db'.runs = db.runs
  messages : db'.messages = db.messages
  checkpoints : db'.checkpoints = db.checkpoints

/- A number of a thread that exists can be drawn. -/
theorem exec_nextSeq
    (inst : InstanceId)
    (hThread :
      (world.db.threads.get? threadId).isSome = true) :
    ∃ seq world',
      exec inst (.nextSeq threadId) world = (.ok seq, world') ∧
        Draws world.db world'.db ∧
          (world'.db.threads.get? threadId).isSome = true := by
  rcases Option.isSome_iff_exists.mp hThread with ⟨thread, hGet⟩
  have hNext :
      nextSeq threadId world.db =
        .ok
          (thread.lastSeq + 1,
            { world.db with
              threads :=
                world.db.threads.update
                  (fun other _ => other == threadId)
                  fun thread =>
                    { thread with
                      lastSeq := thread.lastSeq + 1 } }) := by
    simp only [nextSeq, hGet]
  have hExec :
      exec inst (.nextSeq threadId) world = (.ok _, _) :=
    onDb_of_statement hNext
  exact
    ⟨_, _, hExec, ⟨rfl, rfl, rfl⟩,
      isSome_thread_of_exec hExec hThread⟩

/- An event of a thread that exists can be yielded. -/
theorem run_emit
    (inst : InstanceId)
    (data : EventData)
    (hThread :
      (world.db.threads.get? threadId).isSome = true) :
    ∃ world' event,
      (RunService.emit data threadId).run (exec inst) world =
          (.ok (), world', [event]) ∧
        event.data = data ∧ Draws world.db world'.db := by
  rcases exec_nextSeq inst hThread with
    ⟨seq, world', hExec, hDraws, -⟩
  refine ⟨world', ⟨data, seq⟩, ?_, rfl, hDraws⟩
  rw [RunService.emit, Gen.run_perform_ok hExec]
  rfl

/- The rejected calls are announced one by one. -/
theorem run_announceRejected
    (inst : InstanceId)
    (ids : List (Option Text))
    (hThread :
      (world.db.threads.get? threadId).isSome = true) :
    ∃ world' events,
      (RunService.announceRejected threadId ids).run (exec inst)
            world =
          (.ok (), world', events) ∧
        (events.map RunEvent.data =
            ids.map fun id =>
              .toolResult id (.str rejectedTool) true) ∧
          Draws world.db world'.db := by
  induction ids generalizing world with
  | nil => exact ⟨world, [], rfl, rfl, rfl, rfl, rfl⟩
  | cons id ids ih =>
      rcases exec_nextSeq inst hThread with
        ⟨seq, middle, hExec, hDraws, hStill⟩
      rcases ih hStill with ⟨world', events, hRun, hData, hMore⟩
      refine
        ⟨world',
          ⟨.toolResult id (.str rejectedTool) true, seq⟩ ::
            events,
          ?_, ?_, ?_⟩
      · rw [RunService.announceRejected,
          Gen.run_perform_ok hExec]
        exact Gen.run_emit hRun
      · rw [List.map_cons, List.map_cons, hData]
      · exact
          ⟨hMore.runs.trans hDraws.runs,
            hMore.messages.trans hDraws.messages,
            hMore.checkpoints.trans hDraws.checkpoints⟩

------------------------------------------------------------
-- Rejections
------------------------------------------------------------

/- Without an approved call all calls are rejected. -/
theorem rejectedIds_of_none
    {db : Db}
    {approved : ToolCall → Bool}
    (hNone : db.approvedCalls runId approved = []) :
    db.rejectedIds runId approved =
      (db.pendingToolCalls runId).map ToolCall.id := by
  unfold Db.rejectedIds
  refine congrArg _ (List.filter_eq_self.mpr ?_)
  intro call hMem
  have hNot := List.filter_eq_nil_iff.mp hNone call hMem
  simpa using hNot

/- A paused run that is rejected. -/
theorem run_rejectRun
    (inst : InstanceId)
    {approved : ToolCall → Bool}
    (hFormed : world.db.WellFormed)
    (hPosed : world.db.Posed)
    (hRun : world.db.hasRun runId threadId)
    (hStatus :
      world.db.status? runId = some .awaitingApproval)
    (hNone : world.db.approvedCalls runId approved = []) :
    ∃ world' events,
      (RunService.rejectRun runId threadId).run (exec inst)
            world =
          (.ok (), world', events) ∧
        Settles world.db world'.db runId threadId approved
          (events.map RunEvent.data) := by
  have hTry :=
    exec_tryTransition inst hFormed hStatus .rejected true
  rcases hPosed.posed runId threadId hRun hStatus with
    ⟨hSome, front, id, content, hMessages, hFront⟩
  have hPending := pendingToolCalls_eq hFormed runId
  -- the database behind the calls before the event
  let cleaned : Db :=
    (((world.db.writeStatus runId .rejected true).updatePending
          runId fun message =>
            { message with
              approvalState := some .rejected }).updatePending
        runId fun message =>
          { message with
            toolResult :=
              some (.str rejectedTool) }).updateState
      threadId withoutPending
  obtain ⟨world', event, hEmit, hData, hDraws⟩ :=
    @run_emit { world with db := cleaned } threadId inst
      (.runDone runId (some .rejected))
      (hPosed.housed runId threadId hRun)
  refine ⟨world', [event], ?_, ?_⟩
  · rw [RunService.rejectRun, Gen.run_perform_ok hTry]
    exact hEmit
  · constructor
    · rw [hDraws.messages, rejectedIds_of_none hNone, hPending]
      exact
        messages_of_rejection
          (world.db.writeStatus runId .rejected true) runId
          rejectedTool
    · rcases Option.map_eq_some_iff.mp hStatus with
        ⟨run, hGet, -⟩
      rw [hNone]
      exact status?_of_written hGet hDraws.runs
    · rw [hNone]
      simp [hData]
    · rw [hNone]
      rintro ⟨⟩
    · have hWithout :=
        withoutPending_append front id content hSome
      rw [hPending, hMessages]
      refine ⟨front, id, content, rfl, ?_⟩
      rw [hNone, if_pos List.isEmpty_nil, hDraws.checkpoints]
      refine Eq.trans ?_ hWithout
      rw [← hMessages]
      apply if_pos rfl

------------------------------------------------------------
-- Approvals
------------------------------------------------------------

/- The calls that a marking approves: all, or the given ones. -/
def marks : Option (List Text) → ToolCall → Bool
| none, _ => true
| some ids, call => call.isIn ids

/- The other messages keep their calls. -/
theorem othersOf_keepOnly
    (pending : CheckpointMessage)
    (kept : List ToolCall)
    (messages : List CheckpointMessage) :
    othersOf pending (keepOnly pending kept messages) =
      othersOf pending messages := by
  have hSame :
      ∀ message,
        pending.sameId
            (if pending.sameId message then
              message.keepCalls kept
            else message) =
          pending.sameId message := by
    intro message
    split
    · cases pending <;> cases message <;> rfl
    · rfl
  rw [othersOf, keepOnly, List.filter_map, othersOf]
  refine Eq.trans ?_ (List.map_id _)
  have hFilter :
      messages.filter
          ((fun message => !pending.sameId message) ∘
            fun message =>
              if pending.sameId message then
                message.keepCalls kept
              else message) =
        messages.filter fun message =>
          !pending.sameId message :=
    List.filter_congr fun message _ =>
      congrArg not (hSame message)
  rw [hFilter]
  apply List.map_congr_left
  intro message hMem
  have hOther := (List.mem_filter.mp hMem).2
  rw [Bool.not_eq_true'] at hOther
  rw [hOther]
  rfl

/- A partial approval that keeps some of the posed calls. -/
theorem exec_approvePartial
    (inst : InstanceId)
    {front : List CheckpointMessage}
    {id : Nat}
    {content : Content}
    {calls : List ToolCall}
    {ids : List Text}
    (hMessages :
      world.db.checkpoints threadId =
        front ++ [.ai id content calls])
    (hKept : calls.filter (ToolCall.isIn ids) ≠ []) :
    ∃ db' front',
      exec inst (.approvePartial threadId ids) world =
          (.ok
              ((calls.filter fun call => !call.isIn ids).map
                ToolCall.id),
            { world with db := db' }) ∧
        db'.runs = world.db.runs ∧
          db'.messages = world.db.messages ∧
            db'.threads = world.db.threads ∧
              othersOf (.ai id content calls) front' =
                  othersOf (.ai id content calls) front ∧
                db'.checkpoints threadId =
                  front' ++
                    [.ai id content
                      (calls.filter (ToolCall.isIn ids))] := by
  have hSome : calls ≠ [] := by
    rintro rfl
    exact hKept rfl
  have hPending :
      pendingMessage? (world.db.checkpoints threadId) =
        some (.ai id content calls) := by
    rw [hMessages]
    exact pendingMessage_of_append front id content hSome
  have hNone :
      (calls.filter (ToolCall.isIn ids)).isEmpty = false :=
    Bool.eq_false_iff.mpr fun hNil =>
      hKept (List.isEmpty_iff.mp hNil)
  by_cases hAll :
      ((calls.filter fun call => !call.isIn ids).map
        ToolCall.id).isEmpty = true
  · have hPartial :
        approvePartial threadId ids world.db =
          .ok
            ((calls.filter fun call => !call.isIn ids).map
                ToolCall.id,
              world.db) := by
      unfold approvePartial
      rw [hPending]
      dsimp only [CheckpointMessage.calls]
      rw [hNone, hAll, List.isEmpty_iff.mp hAll]
      rfl
    refine
      ⟨world.db, front, onDb_of_statement hPartial, rfl, rfl,
        rfl, rfl, ?_⟩
    have hSame : calls.filter (ToolCall.isIn ids) = calls := by
      apply List.filter_eq_self.mpr
      intro call hMem
      rw [List.isEmpty_iff, List.map_eq_nil_iff,
        List.filter_eq_nil_iff] at hAll
      simpa using hAll call hMem
    rw [hMessages, hSame]
  · have hPartial :
        approvePartial threadId ids world.db =
          .ok
            ((calls.filter fun call => !call.isIn ids).map
                ToolCall.id,
              world.db.updateState threadId
                (keepOnly (.ai id content calls)
                  (calls.filter (ToolCall.isIn ids)))) := by
      unfold approvePartial
      rw [hPending]
      dsimp only [CheckpointMessage.calls]
      rw [if_neg (by rw [hNone]; nofun), if_neg hAll]
      rfl
    have hLast :
        (world.db.updateState threadId
              (keepOnly (.ai id content calls)
                (calls.filter
                  (ToolCall.isIn ids)))).checkpoints
            threadId =
          keepOnly (.ai id content calls)
              (calls.filter (ToolCall.isIn ids)) front ++
            [.ai id content
              (calls.filter (ToolCall.isIn ids))] := by
      rw [checkpoints_updateState, if_pos rfl, hMessages]
      exact keepOnly_append ..
    exact
      ⟨_, _, onDb_of_statement hPartial, rfl, rfl, rfl,
        othersOf_keepOnly .., hLast⟩

/- The marking of a paused run whose calls are posed. -/
theorem run_markApproval
    (inst : InstanceId)
    (marked : Option (List Text))
    {front : List CheckpointMessage}
    {id : Nat}
    {content : Content}
    (hNamed : world.db.Named runId [])
    (hThread :
      (world.db.threads.get? threadId).isSome = true)
    (hMessages :
      world.db.checkpoints threadId =
        front ++ [.ai id content (world.db.waits runId)])
    (hKept :
      (world.db.waits runId).filter (marks marked) ≠ []) :
    ∃ world' events front',
      (RunService.markApproval runId threadId marked).run
            (exec inst) world =
          (.ok (), world', events) ∧
        (events.map RunEvent.data =
            (((world.db.waits runId).filter fun call =>
                !marks marked call).map ToolCall.id).map
              fun id => .toolResult id (.str rejectedTool) true) ∧
          world'.db.runs = world.db.runs ∧
            world'.db.messages =
                world.db.messages.map
                  (Message.decided runId
                    (((world.db.waits runId).filter fun call =>
                        !marks marked call).map ToolCall.id)
                    rejectedTool) ∧
              othersOf
                    (.ai id content (world.db.waits runId))
                    front' =
                  othersOf
                    (.ai id content (world.db.waits runId))
                    front ∧
                world'.db.checkpoints threadId =
                  front' ++
                    [.ai id content
                      ((world.db.waits runId).filter
                        (marks marked))] := by
  cases marked with
  | none =>
      have hNone :
          ((world.db.waits runId).filter fun call =>
              !marks none call) =
            [] :=
        List.filter_eq_nil_iff.mpr fun _ _ => by simp [marks]
      have hAll :
          (world.db.waits runId).filter (marks none) =
            world.db.waits runId :=
        List.filter_eq_self.mpr fun _ _ => rfl
      rw [hNone, hAll]
      exact
        ⟨_, [], front, rfl, rfl, rfl,
          messages_of_approval world.db runId rejectedTool, rfl,
          hMessages⟩
  | some ids =>
      rcases exec_approvePartial inst hMessages hKept with
        ⟨db', front', hPartial, hRuns, hSame, hThreads,
          hOthers, hLast⟩
      obtain ⟨world', events, hRun, hData, hDraws⟩ :=
        @run_announceRejected
          { world with
            db :=
              (db'.rejectCells runId
                  (((world.db.waits runId).filter fun call =>
                    !call.isIn ids).map ToolCall.id)
                  rejectedTool).updatePending
                runId fun message =>
                  { message with
                    approvalState := some .approved } }
          threadId inst
          (((world.db.waits runId).filter fun call =>
            !call.isIn ids).map ToolCall.id)
          (by
            change (db'.threads.get? threadId).isSome = true
            rw [hThreads]
            exact hThread)
      refine
        ⟨world', events, front', ?_, hData,
          hDraws.runs.trans hRuns, ?_, hOthers,
          hDraws.checkpoints ▸ hLast⟩
      · rw [RunService.markApproval,
          Gen.run_perform_ok hPartial]
        exact hRun
      · rw [hDraws.messages, ← hSame]
        refine messages_of_partial ?_ ?_
        · refine named_of_cellIds ?_ hNamed
          rw [Db.cellIds, hSame, Db.cellIds]
        · intro id hMem
          rcases List.mem_map.mp hMem with ⟨call, hCall, rfl⟩
          refine ⟨call, ?_, rfl⟩
          rw [Db.waits, hSame]
          exact List.mem_of_mem_filter hCall

/- A cancel flag is stored for a run without one. -/
theorem exec_cancelsSetdefault
    (inst : InstanceId)
    (runId : RunId)
    (world : World) :
    ∃ world',
      exec inst (.cancelsSetdefault runId) world =
          (.ok (), world') ∧
        world'.db = world.db := by
  simp only [exec]
  split
  · exact ⟨_, rfl, rfl⟩
  · exact ⟨_, rfl, rfl⟩

/- A paused run of which some calls are approved. -/
theorem run_approveRun
    (inst : InstanceId)
    (registry : Registry)
    (marked : Option (List Text))
    {approved : ToolCall → Bool}
    (hFormed : world.db.WellFormed)
    (hPosed : world.db.Posed)
    (hRun : world.db.hasRun runId threadId)
    (hStatus :
      world.db.status? runId = some .awaitingApproval)
    (hMarked :
      ∀ call ∈ world.db.pendingToolCalls runId,
        marks marked call = approved call)
    (hSome : world.db.approvedCalls runId approved ≠ []) :
    ∃ rs world' events,
      (RunService.approveRun registry runId threadId
              marked).run
            (exec inst) world =
          (.ok rs, world', events) ∧
        Settles world.db world'.db runId threadId approved
          (events.map RunEvent.data) := by
  have hTry :=
    exec_tryTransition inst hFormed hStatus .running false
  have hPending := pendingToolCalls_eq hFormed runId
  rcases hPosed.posed runId threadId hRun hStatus with
    ⟨-, front, id, content, hMessages, -⟩
  have hKept :
      (world.db.waits runId).filter (marks marked) =
        world.db.approvedCalls runId approved := by
    rw [Db.approvedCalls, hPending]
    apply List.filter_congr
    rw [← hPending]
    exact hMarked
  have hRejected :
      (((world.db.waits runId).filter fun call =>
          !marks marked call).map ToolCall.id) =
        world.db.rejectedIds runId approved := by
    rw [Db.rejectedIds, hPending]
    refine congrArg _ (List.filter_congr ?_)
    intro call hMem
    rw [← hPending] at hMem
    rw [hMarked call hMem]
  obtain ⟨middle, hCancel, hDb⟩ :=
    exec_cancelsSetdefault inst runId
      { world with
        db := world.db.writeStatus runId .running false }
  have hIds : middle.db.waits runId = world.db.waits runId := by
    rw [hDb]
    rfl
  obtain ⟨world', events, front', hMark, hData, hRuns, hCells,
    hOthers, hLast⟩ :=
    @run_markApproval middle threadId runId inst marked front id
      content
      (named_of_cellIds (by rw [hDb]; rfl) (hPosed.named runId))
      (by
        rw [hDb]
        exact hPosed.housed runId threadId hRun)
      (by
        rw [hDb]
        exact hMessages)
      (by
        rw [hIds, hKept]
        exact hSome)
  have hNone :
      (world.db.approvedCalls runId approved).isEmpty = false :=
    Bool.eq_false_iff.mpr fun hNil =>
      hSome (List.isEmpty_iff.mp hNil)
  rw [hIds, hRejected] at hData hCells
  rw [hIds, ← hPending] at hOthers
  rw [hIds, hKept] at hLast
  obtain ⟨rs, hApprove⟩ :
      ∃ rs,
        (RunService.approveRun registry runId threadId
              marked).run
            (exec inst) world =
          (.ok rs, world', events ++ []) := by
    obtain ⟨model, hModel⟩ :
        ∃ model,
          exec inst (.getRunModel runId) middle =
            (.ok model, middle) :=
      ⟨_, rfl⟩
    obtain ⟨root, hRoot⟩ :
        ∃ root,
          exec inst (.getTurnRoot runId) middle =
            (.ok root, middle) :=
      ⟨_, rfl⟩
    rw [RunService.approveRun, Gen.run_perform_ok hTry]
    exact
      ⟨_, (Gen.run_perform_ok hCancel _).trans
        ((Gen.run_perform_ok hModel _).trans
          ((Gen.run_perform_ok hRoot _).trans
            (Gen.run_bind_ok hMark rfl)))⟩
  rw [List.append_nil] at hApprove
  refine ⟨rs, world', events, hApprove, ?_⟩
  constructor
  · rw [hCells, hDb]
    rfl
  · rcases Option.map_eq_some_iff.mp hStatus with ⟨run, hGet, -⟩
    rw [hDb] at hRuns
    rw [hNone]
    exact status?_of_written hGet hRuns
  · rw [hNone]
    exact hData
  · exact fun _ => graphResume_of_last hLast hSome
  · refine ⟨front, id, content, ?_, ?_⟩
    · rw [hPending]
      exact hMessages
    · rw [if_neg (by rw [hNone]; exact Bool.false_ne_true)]
      exact ⟨front', hOthers, hLast⟩

------------------------------------------------------------
-- Paused Runs
------------------------------------------------------------

/-
  The marking that a decision asks for; what it names are
  calls that wait.
-/
theorem run_approvedSet
    (inst : InstanceId)
    (approve : Bool)
    (approvedIds : Option (List Text)) :
    ∃ marked,
      (RunService.approvedSet runId approve approvedIds).run
            (exec inst) world =
          (.ok marked, world, []) ∧
        (∀ call ∈ world.db.pendingToolCalls runId,
            marks marked call =
              approves approve approvedIds call) ∧
          ∀ ids,
            marked = some ids →
              ∀ id ∈ ids,
                ∃ call ∈ world.db.pendingToolCalls runId,
                  call.id = some id := by
  cases approvedIds with
  | none =>
      refine ⟨if approve then none else some [], rfl, ?_, ?_⟩
      · intro call _
        cases approve with
        | true => rfl
        | false =>
            change call.isIn [] = false
            rw [ToolCall.isIn]
            cases call.id <;> rfl
      · intro ids hIds id hMem
        cases approve with
        | true => cases hIds
        | false =>
            cases hIds
            cases hMem
  | some ids =>
      refine ⟨_, rfl, ?_, ?_⟩
      · intro call hMem
        rw [marks, approves, ToolCall.isIn, ToolCall.isIn]
        cases hId : call.id with
        | none => rfl
        | some id =>
            have hIn :
                ((world.db.pendingToolCalls runId).map
                      ToolCall.id).contains
                    (some id) =
                  true := by
              rw [List.contains_iff_mem, ← hId]
              exact List.mem_map_of_mem hMem
            rw [Option.any_some, Option.any_some,
              Bool.eq_iff_iff, List.contains_iff_mem,
              List.contains_iff_mem, List.mem_filter]
            exact ⟨fun hBoth => hBoth.1, fun hIds => ⟨hIds, hIn⟩⟩
      · intro marked hMarked id hMem
        cases hMarked
        have hIn := (List.mem_filter.mp hMem).2
        rcases List.mem_map.mp (List.contains_iff_mem.mp hIn) with
          ⟨call, hCall, hId⟩
        exact ⟨call, hCall, hId⟩

/- The marking is empty when the decision approves no call. -/
theorem marked_eq_nil
    {db : Db}
    {marked : Option (List Text)}
    {approved : ToolCall → Bool}
    (hWaits : db.pendingToolCalls runId ≠ [])
    (hMarked :
      ∀ call ∈ db.pendingToolCalls runId,
        marks marked call = approved call)
    (hNamed :
      ∀ ids,
        marked = some ids →
          ∀ id ∈ ids,
            ∃ call ∈ db.pendingToolCalls runId,
              call.id = some id) :
    marked = some [] ↔ db.approvedCalls runId approved = [] := by
  have hCalls :
      db.approvedCalls runId approved =
        (db.pendingToolCalls runId).filter (marks marked) :=
    (List.filter_congr hMarked).symm
  rw [hCalls, List.filter_eq_nil_iff]
  constructor
  · rintro rfl call _ hMarks
    rw [marks, ToolCall.isIn] at hMarks
    cases hId : call.id with
    | none =>
        rw [hId] at hMarks
        cases hMarks
    | some id =>
        rw [hId] at hMarks
        cases hMarks
  · intro hNone
    cases marked with
    | none =>
        rcases List.exists_mem_of_ne_nil _ hWaits with
          ⟨call, hCall⟩
        exact absurd rfl (hNone call hCall)
    | some ids =>
        cases ids with
        | nil => rfl
        | cons id ids =>
            rcases hNamed _ rfl id List.mem_cons_self with
              ⟨call, hCall, hId⟩
            refine absurd ?_ (hNone call hCall)
            rw [marks, ToolCall.isIn, hId, Option.any_some,
              List.contains_iff_mem]
            exact List.mem_cons_self

/-
  A decision of a paused run leaves exactly the approved calls
  in the checkpoint and decides exactly the cells that wait.
-/
theorem settles_of_posed
    (inst : InstanceId)
    (registry : Registry)
    (approve : Bool)
    (approvedIds : Option (List Text))
    (hFormed : world.db.WellFormed)
    (hPosed : world.db.Posed)
    (hRun : world.db.hasRun runId threadId)
    (hStatus :
      world.db.status? runId = some .awaitingApproval) :
    ∃ rs world' events,
      (RunService.decide registry threadId approve
              approvedIds).run
            (exec inst) world =
          (.ok rs, world', events) ∧
        Settles world.db world'.db runId threadId
          (approves approve approvedIds)
          (events.map RunEvent.data) := by
  have hActive :=
    exec_getActiveRun inst hFormed hRun hStatus rfl
  rcases
      @run_approvedSet world runId inst approve approvedIds with
    ⟨marked, hSet, hMarked, hNamed⟩
  have hWaits : world.db.pendingToolCalls runId ≠ [] := by
    rw [pendingToolCalls_eq hFormed runId]
    exact (hPosed.posed runId threadId hRun hStatus).1
  have hSettle :
      ∀ result world' events,
        (if marked = some [] then do
              RunService.rejectRun runId threadId
              pure none
            else do
              let rs ←
                RunService.approveRun registry runId threadId
                  marked
              pure (some rs) : Driver (Option RunState)).run
              (exec inst) world =
            (result, world', events) →
          (RunService.decide registry threadId approve
                approvedIds).run
              (exec inst) world =
            (result, world', events) := by
    intro result world' events hRest
    rw [RunService.decide, Gen.run_perform_ok hActive]
    exact Gen.run_bind_ok hSet hRest
  by_cases hNone :
      world.db.approvedCalls runId
          (approves approve approvedIds) =
        []
  · rcases
        run_rejectRun inst hFormed hPosed hRun hStatus hNone with
      ⟨world', events, hReject, hSettles⟩
    refine
      ⟨none, world', events, hSettle _ _ _ ?_, hSettles⟩
    rw [if_pos]
    · exact Gen.run_bind_pure hReject fun _ => none
    · exact (marked_eq_nil hWaits hMarked hNamed).mpr hNone
  · rcases
        run_approveRun inst registry marked hFormed hPosed hRun
          hStatus hMarked hNone with
      ⟨rs, world', events, hApprove, hSettles⟩
    refine
      ⟨some rs, world', events, hSettle _ _ _ ?_, hSettles⟩
    rw [if_neg]
    · exact Gen.run_bind_pure hApprove some
    · exact fun hNil =>
        hNone ((marked_eq_nil hWaits hMarked hNamed).mp hNil)

end Exec

/-
  A decision of a run that waits for an approval leaves
  exactly the approved calls in the checkpoint, rejects
  exactly the cells of the other calls that wait, and
  announces these, whichever pause of the run it is, as long
  as only running runs are paused and no other task changes
  the checkpoint of a thread with an active run.
-/
theorem approval_settles
    {registry : Registry}
    {system : System}
    {runId : RunId}
    {threadId : ThreadId}
    (inst : InstanceId)
    (approve : Bool)
    (approvedIds : Option (List Text))
    (hReachable : Reachable registry Sheltered system)
    (hRun : system.world.db.hasRun runId threadId)
    (hStatus :
      system.world.db.status? runId = some .awaitingApproval) :
    ∃ rs world' events,
      (RunService.decide registry threadId approve
              approvedIds).run
            (exec inst) system.world =
          (.ok rs, world', events) ∧
        Settles system.world.db world'.db runId threadId
          (approves approve approvedIds)
          (events.map RunEvent.data) :=
  settles_of_posed inst registry approve approvedIds
    (wellFormed_of_reachable hReachable)
    (posed_of_reachable hReachable) hRun hStatus

------------------------------------------------------------
-- Runs Of The Server
------------------------------------------------------------

/- Whether new calls of a run have new ids. -/
def Db.names
    (db : Db)
    (runId : RunId)
    (calls : List ToolCall) :
    Bool :=
  decide
      (db.cellIds runId ++ calls.map ToolCall.id).Nodup &&
    (db.cellIds runId ++ calls.map ToolCall.id).all isNamed

/- Whether the step of a call asks and answers as it should. -/
def System.answering
    (system : System)
    (action : Action) :
    Bool :=
  (system.call? action).all fun call =>
    match call.2 with
    | .graphNext _ .agentNext (some (.agent _ calls)) =>
        call.1.phase.role.job?.all fun job =>
          system.world.db.names job.run calls
    | .graphNext _ (.toolsNext calls) (some (.tools answers)) =>
        calls.all fun call => (answers call).content != .null
    | _ => true

theorem answering_of_test
    {system : System}
    {action : Action}
    (hTest : system.answering action = true) :
    Answering system action where
  named := by
    intro task job stage threadId content calls hCall hRole
    simp only [System.answering, hCall, Option.all_some, hRole,
      Role.job?, Db.names, Bool.and_eq_true, decide_eq_true_eq,
      List.all_eq_true] at hTest
    exact ⟨hTest.1, hTest.2⟩
  answers := by
    intro task threadId calls answers hCall call hMem
    simp only [System.answering, hCall, Option.all_some,
      List.all_eq_true] at hTest
    simpa using hTest call hMem

/- Whether a step leaves the active runs their checkpoints. -/
def System.sheltered
    (system : System)
    (action : Action) :
    Bool :=
  !system.resurrects action &&
      ((system.call? action).all fun call =>
        call.2.graph?.all fun threadId =>
          system.world.db.runs.rows.all fun row =>
            row.2.threadId != threadId || !row.2.status.active ||
              call.1.phase.role.job?.map Job.run == some row.1) &&
    system.answering action

theorem sheltered_of_test
    {system : System}
    {action : Action}
    (hTest : system.sheltered action = true) :
    Sheltered system action := by
  simp only [System.sheltered, Bool.and_eq_true,
    Bool.not_eq_true'] at hTest
  refine ⟨hTest.1.1, ?_, answering_of_test hTest.2⟩
  intro task op runId threadId hCall hChanged hRun hActive
  rcases Option.map_eq_some_iff.mp hRun with
    ⟨run, hGet, hThread⟩
  have hGraph : op.graph? = some threadId := by
    by_contra hOther
    apply hChanged
    rcases hExec : exec task.inst op system.world with
      ⟨exn | value, world'⟩
    · rw [world_of_error hExec]
    · exact checkpoints_of_exec hExec hOther
  have hAll := hTest.1.2
  simp only [hCall, Option.all_some, hGraph,
    List.all_eq_true] at hAll
  have hRow := hAll _ (Table.mem_of_get? hGet)
  rw [Db.isActive, Db.status?, hGet] at hActive
  have hOpen : run.status.active = true := hActive
  simpa [hThread, hOpen] using hRow

/- A run that pauses a second time, behind a partial approval. -/
def pausedTwice : List Action :=
  [.request 0 0 (.createThread none)] ++ turns 0 1 ++
    [.request 1 0
      (.start 0 [] none
        [.agent (.str []) (toolCalls ["a", "b"]),
          .interrupt none])] ++
    turns 1 23 ++
    [.request 2 0
      (.resume 0 true (some ["a".toList])
        [.tools fun _ => ⟨.str [], .absent⟩,
          .agent (.str []) (toolCalls ["c"]),
          .interrupt none])] ++
    turns 2 32

/- The second pause is decided. -/
theorem approval_settles_twice :
    ∃ system,
      execute (System.step .single) pausedTwice .initial =
          some system ∧
        ∃ rs world' events,
          (RunService.decide .single 0 false none).run (exec 0)
                system.world =
              (.ok rs, world', events) ∧
            Settles system.world.db world'.db 1 0
              (approves false none)
              (events.map RunEvent.data) := by
  have hView :
      ((execute (System.step .single) pausedTwice
            .initial).map fun system =>
          decide
            ((system.world.db.runs.get? 1).map Run.threadId =
                some 0 ∧
              system.world.db.status? 1 =
                some .awaitingApproval)) =
        some true := by
    decide +kernel
  simp only [Option.map_eq_some_iff, decide_eq_true_eq] at hView
  rcases hView with ⟨system, hSystem, hRun, hStatus⟩
  have hPasses :
      passes (System.step .single) System.sheltered pausedTwice
          .initial =
        true := by
    decide +kernel
  have hReachable : Reachable .single Sheltered system :=
    run_of_execute hSystem hPasses fun _ _ => sheltered_of_test
  exact
    ⟨system, hSystem,
      approval_settles 0 false none hReachable
        (Option.map_eq_some_iff.mpr hRun) hStatus⟩

/-
  A run that is paused while the driver of an earlier run,
  which another instance has ended, is about to clear the
  checkpoint.
-/
def clearedPause : List Action :=
  [.request 0 0 (.createThread none)] ++ turns 0 1 ++
    [.request 1 0 (.start 0 [] none [.agent (.str []) []])] ++
    turns 1 9 ++ [.request 2 0 (.interrupt 1)] ++ turns 2 3 ++
    [.request 3 1 (.interrupt 1)] ++ turns 3 5 ++
    [.request 4 0
      (.start 0 [] none
        [.agent (.str []) (toolCalls ["a", "b"]),
          .interrupt none])] ++
    turns 4 23 ++ turns 1 7

/- The approval of `a` approves `b` too. -/
theorem approval_unsettled :
    ¬ ∀ (registry : Registry) (system : System) (runId : RunId)
        (threadId : ThreadId) (inst : InstanceId)
        (approve : Bool) (approvedIds : Option (List Text)),
      Reachable registry Answering system →
        (∀ taskId task,
            system.tasks taskId = some task →
              task.ended = true) →
          system.world.db.hasRun runId threadId →
            system.world.db.status? runId =
                some .awaitingApproval →
              ∃ rs world' events,
                (RunService.decide registry threadId approve
                        approvedIds).run
                      (exec inst) system.world =
                    (.ok rs, world', events) ∧
                  Settles system.world.db world'.db runId
                    threadId (approves approve approvedIds)
                    (events.map RunEvent.data) := by
  intro hSettles
  have hView :
      ((execute (System.step .single) clearedPause
            .initial).map fun system =>
          decide
              ((system.world.db.runs.get? 4).map Run.threadId =
                  some 0 ∧
                system.world.db.status? 4 =
                    some .awaitingApproval ∧
                  (system.world.db.approvedCalls 4
                          (approves true
                            (some ["a".toList]))).length =
                      1 ∧
                    (system.world.db.rejectedIds 4
                            (approves true
                              (some ["a".toList]))).length =
                        1 ∧
                      ((RunService.decide .single 0 true
                              (some ["a".toList])).run
                            (exec 0) system.world).2.2.length =
                        0) &&
            (List.range 5).all fun taskId =>
              (system.tasks taskId).all Task.ended) =
        some true := by
    decide +kernel
  simp only [Option.map_eq_some_iff, Bool.and_eq_true,
    decide_eq_true_eq] at hView
  rcases hView with
    ⟨system, hSystem, ⟨hRun, hStatus, hApproved, hRejected,
      hNone⟩, hEnded⟩
  have hPasses :
      passes (System.step .single) System.answering clearedPause
          .initial =
        true := by
    decide +kernel
  rcases
      hSettles .single system 4 0 0 true (some ["a".toList])
        (run_of_execute hSystem hPasses fun _ _ =>
          answering_of_test)
        (ended_of_execute hSystem (by decide) hEnded)
        (Option.map_eq_some_iff.mpr hRun) hStatus with
    ⟨rs, world', events, hDecide, hSettled⟩
  rw [hDecide] at hNone
  have hEvents := congrArg List.length hSettled.events
  rw [if_neg] at hEvents
  · rw [List.length_map, hNone, List.length_map, hRejected]
      at hEvents
    cases hEvents
  · intro hEmpty
    rw [List.isEmpty_iff] at hEmpty
    rw [hEmpty] at hApproved
    cases hApproved

end LegalAgent
