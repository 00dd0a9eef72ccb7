import LegalAgent.Library.Order
import LegalAgent.Properties.Bricks

/-
  What a run shows of its tool calls in its cells.

  A run shows its calls twice: in its cells and in the
  checkpoint of its thread.  This module follows the cells of
  a run without a result through the calls of the tasks, to
  their decision.

  Key definitions include:
    * `Db.waits`
    * `Db.cellIds`
    * `Db.Named`
    * `Message.decided`

  Key theorems include:
    * `pendingToolCalls_eq`
    * `waits_of_exec`
    * `waits_of_cell`
    * `waits_of_result`
    * `messages_of_partial`
    * `messages_of_rejection`
-/

------------------------------------------------------------
-- Waiting Calls
------------------------------------------------------------

namespace LegalAgent

open Library

/- The calls whose cells have no result, in table order. -/
def Db.waits (db : Db) (runId : RunId) : List ToolCall :=
  (db.messages.filter (Message.isPendingOf runId)).map
    Message.call

/- The call ids of all cells of a run. -/
def Db.cellIds (db : Db) (runId : RunId) : List (Option Text) :=
  (db.messages.filter (Message.isCellOf runId)).map
    Message.toolCallId

/- Whether a call id is there and is not empty. -/
def isNamed : Option Text → Bool
| some (_ :: _) => true
| _ => false

/-
  The calls of a run, with some that have no cell yet, have
  different ids, and none is empty.
-/
structure Db.Named
    (db : Db)
    (runId : RunId)
    (more : List ToolCall) :
    Prop where
  distinct : (db.cellIds runId ++ more.map ToolCall.id).Nodup
  named :
    ∀ id ∈ db.cellIds runId ++ more.map ToolCall.id,
      isNamed id = true

section Cells

variable {db db' : Db} {runId : RunId}

/- A pending cell is a cell. -/
theorem isCellOf_of_pending
    {message : Message}
    (hPending : message.isPendingOf runId = true) :
    message.isCellOf runId = true := by
  rw [Message.isPendingOf, Bool.and_eq_true] at hPending
  exact hPending.1

/- The id of a waiting call is that of a cell. -/
theorem mem_cellIds
    {call : ToolCall}
    (hMem : call ∈ db.waits runId) :
    call.id ∈ db.cellIds runId := by
  rcases List.mem_map.mp hMem with ⟨message, hMessage, rfl⟩
  rcases List.mem_filter.mp hMessage with ⟨hIn, hPending⟩
  exact
    List.mem_map.mpr
      ⟨message,
        List.mem_filter.mpr ⟨hIn, isCellOf_of_pending hPending⟩,
        rfl⟩

/- The messages of a run are stored in the order of `seq`. -/
theorem pendingToolCalls_eq
    (hFormed : db.WellFormed)
    (runId : RunId) :
    db.pendingToolCalls runId = db.waits runId := by
  have hSorted :
      (db.messages.filter
          (Message.isPendingOf runId)).Pairwise
        fun message other => message.seq < other.seq := by
    have hSlots := List.pairwise_map.mp hFormed.slotOrder
    have hOrder :=
      hSlots.filter (Message.isPendingOf runId)
    apply hOrder.imp_of_mem
    intro message other hMem hOther hLt
    apply hLt.2
    have hThread :
        ∀ message ∈ db.messages.filter
            (Message.isPendingOf runId),
          db.hasRun runId message.threadId := by
      intro message hMessage
      rcases List.mem_filter.mp hMessage with ⟨hIn, hPending⟩
      have hCell := isCellOf_of_pending hPending
      rw [Message.isCellOf, Bool.and_eq_true, beq_iff_eq]
        at hCell
      exact
        hFormed.slotRuns message.slot
          (List.mem_map_of_mem hIn) runId hCell.1
    have hFirst := hThread message hMem
    rw [Db.hasRun, hThread other hOther, Option.some_inj]
      at hFirst
    exact hFirst.symm
  unfold Db.pendingToolCalls bySeq Db.waits
  congr 1
  exact sortBy_of_sorted hSorted

/- Updates that keep the cells of a run as they are. -/
theorem waits_of_map
    {change : Message → Message}
    (hMessages : db'.messages = db.messages.map change)
    (hPending :
      ∀ message ∈ db.messages,
        (change message).isPendingOf runId =
          message.isPendingOf runId)
    (hCall : ∀ message, (change message).call = message.call) :
    db'.waits runId = db.waits runId := by
  rw [Db.waits, hMessages, List.filter_map, List.map_map,
    Db.waits]
  have hSame :
      db.messages.filter
          (Message.isPendingOf runId ∘ change) =
        db.messages.filter (Message.isPendingOf runId) :=
    List.filter_congr hPending
  rw [hSame]
  exact List.map_congr_left fun message _ => hCall message

/- Updates that keep the slots and the ids of the cells. -/
theorem cellIds_of_map
    {change : Message → Message}
    (hMessages : db'.messages = db.messages.map change)
    (hCell :
      ∀ message,
        (change message).isCellOf runId =
          message.isCellOf runId)
    (hId :
      ∀ message,
        (change message).toolCallId = message.toolCallId) :
    db'.cellIds runId = db.cellIds runId := by
  rw [Db.cellIds, hMessages, List.filter_map, List.map_map,
    Db.cellIds]
  have hSame :
      Message.isCellOf runId ∘ change =
        Message.isCellOf runId :=
    funext hCell
  rw [hSame]
  exact List.map_congr_left fun message _ => hId message

/- A new message is a cell of its run if a tool made it. -/
theorem isCellOf_toMessage
    (new : NewMessage)
    (id : MessageId)
    (threadId : ThreadId)
    (seq : Nat) :
    (new.toMessage id threadId seq).isCellOf runId = true ↔
      new.runId = runId ∧ new.role = .tool := by
  simp [Message.isCellOf, NewMessage.toMessage]

/- A new message without a tool adds no cell. -/
theorem waits_of_added
    {new : NewMessage}
    {id : MessageId}
    {threadId : ThreadId}
    {seq : Nat}
    (hMessages :
      db'.messages =
        db.messages ++ [new.toMessage id threadId seq])
    (hOther : ¬(new.runId = runId ∧ new.role = .tool)) :
    db'.waits runId = db.waits runId ∧
      db'.cellIds runId = db.cellIds runId := by
  have hCell :
      (new.toMessage id threadId seq).isCellOf runId ≠ true :=
    fun hCell => hOther ((isCellOf_toMessage ..).mp hCell)
  have hPending :
      (new.toMessage id threadId seq).isPendingOf runId ≠
        true :=
    fun hPending => hCell (isCellOf_of_pending hPending)
  constructor
  · rw [Db.waits, hMessages, List.filter_append,
      List.filter_cons_of_neg hPending, List.filter_nil,
      List.append_nil, Db.waits]
  · rw [Db.cellIds, hMessages, List.filter_append,
      List.filter_cons_of_neg hCell, List.filter_nil,
      List.append_nil, Db.cellIds]

/- A new cell waits behind the others. -/
theorem waits_of_toolCell
    {new : NewMessage}
    {id : MessageId}
    {threadId : ThreadId}
    {seq : Nat}
    (hMessages :
      db'.messages =
        db.messages ++ [new.toMessage id threadId seq])
    (hRun : new.runId = runId)
    (hRole : new.role = .tool) :
    db'.waits runId =
        db.waits runId ++
          [(new.toMessage id threadId seq).call] ∧
      db'.cellIds runId =
        db.cellIds runId ++ [new.toolCallId] := by
  have hCell :
      (new.toMessage id threadId seq).isCellOf runId = true :=
    (isCellOf_toMessage ..).mpr ⟨hRun, hRole⟩
  have hPending :
      (new.toMessage id threadId seq).isPendingOf runId =
        true := by
    rw [Message.isPendingOf, hCell]
    rfl
  constructor
  · rw [Db.waits, hMessages, List.filter_append,
      List.filter_cons_of_pos hPending, List.filter_nil,
      List.map_append, Db.waits]
    rfl
  · rw [Db.cellIds, hMessages, List.filter_append,
      List.filter_cons_of_pos hCell, List.filter_nil,
      List.map_append, Db.cellIds]
    rfl

end Cells

------------------------------------------------------------
-- Calls
------------------------------------------------------------

/- The run whose cells a call adds, fills or rejects. -/
def Op.editsCells? : Op → Option RunId
| .addMessage _ new =>
    if new.role = .tool then some new.runId else none
| .setToolResult runId .. => some runId
| .markPartialApproval runId .. => some runId
| .resolveOrphanToolCells runId _ => some runId
| _ => none

section Exec

variable {inst : InstanceId} {world world' : World}
variable {runId : RunId}

/- A new message of a thread. -/
theorem messages_of_addMessage
    {threadId : ThreadId}
    {new : NewMessage}
    {row : MessageId × Nat}
    (hExec :
      exec inst (.addMessage threadId new) world =
        (.ok row, world')) :
    world'.db.messages =
      world.db.messages ++
        [new.toMessage row.1 threadId row.2] := by
  rcases row with ⟨messageId, seq⟩
  rcases of_insertMessage (statement_of_onDb hExec) with
    ⟨-, thread, db₁, -, -, hNext, -, hDb⟩
  exact congrArg Db.messages hDb

/- An update of other messages keeps the cells of a run. -/
theorem waits_of_updated
    {db : Db}
    {selects : Message → Bool}
    {change : Message → Message}
    (hOther :
      ∀ message,
        selects message = true →
          message.isCellOf runId = false ∧
            (change message).isCellOf runId = false)
    (hCall : ∀ message, (change message).call = message.call) :
    (db.updateMessages selects change).waits runId =
        db.waits runId ∧
      (db.updateMessages selects change).cellIds runId =
        db.cellIds runId := by
  constructor
  · refine waits_of_map rfl ?_ ?_
    · intro message _
      split
      · rename_i hSelected
        rcases hOther message hSelected with ⟨hWas, hIs⟩
        rw [Message.isPendingOf, hIs, Message.isPendingOf, hWas]
        rfl
      · rfl
    · intro message
      split
      · exact hCall message
      · rfl
  · refine cellIds_of_map rfl ?_ ?_
    · intro message
      split
      · rename_i hSelected
        rcases hOther message hSelected with ⟨hWas, hIs⟩
        rw [hIs, hWas]
      · rfl
    · intro message
      split
      · exact congrArg ToolCall.id (hCall message)
      · rfl

/- A message of one run is no cell of another. -/
theorem not_isCellOf
    {message : Message}
    {other : RunId}
    (hRun : message.runId = some other)
    (hNe : other ≠ runId) :
    message.isCellOf runId = false := by
  simp [Message.isCellOf, hRun, hNe]

/- A cell of a run is of the run. -/
theorem runId_of_isCellOf
    {message : Message}
    (hCell : message.isCellOf runId = true) :
    message.runId = some runId := by
  rw [Message.isCellOf, Bool.and_eq_true, beq_iff_eq] at hCell
  exact hCell.1

/- Calls that edit no cell of a run keep its cells. -/
theorem waits_of_exec
    {op : Op}
    {value : op.Reply}
    (hExec : exec inst op world = (.ok value, world'))
    (hOther : op.editsCells? ≠ some runId) :
    world'.db.waits runId = world.db.waits runId ∧
      world'.db.cellIds runId = world.db.cellIds runId := by
  cases op with
  | addMessage threadId new =>
      apply waits_of_added (messages_of_addMessage hExec)
      rintro ⟨hRun, hRole⟩
      apply hOther
      rw [Op.editsCells?, if_pos hRole, hRun]
  | commitAgentAnswer threadId other contentMd citationIds
      parentId model =>
      rcases of_commitAgentAnswer (statement_of_onDb hExec) with
        ⟨rfl, -, hDb⟩ |
          ⟨messageId, seq, links, db₁, rfl, -, hInsert, hDb⟩
      · rw [hDb]
        exact ⟨rfl, rfl⟩
      · rcases of_insertMessage hInsert with
          ⟨-, thread, db₂, -, -, hNext, -, rfl⟩
        apply
          @waits_of_added world.db world'.db runId _ _ _ _
            (congrArg Db.messages hDb)
        rintro ⟨-, hRole⟩
        cases hRole
  | setToolResult other toolCallId toolResult =>
      cases hExec
      have hNe : other ≠ runId :=
        fun hEq => hOther (congrArg some hEq)
      refine waits_of_updated ?_ fun _ => rfl
      intro message hSelected
      rw [Bool.and_eq_true, beq_iff_eq] at hSelected
      exact
        ⟨not_isCellOf hSelected.1 hNe,
          not_isCellOf hSelected.1 hNe⟩
  | markPartialApproval other rejectedIds marker =>
      cases hExec
      have hNe : other ≠ runId :=
        fun hEq => hOther (congrArg some hEq)
      have hRejected :=
        @waits_of_updated runId world.db
          (fun message =>
            message.isCellOf other &&
                message.toolCallId.isSome &&
              rejectedIds.contains message.toolCallId)
          (fun message =>
            { message with
              approvalState := some .rejected
              toolResult := some (.str marker) })
          (by
            intro message hSelected
            simp only [Bool.and_eq_true] at hSelected
            have hRun := runId_of_isCellOf hSelected.1.1
            exact
              ⟨not_isCellOf hRun hNe, not_isCellOf hRun hNe⟩)
          fun _ => rfl
      have hApproved :=
        @waits_of_updated runId
          (world.db.rejectCells other rejectedIds marker)
          (Message.isPendingOf other)
          (fun message =>
            { message with approvalState := some .approved })
          (by
            intro message hSelected
            have hRun :=
              runId_of_isCellOf (isCellOf_of_pending hSelected)
            exact
              ⟨not_isCellOf hRun hNe, not_isCellOf hRun hNe⟩)
          fun _ => rfl
      exact
        ⟨hApproved.1.trans hRejected.1,
          hApproved.2.trans hRejected.2⟩
  | resolveOrphanToolCells other marker =>
      cases hExec
      have hNe : other ≠ runId :=
        fun hEq => hOther (congrArg some hEq)
      refine waits_of_updated ?_ fun _ => rfl
      intro message hSelected
      have hRun :=
        runId_of_isCellOf (isCellOf_of_pending hSelected)
      exact ⟨not_isCellOf hRun hNe, not_isCellOf hRun hNe⟩
  | setPendingApproval other state =>
      cases hExec
      constructor
      · refine waits_of_map rfl ?_ ?_
        · intro message _
          split <;> rfl
        · intro message
          split <;> rfl
      · refine cellIds_of_map rfl ?_ ?_
        · intro message
          split <;> rfl
        · intro message
          split <;> rfl
  | _ =>
      have hMessages := (frames_of_exec hExec).messages rfl
      rw [Db.waits, Db.cellIds, hMessages]
      exact ⟨rfl, rfl⟩

/- The cell of a call waits behind the others. -/
theorem waits_of_cell
    {job : Job}
    {root : Option MessageId}
    {toolCall : ToolCall}
    {row : MessageId × Nat}
    (hExec :
      exec inst
          (.addMessage job.thread (job.toolCell root toolCall))
          world =
        (.ok row, world')) :
    world'.db.waits job.run =
        world.db.waits job.run ++ [toolCall] ∧
      world'.db.cellIds job.run =
        world.db.cellIds job.run ++ [toolCall.id] :=
  waits_of_toolCell (messages_of_addMessage hExec) rfl rfl

/- A filled cell waits no more. -/
theorem waits_of_result
    {callId : Text}
    {content : Content}
    {value : Unit}
    (hExec :
      exec inst (.setToolResult runId callId content) world =
        (.ok value, world'))
    (hContent : content ≠ .null) :
    (∀ call ∈ world'.db.waits runId,
        call ∈ world.db.waits runId ∧ call.id ≠ some callId) ∧
      world'.db.cellIds runId = world.db.cellIds runId := by
  cases hExec
  constructor
  · intro call hMem
    rcases List.mem_map.mp hMem with ⟨message, hMessage, rfl⟩
    rcases List.mem_filter.mp hMessage with ⟨hIn, hPending⟩
    rcases List.mem_map.mp hIn with ⟨old, hOld, rfl⟩
    split at hPending
    · have hColumn : content.column = some content := by
        cases content with
        | null => exact absurd rfl hContent
        | str text => rfl
        | blocks blocks => rfl
      exact absurd hPending (not_isPendingOf_filled hColumn)
    · rename_i hNot
      rw [if_neg hNot]
      refine
        ⟨List.mem_map_of_mem
            (List.mem_filter.mpr ⟨hOld, hPending⟩),
          ?_⟩
      intro hId
      apply hNot
      have hRun :=
        runId_of_isCellOf (isCellOf_of_pending hPending)
      have hCallId : old.toolCallId = some callId := hId
      change
        (old.runId == some runId &&
            old.toolCallId == some callId) =
          true
      rw [hRun, hCallId]
      simp
  · refine cellIds_of_map rfl ?_ ?_
    · intro message
      split <;> rfl
    · intro message
      split <;> rfl

/- What a partial approval makes of a cell. -/
def Message.decided
    (runId : RunId)
    (rejectedIds : List (Option Text))
    (marker : Text)
    (message : Message) :
    Message :=
  if message.isPendingOf runId then
    if rejectedIds.contains message.toolCallId then
      { message with
        approvalState := some .rejected
        toolResult := some (.str marker) }
    else
      { message with approvalState := some .approved }
  else
    message

/-
  A partial approval rejects and approves waiting cells only,
  as their ids are those of no other cells.
-/
theorem messages_of_partial
    {db : Db}
    {rejectedIds : List (Option Text)}
    {marker : Text}
    (hNamed : db.Named runId [])
    (hRejected :
      ∀ id ∈ rejectedIds,
        ∃ call ∈ db.waits runId, call.id = id) :
    ((db.rejectCells runId rejectedIds marker).updatePending
        runId fun message =>
          { message with
            approvalState := some .approved }).messages =
      db.messages.map (Message.decided runId rejectedIds marker) := by
  have hIds : (db.cellIds runId).Nodup := by
    simpa using hNamed.distinct
  have hNames :
      ∀ message ∈ db.messages,
        message.isCellOf runId = true →
          message.toolCallId.isSome = true := by
    intro message hMem hCell
    have hName :=
      hNamed.named message.toolCallId
        (List.mem_append_left _
          (List.mem_map_of_mem
            (List.mem_filter.mpr ⟨hMem, hCell⟩)))
    cases hId : message.toolCallId with
    | none =>
        rw [hId] at hName
        cases hName
    | some id => rfl
  -- a cell with the id of a waiting one is that cell
  have hWaits :
      ∀ message ∈ db.messages,
        message.isCellOf runId = true →
          rejectedIds.contains message.toolCallId = true →
            message.isPendingOf runId = true := by
    intro message hMem hCell hContains
    rcases hRejected _ (List.contains_iff_mem.mp hContains) with
      ⟨call, hCall, hId⟩
    rcases List.mem_map.mp hCall with ⟨other, hOther, rfl⟩
    rcases List.mem_filter.mp hOther with ⟨hIn, hPending⟩
    have hSame : other = message :=
      List.inj_on_of_nodup_map hIds
        (List.mem_filter.mpr
          ⟨hIn, isCellOf_of_pending hPending⟩)
        (List.mem_filter.mpr ⟨hMem, hCell⟩) hId
    rw [← hSame]
    exact hPending
  unfold Db.updatePending Db.rejectCells Db.updateMessages
  dsimp only
  rw [List.map_map]
  apply List.map_congr_left
  intro message hMem
  unfold Message.decided
  rw [Function.comp_apply]
  by_cases hPending : message.isPendingOf runId = true
  · have hCell := isCellOf_of_pending hPending
    have hName := hNames message hMem hCell
    rw [if_pos hPending]
    by_cases hContains :
        rejectedIds.contains message.toolCallId = true
    · have hSelected :
          (message.isCellOf runId && message.toolCallId.isSome &&
              rejectedIds.contains message.toolCallId) =
            true := by
        rw [hCell, hName, hContains]
        rfl
      rw [if_pos hSelected, if_pos hContains, if_neg]
      exact not_isPendingOf_filled rfl
    · have hSelected :
          ¬(message.isCellOf runId &&
                  message.toolCallId.isSome &&
                rejectedIds.contains message.toolCallId) =
              true := by
        simp only [Bool.and_eq_true, not_and]
        exact fun _ => hContains
      rw [if_neg hSelected, if_neg hContains, if_pos hPending]
  · have hSelected :
        ¬(message.isCellOf runId && message.toolCallId.isSome &&
              rejectedIds.contains message.toolCallId) =
            true := by
      simp only [Bool.and_eq_true]
      rintro ⟨⟨hCell, -⟩, hContains⟩
      exact hPending (hWaits message hMem hCell hContains)
    rw [if_neg hSelected, if_neg hPending, if_neg hPending]

/- Only a call that adds a cell changes the ids of the cells. -/
theorem cellIds_of_exec
    {op : Op}
    {value : op.Reply}
    (hExec : exec inst op world = (.ok value, world'))
    (hOther :
      ∀ threadId new,
        op = .addMessage threadId new →
          new.role = .tool → new.runId ≠ runId) :
    world'.db.cellIds runId = world.db.cellIds runId := by
  by_cases hEdits : op.editsCells? = some runId
  · cases op with
    | addMessage threadId new =>
        simp only [Op.editsCells?] at hEdits
        split at hEdits
        · rename_i hRole
          cases hEdits
          exact absurd rfl (hOther threadId new rfl hRole)
        · cases hEdits
    | setToolResult other toolCallId toolResult =>
        cases hExec
        refine cellIds_of_map rfl ?_ ?_ <;>
          · intro message
            split <;> rfl
    | markPartialApproval other rejectedIds marker =>
        cases hExec
        have hRejected :
            (world.db.rejectCells other rejectedIds
                marker).cellIds runId =
              world.db.cellIds runId := by
          refine cellIds_of_map rfl ?_ ?_ <;>
            · intro message
              split <;> rfl
        refine Eq.trans ?_ hRejected
        refine cellIds_of_map rfl ?_ ?_ <;>
          · intro message
            split <;> rfl
    | resolveOrphanToolCells other marker =>
        cases hExec
        refine cellIds_of_map rfl ?_ ?_ <;>
          · intro message
            split <;> rfl
    | _ => cases hEdits
  · exact (waits_of_exec hExec hEdits).2

/- A sweep leaves the cells of a run that it spares. -/
theorem waits_sweep
    {db : Db}
    {selects : Run → Bool}
    (hSpared : (db.runs.get? runId).any selects = false) :
    (db.sweep selects).waits runId = db.waits runId := by
  refine waits_of_map rfl ?_ ?_
  · intro message _
    split
    · rename_i hSwept
      simp only [Bool.and_eq_true] at hSwept
      have hNot : message.isPendingOf runId ≠ true := by
        intro hPending
        have hRun :=
          runId_of_isCellOf (isCellOf_of_pending hPending)
        rw [Db.sweeps, hRun, Option.any_some, hSpared] at hSwept
        cases hSwept.2
      exact
        (Bool.eq_false_iff.mpr (not_isPendingOf_filled rfl)).trans
          (Bool.eq_false_iff.mpr hNot).symm
    · rfl
  · intro message
    split <;> rfl

/- A sweep keeps the ids of the cells. -/
theorem cellIds_sweep
    (db : Db)
    (selects : Run → Bool) :
    (db.sweep selects).cellIds runId = db.cellIds runId := by
  refine cellIds_of_map rfl ?_ ?_ <;>
    · intro message
      split <;> rfl

------------------------------------------------------------
-- Decisions
------------------------------------------------------------

/- An approval of all waiting cells. -/
theorem messages_of_approval
    (db : Db)
    (runId : RunId)
    (marker : Text) :
    (db.updatePending runId fun message =>
        { message with
          approvalState := some .approved }).messages =
      db.messages.map (Message.decided runId [] marker) := by
  apply List.map_congr_left
  intro message _
  unfold Message.decided
  split
  · rfl
  · rfl

/- A rejection of all waiting cells. -/
theorem messages_of_rejection
    (db : Db)
    (runId : RunId)
    (marker : Text) :
    ((db.updatePending runId fun message =>
          { message with
            approvalState := some .rejected }).updatePending
        runId fun message =>
          { message with
            toolResult := some (.str marker) }).messages =
      db.messages.map
        (Message.decided runId
          ((db.waits runId).map ToolCall.id) marker) := by
  unfold Db.updatePending Db.updateMessages
  dsimp only
  rw [List.map_map]
  apply List.map_congr_left
  intro message hMem
  unfold Message.decided
  rw [Function.comp_apply]
  by_cases hPending : message.isPendingOf runId = true
  · have hContains :
        ((db.waits runId).map ToolCall.id).contains
            message.toolCallId =
          true := by
      rw [List.contains_iff_mem]
      exact
        List.mem_map.mpr
          ⟨message.call,
            List.mem_map_of_mem
              (List.mem_filter.mpr ⟨hMem, hPending⟩),
            rfl⟩
    rw [if_pos hPending, if_pos hPending, if_pos hContains]
    have hStill :
        Message.isPendingOf runId
            { message with approvalState := some .rejected } =
          true :=
      hPending
    rw [if_pos hStill]
  · rw [if_neg hPending, if_neg hPending, if_neg hPending]

end Exec

end LegalAgent
