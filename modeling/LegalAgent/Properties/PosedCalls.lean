import LegalAgent.Properties.StreamEntry
import LegalAgent.Properties.WaitingCells

/-
  How the cells and the checkpoint of a run fit together.

  From the opening of a run to its pauses, the calls whose
  cells have no result are the calls of the last message of
  the checkpoint, or those of its answers that are still to be
  stored.

  Key definitions include:
    * `Poses`
    * `Agrees`
    * `Stage.Views`
    * `Op.graph?`

  Key theorems include:
    * `checkpoints_of_exec`
    * `agrees_of_partial`
    * `views_graphNext`
    * `views_after`
    * `named_after`
-/

------------------------------------------------------------
-- Posed Calls
------------------------------------------------------------

namespace LegalAgent

open Library

/- The last message of a checkpoint is no AI message. -/
def Unposed (messages : List CheckpointMessage) : Prop :=
  ∀ message,
    messages.getLast? = some message → message.id? = none

/- The last message of a checkpoint poses calls. -/
def Poses
    (messages : List CheckpointMessage)
    (calls : List ToolCall) :
    Prop :=
  calls ≠ [] ∧
    ∃ front id content,
      messages = front ++ [.ai id content calls] ∧
        Unposed front

/- The calls of a run that are still kept. -/
def keptCalls
    (waits : List ToolCall)
    (unmarked : List (Option Text)) :
    List ToolCall :=
  waits.filter fun call => !unmarked.contains call.id

/-
  The checkpoint poses the calls that wait and are kept, or
  there are none.
-/
def Agrees
    (waits : List ToolCall)
    (messages : List CheckpointMessage)
    (unmarked : List (Option Text)) :
    Prop :=
  Poses messages (keptCalls waits unmarked) ∨
    (keptCalls waits unmarked = [] ∧ Unposed messages)

/- The call of which a cell is still to be added. -/
def Todo.call? : Todo → Option ToolCall
| .cell toolCall => some toolCall
| .result .. => none

/- The calls of which cells are still to be added. -/
def Stage.cells : Stage → List ToolCall
| .driving _ _ todo => todo.filterMap Todo.call?
| _ => []

/- A result that fills the cell of a call. -/
def Todo.fills (item : Todo) (call : ToolCall) : Prop :=
  ∃ callId content,
    item = .result callId content ∧ call.id = some callId

/- A result that is not null. -/
def Todo.isResult : Todo → Prop
| .cell _ => False
| .result _ content => content ≠ .null

/-
  How the waiting cells and the checkpoint of a run fit
  together while a task writes the run.
-/
def Stage.Views
    (waits : List ToolCall)
    (messages : List CheckpointMessage)
    (resumes : Bool) :
    Stage → Prop
| .opening | .opened _ => resumes = false ∧ waits = []
| .won _ unmarked =>
    resumes = true ∧ Agrees waits messages unmarked
| .driving _ none todo =>
    todo = [] ∧
      if resumes then Agrees waits messages [] else waits = []
| .driving _ (some (.toolsNext calls)) todo =>
    ∃ more,
      todo = more.map Todo.cell ∧
        Poses messages calls ∧ waits ++ more = calls
| .driving _ (some .agentNext) todo =>
    Unposed messages ∧
      (∀ item ∈ todo, item.isResult) ∧
        ∀ call ∈ waits, ∃ item ∈ todo, item.fills call
| .gated _ => Poses messages waits
| _ => True

/- The thread whose checkpoint a call may write. -/
def Op.graph? : Op → Option ThreadId
| .graphInput threadId _ => some threadId
| .graphNext threadId _ _ => some threadId
| .rejectPending threadId => some threadId
| .clearInterruptedTools threadId => some threadId
| .approvePartial threadId _ => some threadId
| .forkState threadId _ => some threadId
| _ => none

section Checkpoints

variable {messages : List CheckpointMessage}
variable {calls : List ToolCall}

/- A question or a tool message poses no calls. -/
theorem unposed_append
    {message : CheckpointMessage}
    (hMessage : message.id? = none) :
    Unposed (messages ++ [message]) := by
  intro last hLast
  rw [List.getLast?_append, List.getLast?_singleton,
    Option.some_or, Option.some_inj] at hLast
  rw [← hLast]
  exact hMessage

/- Changes that keep the last message keep it unposed. -/
theorem unposed_filter
    {keeps : CheckpointMessage → Bool}
    (hUnposed : Unposed messages)
    (hKeeps :
      ∀ message, message.id? = none → keeps message = true) :
    Unposed (messages.filter keeps) := by
  rcases List.eq_nil_or_concat messages with
    rfl | ⟨front, last, rfl⟩
  · exact hUnposed
  · rw [List.concat_eq_append] at hUnposed ⊢
    have hLast : last.id? = none :=
      hUnposed last (by simp)
    rw [List.filter_append, List.filter_cons_of_pos
      (hKeeps last hLast), List.filter_nil]
    exact unposed_append hLast

theorem unposed_map
    {change : CheckpointMessage → CheckpointMessage}
    (hUnposed : Unposed messages)
    (hChange :
      ∀ message,
        message.id? = none → (change message).id? = none) :
    Unposed (messages.map change) := by
  intro last hLast
  rw [List.getLast?_map, Option.map_eq_some_iff] at hLast
  rcases hLast with ⟨message, hMessage, rfl⟩
  exact hChange message (hUnposed message hMessage)

/- A message without an id has the id of no other. -/
theorem not_sameId_of_none
    {pending message : CheckpointMessage}
    (hNone : message.id? = none) :
    pending.sameId message = false := by
  rw [Bool.eq_false_iff]
  intro hSame
  rcases (sameId_iff pending message).mp hSame with ⟨id, -, hId⟩
  rw [hNone] at hId
  cases hId

/- The posed message is the pending one. -/
theorem pendingMessage_of_append
    (front : List CheckpointMessage)
    (id : Nat)
    (content : Content)
    (hCalls : calls ≠ []) :
    pendingMessage? (front ++ [.ai id content calls]) =
      some (.ai id content calls) := by
  unfold pendingMessage?
  rw [List.reverse_append, List.reverse_singleton,
    List.singleton_append, List.find?_cons_of_pos]
  simpa [CheckpointMessage.calls] using hCalls

/- Without the pending message, the rest keeps its end. -/
theorem withoutPending_append
    (front : List CheckpointMessage)
    (id : Nat)
    (content : Content)
    (hCalls : calls ≠ []) :
    withoutPending (front ++ [.ai id content calls]) =
      front.filter fun message =>
        !(CheckpointMessage.ai id content calls).sameId
            message := by
  rw [withoutPending, pendingMessage_of_append front id content
    hCalls]
  dsimp only
  rw [List.filter_append]
  simp [CheckpointMessage.sameId]

theorem unposed_withoutPending
    (hUnposed : Unposed messages) :
    Unposed (withoutPending messages) := by
  unfold withoutPending
  split
  · exact hUnposed
  · apply unposed_filter hUnposed
    intro message hNone
    rw [not_sameId_of_none hNone]
    rfl

/- A checkpoint whose pending message keeps some calls. -/
def keepOnly
    (pending : CheckpointMessage)
    (kept : List ToolCall)
    (messages : List CheckpointMessage) :
    List CheckpointMessage :=
  messages.map fun message =>
    if pending.sameId message then message.keepCalls kept
    else message

/- The posed message keeps the calls. -/
theorem keepOnly_append
    (front : List CheckpointMessage)
    (id : Nat)
    (content : Content)
    (kept : List ToolCall) :
    keepOnly (.ai id content calls) kept
        (front ++ [.ai id content calls]) =
      keepOnly (.ai id content calls) kept front ++
        [.ai id content kept] := by
  have hSame :
      (CheckpointMessage.ai id content calls).sameId
          (.ai id content calls) =
        true := by
    simp [CheckpointMessage.sameId]
  rw [keepOnly, List.map_append, List.map_singleton,
    if_pos hSame]
  rfl

/- The posed message may keep some of its calls. -/
theorem poses_keepOnly
    {front : List CheckpointMessage}
    {kept : List ToolCall}
    (id : Nat)
    (content : Content)
    (hFront : Unposed front)
    (hKept : kept ≠ []) :
    Poses
      (keepOnly (.ai id content calls) kept
        (front ++ [.ai id content calls]))
      kept := by
  refine ⟨hKept, _, id, content, keepOnly_append .., ?_⟩
  apply unposed_map hFront
  intro message hNone
  rw [not_sameId_of_none hNone, if_neg (by simp)]
  exact hNone

theorem keptCalls_nil (waits : List ToolCall) :
    keptCalls waits [] = waits := by
  unfold keptCalls
  exact List.filter_eq_self.mpr fun _ _ => rfl

/- The kept calls are those that were approved. -/
theorem keptCalls_rejected
    (waits : List ToolCall)
    (approved : List Text) :
    keptCalls waits
        ((waits.filter fun call => !call.isIn approved).map
          ToolCall.id) =
      waits.filter (ToolCall.isIn approved) := by
  unfold keptCalls
  apply List.filter_congr
  intro call hMem
  rw [Bool.eq_iff_iff, Bool.not_eq_true', Bool.eq_false_iff]
  constructor
  · intro hNot
    by_contra hOut
    refine hNot (List.contains_iff_mem.mpr ?_)
    refine List.mem_map.mpr ⟨call, ?_, rfl⟩
    exact List.mem_filter.mpr ⟨hMem, by simpa using hOut⟩
  · intro hIn hContains
    rcases
        List.mem_map.mp (List.contains_iff_mem.mp hContains) with
      ⟨other, hOther, hId⟩
    have hOut := (List.mem_filter.mp hOther).2
    rw [ToolCall.isIn, hId] at hOut
    rw [ToolCall.isIn] at hIn
    rw [hIn] at hOut
    cases hOut

end Checkpoints

------------------------------------------------------------
-- Calls
------------------------------------------------------------

section Exec

variable {inst : InstanceId} {world world' : World}
variable {op : Op} {value : op.Reply}
variable {threadId : ThreadId} {runId : RunId}

/- A changed checkpoint is that of one thread. -/
theorem checkpoints_updateState
    {db : Db}
    {other : ThreadId}
    {change :
      List CheckpointMessage → List CheckpointMessage} :
    (db.updateState other change).checkpoints threadId =
      if threadId = other then
        change (db.checkpoints other)
      else
        db.checkpoints threadId := rfl

/- A call leaves the checkpoints of the other threads. -/
theorem checkpoints_of_exec
    (hExec : exec inst op world = (.ok value, world'))
    (hOther : op.graph? ≠ some threadId) :
    world'.db.checkpoints threadId =
      world.db.checkpoints threadId := by
  have hNe :
      ∀ other, some other ≠ some threadId → threadId ≠ other :=
    fun _ hNe hEq => hNe (congrArg some hEq.symm)
  cases op with
  | graphInput other message =>
      cases hExec
      exact if_neg (hNe other hOther)
  | graphNext other state step =>
      have hNext :
          graphNext other state step world.db =
            .ok (value, world'.db) :=
        statement_of_onDb hExec
      generalize world'.db = db' at hNext ⊢
      unfold graphNext at hNext
      split at hNext
      · cases hNext
        rfl
      · split at hNext
        · cases hNext
          exact if_neg (hNe other hOther)
        · cases hNext
      · cases hNext
        exact if_neg (hNe other hOther)
      · cases hNext
        rfl
      · cases hNext
  | rejectPending other =>
      cases hExec
      exact if_neg (hNe other hOther)
  | clearInterruptedTools other =>
      cases hExec
      exact if_neg (hNe other hOther)
  | approvePartial other approved =>
      have hNext :
          approvePartial other approved world.db =
            .ok (value, world'.db) :=
        statement_of_onDb hExec
      generalize world'.db = db' at hNext ⊢
      unfold approvePartial at hNext
      dsimp only at hNext
      repeat' split at hNext
      all_goals cases hNext
      all_goals
        first
          | rfl
          | exact if_neg (hNe other hOther)
  | forkState other transcript =>
      cases hExec
      exact if_neg (hNe other hOther)
  | _ => rw [(frames_of_exec hExec).checkpoints rfl]

/- A run opened by a call has no cells. -/
theorem waits_of_fresh
    {db : Db}
    (hFormed : db.WellFormed)
    (hFresh : db.runs.get? runId = none) :
    db.waits runId = [] ∧ db.cellIds runId = [] := by
  have hNone :
      db.messages.filter (Message.isCellOf runId) = [] := by
    apply List.filter_eq_nil_iff.mpr
    intro message hMem hCell
    have hRun :=
      hFormed.slotRuns message.slot (List.mem_map_of_mem hMem)
        runId (runId_of_isCellOf hCell)
    rw [Db.hasRun, hFresh] at hRun
    cases hRun
  constructor
  · rw [Db.waits, List.map_eq_nil_iff,
      List.filter_eq_nil_iff]
    intro message hMem hPending
    exact
      List.filter_eq_nil_iff.mp hNone message hMem
        (isCellOf_of_pending hPending)
  · rw [Db.cellIds, hNone]
    rfl

/- The cells that a mark of approvals leaves waiting. -/
theorem waits_of_mark
    {rejectedIds : List (Option Text)}
    {marker : Text}
    {done : Unit}
    (hExec :
      exec inst (.markPartialApproval runId rejectedIds marker)
          world =
        (.ok done, world'))
    (hNamed :
      ∀ id ∈ world.db.cellIds runId, isNamed id = true) :
    world'.db.waits runId =
      keptCalls (world.db.waits runId) rejectedIds := by
  cases hExec
  have hApproved :
      ((world.db.rejectCells runId rejectedIds
              marker).updatePending runId fun message =>
            { message with
              approvalState := some .approved }).waits runId =
        (world.db.rejectCells runId rejectedIds marker).waits
          runId := by
    refine waits_of_map rfl ?_ ?_
    · intro message _
      split <;> rfl
    · intro message
      split <;> rfl
  apply hApproved.trans
  unfold Db.waits keptCalls
  rw [Db.rejectCells, Db.updateMessages, List.filter_map,
    List.map_map, List.filter_map, List.filter_filter]
  have hSame :
      ∀ message ∈ world.db.messages,
        (if
            message.isCellOf runId &&
                  message.toolCallId.isSome &&
                rejectedIds.contains message.toolCallId then
            { message with
              approvalState := some .rejected
              toolResult := some (.str marker) }
          else message).isPendingOf
            runId =
          (!rejectedIds.contains message.toolCallId &&
            message.isPendingOf runId) := by
    intro message hMem
    split
    · rename_i hSelected
      rw [Bool.and_eq_true] at hSelected
      rw [hSelected.2]
      exact Bool.eq_false_iff.mpr (not_isPendingOf_filled rfl)
    · rename_i hNot
      cases hPending : message.isPendingOf runId with
      | false => rw [Bool.and_false]
      | true =>
          have hCell := isCellOf_of_pending hPending
          have hName :=
            hNamed message.toolCallId
              (List.mem_map_of_mem
                (List.mem_filter.mpr ⟨hMem, hCell⟩))
          have hSome : message.toolCallId.isSome = true := by
            cases hId : message.toolCallId with
            | none =>
                rw [hId] at hName
                cases hName
            | some id => rfl
          rw [hCell, hSome, Bool.true_and, Bool.true_and]
            at hNot
          rw [Bool.not_eq_true] at hNot
          rw [hNot]
          rfl
  have hFilter :
      world.db.messages.filter
          ((Message.isPendingOf runId) ∘ fun message =>
            if
                message.isCellOf runId &&
                      message.toolCallId.isSome &&
                    rejectedIds.contains message.toolCallId then
              { message with
                approvalState := some .rejected
                toolResult := some (.str marker) }
            else message) =
        world.db.messages.filter fun message =>
          !rejectedIds.contains message.toolCallId &&
            message.isPendingOf runId :=
    List.filter_congr hSame
  rw [hFilter]
  apply List.map_congr_left
  intro message _
  rw [Function.comp_apply]
  split <;> rfl

/-
  What a partial approval replies and leaves of a checkpoint
  that agrees with the waiting calls.
-/
theorem agrees_of_partial
    {approved : List Text}
    {rejected : List (Option Text)}
    {waits : List ToolCall}
    (hExec :
      exec inst (.approvePartial threadId approved) world =
        (.ok rejected, world'))
    (hAgrees :
      Agrees waits (world.db.checkpoints threadId) []) :
    Agrees waits (world'.db.checkpoints threadId) rejected := by
  have hNext :
      approvePartial threadId approved world.db =
        .ok (rejected, world'.db) :=
    statement_of_onDb hExec
  unfold approvePartial at hNext
  rw [Agrees, keptCalls_nil] at hAgrees
  rcases hAgrees with
    ⟨hSome, front, id, content, hMessages, hFront⟩ |
      ⟨rfl, hUnposed⟩
  · rw [hMessages, pendingMessage_of_append front id content
      hSome] at hNext
    dsimp only [CheckpointMessage.calls] at hNext
    split at hNext
    · rename_i hNone
      simp only [Except.ok.injEq, Prod.mk.injEq] at hNext
      rcases hNext with ⟨rfl, hDb⟩
      right
      rw [keptCalls_rejected, ← hDb, checkpoints_updateState,
        if_pos rfl, hMessages,
        withoutPending_append front id content hSome]
      refine ⟨List.isEmpty_iff.mp hNone, ?_⟩
      apply unposed_filter hFront
      intro message hId
      rw [not_sameId_of_none hId]
      rfl
    · rename_i hKept
      split at hNext
      · simp only [Except.ok.injEq, Prod.mk.injEq] at hNext
        rcases hNext with ⟨rfl, hDb⟩
        left
        rw [keptCalls_nil, ← hDb]
        exact ⟨hSome, front, id, content, hMessages, hFront⟩
      · simp only [Except.ok.injEq, Prod.mk.injEq] at hNext
        rcases hNext with ⟨rfl, hDb⟩
        left
        rw [keptCalls_rejected, ← hDb, checkpoints_updateState,
          if_pos rfl, hMessages]
        exact
          poses_keepOnly id content hFront fun hNone =>
            hKept (List.isEmpty_iff.mpr hNone)
  · right
    refine ⟨rfl, ?_⟩
    split at hNext
    · simp only [Except.ok.injEq, Prod.mk.injEq] at hNext
      rw [← hNext.2]
      exact hUnposed
    · rename_i pending hPending
      dsimp only at hNext
      split at hNext
      · simp only [Except.ok.injEq, Prod.mk.injEq] at hNext
        rw [← hNext.2, checkpoints_updateState, if_pos rfl]
        exact unposed_withoutPending hUnposed
      · split at hNext
        · simp only [Except.ok.injEq, Prod.mk.injEq] at hNext
          rw [← hNext.2]
          exact hUnposed
        · simp only [Except.ok.injEq, Prod.mk.injEq] at hNext
          rw [← hNext.2, checkpoints_updateState, if_pos rfl]
          apply unposed_map hUnposed
          intro message hId
          rw [not_sameId_of_none hId, if_neg (by simp)]
          exact hId

------------------------------------------------------------
-- Stages
------------------------------------------------------------

variable {job : Job} {stage : Stage} {request : Request}
variable {root : Option MessageId}

/- A call that touches neither side keeps both. -/
theorem sides_of_exec
    (hExec : exec inst op world = (.ok value, world'))
    (hEdits : op.editsCells? = none)
    (hGraph : op.graph? = none) :
    world'.db.waits runId = world.db.waits runId ∧
      world'.db.checkpoints threadId =
        world.db.checkpoints threadId :=
  ⟨(waits_of_exec hExec (by rw [hEdits]; nofun)).1,
    checkpoints_of_exec hExec (by rw [hGraph]; nofun)⟩

/- The results of a step of the tools. -/
theorem mem_todo_of_tools
    {calls : List ToolCall}
    {answers : ToolCall → ToolAnswer}
    {call : ToolCall}
    (hMem : call ∈ calls)
    (hNamed : isNamed call.id = true) :
    ∃ item ∈
        (calls.map (ToolAnswer.streamed answers)).flatMap
          StreamMessage.todo,
      item.fills call := by
  cases hId : call.id with
  | none =>
      rw [hId] at hNamed
      cases hNamed
  | some text =>
      cases text with
      | nil =>
          rw [hId] at hNamed
          cases hNamed
      | cons c text =>
          refine
            ⟨.result (c :: text)
                (truncateToolResult (answers call).content),
              ?_, _, _, rfl, hId⟩
          refine
            List.mem_flatMap.mpr
              ⟨_, List.mem_map_of_mem hMem, ?_⟩
          rw [ToolAnswer.streamed, hId]
          exact List.mem_singleton.mpr rfl

/- Every item that a step of the tools leaves is a result. -/
theorem isResult_of_tools
    {calls : List ToolCall}
    {answers : ToolCall → ToolAnswer}
    {item : Todo}
    (hAnswers :
      ∀ call ∈ calls, (answers call).content ≠ .null)
    (hMem :
      item ∈
        (calls.map (ToolAnswer.streamed answers)).flatMap
          StreamMessage.todo) :
    item.isResult := by
  rcases List.mem_flatMap.mp hMem with
    ⟨message, hMessage, hItem⟩
  rcases List.mem_map.mp hMessage with ⟨call, hCall, rfl⟩
  have hContent := hAnswers call hCall
  rw [ToolAnswer.streamed] at hItem
  match hId : call.id with
  | none =>
      rw [hId] at hItem
      cases hItem
  | some [] =>
      rw [hId] at hItem
      cases hItem
  | some (c :: id) =>
      rw [hId] at hItem
      rcases List.mem_singleton.mp hItem with rfl
      change truncateToolResult (answers call).content ≠ .null
      cases hKind : (answers call).content with
      | null => exact absurd hKind hContent
      | str text =>
          rw [truncateToolResult]
          split <;> nofun
      | blocks blocks => nofun

/- What the input of the graph makes of a checkpoint. -/
theorem checkpoints_of_input
    {message : Text}
    {state : GraphState}
    (hExec :
      exec inst (.graphInput threadId message) world =
        (.ok state, world')) :
    state = .agentNext ∧
      world'.db.checkpoints threadId =
        world.db.checkpoints threadId ++
          [.human (.str message)] := by
  cases hExec
  exact ⟨rfl, if_pos rfl⟩

/- A graph goes on with the calls of the last message. -/
theorem graphResume_of_last
    {db : Db}
    {front : List CheckpointMessage}
    {id : Nat}
    {content : Content}
    {calls : List ToolCall}
    (hMessages :
      db.checkpoints threadId =
        front ++ [.ai id content calls])
    (hSome : calls ≠ []) :
    graphResume threadId db = .ok (.toolsNext calls, db) := by
  rcases List.exists_cons_of_ne_nil hSome with
    ⟨call, calls, rfl⟩
  simp only [graphResume, Statement.query, hMessages,
    List.getLast?_append, List.getLast?_singleton,
    Option.some_or]

/- The state in which a graph goes on that poses calls. -/
theorem state_of_resume
    {state : GraphState}
    (hExec :
      exec inst (.graphResume threadId) world =
        (.ok state, world'))
    (hAgrees :
      Agrees (world.db.waits runId)
        (world.db.checkpoints threadId) []) :
    Stage.Views (world.db.waits runId)
      (world.db.checkpoints threadId) true
      (.driving root (some state) []) := by
  have hResume :
      graphResume threadId world.db = .ok (state, world'.db) :=
    statement_of_onDb hExec
  rw [Agrees, keptCalls_nil] at hAgrees
  rcases hAgrees with
    ⟨hSome, front, id, content, hMessages, hFront⟩ |
      ⟨hNone, hUnposed⟩
  · rw [graphResume_of_last hMessages hSome, Except.ok.injEq,
      Prod.mk.injEq] at hResume
    rw [← hResume.1]
    exact
      ⟨[], rfl, ⟨hSome, front, id, content, hMessages, hFront⟩,
        List.append_nil _⟩
  · have hUnseen :
        ∀ message,
          (world.db.checkpoints threadId).getLast? =
              some message →
            ∀ id content calls,
              message ≠ .ai id content calls := by
      rintro message hLast id content calls rfl
      cases hUnposed _ hLast
    simp only [graphResume, Statement.query, Except.ok.injEq,
      Prod.mk.injEq] at hResume
    rw [← hResume.1]
    split
    · rename_i id content call calls hLast
      exact absurd rfl (hUnseen _ hLast id content (call :: calls))
    · refine ⟨hUnposed, ?_, ?_⟩
      · intro _ hMem
        cases hMem
      · rw [hNone]
        intro _ hMem
        cases hMem
    · trivial

/- The next chunk of a stream keeps the two sides together. -/
theorem views_graphNext
    {state : GraphState}
    {step : Option GraphStep}
    {resumes : Bool}
    {reply : Option (Chunk × GraphState)}
    (hExec :
      exec inst (.graphNext job.thread state step) world =
        (.ok reply, world'))
    (hAnswers :
      ∀ calls answers,
        state = .toolsNext calls →
          step = some (.tools answers) →
            ∀ call ∈ calls, (answers call).content ≠ .null)
    (hNamed :
      ∀ id ∈ world.db.cellIds job.run, isNamed id = true)
    (hViews :
      Stage.Views (world.db.waits job.run)
        (world.db.checkpoints job.thread) resumes
        (.driving root (some state) [])) :
    Stage.Views (world'.db.waits job.run)
      (world'.db.checkpoints job.thread) resumes
      (Stage.after (.driving root (some state) [])
        (.graphNext job.thread state step) (.ok reply)) := by
  have hWaits :
      world'.db.waits job.run = world.db.waits job.run :=
    (waits_of_exec hExec nofun).1
  have hNext :
      graphNext job.thread state step world.db =
        .ok (reply, world'.db) :=
    statement_of_onDb hExec
  rw [hWaits]
  generalize world'.db = db' at hNext ⊢
  unfold graphNext at hNext
  split at hNext
  · cases hNext
    trivial
  · rename_i content calls
    rcases hViews with ⟨hUnposed, -, hWaiting⟩
    -- no call waits when the agent is next
    have hNone : world.db.waits job.run = [] := by
      apply List.eq_nil_iff_forall_not_mem.mpr
      intro call hCall
      rcases hWaiting call hCall with ⟨item, hItem, -⟩
      cases hItem
    split at hNext
    · cases hNext
      rw [checkpoints_updateState, if_pos rfl, hNone]
      cases calls with
      | nil => trivial
      | cons call calls =>
          refine ⟨call :: calls, ?_, ?_, rfl⟩
          · exact List.append_nil _
          · exact ⟨nofun, _, _, content, rfl, hUnposed⟩
    · cases hNext
  · rename_i calls answers
    rcases hViews with ⟨more, hMore, ⟨hSome, -⟩, hWaiting⟩
    rcases List.map_eq_nil_iff.mp hMore.symm with rfl
    rw [List.append_nil] at hWaiting
    cases hNext
    rw [checkpoints_updateState, if_pos rfl]
    refine ⟨?_, ?_, ?_⟩
    · rcases (List.eq_nil_or_concat calls).resolve_left hSome with
        ⟨front, last, rfl⟩
      rw [List.concat_eq_append, List.map_append,
        ← List.append_assoc]
      exact unposed_append rfl
    · intro item hItem
      exact
        isResult_of_tools (hAnswers calls answers rfl rfl) hItem
    · intro call hCall
      have hId := hNamed call.id (mem_cellIds hCall)
      rw [hWaiting] at hCall
      exact mem_todo_of_tools hCall hId
  · rename_i calls values
    rcases hViews with ⟨more, hMore, hPoses, hWaiting⟩
    rcases List.map_eq_nil_iff.mp hMore.symm with rfl
    rw [List.append_nil] at hWaiting
    cases hNext
    change Poses _ (world.db.waits job.run)
    rw [hWaiting]
    exact hPoses
  · cases hNext

/- A cell that is added moves from the one side to the other. -/
theorem views_cell
    {state : Option GraphState}
    {todo : List Todo}
    {toolCall : ToolCall}
    {resumes : Bool}
    {row : MessageId × Nat}
    (hExec :
      exec inst
          (.addMessage job.thread (job.toolCell root toolCall))
          world =
        (.ok row, world'))
    (hViews :
      Stage.Views (world.db.waits job.run)
        (world.db.checkpoints job.thread) resumes
        (.driving root state (.cell toolCall :: todo))) :
    Stage.Views (world'.db.waits job.run)
      (world'.db.checkpoints job.thread) resumes
      (.driving root state todo) := by
  rw [(waits_of_cell hExec).1, checkpoints_of_exec hExec nofun]
  match state with
  | none => cases hViews.1
  | some .agentNext =>
      exact
        (hViews.2.1 (.cell toolCall) List.mem_cons_self).elim
  | some (.toolsNext calls) =>
      rcases hViews with ⟨more, hMore, hPoses, hWaiting⟩
      cases more with
      | nil => cases hMore
      | cons call more =>
          rw [List.map_cons] at hMore
          rcases List.cons.inj hMore with ⟨hCall, hTodo⟩
          cases hCall
          refine ⟨more, hTodo, hPoses, ?_⟩
          rw [List.append_assoc]
          exact hWaiting
  | some .ended => trivial

/- A stored result answers the cell that it fills. -/
theorem views_result
    {state : Option GraphState}
    {todo : List Todo}
    {callId : Text}
    {content : Content}
    {resumes : Bool}
    {done : Unit}
    (hExec :
      exec inst (.setToolResult job.run callId content) world =
        (.ok done, world'))
    (hViews :
      Stage.Views (world.db.waits job.run)
        (world.db.checkpoints job.thread) resumes
        (.driving root state (.result callId content :: todo))) :
    Stage.Views (world'.db.waits job.run)
      (world'.db.checkpoints job.thread) resumes
      (.driving root state todo) := by
  rw [checkpoints_of_exec hExec nofun]
  match state with
  | none => cases hViews.1
  | some .agentNext =>
      rcases hViews with ⟨hUnposed, hResults, hWaiting⟩
      have hContent : content ≠ .null :=
        hResults (.result callId content) List.mem_cons_self
      refine ⟨hUnposed, ?_, ?_⟩
      · intro item hItem
        exact hResults item (List.mem_cons_of_mem _ hItem)
      · intro call hCall
        rcases (waits_of_result hExec hContent).1 call hCall with
          ⟨hWas, hOther⟩
        rcases hWaiting call hWas with ⟨item, hItem, hFills⟩
        rcases List.mem_cons.mp hItem with rfl | hItem
        · rcases hFills with ⟨id, text, hEq, hId⟩
          cases hEq
          exact absurd hId hOther
        · exact ⟨item, hItem, hFills⟩
  | some (.toolsNext calls) =>
      rcases hViews with ⟨more, hMore, -⟩
      cases more <;> cases hMore
  | some .ended => trivial

/- The ids of the cells of a run are not empty. -/
theorem named_cells
    {db : Db}
    {more : List ToolCall}
    (hNamed : db.Named runId more) :
    ∀ id ∈ db.cellIds runId, isNamed id = true :=
  fun id hMem => hNamed.named id (List.mem_append_left _ hMem)

/- The calls of a run keep their ids. -/
theorem named_of_cellIds
    {db db' : Db}
    {calls : List ToolCall}
    (hIds : db'.cellIds runId = db.cellIds runId)
    (hNamed : db.Named runId calls) :
    db'.Named runId calls where
  distinct := by
    rw [hIds]
    exact hNamed.distinct
  named := by
    rw [hIds]
    exact hNamed.named

/- The cells of a run have different ids. -/
theorem named_nil
    {db : Db}
    {calls : List ToolCall}
    (hNamed : db.Named runId calls) :
    db.Named runId [] where
  distinct := by
    rw [List.map_nil, List.append_nil]
    exact hNamed.distinct.of_append_left
  named := by
    rw [List.map_nil, List.append_nil]
    exact named_cells hNamed

/- A task that writes its run keeps the two sides together. -/
theorem views_after
    (hAllows : Stage.Allows job stage op)
    (hExec : exec inst op world = (.ok value, world'))
    (hWrites : stage.writes = true)
    (hAfter : (stage.after op (.ok value)).writes = true)
    (hMakes : request.makes op = true)
    (hNamed :
      ∀ id ∈ world.db.cellIds job.run, isNamed id = true)
    (hAnswers :
      ∀ calls answers,
        op =
            .graphNext job.thread (.toolsNext calls)
              (some (.tools answers)) →
          ∀ call ∈ calls, (answers call).content ≠ .null)
    (hViews :
      stage.Views (world.db.waits job.run)
        (world.db.checkpoints job.thread) request.resumes) :
    (stage.after op (.ok value)).Views
      (world'.db.waits job.run)
      (world'.db.checkpoints job.thread) request.resumes := by
  have hSides :
      op.editsCells? = none →
        op.graph? = none →
          ∀ stage' : Stage,
            stage'.Views (world.db.waits job.run)
                (world.db.checkpoints job.thread)
                request.resumes →
              stage'.Views (world'.db.waits job.run)
                (world'.db.checkpoints job.thread)
                request.resumes := by
    intro hEdits hGraph stage' hStage
    rcases
        @sides_of_exec inst world world' op value job.thread
          job.run hExec hEdits hGraph with
      ⟨hWaits, hMessages⟩
    rw [hWaits, hMessages]
    exact hStage
  cases hAllows with
  | openingCancel => exact hSides rfl rfl _ hViews
  | openingSeq => exact hSides rfl rfl _ hViews
  | openingLog => exact hSides rfl rfl _ hViews
  | openingActive => exact hSides rfl rfl (.opened none) hViews
  | openedAsk => exact hSides rfl rfl (.opened _) hViews
  | openedTitle => exact hSides rfl rfl _ hViews
  | openedDrive =>
      refine hSides rfl rfl (.driving _ none []) ⟨rfl, ?_⟩
      rw [hViews.1]
      exact hViews.2
  | wonCancel => exact hSides rfl rfl _ hViews
  | wonModel => exact hSides rfl rfl _ hViews
  | wonRoot => exact hSides rfl rfl (.won _ []) hViews
  | wonPartial =>
      refine ⟨hViews.1, ?_⟩
      rw [(waits_of_exec hExec nofun).1]
      exact agrees_of_partial hExec hViews.2
  | @wonMark _ unmarked =>
      refine ⟨hViews.1, ?_⟩
      rw [Agrees, keptCalls_nil, waits_of_mark hExec hNamed,
        checkpoints_of_exec hExec nofun]
      exact hViews.2
  | wonApprove => exact hSides rfl rfl _ hViews
  | wonSeq => exact hSides rfl rfl _ hViews
  | wonLog => exact hSides rfl rfl _ hViews
  | wonDrive =>
      refine hSides rfl rfl (.driving _ none []) ⟨rfl, ?_⟩
      rw [hViews.1]
      exact hViews.2
  | drivingInput =>
      rcases checkpoints_of_input hExec with ⟨rfl, hMessages⟩
      have hFresh :=
        not_resumes_of_makes hMakes (.inr ⟨_, _, rfl⟩)
      rcases hViews with ⟨-, hWaits⟩
      rw [hFresh] at hWaits
      refine ⟨?_, nofun, ?_⟩
      · rw [hMessages]
        exact unposed_append rfl
      · rw [(waits_of_exec hExec nofun).1, hWaits]
        nofun
  | drivingResume =>
      have hResumes := resumes_of_makes hMakes (.inr ⟨_, rfl⟩)
      rcases hViews with ⟨-, hAgrees⟩
      apply hSides rfl rfl (.driving _ (some value) [])
      rw [hResumes] at hAgrees ⊢
      exact state_of_resume hExec hAgrees
  | drivingNext =>
      refine views_graphNext hExec ?_ hNamed hViews
      rintro calls answers rfl rfl
      exact hAnswers calls answers rfl
  | drivingFlag => exact hSides rfl rfl _ hViews
  | drivingCell => exact views_cell hExec hViews
  | drivingResult => exact views_result hExec hViews
  | drivingFreeze => exact hSides rfl rfl _ hViews
  | drivingSeq => exact hSides rfl rfl _ hViews
  | drivingLog => exact hSides rfl rfl _ hViews
  | gatedFlag => exact hSides rfl rfl _ hViews
  | _ =>
      first
        | trivial
        | (cases value <;> cases hAfter)

/- The ids of the cells that a chunk asks for. -/
theorem named_graphNext
    {state : GraphState}
    {step : Option GraphStep}
    {reply : Option (Chunk × GraphState)}
    (hExec :
      exec inst (.graphNext job.thread state step) world =
        (.ok reply, world'))
    (hNew :
      ∀ content calls,
        state = .agentNext →
          step = some (.agent content calls) →
            world.db.Named job.run calls)
    (hNone : world.db.Named job.run []) :
    world.db.Named job.run
      (Stage.after (.driving root (some state) [])
        (.graphNext job.thread state step)
        (.ok reply)).cells := by
  have hNext :
      graphNext job.thread state step world.db =
        .ok (reply, world'.db) :=
    statement_of_onDb hExec
  generalize world'.db = db' at hNext
  unfold graphNext at hNext
  split at hNext
  · cases hNext
    exact hNone
  · rename_i content calls
    split at hNext
    · cases hNext
      have hCells :
          ([StreamMessage.ai content calls].flatMap
                StreamMessage.todo).filterMap
              Todo.call? =
            calls := by
        rw [List.flatMap_cons, List.flatMap_nil,
          List.append_nil, StreamMessage.todo,
          List.filterMap_map]
        exact List.filterMap_some
      change
        world.db.Named job.run
          (([StreamMessage.ai content calls].flatMap
                StreamMessage.todo).filterMap
            Todo.call?)
      rw [hCells]
      exact hNew content calls rfl rfl
    · cases hNext
  · rename_i calls answers
    cases hNext
    have hCells :
        ((calls.map (ToolAnswer.streamed answers)).flatMap
              StreamMessage.todo).filterMap
            Todo.call? =
          [] := by
      apply List.filterMap_eq_nil_iff.mpr
      intro item hItem
      rcases List.mem_flatMap.mp hItem with
        ⟨message, hMessage, hMem⟩
      rcases List.mem_map.mp hMessage with ⟨call, -, rfl⟩
      rw [ToolAnswer.streamed] at hMem
      match hId : call.id with
      | none =>
          rw [hId] at hMem
          cases hMem
      | some [] =>
          rw [hId] at hMem
          cases hMem
      | some (c :: id) =>
          rw [hId] at hMem
          rcases List.mem_singleton.mp hMem with rfl
          rfl
    change
      world.db.Named job.run
        (((calls.map (ToolAnswer.streamed answers)).flatMap
              StreamMessage.todo).filterMap
          Todo.call?)
    rw [hCells]
    exact hNone
  · cases hNext
    exact hNone
  · cases hNext

/- The calls of the cells to come keep different ids. -/
theorem named_after
    (hAllows : Stage.Allows job stage op)
    (hExec : exec inst op world = (.ok value, world'))
    (hNew :
      ∀ threadId content calls,
        op =
            .graphNext threadId .agentNext
              (some (.agent content calls)) →
          world.db.Named job.run calls)
    (hNamed : world.db.Named job.run stage.cells) :
    world'.db.Named job.run
      (stage.after op (.ok value)).cells := by
  have hNone := named_nil hNamed
  have hPlain :
      ∀ calls,
        (∀ threadId new, op ≠ .addMessage threadId new) →
          world.db.Named job.run calls →
            world'.db.Named job.run calls := by
    intro calls hOther
    refine named_of_cellIds (cellIds_of_exec hExec ?_)
    intro threadId new hOp
    exact absurd hOp (hOther threadId new)
  cases hAllows with
  | drivingCell =>
      have hIds := (waits_of_cell hExec).2
      constructor
      · rw [hIds, List.append_assoc]
        exact hNamed.distinct
      · rw [hIds, List.append_assoc]
        exact hNamed.named
  | openedAsk =>
      refine named_of_cellIds (cellIds_of_exec hExec ?_) hNone
      rintro threadId new hOp hRole
      cases hOp
      cases hRole
  | drivingNext =>
      refine hPlain _ ?_ (named_graphNext hExec ?_ hNone)
      · rintro threadId new hOp
        cases hOp
      · rintro content calls rfl rfl
        exact hNew job.thread content calls rfl
  | closingLog =>
      refine hPlain _ ?_ ?_
      · rintro threadId new hOp
        cases hOp
      · simp only [Stage.after]
        split <;> exact hNone
  | _ =>
      refine hPlain _ ?_ ?_
      · rintro threadId new hOp
        cases hOp
      · first
          | exact hNamed
          | exact hNone
          | (cases value <;> exact hNone)

end Exec

end LegalAgent
