import LegalAgent.System.Ownership

/-
  The shape of a turn in the transcript.

  The messages of a run are its question, then the cells of
  its tools, then its answer.  The one task that writes the
  run knows the question, and it commits the answer together
  with the status that lets no other task write the run.

  Key definitions include:
    * `TurnShape`
    * `Db.slotsOf`
    * `Stage.Rooted`

  Key theorems include:
    * `commit_atomic`
    * `turn_shape`
-/

------------------------------------------------------------
-- Turns
------------------------------------------------------------

namespace LegalAgent

open Library

/- The slots of the messages of a run, by their numbers. -/
def Db.turn (db : Db) (runId : RunId) : List Slot :=
  (bySeq
    (db.messages.filter fun message =>
      message.runId == some runId)).map Message.slot

/-
  At most one question, any number of tool cells, and an
  answer exactly when the run is completed.  Cells and answers
  refer to the question.
-/
structure TurnShape
    (slots : List Slot)
    (completed : Prop) :
    Prop where
  parts :
    ∃ users tools agents : List Slot,
      slots = users ++ tools ++ agents ∧
        users.length ≤ 1 ∧ agents.length ≤ 1 ∧
          (∀ slot ∈ users, slot.role = .user) ∧
            (∀ slot ∈ tools, slot.role = .tool) ∧
              (∀ slot ∈ agents, slot.role = .agent) ∧
                (∀ slot ∈ tools ++ agents,
                  ∃ user ∈ users,
                    slot.parentId = some user.id) ∧
                  (agents ≠ [] ↔ completed)

/- The slots of a run in the order of the table. -/
def Db.slotsOf (db : Db) (runId : RunId) : List Slot :=
  db.slots.filter fun slot => slot.runId == some runId

/- The question of a run. -/
def rootOf (slots : List Slot) : Option MessageId :=
  (slots.find? fun slot => slot.role == .user).map Slot.id

/- The messages of a run stand in the order of their numbers. -/
theorem messages_ordered
    {db : Db}
    (hFormed : db.WellFormed)
    (runId : RunId) :
    (db.messages.filter fun message =>
        message.runId == some runId).Pairwise
      fun message other => message.seq ≤ other.seq := by
  have hOrder := hFormed.slotOrder
  rw [Db.slots, List.pairwise_map] at hOrder
  rw [List.pairwise_filter]
  apply hOrder.imp_of_mem
  intro message other hMem hOther hLt hRun hRun'
  rw [beq_iff_eq] at hRun hRun'
  have hThread :
      some message.threadId = some other.threadId :=
    (hFormed.slotRuns message.slot
        (List.mem_map_of_mem hMem) runId hRun).symm.trans
      (hFormed.slotRuns other.slot
        (List.mem_map_of_mem hOther) runId hRun')
  exact Nat.le_of_lt (hLt.2 (Option.some.inj hThread))

/- The slots of the messages of a run. -/
theorem map_slot_messages
    (db : Db)
    (runId : RunId) :
    (db.messages.filter fun message =>
        message.runId == some runId).map Message.slot =
      db.slotsOf runId := by
  rw [Db.slotsOf, Db.slots, List.filter_map]
  rfl

/- The turn of a run lists its slots. -/
theorem turn_eq_slotsOf
    {db : Db}
    (hFormed : db.WellFormed)
    (runId : RunId) :
    db.turn runId = db.slotsOf runId := by
  rw [Db.turn, bySeq,
    (messages_ordered hFormed runId).insertionSort_eq,
    map_slot_messages]

section Shapes

variable {slots : List Slot} {completed : Prop}

/- A run without messages and without an answer. -/
theorem turnShape_nil
    (hOpen : ¬completed) :
    TurnShape [] completed :=
  ⟨[], [], [], rfl, by simp, by simp, by simp, by simp, by simp,
    by simp, by simpa using hOpen⟩

/- A question is the first message of its run. -/
theorem turnShape_question
    {slot : Slot}
    (hRole : slot.role = .user)
    (hOpen : ¬completed) :
    TurnShape [slot] completed :=
  ⟨[slot], [], [], rfl, by simp, by simp, by simpa using hRole,
    by simp, by simp, by simp, by simpa using hOpen⟩

/- The shape depends only on whether there is an answer. -/
theorem TurnShape.congr
    {completed' : Prop}
    (hShape : TurnShape slots completed)
    (hCompleted : completed ↔ completed') :
    TurnShape slots completed' := by
  rwa [← propext hCompleted]

/- The root of a turn is its question. -/
theorem user_of_root
    {users rest : List Slot}
    {root : MessageId}
    (hRest : ∀ slot ∈ rest, slot.role ≠ .user)
    (hRoot : rootOf (users ++ rest) = some root) :
    ∃ user ∈ users, user.id = root := by
  rcases Option.map_eq_some_iff.mp hRoot with ⟨slot, hFind, rfl⟩
  have hMem := List.mem_of_find?_eq_some hFind
  have hRole := List.find?_some hFind
  rw [beq_iff_eq] at hRole
  rcases List.mem_append.mp hMem with hUser | hOther
  · exact ⟨slot, hUser, rfl⟩
  · exact absurd hRole (hRest slot hOther)

/- A tool cell extends a turn without an answer. -/
theorem TurnShape.cell
    (hShape : TurnShape slots completed)
    (hOpen : ¬completed)
    {slot : Slot}
    {root : MessageId}
    (hRole : slot.role = .tool)
    (hRoot : rootOf slots = some root)
    (hParent : slot.parentId = some root) :
    TurnShape (slots ++ [slot]) completed := by
  rcases hShape with
    ⟨users, tools, agents, rfl, hOne, hAnswer, hUsers,
      hTools, hAgents, hParents, hCompleted⟩
  have hNone : agents = [] := by
    by_contra hSome
    exact hOpen (hCompleted.mp hSome)
  subst hNone
  rw [List.append_nil] at hRoot hParents
  rcases
      user_of_root (fun slot hMem => by simp [hTools slot hMem])
        hRoot with
    ⟨user, hUser, hId⟩
  refine
    ⟨users, tools ++ [slot], [], by simp, hOne, by simp, hUsers,
      ?_, by simp, ?_, hCompleted⟩
  · intro slot' hMem
    rcases List.mem_append.mp hMem with hTool | hNew
    · exact hTools slot' hTool
    · rw [List.mem_singleton.mp hNew, hRole]
  · intro slot' hMem
    rw [List.append_nil] at hMem
    rcases List.mem_append.mp hMem with hTool | hNew
    · exact hParents slot' hTool
    · rw [List.mem_singleton.mp hNew]
      exact ⟨user, hUser, by rw [hParent, hId]⟩

/- An answer completes a turn without one. -/
theorem TurnShape.answer
    {completed' : Prop}
    (hShape : TurnShape slots completed)
    (hOpen : ¬completed)
    (hCompleted' : completed')
    {slot : Slot}
    {root : MessageId}
    (hRole : slot.role = .agent)
    (hRoot : rootOf slots = some root)
    (hParent : slot.parentId = some root) :
    TurnShape (slots ++ [slot]) completed' := by
  rcases hShape with
    ⟨users, tools, agents, rfl, hOne, hAnswer, hUsers,
      hTools, hAgents, hParents, hCompleted⟩
  have hNone : agents = [] := by
    by_contra hSome
    exact hOpen (hCompleted.mp hSome)
  subst hNone
  rw [List.append_nil] at hRoot hParents
  rcases
      user_of_root (fun slot hMem => by simp [hTools slot hMem])
        hRoot with
    ⟨user, hUser, hId⟩
  refine
    ⟨users, tools, [slot], by simp, hOne, by simp, hUsers,
      hTools, ?_, ?_, by simpa using hCompleted'⟩
  · intro slot' hMem
    rw [List.mem_singleton.mp hMem, hRole]
  · intro slot' hMem
    rcases List.mem_append.mp hMem with hTool | hNew
    · exact hParents slot' hTool
    · rw [List.mem_singleton.mp hNew]
      exact ⟨user, hUser, by rw [hParent, hId]⟩

end Shapes

------------------------------------------------------------
-- Roots
------------------------------------------------------------

/- What a stage knows about the question of its run. -/
def Stage.Rooted (slots : List Slot) : Stage → Prop
| .opening | .opened none => slots = []
| .opened (some root) => rootOf slots = some root
| .won none _ => (rootOf slots).isSome = true
| .won (some root) _ =>
    root.isSome = true ∧ rootOf slots = root
| .driving root _ _ | .gated root | .finalizing root =>
    root.isSome = true ∧ rootOf slots = root
| _ => True

/- Only a stage that writes knows about the question. -/
theorem rooted_of_not_writes
    {stage : Stage}
    (hWrites : stage.writes = false)
    (slots : List Slot) :
    stage.Rooted slots := by
  cases stage <;> trivial

/- More messages do not change the question. -/
theorem rootOf_append
    {slots : List Slot}
    {root : MessageId}
    (hRoot : rootOf slots = some root)
    (more : List Slot) :
    rootOf (slots ++ more) = some root := by
  rcases Option.map_eq_some_iff.mp hRoot with ⟨slot, hFind, rfl⟩
  rw [rootOf, List.find?_append, hFind]
  rfl

/- The reply of `getTurnRoot` is the question. -/
theorem getTurnRoot_eq
    {db : Db}
    (hFormed : db.WellFormed)
    (runId : RunId) :
    getTurnRoot runId db =
      .ok (rootOf (db.slotsOf runId), db) := by
  have hUsers :
      (db.messages.filter fun message =>
          message.runId == some runId &&
            message.role == .user) =
        (db.messages.filter fun message =>
            message.runId == some runId).filter
          fun message => message.role == .user := by
    rw [List.filter_filter]
    congr 1
    funext message
    exact Bool.and_comm _ _
  have hOrdered := (messages_ordered hFormed runId).filter
    fun message => message.role == .user
  rw [getTurnRoot, Statement.query, hUsers, bySeq,
    hOrdered.insertionSort_eq, List.head?_filter, rootOf,
    ← map_slot_messages, List.find?_map, Option.map_map]
  rfl

/- The question that a call with its reply found. -/
def Op.foundRoot :
    (op : Op) → op.Reply → Option (Option MessageId)
| .getTurnRoot _, root => some root
| _, _ => none

section Calls

variable {job : Job} {stage : Stage} {role : Role}
variable {op : Op} {value : op.Reply}
variable {slots : List Slot} {runId : RunId}

/- What a stage knows stays true when no message is added. -/
theorem rooted_after
    (hAllows : Stage.Allows job stage op)
    (hRooted : stage.Rooted slots)
    (hAdded : op.addedMessage value = false)
    (hRoot :
      ∀ root,
        op.foundRoot value = some root → root = rootOf slots)
    (hBegins :
      op.begins value = some job.run →
        (rootOf slots).isSome = true) :
    (stage.after op (.ok value)).Rooted slots := by
  cases hAllows with
  | openedAsk => cases hAdded
  | openedDrive => exact ⟨rfl, hRooted⟩
  | choosingApprove =>
      cases value with
      | false => trivial
      | true => exact hBegins rfl
  | wonRoot =>
      have hValue := hRoot value rfl
      subst hValue
      exact ⟨hRooted, rfl⟩
  | drivingNext =>
      match value with
      | none => exact hRooted
      | some (.interrupt _, _) => exact hRooted
      | some (.updates _, _) => exact hRooted
  | @wonPartial root => cases root <;> exact hRooted
  | @wonMark root => cases root <;> exact hRooted
  | drivingFail => cases value <;> trivial
  | finalizingForged => cases value <;> trivial
  | finalizingCommit =>
      cases value with
      | none => trivial
      | some row => cases hAdded
  | stoppingEnd => cases value <;> trivial
  | failingEnd => cases value <;> trivial
  | leftEnd => cases value <;> trivial
  | choosingReject => cases value <;> trivial
  | closingLog =>
      simp only [Stage.after]
      split <;> trivial
  | _ => first | exact hRooted | trivial

/- A stage that writes after a failure knows what it knew. -/
theorem rooted_failed
    {exn : Exn}
    (hAllows : Stage.Allows job stage op)
    (hRooted : stage.Rooted slots) :
    (stage.after op (.error exn)).Rooted slots := by
  cases hAllows <;> trivial

/- Messages are added by the writer of their run. -/
theorem slotsOf_of_other
    (hAllows : role.Allows op)
    {db db' : Db}
    (hChanges : ChangesSlots db db' op value)
    (hAlone : role.writer? ≠ some runId) :
    db'.slotsOf runId = db.slotsOf runId := by
  have hOther :
      ∀ slot : Slot,
        slot.runId ≠ some runId →
          db'.slots = db.slots ++ [slot] →
            db'.slotsOf runId = db.slotsOf runId := by
    intro slot hNe hSlots
    simp [Db.slotsOf, hSlots, List.filter_append, hNe]
  cases hChanges with
  | added hThread hSlots =>
      refine hOther _ ?_ hSlots
      rintro hEq
      apply hAlone
      rw [← hEq]
      cases hAllows with
      | on hStage => cases hStage <;> rfl
  | committed hThread hSlots =>
      refine hOther _ ?_ hSlots
      rintro hEq
      apply hAlone
      rw [← hEq]
      rcases commit_of_allows hAllows with ⟨job, rfl, rfl, rfl⟩
      rfl
  | kept _ hSlots => rw [Db.slotsOf, hSlots, Db.slotsOf]

end Calls

------------------------------------------------------------
-- Preservation
------------------------------------------------------------

/- Every turn has its shape, and a paused run has a question. -/
def Db.Turned (db : Db) : Prop :=
  ∀ runId,
    TurnShape (db.slotsOf runId)
        (db.status? runId = some .completed) ∧
      (db.status? runId = some .awaitingApproval →
        (rootOf (db.slotsOf runId)).isSome = true)

/- A turn of the same messages under a status not completed. -/
theorem turned_of_status
    {db db' : Db}
    {runId : RunId}
    {before after : RunStatus}
    (hTurned : db.Turned)
    (hSlots : db'.slotsOf runId = db.slotsOf runId)
    (hBefore : db.status? runId = some before)
    (hAfter : db'.status? runId = some after)
    (hOpen : before ≠ .completed)
    (hOpen' : after ≠ .completed)
    (hRoot :
      after = .awaitingApproval →
        (rootOf (db.slotsOf runId)).isSome = true) :
    TurnShape (db'.slotsOf runId)
        (db'.status? runId = some .completed) ∧
      (db'.status? runId = some .awaitingApproval →
        (rootOf (db'.slotsOf runId)).isSome = true) := by
  rw [hSlots, hAfter]
  refine ⟨(hTurned runId).1.congr ?_, ?_⟩
  · rw [hBefore]
    simp [hOpen, hOpen']
  · intro hAwaiting
    exact hRoot (Option.some.inj hAwaiting)

/- A turn without a change of its messages and its status. -/
theorem turned_of_same
    {db db' : Db}
    {runId : RunId}
    (hTurned : db.Turned)
    (hSlots : db'.slotsOf runId = db.slotsOf runId)
    (hStatus : db'.status? runId = db.status? runId) :
    TurnShape (db'.slotsOf runId)
        (db'.status? runId = some .completed) ∧
      (db'.status? runId = some .awaitingApproval →
        (rootOf (db'.slotsOf runId)).isSome = true) := by
  rw [hSlots, hStatus]
  exact hTurned runId

/- A run that does not exist has no messages. -/
theorem slotsOf_fresh
    {db : Db}
    (hFormed : db.WellFormed) :
    db.slotsOf db.nextId = [] := by
  rw [Db.slotsOf, List.filter_eq_nil_iff]
  intro slot hMem hRun
  rw [beq_iff_eq] at hRun
  have hHas := hFormed.slotRuns slot hMem _ hRun
  rw [Db.hasRun, hFormed.freshRun] at hHas
  cases hHas

/- The statuses of a run that may be written are not final. -/
theorem open_of_mayBeWritten
    {db : Db}
    {runId : RunId}
    (hWritten : db.mayBeWritten runId) :
    db.status? runId ≠ some .completed ∧
      db.status? runId ≠ some .awaitingApproval := by
  rcases hWritten with ⟨status, hStatus, hMay⟩
  rw [hStatus]
  cases status <;> simp_all [RunStatus.mayBeWritten]

/- The slots of a run after a message is added. -/
theorem slotsOf_of_added
    {db db' : Db}
    {slot : Slot}
    {runId : RunId}
    (hSlots : db'.slots = db.slots ++ [slot])
    (hRun : slot.runId = some runId) :
    db'.slotsOf runId = db.slotsOf runId ++ [slot] := by
  simp [Db.slotsOf, hSlots, List.filter_append, hRun]

section Executed

variable {db db' : Db} {role : Role}
variable {op : Op} {value : op.Reply}

/- A status change keeps the shapes of the turns. -/
theorem turned_of_runs
    (hChanges : ChangesRuns db db' op value)
    (hSlots : db'.slots = db.slots)
    (hAdded : op.addedMessage value = false)
    (hFormed : db.WellFormed)
    (hTurned : db.Turned)
    (hRooted :
      ∀ job stage,
        role = .on job stage →
          stage.Rooted (db.slotsOf job.run))
    (hWritten :
      ∀ runId,
        role.writer? = some runId → db.mayBeWritten runId)
    (hAllows : role.Allows op) :
    db'.Turned := by
  have hSame :
      ∀ runId, db'.slotsOf runId = db.slotsOf runId :=
    fun runId => by rw [Db.slotsOf, hSlots, Db.slotsOf]
  intro runId
  cases hChanges with
  | opened hThread hAlone hRuns =>
      by_cases hEq : runId = db.nextId
      · subst hEq
        have hStatus : db'.status? db.nextId = some .running := by
          rw [Db.status?, hRuns,
            Table.get?_insert hFormed.freshRun, if_pos rfl]
          rfl
        rw [hSame, slotsOf_fresh hFormed, hStatus]
        exact ⟨turnShape_nil (by simp), by simp⟩
      · apply turned_of_same hTurned (hSame runId)
        rw [Db.status?, hRuns,
          Table.get?_insert hFormed.freshRun, if_neg hEq]
        rfl
  | @set other status ended run hRun hAlone hRuns =>
      rcases pause_of_allows hAllows with
        ⟨rfl, rfl, job, root, rfl, rfl⟩
      by_cases hEq : runId = job.run
      · subst hEq
        rcases hWritten job.run rfl with ⟨before, hBefore, hMay⟩
        refine
          turned_of_status hTurned (hSame _) hBefore
            (status?_of_written hRun hRuns) ?_ (by simp) ?_
        · rintro rfl
          cases hMay
        · intro _
          rcases hRooted job _ rfl with ⟨hSome, hRoot⟩
          rw [hRoot]
          exact hSome
      · exact
          turned_of_same hTurned (hSame runId)
            (status?_of_other hRuns hEq)
  | @moved other fromStatus toStatus ended run hRun hStatus
      hAlone hRuns =>
      by_cases hEq : runId = other
      · subst hEq
        have hBefore : db.status? runId = some fromStatus := by
          rw [Db.status?, hRun, Option.map_some, hStatus]
        have hTransits := transition_of_allows hAllows
        refine
          turned_of_status hTurned (hSame _) hBefore
            (status?_of_written hRun hRuns) ?_ ?_ ?_
        all_goals cases hTransits <;> simp
      · exact
          turned_of_same hTurned (hSame runId)
            (status?_of_other hRuns hEq)
  | committed => cases hAdded
  | missing _ hRuns =>
      exact
        turned_of_same hTurned (hSame runId)
          (status?_of_runs hRuns runId)
  | kept _ hRuns =>
      exact
        turned_of_same hTurned (hSame runId)
          (status?_of_runs hRuns runId)

/- A new question or cell keeps the shapes of the turns. -/
theorem turned_of_addMessage
    {threadId : ThreadId}
    {new : NewMessage}
    {row : MessageId × Nat}
    (hRuns : db'.runs = db.runs)
    (hSlots : db'.slots = db.slots ++ [new.slot threadId row])
    (hTurned : db.Turned)
    (hRooted :
      ∀ job stage,
        role = .on job stage →
          stage.Rooted (db.slotsOf job.run))
    (hWritten :
      ∀ runId,
        role.writer? = some runId → db.mayBeWritten runId)
    (hAllows : role.Allows (.addMessage threadId new)) :
    db'.Turned := by
  intro runId
  have hStatus := status?_of_runs hRuns runId
  by_cases hEq : new.runId = runId
  · have hNew :=
      slotsOf_of_added hSlots (congrArg some hEq)
    rw [hStatus, hNew]
    cases hAllows with
    | @on job stage _ hStage =>
        cases hStage with
        | openedAsk =>
            subst hEq
            have hOpen :=
              open_of_mayBeWritten (hWritten job.run rfl)
            have hNil : db.slotsOf job.run = [] :=
              hRooted job _ rfl
            rw [show (userMessage job.run _).runId = job.run
              from rfl, hNil]
            exact
              ⟨turnShape_question rfl hOpen.1, fun _ => rfl⟩
        | @drivingCell root state todo toolCall =>
            subst hEq
            have hOpen :=
              open_of_mayBeWritten (hWritten job.run rfl)
            rcases hRooted job _ rfl with ⟨hSome, hRoot⟩
            rcases Option.isSome_iff_exists.mp hSome with
              ⟨parent, rfl⟩
            exact
              ⟨(hTurned job.run).1.cell hOpen.1 rfl hRoot rfl,
                fun hAwaiting => absurd hAwaiting hOpen.2⟩
  · refine turned_of_same hTurned ?_ hStatus
    simp [Db.slotsOf, hSlots, List.filter_append,
      NewMessage.slot, hEq]

/- An answer keeps the shapes of the turns. -/
theorem turned_of_answer
    {threadId : ThreadId}
    {runId : RunId}
    {contentMd : Text}
    {citationIds : List Text}
    {parentId : Option MessageId}
    {model : Option Text}
    {row : MessageId × Nat}
    {run : Run}
    (hRun : db.runs.get? runId = some run)
    (hRuns :
      db'.runs = (db.writeStatus runId .completed true).runs)
    (hSlots :
      db'.slots =
        db.slots ++
          [(agentMessage runId contentMd parentId model).slot
            threadId row])
    (hTurned : db.Turned)
    (hRooted :
      ∀ job stage,
        role = .on job stage →
          stage.Rooted (db.slotsOf job.run))
    (hWritten :
      ∀ runId,
        role.writer? = some runId → db.mayBeWritten runId)
    (hAllows :
      role.Allows
        (.commitAgentAnswer threadId runId contentMd
          citationIds parentId model)) :
    db'.Turned := by
  rcases commit_of_allows hAllows with ⟨job, rfl, rfl, rfl⟩
  intro other
  by_cases hEq : other = job.run
  · subst hEq
    have hOpen := open_of_mayBeWritten (hWritten job.run rfl)
    rcases hRooted job _ rfl with ⟨hSome, hRoot⟩
    rcases Option.isSome_iff_exists.mp hSome with ⟨parent, rfl⟩
    have hNew :
        db'.slotsOf job.run = db.slotsOf job.run ++ [_] :=
      slotsOf_of_added hSlots rfl
    rw [hNew, status?_of_written hRun hRuns]
    exact
      ⟨(hTurned job.run).1.answer hOpen.1 rfl rfl hRoot rfl,
        by simp⟩
  · refine turned_of_same hTurned ?_ (status?_of_other hRuns hEq)
    simp [Db.slotsOf, hSlots, List.filter_append,
      NewMessage.slot, agentMessage, Ne.symm hEq]

end Executed

/- A call keeps the shapes of the turns. -/
theorem turned_of_exec
    {inst : InstanceId}
    {role : Role}
    {op : Op}
    {world world' : World}
    {value : op.Reply}
    (hExec : exec inst op world = (.ok value, world'))
    (hFormed : world.db.WellFormed)
    (hTurned : world.db.Turned)
    (hRooted :
      ∀ job stage,
        role = .on job stage →
          stage.Rooted (world.db.slotsOf job.run))
    (hWritten :
      ∀ runId,
        role.writer? = some runId →
          world.db.mayBeWritten runId)
    (hAllows : role.Allows op) :
    world'.db.Turned := by
  have hRuns := changesRuns_of_exec hExec
  cases changesSlots_of_exec hExec with
  | added hThread hSlots =>
      exact
        turned_of_addMessage ((frames_of_exec hExec).runs rfl)
          hSlots hTurned hRooted hWritten hAllows
  | committed hThread hSlots =>
      cases hRuns with
      | committed hRun _ hRuns =>
          exact
            turned_of_answer hRun hRuns hSlots hTurned hRooted
              hWritten hAllows
      | kept hKept _ => cases hKept
  | kept hAdded hSlots =>
      exact
        turned_of_runs hRuns hSlots hAdded hFormed hTurned
          hRooted hWritten hAllows

/- The questions that the stages know, and the turns. -/
def turnOutline : Outline Db Role where
  globally := Db.Turned
  locally := fun db role =>
    ∀ job stage,
      role = .on job stage → stage.Rooted (db.slotsOf job.run)
  mutually := fun _ _ => True

variable {registry : Registry}
variable {allowed : System → Action → Prop}

/- Slots that do not change keep what the stages know. -/
theorem turnOutline_locally_of_slots
    {db db' : Db}
    {role : Role}
    (hSlots : db'.slots = db.slots)
    (hLocally : turnOutline.locally db role) :
    turnOutline.locally db' role := by
  intro job stage hRole
  rw [Db.slotsOf, hSlots]
  exact hLocally job stage hRole

/- What another task knows of its question stays true. -/
theorem rooted_of_interference
    {db db' : Db}
    {role other : Role}
    {op : Op}
    {value : op.Reply}
    (hChanges : ChangesSlots db db' op value)
    (hAllows : role.Allows op)
    (hApart :
      ∀ runId,
        other.writer? = some runId →
          role.writer? ≠ some runId)
    (hLocally : turnOutline.locally db other) :
    turnOutline.locally db' other := by
  rintro job stage rfl
  cases hWrites : stage.writes with
  | false => exact rooted_of_not_writes hWrites _
  | true =>
      have hAlone :=
        hApart job.run (by simp [Role.writer?, hWrites])
      rw [slotsOf_of_other hAllows hChanges hAlone]
      exact hLocally job stage rfl

/- What a stage knows of its question after its own call. -/
theorem rooted_of_exec
    {inst : InstanceId}
    {job : Job}
    {stage : Stage}
    {op : Op}
    {world world' : World}
    {value : op.Reply}
    (hExec : exec inst op world = (.ok value, world'))
    (hFormed : world.db.WellFormed)
    (hTurned : world.db.Turned)
    (hRooted : stage.Rooted (world.db.slotsOf job.run))
    (hAllows : Stage.Allows job stage op) :
    (stage.after op (.ok value)).Rooted
      (world'.db.slotsOf job.run) := by
  cases changesSlots_of_exec hExec with
  | @added threadId new thread hThread hSlots =>
      cases hAllows with
      | openedAsk =>
          have hNew :
              world'.db.slotsOf job.run =
                world.db.slotsOf job.run ++ [_] :=
            slotsOf_of_added hSlots rfl
          have hNil : world.db.slotsOf job.run = [] := hRooted
          rw [hNew, hNil]
          rfl
      | @drivingCell root state todo toolCall =>
          have hNew :
              world'.db.slotsOf job.run =
                world.db.slotsOf job.run ++ [_] :=
            slotsOf_of_added hSlots rfl
          rcases hRooted with ⟨hSome, hRoot⟩
          rcases Option.isSome_iff_exists.mp hSome with
            ⟨parent, rfl⟩
          rw [hNew]
          exact ⟨rfl, rootOf_append hRoot _⟩
  | committed hThread hSlots =>
      cases hAllows
      trivial
  | kept hAdded hSlots =>
      rw [Db.slotsOf, hSlots]
      refine rooted_after hAllows hRooted hAdded ?_ ?_
      · intro root hFound
        cases op with
        | getTurnRoot runId =>
            cases hFound
            cases hAllows
            have hReply :
                getTurnRoot job.run world.db =
                  .ok (root, world'.db) :=
              statement_of_onDb hExec
            rw [getTurnRoot_eq hFormed, Except.ok.injEq,
              Prod.mk.injEq] at hReply
            exact hReply.1.symm
        | _ => cases hFound
      · intro hBegins
        cases changesRuns_of_exec hExec with
        | opened => cases hAllows
        | @moved runId fromStatus toStatus ended run hRun
            hStatus =>
            cases fromStatus <;> cases toStatus <;>
              cases hBegins
            apply (hTurned job.run).2
            rw [Db.status?, hRun, Option.map_some, hStatus]
        | set => cases hBegins
        | missing => cases hBegins
        | committed => cases hBegins
        | kept hKept _ =>
            rw [Op.begins_of_kept hKept] at hBegins
            cases hBegins

/- What a task knows of its question after its own call. -/
theorem turnOutline_locally_of_exec
    {inst : InstanceId}
    {role : Role}
    {op : Op}
    {world world' : World}
    {value : op.Reply}
    (hExec : exec inst op world = (.ok value, world'))
    (hFormed : world.db.WellFormed)
    (hTurned : world.db.Turned)
    (hLocally : turnOutline.locally world.db role)
    (hAllows : role.Allows op) :
    turnOutline.locally world'.db
      (role.after op (.ok value)) := by
  intro job stage hRole
  cases hWrites : stage.writes with
  | false => exact rooted_of_not_writes hWrites _
  | true =>
      cases hAllows with
      | @on job' stage' _ hStage =>
          cases hRole
          exact
            rooted_of_exec hExec hFormed hTurned
              (hLocally job stage' rfl) hStage
      | freshOpen =>
          cases hRole
          rcases of_openRun (statement_of_onDb hExec) with
            ⟨rfl, -, -, hDb⟩
          change world'.db.slotsOf world.db.nextId = []
          rw [hDb]
          exact slotsOf_fresh hFormed
      | freshActive =>
          rcases value with _ | ⟨_, status⟩
          · cases hRole
          · cases status <;> cases hRole
      | freshRead => rcases value with _ | _ <;> cases hRole
      | lookingActive =>
          rcases value with _ | ⟨_, status⟩
          · cases hRole
          · cases status <;> cases hRole
            cases hWrites
      | watchingRunning =>
          cases value <;> cases hRole
          cases hWrites
      | watchingPaused =>
          cases value <;> cases hRole
          cases hWrites
      | _ => cases hRole

/- What a task knows of its question after a failed call. -/
theorem turnOutline_locally_failed
    {db : Db}
    {role : Role}
    {op : Op}
    {exn : Exn}
    (hAllows : role.Allows op)
    (hLocally : turnOutline.locally db role) :
    turnOutline.locally db (role.after op (.error exn)) := by
  intro job stage hRole
  cases hAllows with
  | @on job' stage' _ hStage =>
      cases hRole
      exact rooted_failed hStage (hLocally job stage' rfl)
  | _ => cases hRole

/- Every step keeps the shapes of the turns. -/
theorem sustains_turnOutline :
    SustainsRoles registry allowed turnOutline where
  idle := by
    rintro db role hIdle _ job stage rfl
    cases hIdle
  alone := fun _ _ _ => ⟨trivial, trivial⟩
  done := by
    intro system taskId task op value world' hCall hExec hHolds
    have hFormed := wellFormed_of_reachable hCall.reachable
    have hTurned : system.world.db.Turned := hHolds.globally
    have hLocally :
        turnOutline.locally system.world.db task.phase.role :=
      hHolds.locally taskId task hCall.present
    have hWritten :
        ∀ runId,
          task.phase.role.writer? = some runId →
            system.world.db.mayBeWritten runId :=
      fun runId hWriter =>
        written_of_reachable hCall.reachable hCall.present
          hWriter
    refine
      ⟨turned_of_exec hExec hFormed hTurned hLocally hWritten
          hCall.allows,
        turnOutline_locally_of_exec hExec hFormed hTurned
          hLocally hCall.allows, ?_⟩
    intro otherId other hNe hPresent hOther _
    refine ⟨?_, trivial, trivial⟩
    refine
      rooted_of_interference (changesSlots_of_exec hExec)
        hCall.allows ?_ hOther
    intro runId hWriter hWriter'
    exact
      hNe
        (writers_of_reachable hCall.reachable hPresent
          hCall.present hWriter hWriter')
  failed := by
    intro system taskId fault task op exn hCall _ hHolds
    have hLocally :
        turnOutline.locally system.world.db task.phase.role :=
      hHolds.locally taskId task hCall.present
    refine ⟨hHolds.globally, ?_, ?_⟩
    · exact turnOutline_locally_failed hCall.allows hLocally
    · intro _ other _ _ hOther _
      exact ⟨hOther, trivial, trivial⟩
  advance := by
    intro db seconds hTurned
    exact ⟨hTurned, fun _ hLocally => hLocally⟩
  heartbeat := by
    intro db runIds hTurned
    refine ⟨?_, fun _ => turnOutline_locally_of_slots rfl⟩
    intro runId
    exact turned_of_same hTurned rfl (status?_heartbeat _ _ _)
  sweep := by
    intro db selects hActive hTurned
    refine
      ⟨?_, fun _ =>
        turnOutline_locally_of_slots (slots_sweep db selects)⟩
    intro runId
    have hSame :
        (db.sweep selects).slotsOf runId = db.slotsOf runId := by
      rw [Db.slotsOf, slots_sweep, Db.slotsOf]
    cases hRun : db.runs.get? runId with
    | none =>
        apply turned_of_same hTurned hSame
        rw [status?_sweep, Db.status?, hRun]
        rfl
    | some run =>
        by_cases hSelects : selects run = true
        · have hBefore : db.status? runId = some run.status := by
            rw [Db.status?, hRun, Option.map_some]
          have hAfter :
              (db.sweep selects).status? runId =
                some .error := by
            rw [status?_sweep, hRun, Option.map_some,
              if_pos hSelects]
          refine
            turned_of_status hTurned hSame hBefore hAfter ?_
              (by simp) (by simp)
          intro hCompleted
          have hActive := hActive run hSelects
          rw [hCompleted] at hActive
          cases hActive
        · apply turned_of_same hTurned hSame
          rw [status?_sweep, Db.status?, hRun, Option.map_some,
            if_neg hSelects]
          rfl
  collect := by
    intro db retention hTurned
    exact ⟨hTurned, fun _ hLocally => hLocally⟩

------------------------------------------------------------
-- Results
------------------------------------------------------------

/- No turn has a shape to keep before the first request. -/
theorem turned_empty : Db.empty.Turned := by
  intro runId
  refine ⟨turnShape_nil ?_, ?_⟩
  · intro hStatus
    cases hStatus
  · intro hStatus
    cases hStatus

/- A commit without an answer changes nothing. -/
theorem commit_atomic
    {threadId : ThreadId}
    {runId : RunId}
    {contentMd : Text}
    {citationIds : List Text}
    {parentId : Option MessageId}
    {model : Option Text}
    {db db' : Db}
    {reply : Except Exn (Option (MessageId × Nat))}
    (hCommit :
      (commitAgentAnswer threadId runId contentMd citationIds
          parentId model).commit db =
        (reply, db'))
    (hNone : ∀ row, reply ≠ .ok (some row)) :
    db' = db := by
  cases reply with
  | error exn => exact commit_of_error hCommit
  | ok row =>
      simp only [Statement.commit] at hCommit
      split at hCommit
      · rename_i row' db₁ hOk
        cases hCommit
        rcases of_commitAgentAnswer hOk with
          ⟨-, -, hDb⟩ | ⟨messageId, seq, _, _, rfl, -⟩
        · exact hDb
        · exact absurd rfl (hNone (messageId, seq))
      · cases hCommit

/-
  In every reachable state the messages of a run form a turn,
  with an answer exactly when the run is completed.  A commit
  that replies `none` or fails changes nothing.
-/
theorem turn_shape
    {system : System}
    (hReachable : Reachable registry (fun _ _ => True) system) :
    (∀ runId,
        TurnShape (system.world.db.turn runId)
          (system.world.db.status? runId = some .completed)) ∧
      ∀ threadId runId contentMd citationIds parentId model
          reply db',
        (commitAgentAnswer threadId runId contentMd citationIds
              parentId model).commit system.world.db =
            (reply, db') →
          (∀ row, reply ≠ .ok (some row)) →
            db' = system.world.db := by
  have hHolds :=
    roles_of_reachable sustains_turnOutline turned_empty
      hReachable
  constructor
  · intro runId
    have hTurned : system.world.db.Turned := hHolds.globally
    rw [turn_eq_slotsOf (wellFormed_of_reachable hReachable)]
    exact (hTurned runId).1
  · intro threadId runId contentMd citationIds parentId model
      reply db' hCommit hNone
    exact commit_atomic hCommit hNone

/- A run that calls a tool without a gate and then answers. -/
def answeredRun : List Action :=
  [.request 0 0 (.createThread none)] ++ turns 0 1 ++
    [.request 1 0
      (.start 0 [] none
        [.agent (.str []) (toolCalls ["a"]),
          .tools fun _ => ⟨.str [], .absent⟩,
          .agent (.str []) []])] ++
    turns 1 27

/- The turn of the run of `answeredRun`. -/
theorem turn_shape_answered :
    ∃ system,
      execute (System.step .single) answeredRun .initial =
          some system ∧
        (system.world.db.turn 1).map Slot.role =
            [.user, .tool, .agent] ∧
          TurnShape (system.world.db.turn 1)
            (system.world.db.status? 1 = some .completed) := by
  rcases
      exists_of_execute
        (show
          (execute (System.step .single) answeredRun
              .initial).map (fun system =>
                (system.world.db.turn 1).map Slot.role) =
            some [.user, .tool, .agent] by
          decide +kernel) with
    ⟨system, hSystem, hRoles⟩
  exact
    ⟨system, hSystem, hRoles,
      (turn_shape (execution_of_execute hSystem)).1 1⟩

end LegalAgent
