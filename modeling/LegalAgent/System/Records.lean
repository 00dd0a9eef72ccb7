import LegalAgent.System.WellFormed

/-
  What the rows record of an event.

  The store is written before an event goes out: the run, the
  cell, the frozen article or the answer that an event speaks
  about is there when the event is.  The columns that the
  event shows are never updated, so they are there ever after.

  Key definitions include:
    * `Message.record`
    * `Retains`
    * `Records`

  Key theorems include:
    * `retains_trans`
    * `records_of_retains`
-/

------------------------------------------------------------
-- Retained Rows
------------------------------------------------------------

namespace LegalAgent

open Library

/- The columns of a message that no statement updates. -/
structure MessageRecord where
  id : MessageId
  threadId : ThreadId
  runId : Option RunId
  seq : Nat
  parentId : Option MessageId
  role : MessageRole
  contentMd : Option Text
  call : ToolCall
  model : Option Text
deriving DecidableEq

/- What is recorded of a message for good. -/
def Message.record (message : Message) : MessageRecord where
  id := message.id
  threadId := message.threadId
  runId := message.runId
  seq := message.seq
  parentId := message.parentId
  role := message.role
  contentMd := message.contentMd
  call := message.call
  model := message.model

/- The records of the messages. -/
def Db.messageRecords (db : Db) : List MessageRecord :=
  db.messages.map Message.record

/- A run has kept its thread, its model and its end. -/
structure Run.Retained (run run' : Run) : Prop where
  threadId : run'.threadId = run.threadId
  model : run'.model = run.model
  ended : run.endedAt.isSome = true → run'.endedAt.isSome = true

/- The rows have kept what was recorded before. -/
structure Retains (db db' : Db) : Prop where
  runs :
    ∀ runId run,
      db.runs.get? runId = some run →
        ∃ run',
          db'.runs.get? runId = some run' ∧ run.Retained run'
  messages :
    ∀ record ∈ db.messageRecords, record ∈ db'.messageRecords
  links :
    ∀ link ∈ db.messageCitations, link ∈ db'.messageCitations
  citations :
    ∀ id,
      (db.citations.get? id).isSome = true →
        (db'.citations.get? id).isSome = true

theorem retained_refl (run : Run) : run.Retained run :=
  ⟨rfl, rfl, fun hEnded => hEnded⟩

theorem retained_trans
    {run run' run'' : Run}
    (hFirst : run.Retained run')
    (hSecond : run'.Retained run'') :
    run.Retained run'' where
  threadId := hSecond.threadId.trans hFirst.threadId
  model := hSecond.model.trans hFirst.model
  ended hEnded := hSecond.ended (hFirst.ended hEnded)

theorem retains_refl (db : Db) : Retains db db where
  runs _ run hRun := ⟨run, hRun, retained_refl run⟩
  messages _ hRecord := hRecord
  links _ hLink := hLink
  citations _ hCitation := hCitation

theorem retains_trans
    {db db' db'' : Db}
    (hFirst : Retains db db')
    (hSecond : Retains db' db'') :
    Retains db db'' where
  runs := by
    intro runId run hRun
    rcases hFirst.runs runId run hRun with
      ⟨run', hRun', hRetained⟩
    rcases hSecond.runs runId run' hRun' with
      ⟨run'', hRun'', hRetained'⟩
    exact ⟨run'', hRun'', retained_trans hRetained hRetained'⟩
  messages record hRecord :=
    hSecond.messages record (hFirst.messages record hRecord)
  links link hLink :=
    hSecond.links link (hFirst.links link hLink)
  citations id hCitation :=
    hSecond.citations id (hFirst.citations id hCitation)

------------------------------------------------------------
-- Records Of Events
------------------------------------------------------------

/- Whether a run was opened for a model. -/
def Db.hasModel
    (db : Db)
    (runId : RunId)
    (model : Option Text) :
    Prop :=
  ∃ run, db.runs.get? runId = some run ∧ run.model = model

/- Whether a run has an end. -/
def Db.hasEnd (db : Db) (runId : RunId) : Prop :=
  ∃ run,
    db.runs.get? runId = some run ∧ run.endedAt.isSome = true

/- Whether the answer of a message cites a frozen article. -/
def Db.cites
    (db : Db)
    (messageId : MessageId)
    (cite : Text) :
    Prop :=
  ∃ id : CitationId,
    id.text = cite ∧ (messageId, id) ∈ db.messageCitations ∧
      (db.citations.get? id).isSome = true

/- Whether a run has a cell for a tool call. -/
def Db.hasCell
    (db : Db)
    (runId : RunId)
    (call : ToolCall) :
    Prop :=
  ∃ record ∈ db.messageRecords,
    record.runId = some runId ∧ record.role = .tool ∧
      record.call = call

/- Whether the message with a number is the cell of a call. -/
def Db.numbersCell
    (db : Db)
    (threadId : ThreadId)
    (seq : Nat)
    (call : ToolCall) :
    Prop :=
  ∃ record ∈ db.messageRecords,
    record.threadId = threadId ∧ record.seq = seq ∧
      record.role = .tool ∧ record.call = call

/-
  Whether the message with a number is the answer of an ended
  run, with links to the articles that it cites.
-/
def Db.numbersAnswer
    (db : Db)
    (threadId : ThreadId)
    (seq : Nat)
    (text : Text)
    (cites : List Text) :
    Prop :=
  ∃ runId,
    db.hasRun runId threadId ∧ db.hasEnd runId ∧
      ∃ record ∈ db.messageRecords,
        record.threadId = threadId ∧ record.seq = seq ∧
          record.runId = some runId ∧
          record.role = .agent ∧
          record.contentMd = some text ∧
          ∀ cite ∈ cites, db.cites record.id cite

/-
  Whether the rows record what an event of a thread says.  The
  result of a tool can be replaced, so nothing is said of it,
  and a synthetic error is about no row.
-/
def Records
    (db : Db)
    (threadId : ThreadId)
    (event : RunEvent) :
    Prop :=
  match event.data with
  | .runStarted runId thread model =>
      thread = threadId ∧ db.hasRun runId threadId ∧
        db.hasModel runId (some model)
  | .toolCall call => db.numbersCell threadId event.seq call
  | .toolResult .. => True
  | .citationAdded citation =>
      (db.citations.get? citation.id).isSome = true
  | .approvalRequested runId tools _ =>
      db.hasRun runId threadId ∧
        ∀ tool ∈ tools, db.hasCell runId tool
  | .messageCompleted text cites =>
      db.numbersAnswer threadId event.seq text cites
  | .runDone runId _ =>
      db.hasRun runId threadId ∧ db.hasEnd runId
  | .error (some runId) .. => db.hasRun runId threadId
  | .error none .. => True

section Retained

variable {db db' : Db} {runId : RunId} {threadId : ThreadId}

theorem hasRun_of_retains
    (hThread : db.hasRun runId threadId)
    (hRetains : Retains db db') :
    db'.hasRun runId threadId := by
  rcases Option.map_eq_some_iff.mp hThread with
    ⟨run, hRun, hThread⟩
  rcases hRetains.runs runId run hRun with
    ⟨run', hRun', hRetained⟩
  rw [Db.hasRun, hRun', Option.map_some, hRetained.threadId,
    hThread]

theorem hasModel_of_retains
    {model : Option Text}
    (hModel : db.hasModel runId model)
    (hRetains : Retains db db') :
    db'.hasModel runId model := by
  rcases hModel with ⟨run, hRun, hModel⟩
  rcases hRetains.runs runId run hRun with
    ⟨run', hRun', hRetained⟩
  exact ⟨run', hRun', hRetained.model.trans hModel⟩

theorem hasEnd_of_retains
    (hEnd : db.hasEnd runId)
    (hRetains : Retains db db') :
    db'.hasEnd runId := by
  rcases hEnd with ⟨run, hRun, hEnd⟩
  rcases hRetains.runs runId run hRun with
    ⟨run', hRun', hRetained⟩
  exact ⟨run', hRun', hRetained.ended hEnd⟩

theorem cites_of_retains
    {messageId : MessageId}
    {cite : Text}
    (hCites : db.cites messageId cite)
    (hRetains : Retains db db') :
    db'.cites messageId cite := by
  rcases hCites with ⟨id, hText, hLink, hCitation⟩
  exact
    ⟨id, hText, hRetains.links _ hLink,
      hRetains.citations id hCitation⟩

theorem hasCell_of_retains
    {call : ToolCall}
    (hCell : db.hasCell runId call)
    (hRetains : Retains db db') :
    db'.hasCell runId call := by
  rcases hCell with ⟨record, hRecord, hCell⟩
  exact ⟨record, hRetains.messages record hRecord, hCell⟩

theorem numbersCell_of_retains
    {seq : Nat}
    {call : ToolCall}
    (hCell : db.numbersCell threadId seq call)
    (hRetains : Retains db db') :
    db'.numbersCell threadId seq call := by
  rcases hCell with ⟨record, hRecord, hCell⟩
  exact ⟨record, hRetains.messages record hRecord, hCell⟩

theorem numbersAnswer_of_retains
    {seq : Nat}
    {text : Text}
    {cites : List Text}
    (hAnswer : db.numbersAnswer threadId seq text cites)
    (hRetains : Retains db db') :
    db'.numbersAnswer threadId seq text cites := by
  rcases hAnswer with
    ⟨runId, hThread, hEnd, record, hRecord, hThreadId, hSeq,
      hRun, hRole, hText, hCites⟩
  exact
    ⟨runId, hasRun_of_retains hThread hRetains,
      hasEnd_of_retains hEnd hRetains, record,
      hRetains.messages record hRecord, hThreadId, hSeq, hRun,
      hRole, hText,
      fun cite hCite =>
        cites_of_retains (hCites cite hCite) hRetains⟩

/- What was recorded of an event stays recorded. -/
theorem records_of_retains
    {event : RunEvent}
    (hRecords : Records db threadId event)
    (hRetains : Retains db db') :
    Records db' threadId event := by
  rcases event with ⟨data, seq⟩
  cases data with
  | runStarted runId thread model =>
      exact
        ⟨hRecords.1, hasRun_of_retains hRecords.2.1 hRetains,
          hasModel_of_retains hRecords.2.2 hRetains⟩
  | toolCall call =>
      exact numbersCell_of_retains hRecords hRetains
  | toolResult id content rejected => trivial
  | citationAdded citation =>
      exact hRetains.citations _ hRecords
  | approvalRequested runId tools detail =>
      exact
        ⟨hasRun_of_retains hRecords.1 hRetains,
          fun tool hTool =>
            hasCell_of_retains (hRecords.2 tool hTool) hRetains⟩
  | messageCompleted text cites =>
      exact numbersAnswer_of_retains hRecords hRetains
  | runDone runId status =>
      exact
        ⟨hasRun_of_retains hRecords.1 hRetains,
          hasEnd_of_retains hRecords.2 hRetains⟩
  | error runId message reason forged valid =>
      cases runId with
      | none => trivial
      | some runId => exact hasRun_of_retains hRecords hRetains

end Retained

------------------------------------------------------------
-- Changes Of Rows
------------------------------------------------------------

section Changes

variable {db db' : Db}

/- The statements that end a run or change its status. -/
theorem retained_transition
    (run : Run)
    (status : RunStatus)
    (ended : Bool)
    (now : Time) :
    run.Retained (run.transition status ended now) where
  threadId := rfl
  model := rfl
  ended hEnded := by
    rw [Run.transition]
    split
    · rfl
    · exact hEnded

/- Updates of runs that keep what is recorded. -/
theorem retained_update
    {selects : RunId → Run → Bool}
    {change : Run → Run}
    (hRuns : db'.runs = db.runs.update selects change)
    (hChange : ∀ run : Run, run.Retained (change run))
    (runId : RunId)
    (run : Run)
    (hRun : db.runs.get? runId = some run) :
    ∃ run',
      db'.runs.get? runId = some run' ∧ run.Retained run' := by
  rw [hRuns, Table.get?_update, hRun, Option.map_some]
  refine ⟨_, rfl, ?_⟩
  split
  · exact hChange run
  · exact retained_refl run

/- A row that a table has stays when one is inserted. -/
theorem get?_of_inserted
    {K V : Type}
    [DecidableEq K]
    {table : Table K V}
    {key : K}
    {value : V}
    (hGet : table.get? key = some value)
    (other : K)
    (value' : V) :
    (table.insert other value').get? key = some value := by
  cases hOther : table.get? other with
  | some old => rw [Table.insert_of_get? hOther, hGet]
  | none =>
      rw [Table.get?_insert hOther, if_neg, hGet]
      rintro rfl
      rw [hGet] at hOther
      cases hOther

/- Updates of messages that keep what is recorded. -/
theorem messageRecords_map
    {change : Message → Message}
    (hMessages : db'.messages = db.messages.map change)
    (hChange :
      ∀ message : Message,
        (change message).record = message.record) :
    db'.messageRecords = db.messageRecords := by
  rw [Db.messageRecords, hMessages, List.map_map,
    Db.messageRecords]
  exact List.map_congr_left fun message _ => hChange message

/- An update of selected messages keeps their records. -/
theorem messageRecords_update
    (db : Db)
    (selects : Message → Bool)
    {change : Message → Message}
    (hChange :
      ∀ message : Message,
        (change message).record = message.record) :
    (db.updateMessages selects change).messageRecords =
      db.messageRecords := by
  apply messageRecords_map rfl
  intro message
  split
  · exact hChange message
  · rfl

/- A sweep keeps the records. -/
theorem messageRecords_sweep
    (db : Db)
    (selects : Run → Bool) :
    (db.sweep selects).messageRecords = db.messageRecords := by
  apply messageRecords_map rfl
  intro message
  split <;> rfl

/- A change of the runs alone. -/
theorem retains_of_runs
    (hRuns :
      ∀ runId run,
        db.runs.get? runId = some run →
          ∃ run',
            db'.runs.get? runId = some run' ∧
              run.Retained run')
    (hMessages : db'.messageRecords = db.messageRecords)
    (hLinks : db'.messageCitations = db.messageCitations)
    (hCitations : db'.citations = db.citations) :
    Retains db db' where
  runs := hRuns
  messages record hRecord := by rwa [hMessages]
  links link hLink := by rwa [hLinks]
  citations id hCitation := by rwa [hCitations]

end Changes

end LegalAgent
