import LegalAgent.Client.Sse

/-
  The page that shows a conversation (`ChatPage.svelte`) and
  the stores that it fills.

  `consume` applies the events of a run one by one to the
  transcript, the plan and the library of citations, and
  `loadMessages` builds the transcript again from the rows of
  a thread.  A transcript carries that its counter is ahead of
  the ids of its items, so the item that was added last is the
  one that is found by its id.

  Key definitions include:
    * `Transcript`
    * `Transcript.loadMessages`
    * `Chat.hear`
    * `Chat.consume`
    * `TranscriptItem.look`

  Key theorems include:
    * `looks_hear`
    * `looks_consume`
    * `looks_loadMessages`
-/

------------------------------------------------------------
-- Transcripts
------------------------------------------------------------

namespace LegalAgent

namespace Client

/- The type `Role`. -/
inductive Speaker where
  | user
  | agent
deriving DecidableEq

inductive MessageStatus where
  | streaming
  | committed
deriving DecidableEq

inductive CellStatus where
  | running
  | done
deriving DecidableEq

/- A tool result that is shown as it is or as its JSON text. -/
inductive ShownResult where
  | plain (content : Content)
  | json (content : Content)
deriving DecidableEq

/- A message or a tool cell. -/
inductive TranscriptItem where
  | message
      (id : Nat)
      (backendId : Option MessageId)
      (role : Speaker)
      (text : Text)
      (status : MessageStatus)
  | tool
      (id : Nat)
      (name args : Option Text)
      (result : Option ShownResult)
      (status : CellStatus)
deriving DecidableEq

def TranscriptItem.id : TranscriptItem → Nat
| .message id .. => id
| .tool id .. => id

/- The items with the counter `_seq`, which `uid` advances. -/
structure Transcript where
  items : List TranscriptItem
  last : Nat
  known : ∀ item ∈ items, item.id ≤ last

namespace Transcript

/- Add an item under the next id. -/
def push
    (transcript : Transcript)
    (make : Nat → TranscriptItem)
    (hId : ∀ id, (make id).id = id) :
    Transcript where
  items := transcript.items ++ [make (transcript.last + 1)]
  last := transcript.last + 1
  known := by
    intro item hMem
    rw [List.mem_append, List.mem_singleton] at hMem
    rcases hMem with hMem | rfl
    · exact Nat.le_succ_of_le (transcript.known item hMem)
    · rw [hId]

/- Change the first item with an id. -/
def changeFirst
    (id : Nat)
    (change : TranscriptItem → TranscriptItem) :
    List TranscriptItem → List TranscriptItem
| [] => []
| item :: items =>
    if item.id = id then change item :: items
    else item :: changeFirst id change items

/- The ids stay when an item is changed. -/
theorem mem_changeFirst
    {id : Nat}
    {change : TranscriptItem → TranscriptItem}
    {items : List TranscriptItem}
    {item : TranscriptItem}
    (hId : ∀ item, (change item).id = item.id)
    (hMem : item ∈ changeFirst id change items) :
    ∃ item' ∈ items, item'.id = item.id := by
  induction items with
  | nil => cases hMem
  | cons first items ih =>
      rw [changeFirst] at hMem
      split at hMem
      · rcases List.mem_cons.mp hMem with rfl | hMem
        · exact ⟨first, List.mem_cons_self, (hId first).symm⟩
        · exact ⟨item, List.mem_cons_of_mem _ hMem, rfl⟩
      · rcases List.mem_cons.mp hMem with rfl | hMem
        · exact ⟨item, List.mem_cons_self, rfl⟩
        · rcases ih hMem with ⟨item', hMem', hEq⟩
          exact ⟨item', List.mem_cons_of_mem _ hMem', hEq⟩

/- Change the item that is found by an id. -/
def change
    (transcript : Transcript)
    (id : Nat)
    (change : TranscriptItem → TranscriptItem)
    (hId : ∀ item, (change item).id = item.id) :
    Transcript where
  items := changeFirst id change transcript.items
  last := transcript.last
  known := by
    intro item hMem
    rcases mem_changeFirst hId hMem with ⟨item', hMem', hEq⟩
    rw [← hEq]
    exact transcript.known item' hMem'

/- A new message of the agent; its id is the last one. -/
def startAgent (transcript : Transcript) : Transcript :=
  transcript.push
    (fun id => .message id none .agent [] .streaming)
    fun _ => rfl

/- The change that `commit` makes. -/
def committed
    (text : Option Text) :
    TranscriptItem → TranscriptItem
| .message id backendId role old _ =>
    .message id backendId role (text.getD old) .committed
| item => item

def commit
    (transcript : Transcript)
    (id : Nat)
    (text : Option Text) :
    Transcript :=
  transcript.change id (committed text) fun item => by
    cases item <;> rfl

/- A new tool cell; its id is the last one. -/
def toolCall
    (transcript : Transcript)
    (name args : Option Text) :
    Transcript :=
  transcript.push (fun id => .tool id name args none .running)
    fun _ => rfl

/- The change that `toolResult` makes. -/
def resulted
    (content : Content) :
    TranscriptItem → TranscriptItem
| .tool id name args _ _ =>
    .tool id name args (some (.plain content)) .done
| item => item

def toolResult
    (transcript : Transcript)
    (id : Nat)
    (content : Content) :
    Transcript :=
  transcript.change id (resulted content) fun item => by
    cases item <;> rfl

/- What is shown of a stored result. -/
def shownResult : Option Content → Option ShownResult
| none => none
| some (.str text) => some (.plain (.str text))
| some content => some (.json content)

def defaultName : Text := "tool".toList

/- The item of a row. -/
def itemOf (id : Nat) (row : Message) : TranscriptItem :=
  match row.role with
  | .tool =>
      .tool id (some (row.toolName.getD defaultName))
        row.toolArgs (shownResult row.toolResult) .done
  | .user =>
      .message id (some row.id) .user (row.contentMd.getD [])
        .committed
  | .agent =>
      .message id (some row.id) .agent (row.contentMd.getD [])
        .committed

theorem id_itemOf (id : Nat) (row : Message) :
    (itemOf id row).id = id := by
  unfold itemOf
  split <;> rfl

/- The items of the rows, under the next ids. -/
def itemsFrom : Nat → List Message → List TranscriptItem
| _, [] => []
| last, row :: rows =>
    itemOf (last + 1) row :: itemsFrom (last + 1) rows

theorem id_itemsFrom
    {last : Nat}
    {rows : List Message}
    {item : TranscriptItem}
    (hMem : item ∈ itemsFrom last rows) :
    item.id ≤ last + rows.length := by
  induction rows generalizing last with
  | nil => cases hMem
  | cons row rows ih =>
      rw [List.length_cons]
      rcases List.mem_cons.mp hMem with rfl | hMem
      · rw [id_itemOf]
        omega
      · have := ih hMem
        omega

/- The transcript of a thread that is opened again. -/
def loadMessages
    (transcript : Transcript)
    (rows : List Message) :
    Transcript where
  items := itemsFrom transcript.last rows
  last := transcript.last + rows.length
  known := fun _ hMem => id_itemsFrom hMem

end Transcript

------------------------------------------------------------
-- Citations And Plans
------------------------------------------------------------

/- The library of the citations, one for each id. -/
structure CitationLibrary where
  items : List CitationSurface
  distinct : (items.map CitationSurface.id).Nodup

namespace CitationLibrary

/- Add a citation unless its id is there. -/
def add
    (library : CitationLibrary)
    (citation : CitationSurface) :
    CitationLibrary :=
  if hMem : citation.id ∈ library.items.map CitationSurface.id
  then
    library
  else
    { items := library.items ++ [citation]
      distinct := by
        rw [List.map_append]
        exact
          List.nodup_append.mpr
            ⟨library.distinct, List.nodup_singleton _,
              fun id hId other hOther hEq => by
                rw [List.map_singleton,
                  List.mem_singleton] at hOther
                rw [hEq, hOther] at hId
                exact hMem hId⟩ }

def clear : CitationLibrary where
  items := []
  distinct := List.nodup_nil

end CitationLibrary

inductive StepStatus where
  | pending
  | active
  | done
deriving DecidableEq

structure PlanStep where
  id : Nat
  label : Text
  status : StepStatus
deriving DecidableEq

/- The steps of the plan with the counter `_pseq`. -/
structure PlanStore where
  steps : List PlanStep
  last : Nat

namespace PlanStore

/- Add a step under the next id, which is the last one. -/
def add
    (plan : PlanStore)
    (label : Text)
    (status : StepStatus) :
    PlanStore where
  steps := plan.steps ++ [⟨plan.last + 1, label, status⟩]
  last := plan.last + 1

/- Set the status of the first step with an id. -/
def setFirst
    (id : Nat)
    (status : StepStatus) :
    List PlanStep → List PlanStep
| [] => []
| step :: steps =>
    if step.id = id then { step with status := status } :: steps
    else step :: setFirst id status steps

def set
    (plan : PlanStore)
    (id : Nat)
    (status : StepStatus) :
    PlanStore :=
  { plan with steps := setFirst id status plan.steps }

def finishAll (plan : PlanStore) : PlanStore :=
  { plan with
    steps := plan.steps.map fun step =>
      { step with status := .done } }

end PlanStore

------------------------------------------------------------
-- Pages
------------------------------------------------------------

/- What the page keeps of a conversation. -/
structure Chat where
  transcript : Transcript
  citations : CitationLibrary
  plan : PlanStore
  toolIds : Option Text → Option Nat
  planToolIds : Option Text → Option Nat
  planAnalyzeId : Option Nat
  status : Text
  runModel : Text
  awaiting : Option (InterruptDetail × List ToolCall)
  answered : Bool
  interrupting : Bool
  busy : Bool

/- The name in the texts of the page. -/
def nameText (name : Option Text) : Text :=
  name.getD "null".toList

/- The status line while a tool runs. -/
def callStatus (name : Option Text) : Text :=
  if name = some "search_legal".toList then
    "법령 검색 중…".toList
  else
    nameText name ++ " 실행 중…".toList

def lostText : Text := "연결이 끊겼습니다.".toList

def failedText : Text :=
  "연결에 문제가 발생했습니다. 다시 시도해 주세요.".toList

/- Add a text of the agent that is complete. -/
def Transcript.addAgent
    (transcript : Transcript)
    (text : Text) :
    Transcript :=
  let started := transcript.startAgent
  started.commit started.last (some text)

namespace Chat

/- A tool was called: a step and a cell. -/
def hearCall (chat : Chat) (call : ToolCall) : Chat :=
  let analyzed :=
    match chat.planAnalyzeId with
    | some id => chat.plan.set id .done
    | none => chat.plan
  let plan :=
    analyzed.add ("도구 · ".toList ++ nameText call.name) .active
  let transcript := chat.transcript.toolCall call.name call.args
  { chat with
    status := callStatus call.name
    plan := plan
    planToolIds := fun id =>
      if id = call.id then some plan.last
      else chat.planToolIds id
    transcript := transcript
    toolIds := fun id =>
      if id = call.id then some transcript.last
      else chat.toolIds id }

/- A tool has replied: its step and its cell are done. -/
def hearResult
    (chat : Chat)
    (id : Option Text)
    (content : Content) :
    Chat :=
  { chat with
    plan :=
      match chat.planToolIds id with
      | some step => chat.plan.set step .done
      | none => chat.plan
    transcript :=
      match chat.toolIds id with
      | some cell => chat.transcript.toolResult cell content
      | none => chat.transcript
    status := "답변 작성 중…".toList }

/- The answer has come. -/
def hearAnswer (chat : Chat) (text : Text) : Chat :=
  { chat with
    plan := chat.plan.finishAll.add "답변 작성".toList .done
    transcript := chat.transcript.addAgent text
    answered := true }

/- An error is shown unless the user has stopped the run. -/
def hearError (chat : Chat) (message : Text) : Chat :=
  { chat with
    plan := chat.plan.finishAll
    transcript :=
      if chat.interrupting then chat.transcript
      else chat.transcript.addAgent message
    answered := true }

/- Apply one event. -/
def hear (chat : Chat) : EventData → Chat
| .runStarted _ _ model =>
    if model.isEmpty then chat else { chat with runModel := model }
| .toolCall call => chat.hearCall call
| .toolResult id content _ => chat.hearResult id content
| .citationAdded citation =>
    { chat with citations := chat.citations.add citation }
| .messageCompleted text _ => chat.hearAnswer text
| .approvalRequested _ tools detail =>
    { chat with
      awaiting := some (detail, tools)
      status := "승인 대기…".toList }
| .error _ message .. => chat.hearError message
| .runDone .. => { chat with plan := chat.plan.finishAll }

/- What the iterable of the client yields. -/
def hearItem (chat : Chat) : Item → Chat
| .event event => chat.hear event.data
| .lost _ => chat.hearError lostText

/-
  Apply the items of an iterable, which may fail behind them,
  and release the page.
-/
def consume
    (chat : Chat)
    (items : List Item)
    (failed : Bool) :
    Chat :=
  let heard := items.foldl hearItem chat
  { heard with
    transcript :=
      if failed && !heard.interrupting then
        heard.transcript.addAgent failedText
      else
        heard.transcript
    busy := false
    interrupting := false
    status :=
      if heard.awaiting.isSome then heard.status else [] }

end Chat

------------------------------------------------------------
-- Looks
------------------------------------------------------------

/-
  How an item looks, but for its result: a result can change
  until it is there.
-/
inductive Look where
  | said (role : Speaker) (text : Text)
  | called (name : Text) (args : Option Text)
deriving DecidableEq

def TranscriptItem.look : TranscriptItem → Look
| .message _ _ role text _ => .said role text
| .tool _ name args _ _ =>
    .called (name.getD Transcript.defaultName) args

def Transcript.looks (transcript : Transcript) : List Look :=
  transcript.items.map TranscriptItem.look

/- How a stored message looks. -/
def messageLook (row : Message) : Look :=
  match row.role with
  | .tool =>
      .called (row.toolName.getD Transcript.defaultName)
        row.toolArgs
  | .user => .said .user (row.contentMd.getD [])
  | .agent => .said .agent (row.contentMd.getD [])

/- What an event adds to the transcript. -/
def eventLook (interrupting : Bool) : EventData → Option Look
| .toolCall call =>
    some
      (.called (call.name.getD Transcript.defaultName)
        call.args)
| .messageCompleted text _ => some (.said .agent text)
| .error _ message .. =>
    if interrupting then none else some (.said .agent message)
| _ => none

section Looks

variable {transcript : Transcript} {chat : Chat}

/- A thread that is opened again looks like its rows. -/
theorem looks_loadMessages (rows : List Message) :
    (transcript.loadMessages rows).looks =
      rows.map messageLook := by
  have hItems :
      ∀ last,
        (Transcript.itemsFrom last rows).map
            TranscriptItem.look =
          rows.map messageLook := by
    induction rows with
    | nil => exact fun _ => rfl
    | cons row rows ih =>
        intro last
        rw [Transcript.itemsFrom, List.map_cons,
          List.map_cons, ih]
        congr 1
        unfold Transcript.itemOf messageLook
        cases row.role <;> rfl
  exact hItems transcript.last

/- The first item with the id of the last one is that one. -/
theorem changeFirst_append
    {items : List TranscriptItem}
    {item : TranscriptItem}
    {id : Nat}
    (change : TranscriptItem → TranscriptItem)
    (hItems : ∀ item ∈ items, item.id ≠ id)
    (hItem : item.id = id) :
    Transcript.changeFirst id change (items ++ [item]) =
      items ++ [change item] := by
  induction items with
  | nil =>
      rw [List.nil_append, Transcript.changeFirst, if_pos hItem,
        List.nil_append]
  | cons first items ih =>
      rw [List.cons_append, Transcript.changeFirst,
        if_neg (hItems first List.mem_cons_self), ih,
        List.cons_append]
      intro item hMem
      exact hItems item (List.mem_cons_of_mem _ hMem)

/- A complete text of the agent is added at the end. -/
theorem looks_addAgent (text : Text) :
    (transcript.addAgent text).looks =
      transcript.looks ++ [.said .agent text] := by
  have hItems :
      (transcript.addAgent text).items =
        transcript.items ++
          [.message (transcript.last + 1) none .agent text
            .committed] := by
    refine changeFirst_append _ ?_ rfl
    intro item hMem hEq
    have hKnown := transcript.known item hMem
    rw [hEq] at hKnown
    exact Nat.not_succ_le_self _ hKnown
  rw [Transcript.looks, hItems, List.map_append,
    Transcript.looks]
  rfl

/- A change that keeps the look of every item. -/
theorem looks_change
    {id : Nat}
    {change : TranscriptItem → TranscriptItem}
    {hId : ∀ item, (change item).id = item.id}
    (hLook : ∀ item, (change item).look = item.look) :
    (transcript.change id change hId).looks =
      transcript.looks := by
  have hItems :
      ∀ items,
        (Transcript.changeFirst id change items).map
            TranscriptItem.look =
          items.map TranscriptItem.look := by
    intro items
    induction items with
    | nil => rfl
    | cons item items ih =>
        rw [Transcript.changeFirst]
        split
        · rw [List.map_cons, hLook, List.map_cons]
        · rw [List.map_cons, ih, List.map_cons]
  exact hItems transcript.items

/- What an event adds to the looks of the transcript. -/
theorem looks_hear (data : EventData) :
    (chat.hear data).transcript.looks =
        chat.transcript.looks ++
          (eventLook chat.interrupting data).toList ∧
      (chat.hear data).interrupting = chat.interrupting := by
  cases data with
  | runStarted runId threadId model =>
      rw [Chat.hear]
      split <;> exact ⟨(List.append_nil _).symm, rfl⟩
  | toolCall call =>
      refine ⟨?_, rfl⟩
      exact List.map_append
  | toolResult id content rejected =>
      refine ⟨?_, rfl⟩
      change
        Transcript.looks
            (match chat.toolIds id with
              | some cell =>
                  chat.transcript.toolResult cell content
              | none => chat.transcript) =
          chat.transcript.looks ++ []
      rw [List.append_nil]
      split
      · apply looks_change
        intro item
        cases item <;> rfl
      · rfl
  | citationAdded citation =>
      exact ⟨(List.append_nil _).symm, rfl⟩
  | approvalRequested runId tools detail =>
      exact ⟨(List.append_nil _).symm, rfl⟩
  | messageCompleted text citations =>
      exact ⟨looks_addAgent text, rfl⟩
  | runDone runId status =>
      exact ⟨(List.append_nil _).symm, rfl⟩
  | error runId message reason forged valid =>
      refine ⟨?_, rfl⟩
      rw [Chat.hear, Chat.hearError, eventLook]
      cases chat.interrupting with
      | true => exact (List.append_nil _).symm
      | false => exact looks_addAgent message

/- What the events of an iterable add to the transcript. -/
theorem looks_consume (events : List RunEvent) :
    (chat.consume (events.map Item.event)
          false).transcript.looks =
      chat.transcript.looks ++
        events.filterMap fun event =>
          eventLook chat.interrupting event.data := by
  change
    ((events.map Item.event).foldl Chat.hearItem
        chat).transcript.looks = _
  induction events generalizing chat with
  | nil => exact (List.append_nil _).symm
  | cons event events ih =>
      rcases @looks_hear chat event.data with
        ⟨hLooks, hInterrupting⟩
      have hItem :
          chat.hearItem (.event event) = chat.hear event.data :=
        rfl
      rw [List.map_cons, List.foldl_cons, hItem, ih, hLooks,
        hInterrupting, List.filterMap_cons]
      cases eventLook chat.interrupting event.data with
      | none => rw [Option.toList_none, List.append_nil]
      | some look =>
          rw [Option.toList_some, List.append_assoc,
            List.singleton_append]

end Looks

end Client

end LegalAgent
