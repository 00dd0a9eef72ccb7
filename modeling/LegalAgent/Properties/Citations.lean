import LegalAgent.Properties.Forgery
import LegalAgent.Text.Shown

/-
  The citations of a committed answer.

  An answer is linked with the markers of its checked draft,
  while its text is the composed one.  The two agree as long
  as what is left out of the draft neither makes a marker nor
  takes one away.

  Key definitions include:
    * `LinksKnown`
    * `committed`
    * `CitesSoundly`

  Key theorems include:
    * `links_of_commit`
    * `answer_markers_iff`
    * `answer_ids_iff`
    * `faithful_draftBody`
    * `answer_cites_soundly`
-/

------------------------------------------------------------
-- Links
------------------------------------------------------------

namespace LegalAgent

open Library

/- Links are of messages that were added. -/
def LinksKnown (db : Db) : Prop :=
  ∀ link ∈ db.messageCitations, link.1 < db.nextId

/- One citation of a message adds its link, if it is new. -/
theorem mem_linkCitation
    {messageId : MessageId}
    {id : Text}
    {db db' : Db}
    (hLink : linkCitation messageId id db = .ok db')
    (link : MessageId × CitationId) :
    link ∈ db'.messageCitations ↔
      link ∈ db.messageCitations ∨
        link.1 = messageId ∧ link.2.text = id := by
  unfold linkCitation at hLink
  split at hLink
  · cases hLink
  · rename_i key hKey
    have hText : key.text = id := by
      have hFound := List.find?_some hKey
      exact beq_iff_eq.mp hFound
    rw [← hText, CitationId.text_inj,
      ← Prod.ext_iff (x := link) (y := (messageId, key))]
    split at hLink
    · rename_i hMem
      cases hLink
      constructor
      · exact Or.inl
      · rintro (hOld | rfl)
        · exact hOld
        · exact hMem
    · cases hLink
      rw [List.mem_append, List.mem_singleton]

/- The links after the citations of a message are linked. -/
theorem mem_linkCitations
    {messageId : MessageId}
    {ids : List Text}
    {db db' : Db}
    (hLink :
      ids.foldlM (fun db id => linkCitation messageId id db)
          db =
        .ok db')
    (link : MessageId × CitationId) :
    link ∈ db'.messageCitations ↔
      link ∈ db.messageCitations ∨
        link.1 = messageId ∧ link.2.text ∈ ids := by
  induction ids generalizing db with
  | nil =>
      cases hLink
      simp
  | cons id ids ih =>
      simp only [List.foldlM_cons, bind, Except.bind] at hLink
      split at hLink
      · cases hLink
      · rename_i db₁ hOne
        rw [ih hLink, mem_linkCitation hOne, List.mem_cons,
          or_assoc, ← and_or_left]

/- A message that is added leaves the links. -/
theorem links_of_insertMessage
    {threadId : ThreadId}
    {new : NewMessage}
    {db db' : Db}
    {row : MessageId × Nat}
    (hInsert :
      insertMessage threadId new db = .ok (row, db')) :
    row.1 = db.nextId ∧ db.nextId < db'.nextId ∧
      db'.messageCitations = db.messageCitations ∧
        ∃ message,
          db'.messages = db.messages ++ [message] ∧
            message.id = row.1 ∧
              message.contentMd = new.contentMd := by
  rcases row with ⟨messageId, seq⟩
  rcases of_insertMessage hInsert with
    ⟨rfl, thread, db₁, -, -, hNext, -, rfl⟩
  rcases of_nextSeq hNext with ⟨_, -, -, rfl⟩
  exact ⟨rfl, Nat.lt_succ_self _, rfl, _, rfl, rfl, rfl⟩

/- A committed answer with its links. -/
theorem links_of_commit
    {threadId : ThreadId}
    {runId : RunId}
    {contentMd : Text}
    {citationIds : List Text}
    {parentId : Option MessageId}
    {model : Option Text}
    {db db' : Db}
    {row : MessageId × Nat}
    (hCommit :
      commitAgentAnswer threadId runId contentMd citationIds
          parentId model db =
        .ok (some row, db')) :
    row.1 = db.nextId ∧ db.nextId < db'.nextId ∧
      (∀ link,
        link ∈ db'.messageCitations ↔
          link ∈ db.messageCitations ∨
            link.1 = row.1 ∧ link.2.text ∈ citationIds) ∧
        ∃ message,
          db'.messages = db.messages ++ [message] ∧
            message.id = row.1 ∧
              message.contentMd = some contentMd := by
  unfold commitAgentAnswer at hCommit
  split at hCommit
  · cases hCommit
  · dsimp only at hCommit
    split at hCommit
    · cases hCommit
    · rename_i row' db₁ hInsert
      split at hCommit
      · cases hCommit
      · rename_i db₂ hLink
        cases hCommit
        rcases links_of_insertMessage hInsert with
          ⟨hId, hNext, hLinks, message, hMessages, hMessage,
            hContent⟩
        rcases of_linkCitations hLink with ⟨links, hDb⟩
        refine ⟨hId, ?_, ?_, message, ?_, hMessage, hContent⟩
        · rw [hDb]
          exact hNext
        · intro link
          rw [mem_linkCitations hLink, hLinks]
          rfl
        · rw [hDb]
          exact hMessages

/- A call that commits no answer leaves the links. -/
theorem links_of_exec
    {inst : InstanceId}
    {op : Op}
    {world world' : World}
    {value : op.Reply}
    (hExec : exec inst op world = (.ok value, world')) :
    world'.db.messageCitations = world.db.messageCitations ∨
      ∃ threadId runId contentMd citationIds parentId model row,
        commitAgentAnswer threadId runId contentMd citationIds
            parentId model world.db =
          .ok (some row, world'.db) := by
  have hFrame := frames_of_exec hExec
  cases op with
  | addMessage threadId new =>
      exact
        Or.inl
          (links_of_insertMessage
            (statement_of_onDb hExec)).2.2.1
  | commitAgentAnswer threadId runId contentMd citationIds
      parentId model =>
      cases value with
      | none => exact Or.inl (hFrame.links rfl)
      | some row =>
          exact
            Or.inr
              ⟨_, _, _, _, _, _, row, statement_of_onDb hExec⟩
  | setToolResult =>
      cases hExec
      exact Or.inl rfl
  | markPartialApproval =>
      cases hExec
      exact Or.inl rfl
  | resolveOrphanToolCells =>
      cases hExec
      exact Or.inl rfl
  | setPendingApproval =>
      cases hExec
      exact Or.inl rfl
  | _ => exact Or.inl (hFrame.links rfl)

section Reachable

variable {registry : Registry}
variable {allowed : System → Action → Prop}

/- Every call links messages that were added. -/
theorem linksKnown_of_exec
    {inst : InstanceId}
    {op : Op}
    {world world' : World}
    {value : op.Reply}
    (hExec : exec inst op world = (.ok value, world'))
    (hKnown : LinksKnown world.db) :
    LinksKnown world'.db := by
  intro link hMem
  rcases links_of_exec hExec with
    hSame | ⟨_, _, _, _, _, _, row, hCommit⟩
  · rw [hSame] at hMem
    exact
      Nat.lt_of_lt_of_le (hKnown link hMem)
        (frames_of_exec hExec).nextId
  · rcases links_of_commit hCommit with ⟨hId, hNext, hLinks, -⟩
    rcases (hLinks link).mp hMem with hOld | ⟨hNew, -⟩
    · exact Nat.lt_trans (hKnown link hOld) hNext
    · rw [hNew, hId]
      exact hNext

/- Every step keeps the links to messages that were added. -/
theorem preserves_linksKnown :
    Preserves registry allowed fun system =>
      LinksKnown system.world.db where
  request := by
    intro system taskId inst request _ _ _ hKnown
    exact hKnown
  call := by
    intro system taskId fault task op reply world' next hCall _
      hKnown
    cases hCall.executes with
    | done hExec => exact linksKnown_of_exec hExec hKnown
    | refused => exact hKnown
    | fault => exact hKnown
  sent := by
    intro system taskId task event next _ _ _ _ hKnown
    exact hKnown
  advance := by
    intro system seconds _ _ hKnown
    exact hKnown
  heartbeat := by
    intro system inst _ _ hKnown
    exact hKnown
  sweep := by
    intro system action selects _ _ _ hKnown
    exact hKnown
  collect := by
    intro system retention _ _ hKnown
    exact hKnown
  crash := by
    intro system inst _ _ hKnown
    exact hKnown

theorem linksKnown_of_reachable
    {system : System}
    (hReachable : Reachable registry allowed system) :
    LinksKnown system.world.db :=
  preserved_of_reachable preserves_linksKnown
    (fun _ hMem => nomatch hMem) hReachable

end Reachable

------------------------------------------------------------
-- Answers
------------------------------------------------------------

/- The message of an answer that is committed. -/
def committed : DriverMoment → Option MessageId
| .called (.commitAgentAnswer ..) (.ok (some row)) =>
    some row.1
| _ => none

/-
  The text of a message has exactly the markers that the
  message is linked with, for the backend and for the front
  end, and all of them are valid.
-/
structure CitesSoundly
    (db : Db)
    (messageId : MessageId)
    (valid : Text → Bool) :
    Prop where
  content :
    ∃ text,
      (∃ message ∈ db.messages,
          message.id = messageId ∧
            message.contentMd = some text) ∧
        (∀ id,
          id ∈ citeFindall text ↔
            ∃ key : CitationId,
              key.text = id ∧
                (messageId, key) ∈ db.messageCitations) ∧
          ∀ id,
            (∃ tail, tail <:+ text ∧ inlineCite tail = some id) ↔
              ∃ key : CitationId,
                key.text = id ∧
                  (messageId, key) ∈ db.messageCitations
  valid :
    ∀ key : CitationId,
      (messageId, key) ∈ db.messageCitations →
        valid key.text = true

/- A valid id is the text of a citation. -/
theorem key_of_valid
    {rs : RunState}
    {linked : List CitationId}
    {id : Text}
    (hValid : RunService.isValid rs linked id = true) :
    ∃ key : CitationId, key.text = id := by
  rw [RunService.isValid, List.contains_iff_mem, List.mem_map]
    at hValid
  rcases hValid with ⟨key, -, hText⟩
  exact ⟨key, hText⟩

------------------------------------------------------------
-- Markers Of Answers
------------------------------------------------------------

section Answers

variable {body : Text} {cited : List Text}
variable {citedEff : List (Text × EffDate)}

/- The markers of an answer are those that are left. -/
theorem citeFindall_answer :
    citeFindall (compose body cited citedEff) =
      citeFindall (cleaned body) := by
  rw [citeFindall_compose, scrub, citeFindall_strip, cleaned]

/- They stand in the answer as they are left. -/
theorem marker_inside_answer (id : Text) :
    marker id <:+: compose body cited citedEff ↔
      marker id <:+: cleaned body := by
  rcases compose_eq body cited citedEff with
    ⟨header, hHeader, hCompose⟩
  have hBody :
      marker id <:+: composedBody body ↔
        marker id <:+: scrub body := by
    unfold composedBody
    split
    · rename_i hEmpty
      rw [hEmpty]
      exact
        iff_of_false (marker_not_inside close_not_mem_noAnswer)
          (marker_not_inside List.not_mem_nil)
    · rfl
  rw [hCompose, marker_inside_append_right close_not_mem_ending,
    marker_inside_append_left hHeader, hBody, scrub,
    marker_inside_strip, cleaned]

/-
  What a draft has markers for is what its answer has markers
  for, in normal form, if and only if none is made and none is
  lost.
-/
theorem answer_markers_iff
    (hPlain : ∀ id ∈ citeFindall body, isUuidText id = true) :
    ((∀ id,
          id ∈ citeFindall (cleaned body) ↔
            id ∈ citeFindall body) ∧
        ∀ id ∈ citeFindall body,
          marker id <:+: cleaned body) ↔
      ∀ id, ¬ SplitMarker body id ∧ ¬ BuriedMarker body id := by
  have hBracket : ∀ id ∈ citeFindall body, '[' ∉ id := by
    intro id hMem
    exact (CitationId.mk id (hPlain id hMem)).bracket_not_mem
  constructor
  · rintro ⟨hSame, hForm⟩ id
    constructor
    · rintro ⟨front, part, back, hBody, -, hRead, hNot⟩
      apply hNot
      rw [← hSame]
      refine
        mem_citeFindall_of_inside ?_ (shownOf_inside hBody) hRead
      intro found hFound
      exact hBracket found ((hSame found).mp hFound)
    · rintro ⟨hMem, hLost⟩
      rcases exists_part_of_shown (hForm id hMem) with
        ⟨front, part, back, hBody, hPart⟩
      exact hLost front part back hBody hPart
  · intro hFaithful
    have hForm :
        ∀ id ∈ citeFindall body, marker id <:+: cleaned body := by
      intro id hMem
      have hKept := (hFaithful id).2
      unfold BuriedMarker at hKept
      push Not at hKept
      rcases hKept hMem with ⟨front, part, back, hBody, hPart⟩
      rw [← hPart]
      exact shownOf_inside hBody
    refine ⟨?_, hForm⟩
    have hMade :
        ∀ id ∈ citeFindall (cleaned body),
          id ∈ citeFindall body := by
      intro id hMem
      rcases exists_inside_of_mem hMem with
        ⟨whole, hInfix, hRead⟩
      rcases exists_part_of_shown hInfix with
        ⟨front, part, back, hBody, rfl⟩
      by_contra hNot
      by_cases hSame : shownOf front part back = part
      · -- nothing is left out of the part
        rw [hSame] at hRead
        exact
          hNot
            (mem_citeFindall_of_inside hBracket
              ⟨front, back, hBody.symm⟩ hRead)
      · exact
          (hFaithful id).1
            ⟨front, part, back, hBody, hSame, hRead, hNot⟩
    intro id
    refine ⟨hMade id, ?_⟩
    intro hMem
    apply
      mem_citeFindall_of_inside
        (fun found hFound => hBracket found (hMade found hFound))
        (hForm id hMem)
    have hKey := (CitationId.mk id (hPlain id hMem)).inline
    exact readCite_marker_of_inline hKey.1 hKey.2

/-
  The ids that the backend and the front end find in an answer
  are those of the draft if and only if none is made and none
  is lost.
-/
theorem answer_ids_iff
    (hPlain : ∀ id ∈ citeFindall body, isUuidText id = true) :
    ((∀ id,
          id ∈ citeFindall (compose body cited citedEff) ↔
            id ∈ citeFindall body) ∧
        ∀ id,
          (∃ tail,
              tail <:+ compose body cited citedEff ∧
                inlineCite tail = some id) ↔
            id ∈ citeFindall body) ↔
      ∀ id, ¬ SplitMarker body id ∧ ¬ BuriedMarker body id := by
  rw [← answer_markers_iff hPlain, citeFindall_answer]
  simp only [exists_inlineCite_iff, marker_inside_answer]
  constructor
  · rintro ⟨hSame, hInline⟩
    exact ⟨hSame, fun id hMem => ((hInline id).mpr hMem).1⟩
  · rintro ⟨hSame, hForm⟩
    refine ⟨hSame, ?_⟩
    intro id
    constructor
    · rintro ⟨hInfix, hId, hChars⟩
      rw [← hSame]
      refine
        mem_citeFindall_of_inside ?_ hInfix
          (readCite_marker_of_inline hId hChars)
      intro found hFound
      have hBody := (hSame found).mp hFound
      exact
        (CitationId.mk found (hPlain found hBody)).bracket_not_mem
    · intro hMem
      exact
        ⟨hForm id hMem, (CitationId.mk id (hPlain id hMem)).inline⟩

end Answers

section Commits

variable {db db' : Db} {threadId : ThreadId} {runId : RunId}
variable {parentId : Option MessageId} {model : Option Text}
variable {row : MessageId × Nat}

/- A committed answer is linked with the ids it is given. -/
theorem linked_of_commit
    {content : Text}
    {ids : List Text}
    (hKnown : LinksKnown db)
    (hKeys : ∀ id ∈ ids, ∃ key : CitationId, key.text = id)
    (hCommit :
      commitAgentAnswer threadId runId content ids parentId model
          db =
        .ok (some row, db'))
    (id : Text) :
    (∃ key : CitationId,
        key.text = id ∧ (row.1, key) ∈ db'.messageCitations) ↔
      id ∈ ids := by
  rcases links_of_commit hCommit with ⟨hId, -, hLinks, -⟩
  constructor
  · rintro ⟨key, rfl, hKey⟩
    rcases (hLinks _).mp hKey with hOld | ⟨-, hNew⟩
    · have hLt := hKnown _ hOld
      rw [hId] at hLt
      exact absurd hLt (Nat.lt_irrefl _)
    · exact hNew
  · intro hMem
    rcases hKeys id hMem with ⟨key, rfl⟩
    exact ⟨key, rfl, (hLinks _).mpr (Or.inr ⟨rfl, hMem⟩)⟩

/- The message of a committed answer has its text. -/
theorem content_of_commit
    {content text : Text}
    {ids : List Text}
    (hIds : ∀ message ∈ db.messages, message.id < db.nextId)
    (hCommit :
      commitAgentAnswer threadId runId content ids parentId model
          db =
        .ok (some row, db')) :
    (∃ message ∈ db'.messages,
        message.id = row.1 ∧ message.contentMd = some text) ↔
      text = content := by
  rcases links_of_commit hCommit with
    ⟨hId, -, -, message, hMessages, hMessage, hContent⟩
  constructor
  · rintro ⟨other, hMem, hSame, hText⟩
    rw [hMessages] at hMem
    rcases List.mem_append.mp hMem with hOld | hNew
    · have hLt := hIds other hOld
      rw [hSame, hId] at hLt
      exact absurd hLt (Nat.lt_irrefl _)
    · rw [List.mem_singleton.mp hNew, hContent,
        Option.some_inj] at hText
      exact hText.symm
  · rintro rfl
    refine ⟨message, ?_, hMessage, hContent⟩
    rw [hMessages]
    exact List.mem_append_right _ (List.mem_singleton_self _)

/-
  A checked body that is committed cites soundly if and only
  if no marker of it is made and none is lost.
-/
theorem soundly_of_commit
    {body : Text}
    {citedEff : List (Text × EffDate)}
    {rs : RunState}
    {linked : List CitationId}
    (hKnown : LinksKnown db)
    (hIds : ∀ message ∈ db.messages, message.id < db.nextId)
    (hForged :
      ((citeFindall body).filter
          fun id => !RunService.isValid rs linked id) = [])
    (hCommit :
      commitAgentAnswer threadId runId
          (compose body (citeFindall body).eraseDups citedEff)
          (citeFindall body).eraseDups parentId model db =
        .ok (some row, db')) :
    CitesSoundly db' row.1 (RunService.isValid rs linked) ↔
      ∀ id, ¬ SplitMarker body id ∧ ¬ BuriedMarker body id := by
  have hValid :
      ∀ id ∈ citeFindall body,
        RunService.isValid rs linked id = true := by
    intro id hMem
    have hNot := List.filter_eq_nil_iff.mp hForged id hMem
    simpa using hNot
  have hPlain :
      ∀ id ∈ citeFindall body, isUuidText id = true := by
    intro id hMem
    rcases key_of_valid (hValid id hMem) with ⟨key, rfl⟩
    exact key.uuid
  have hLinked :
      ∀ id,
        (∃ key : CitationId,
            key.text = id ∧
              (row.1, key) ∈ db'.messageCitations) ↔
          id ∈ citeFindall body := by
    intro id
    rw [linked_of_commit hKnown ?_ hCommit, List.mem_eraseDups]
    intro found hFound
    exact key_of_valid (hValid found (List.mem_eraseDups.mp hFound))
  rw [← answer_ids_iff hPlain]
  constructor
  · rintro ⟨⟨text, hText, hIff, hInline⟩, -⟩
    rw [content_of_commit hIds hCommit] at hText
    subst hText
    exact
      ⟨fun id => (hIff id).trans (hLinked id),
        fun id => (hInline id).trans (hLinked id)⟩
  · rintro ⟨hIff, hInline⟩
    refine
      ⟨⟨_, (content_of_commit hIds hCommit).mpr rfl, ?_, ?_⟩, ?_⟩
    · exact fun id => (hIff id).trans (hLinked id).symm
    · exact fun id => (hInline id).trans (hLinked id).symm
    · intro key hKey
      exact
        hValid key.text
          ((hLinked key.text).mp ⟨key, rfl, hKey⟩)

end Commits

/-
  A draft without zero-width characters and without the signs
  that start an authority line makes and loses no marker.
-/
theorem faithful_draftBody
    {draft : Text}
    (hPlain : ∀ c ∈ draft, isPlain c = true)
    (id : Text) :
    ¬ SplitMarker (RunService.draftBody draft) id ∧
      ¬ BuriedMarker (RunService.draftBody draft) id := by
  apply faithful_of_plain
  split
  · exact
      List.all_eq_true.mp
        (show noAnswer.all isPlain = true by decide +kernel)
  · exact hPlain

/- Minor calls commit no answer. -/
theorem committed_of_minor
    {moments : List DriverMoment}
    (hCalls :
      ∀ op reply,
        Moment.called op reply ∈ moments → op.minor = true) :
    moments.findSome? committed = none := by
  refine List.findSome?_eq_none_iff.mpr ?_
  intro moment hMem
  cases moment with
  | called op reply =>
      have hOp := hCalls op reply hMem
      cases op <;> first | rfl | cases hOp
  | taken event => rfl
  | closed event => rfl

/- The messages and their links are as they were. -/
structure SameLinks (db db' : Db) : Prop where
  messages : db'.messages = db.messages
  links : db'.messageCitations = db.messageCitations

/- A number that is drawn for an event changes no message. -/
theorem sameLinks_of_emit
    {inst : InstanceId}
    {data : EventData}
    {threadId : ThreadId}
    {world last : World}
    {moments : List DriverMoment}
    {result : Except Exn Unit}
    (hRuns :
      Gen.Runs (driverMachine inst)
        (RunService.emit data threadId) world moments result
        last) :
    SameLinks world.db last.db := by
  rcases runs_driverCall hRuns with
    ⟨exn, rfl, rfl, rfl, -, -⟩ |
      ⟨seq, middle, after, rfl, hNext, hAfter⟩
  · exact ⟨rfl, rfl⟩
  · have hFrame := frames_of_exec hNext
    have hLast : last = middle := by
      cases hAfter with
      | taken hRest => exact (Gen.runs_ret hRest).2.2
      | closed hRest => exact (Gen.runs_ret hRest).2.2
    rw [hLast]
    exact ⟨hFrame.messages rfl, hFrame.links rfl⟩

/- What an answer cites is in its message and its links. -/
theorem soundly_of_same
    {db db' : Db}
    {messageId : MessageId}
    {valid : Text → Bool}
    (hSame : SameLinks db db') :
    CitesSoundly db' messageId valid ↔
      CitesSoundly db messageId valid := by
  constructor
  · rintro ⟨hContent, hValid⟩
    rw [hSame.messages, hSame.links] at hContent
    rw [hSame.links] at hValid
    exact ⟨hContent, hValid⟩
  · rintro ⟨hContent, hValid⟩
    rw [← hSame.messages, ← hSame.links] at hContent
    rw [← hSame.links] at hValid
    exact ⟨hContent, hValid⟩

/-
  Whenever a driver commits an answer, the answer cites
  soundly if and only if no marker of its draft, in normal
  form, is made by what is left out of the draft and none is
  lost with it.
-/
theorem answer_cites_soundly
    {registry : Registry}
    {allowed : System → Action → Prop}
    {system : System}
    (hReachable : Reachable registry allowed system)
    {inst : InstanceId}
    {rs : RunState}
    {threadId : ThreadId}
    {moments : List DriverMoment}
    {result : Except Exn Unit}
    {last : World}
    (hRuns :
      Gen.Runs (driverMachine inst)
        (RunService.finalize rs threadId) system.world moments
        result last)
    {messageId : MessageId}
    (hCommitted : moments.findSome? committed = some messageId) :
    CitesSoundly last.db messageId
        (RunService.isValid rs
          (system.world.db.threadCitations threadId)) ↔
      ∀ id,
        ¬ SplitMarker (RunService.draftBody rs.draft) id ∧
          ¬ BuriedMarker (RunService.draftBody rs.draft) id := by
  simp only [RunService.finalize] at hRuns
  rcases runs_driverCall hRuns with
    ⟨exn, rfl, rfl, rfl, -, -⟩ |
      ⟨linked, middle, after, rfl, hCited, hAfter⟩
  · cases hCommitted
  cases hCited
  split at hAfter
  · rcases runs_driverCall hAfter with
      ⟨exn, rfl, rfl, rfl, -, -⟩ |
        ⟨won, ended, rest, rfl, hEnd, hRest⟩
    · cases hCommitted
    · cases won with
      | false =>
          rcases Gen.runs_ret hRest with ⟨rfl, rfl, rfl⟩
          cases hCommitted
      | true =>
          rcases runs_minor (minor_emit _ threadId) hRest with
            ⟨-, hCalls, -, -⟩
          have hNone := committed_of_minor hCalls
          have hSome : rest.findSome? committed = some messageId :=
            hCommitted
          rw [hNone] at hSome
          cases hSome
  · rename_i hForged
    rcases runs_driverCall hAfter with
      ⟨exn, rfl, rfl, rfl, -, -⟩ |
        ⟨row, ended, rest, rfl, hCommit, hRest⟩
    · cases hCommitted
    · cases row with
      | none =>
          rcases Gen.runs_ret hRest with ⟨rfl, rfl, rfl⟩
          cases hCommitted
      | some row =>
          have hRow : row.1 = messageId :=
            Option.some_inj.mp hCommitted
          subst hRow
          have hSame : SameLinks ended.db last.db := by
            rcases Gen.runs_yield hRest with
              ⟨-, -, rfl⟩ | ⟨more, -, hMore⟩
            · exact ⟨rfl, rfl⟩
            · exact sameLinks_of_emit hMore
          have hFormed := wellFormed_of_reachable hReachable
          have hIds :
              ∀ message ∈ system.world.db.messages,
                message.id < system.world.db.nextId := by
            intro message hMem
            exact
              hFormed.slotIds message.slot
                (List.mem_map_of_mem hMem)
          have hNoForged :
              ((citeFindall
                    (RunService.draftBody rs.draft)).filter
                  fun id =>
                    !RunService.isValid rs
                      (system.world.db.threadCitations threadId)
                      id) =
                [] := by
            simpa using hForged
          rw [soundly_of_same hSame]
          exact
            soundly_of_commit (linksKnown_of_reachable hReachable)
              hIds hNoForged (statement_of_onDb hCommit)

------------------------------------------------------------
-- Recorded Answers
------------------------------------------------------------

/- A run whose question is stored. -/
def askedRun : List Action :=
  [.request 0 0 (.createThread none)] ++ turns 0 1 ++
    [.request 1 0 (.start 0 [] none [])] ++ turns 1 6

/- The final answer of the run with a draft. -/
def finalizing
    (frozen : List CitationId)
    (draft : Text) :
    Driver Unit :=
  RunService.finalize
    { RunState.fresh 1 none none with
      frozen := frozen
      draft := draft } 0

/- A run whose tool has found an article. -/
def findingRun : List Action :=
  [.request 0 0 (.createThread none)] ++ turns 0 1 ++
    [.request 1 0
      (.start 0 [] none
        [.agent (.str []) (toolCalls ["a"]),
          .tools fun _ => ⟨.str [], .context [foundArticle]⟩])] ++
    turns 1 20

/- Its draft cites the article, with a marker to rewrite. -/
def citingDraft : Text :=
  "근거 [[CITE: x ]]".toList

/- The answer of `citingDraft` cites its article soundly. -/
theorem answer_cites_soundly_plain :
    ∃ system last,
      execute (System.step .single) findingRun .initial =
          some system ∧
        (5, foundArticle.id) ∈ last.messageCitations ∧
          CitesSoundly last 5
            (RunService.isValid
              { RunState.fresh 1 none none with
                frozen := [foundArticle.id] }
              (system.world.db.threadCitations 0)) := by
  rcases
      exists_of_execute
        (show
          (execute (System.step .single) findingRun .initial).map
              (fun system =>
                let run :=
                  (finalizing [foundArticle.id]
                    citingDraft).record (driverMachine 0) []
                    system.world
                (run.1.findSome? committed,
                  decide
                    ((5, foundArticle.id) ∈
                      run.2.2.db.messageCitations))) =
            some (some 5, true) by
          decide +kernel) with
    ⟨system, hSystem, hView⟩
  rw [Prod.mk.injEq, decide_eq_true_eq] at hView
  rcases hView with ⟨hCommitted, hLinked⟩
  exact
    ⟨system, _, hSystem, hLinked,
      (answer_cites_soundly (execution_of_execute hSystem)
        (Gen.runs_record
          (finalizing [foundArticle.id] citingDraft) [] _)
        hCommitted).mpr
        (faithful_draftBody
          (List.all_eq_true.mp
            (show citingDraft.all isPlain = true by
              decide +kernel)))⟩

/- A marker that a zero-width character splits. -/
def splitMarker : Text :=
  "[[ci\u200bte:x]]".toList

/- Its answer shows a citation that it is not linked with. -/
theorem answer_cites_unsoundly :
    ¬ ∀ (registry : Registry) (system : System)
        (inst : InstanceId) (rs : RunState)
        (threadId : ThreadId) (moments : List DriverMoment)
        (result : Except Exn Unit) (last : World)
        (messageId : MessageId),
      Reachable registry (fun _ _ => True) system →
        Gen.Runs (driverMachine inst)
            (RunService.finalize rs threadId) system.world
            moments result last →
          moments.findSome? committed = some messageId →
            CitesSoundly last.db messageId
              (RunService.isValid rs
                (system.world.db.threadCitations threadId)) := by
  intro hSound
  obtain ⟨system, hSystem, hView⟩ :=
    exists_of_execute
      (show
        (execute (System.step .single) askedRun .initial).map
            (fun system =>
              let run :=
                (finalizing [] splitMarker).record (driverMachine 0)
                  [] system.world
              (run.1.findSome? committed,
                run.2.2.db.messageCitations.isEmpty,
                run.2.2.db.messages.all fun message =>
                  message.id != 3 ||
                    message.contentMd.all fun text =>
                      (citeFindall text).contains ['x'])) =
          some (some 3, true, true) by
        decide +kernel)
  simp only [Prod.mk.injEq, List.isEmpty_iff, List.all_eq_true]
    at hView
  rcases hView with ⟨hCommitted, hLinks, hTexts⟩
  rcases
      hSound .single system 0 _ 0 _ _ _ 3
        (execution_of_execute hSystem)
        (Gen.runs_record (finalizing [] splitMarker) [] _)
        hCommitted with
    ⟨⟨text, ⟨message, hMem, hId, hText⟩, hIff, -⟩, -⟩
  have hShown := hTexts message hMem
  simp only [hId, hText, bne_self_eq_false, Bool.false_or,
    Option.all_some, List.contains_iff_mem] at hShown
  rcases (hIff ['x']).mp hShown with ⟨key, -, hKey⟩
  have hNil := hLinks ▸ hKey
  cases hNil

end LegalAgent
