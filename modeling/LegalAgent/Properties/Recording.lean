import LegalAgent.Library.Rely
import LegalAgent.Properties.Citations
import LegalAgent.System.Records

/-
  What calls record, and how the tasks share the store.

  No call takes back what is recorded in the rows, and a call
  that succeeds leaves or finds something there.  A task may
  log an event once it is recorded.

  Key definitions include:
    * `Op.learns`
    * `storeRely`
    * `Driver.Recorded`
    * `Driver.Tells`

  Key theorems include:
    * `retains_of_exec`
    * `learns_of_exec`
    * `recorded_call`
    * `recorded_emit`
-/

------------------------------------------------------------
-- Executed Calls
------------------------------------------------------------

namespace LegalAgent

open Library

/- A call that freezes no article leaves the articles. -/
theorem citations_of_exec
    {inst : InstanceId}
    {op : Op}
    {world world' : World}
    {value : op.Reply}
    (hExec : exec inst op world = (.ok value, world')) :
    world'.db.citations = world.db.citations ∨
      ∃ ref,
        op = .freezeCitation ref ∧
          world'.db.citations =
            world.db.citations.insert ref.id ref.freeze := by
  cases op with
  | freezeCitation ref =>
      cases hExec
      exact Or.inr ⟨ref, rfl, rfl⟩
  | openRun threadId model =>
      rcases of_openRun (statement_of_onDb hExec) with
        ⟨-, -, -, hDb⟩
      rw [hDb]
      exact Or.inl rfl
  | setRunStatus runId status ended =>
      rcases of_setRunStatus (statement_of_onDb hExec) with
        ⟨-, hDb⟩ | ⟨run, -, -, hDb⟩
      · rw [hDb]
        exact Or.inl rfl
      · rw [hDb]
        exact Or.inl rfl
  | tryTransition runId fromStatus toStatus ended =>
      rcases of_tryTransition (statement_of_onDb hExec) with
        ⟨-, -, hDb⟩ | ⟨-, run, -, -, -, hDb⟩
      · rw [hDb]
        exact Or.inl rfl
      · rw [hDb]
        exact Or.inl rfl
  | nextSeq threadId =>
      rcases of_nextSeq (statement_of_onDb hExec) with
        ⟨_, -, -, hDb⟩
      rw [hDb]
      exact Or.inl rfl
  | addMessage threadId new =>
      rcases value with ⟨messageId, seq⟩
      rcases of_insertMessage (statement_of_onDb hExec) with
        ⟨-, thread, db₁, -, -, hNext, -, hDb⟩
      rcases of_nextSeq hNext with ⟨_, -, -, rfl⟩
      rw [hDb]
      exact Or.inl rfl
  | commitAgentAnswer threadId runId contentMd citationIds
      parentId model =>
      rcases of_commitAgentAnswer (statement_of_onDb hExec) with
        ⟨-, -, hDb⟩ |
          ⟨messageId, seq, links, db₁, -, -, hInsert, hDb⟩
      · rw [hDb]
        exact Or.inl rfl
      · rcases of_insertMessage hInsert with
          ⟨-, thread, db₂, -, -, hNext, -, rfl⟩
        rcases of_nextSeq hNext with ⟨_, -, -, rfl⟩
        rw [hDb]
        exact Or.inl rfl
  | forkThread parentId forkPoint =>
      rcases of_forkThread (statement_of_onDb hExec) with
        ⟨-, message, -, -, -, hDb⟩
      rw [hDb]
      exact Or.inl rfl
  | graphNext threadId state step =>
      have hNext :
          graphNext threadId state step world.db =
            .ok (value, world'.db) :=
        statement_of_onDb hExec
      generalize world'.db = db' at hNext ⊢
      unfold graphNext at hNext
      repeat' split at hNext
      all_goals cases hNext
      all_goals exact Or.inl rfl
  | approvePartial threadId approved =>
      have hApprove :
          approvePartial threadId approved world.db =
            .ok (value, world'.db) :=
        statement_of_onDb hExec
      generalize world'.db = db' at hApprove ⊢
      unfold approvePartial at hApprove
      dsimp only at hApprove
      repeat' split at hApprove
      all_goals cases hApprove
      all_goals exact Or.inl rfl
  | appendRunEvent threadId runId event =>
      cases hExec
      change
        (world.db.appendEvent threadId runId event).citations =
            _ ∨ _
      unfold Db.appendEvent
      split <;> exact Or.inl rfl
  | cancelsSetdefault runId =>
      simp only [exec] at hExec
      split at hExec <;> cases hExec
      all_goals exact Or.inl rfl
  | _ =>
      cases hExec
      exact Or.inl rfl

/- The records once a call has added a message. -/
theorem messageRecords_of_insert
    {threadId : ThreadId}
    {new : NewMessage}
    {db db' : Db}
    {row : MessageId × Nat}
    (hInsert :
      insertMessage threadId new db = .ok (row, db')) :
    db'.messageRecords =
      db.messageRecords ++
        [(new.toMessage row.1 threadId row.2).record] := by
  rcases row with ⟨messageId, seq⟩
  rcases of_insertMessage hInsert with
    ⟨-, thread, db₁, -, -, -, -, rfl⟩
  exact List.map_append

/- The records once an answer is committed. -/
theorem messageRecords_of_commit
    {threadId : ThreadId}
    {runId : RunId}
    {contentMd : Text}
    {citationIds : List Text}
    {parentId : Option MessageId}
    {model : Option Text}
    {db db' : Db}
    {row : MessageId × Nat}
    (hCommit :
      commitAgentAnswer threadId runId contentMd citationIds
          parentId model db =
        .ok (some row, db')) :
    db'.messageRecords =
      db.messageRecords ++
        [((agentMessage runId contentMd parentId
            model).toMessage row.1 threadId row.2).record] := by
  rcases of_commitAgentAnswer hCommit with
    ⟨hNone, -, -⟩ |
      ⟨messageId, seq, links, db₁, hRow, -, hInsert, hDb⟩
  · cases hNone
  · cases hRow
    have hRecords := messageRecords_of_insert hInsert
    rw [hDb]
    exact hRecords

/- What a call with its reply records of new messages. -/
def Op.stored : (op : Op) → op.Reply → List MessageRecord
| .addMessage threadId new, row =>
    [(new.toMessage row.1 threadId row.2).record]
| .commitAgentAnswer threadId runId contentMd _ parentId model,
    some row =>
    [((agentMessage runId contentMd parentId model).toMessage
        row.1 threadId row.2).record]
| _, _ => []

/- Calls only add to what is recorded of the messages. -/
theorem messageRecords_of_exec
    {inst : InstanceId}
    {op : Op}
    {world world' : World}
    {value : op.Reply}
    (hExec : exec inst op world = (.ok value, world')) :
    world'.db.messageRecords =
      world.db.messageRecords ++ op.stored value := by
  cases op with
  | addMessage threadId new =>
      exact messageRecords_of_insert (statement_of_onDb hExec)
  | commitAgentAnswer threadId runId contentMd citationIds
      parentId model =>
      cases value with
      | none =>
          refine Eq.trans ?_ (List.append_nil _).symm
          rw [Db.messageRecords,
            (frames_of_exec hExec).messages rfl,
            Db.messageRecords]
      | some row =>
          exact
            messageRecords_of_commit (statement_of_onDb hExec)
  | setToolResult runId toolCallId toolResult =>
      cases hExec
      refine Eq.trans ?_ (List.append_nil _).symm
      exact messageRecords_update _ _ fun _ => rfl
  | markPartialApproval runId rejectedIds marker =>
      cases hExec
      refine Eq.trans ?_ (List.append_nil _).symm
      have hRejected :
          (world.db.rejectCells runId rejectedIds
              marker).messageRecords =
            world.db.messageRecords :=
        messageRecords_update _ _ fun _ => rfl
      rw [← hRejected]
      exact messageRecords_update _ _ fun _ => rfl
  | resolveOrphanToolCells runId marker =>
      cases hExec
      refine Eq.trans ?_ (List.append_nil _).symm
      exact messageRecords_update _ _ fun _ => rfl
  | setPendingApproval runId state =>
      cases hExec
      refine Eq.trans ?_ (List.append_nil _).symm
      exact messageRecords_update _ _ fun _ => rfl
  | _ =>
      refine Eq.trans ?_ (List.append_nil _).symm
      rw [Db.messageRecords, (frames_of_exec hExec).messages rfl,
        Db.messageRecords]

/- No call takes back what is recorded of a run. -/
theorem runs_retained
    {db db' : Db}
    {op : Op}
    {value : op.Reply}
    (hChanges : ChangesRuns db db' op value)
    (runId : RunId)
    (run : Run)
    (hRun : db.runs.get? runId = some run) :
    ∃ run',
      db'.runs.get? runId = some run' ∧ run.Retained run' := by
  have hWritten :
      ∀ other status ended,
        db'.runs = (db.writeStatus other status ended).runs →
          ∃ run',
            db'.runs.get? runId = some run' ∧
              run.Retained run' := by
    intro other status ended hRuns
    rw [runs_writeStatus] at hRuns
    exact
      retained_update hRuns
        (fun run => retained_transition run _ _ _) runId run
        hRun
  have hSame :
      db'.runs = db.runs →
        ∃ run',
          db'.runs.get? runId = some run' ∧
            run.Retained run' := by
    intro hRuns
    exact ⟨run, by rw [hRuns, hRun], retained_refl run⟩
  cases hChanges with
  | opened _ _ hRuns =>
      refine ⟨run, ?_, retained_refl run⟩
      rw [hRuns]
      exact get?_of_inserted hRun _ _
  | set _ _ hRuns => exact hWritten _ _ _ hRuns
  | missing _ hRuns => exact hSame hRuns
  | moved _ _ _ hRuns => exact hWritten _ _ _ hRuns
  | committed _ _ hRuns => exact hWritten _ _ _ hRuns
  | kept _ hRuns => exact hSame hRuns

/- No call takes back what is recorded. -/
theorem retains_of_exec
    {inst : InstanceId}
    {op : Op}
    {world world' : World}
    {value : op.Reply}
    (hExec : exec inst op world = (.ok value, world')) :
    Retains world.db world'.db where
  runs := runs_retained (changesRuns_of_exec hExec)
  messages := by
    intro record hRecord
    rw [messageRecords_of_exec hExec]
    exact List.mem_append_left _ hRecord
  links := by
    intro link hLink
    rcases links_of_exec hExec with
      hSame | ⟨_, _, _, _, _, _, row, hCommit⟩
    · rwa [hSame]
    · rcases links_of_commit hCommit with ⟨-, -, hLinks, -⟩
      exact (hLinks link).mpr (Or.inl hLink)
  citations := by
    intro id hCitation
    rcases citations_of_exec hExec with hSame | ⟨ref, -, hNew⟩
    · rwa [hSame]
    · rcases Option.isSome_iff_exists.mp hCitation with
        ⟨citation, hGet⟩
      rw [hNew, get?_of_inserted hGet]
      rfl

------------------------------------------------------------
-- What Calls Learn
------------------------------------------------------------

/- What a successful call leaves or finds in the rows. -/
def Op.learns (db : Db) : (op : Op) → op.Reply → Prop
| .openRun threadId model, runId =>
    db.hasRun runId threadId ∧ db.hasModel runId model
| .getActiveRun threadId, some (runId, _) =>
    db.hasRun runId threadId
| .getRun runId, some (threadId, _) =>
    db.hasRun runId threadId
| .tryTransition runId _ _ true, true => db.hasEnd runId
| .addMessage threadId new, row =>
    (new.toMessage row.1 threadId row.2).record ∈
      db.messageRecords
| .commitAgentAnswer threadId runId contentMd citationIds
    parentId model, some row =>
    db.hasEnd runId ∧
      ((agentMessage runId contentMd parentId
          model).toMessage row.1 threadId row.2).record ∈
        db.messageRecords ∧
      ∀ cite ∈ citationIds, db.cites row.1 cite
| .freezeCitation ref, _ =>
    (db.citations.get? ref.id).isSome = true
| .getPendingToolCalls runId, calls =>
    ∀ call ∈ calls, db.hasCell runId call
| _, _ => True

/- A run whose status was written with an end has one. -/
theorem hasEnd_of_written
    {db db' : Db}
    {runId : RunId}
    {status : RunStatus}
    {run : Run}
    (hRun : db.runs.get? runId = some run)
    (hRuns :
      db'.runs = (db.writeStatus runId status true).runs) :
    db'.hasEnd runId := by
  refine ⟨run.transition status true db.now, ?_, rfl⟩
  rw [hRuns, get?_writeStatus, if_pos rfl, hRun]
  rfl

/- Citations that were linked are frozen. -/
theorem frozen_of_linkCitations
    {messageId : MessageId}
    {ids : List Text}
    {db db' : Db}
    (hLink :
      ids.foldlM (fun db id => linkCitation messageId id db)
          db =
        .ok db') :
    db'.citations = db.citations ∧
      ∀ id ∈ ids,
        ∃ key : CitationId,
          key.text = id ∧
            (db.citations.get? key).isSome = true := by
  induction ids generalizing db with
  | nil =>
      cases hLink
      exact ⟨rfl, fun _ hMem => by cases hMem⟩
  | cons id ids ih =>
      simp only [List.foldlM_cons, bind, Except.bind] at hLink
      split at hLink
      · cases hLink
      · rename_i db₁ hOne
        rcases ih hLink with ⟨hSame, hRest⟩
        unfold linkCitation at hOne
        split at hOne
        · cases hOne
        · rename_i key hKey
          have hFrozen :
              key.text = id ∧
                (db.citations.get? key).isSome = true := by
            have hFound := List.find?_some hKey
            refine ⟨beq_iff_eq.mp hFound, ?_⟩
            have hMem := List.mem_of_find?_eq_some hKey
            rcases List.mem_map.mp hMem with ⟨row, hRow, rfl⟩
            rw [Table.get?_of_mem hRow]
            rfl
          have hCitations : db₁.citations = db.citations := by
            split at hOne <;> cases hOne <;> rfl
          rw [hCitations] at hSame hRest
          refine ⟨hSame, ?_⟩
          intro other hOther
          rcases List.mem_cons.mp hOther with rfl | hOther
          · exact ⟨key, hFrozen⟩
          · exact hRest other hOther

/- A committed answer cites frozen articles. -/
theorem cites_of_commit
    {threadId : ThreadId}
    {runId : RunId}
    {contentMd : Text}
    {citationIds : List Text}
    {parentId : Option MessageId}
    {model : Option Text}
    {db db' : Db}
    {row : MessageId × Nat}
    (hCommit :
      commitAgentAnswer threadId runId contentMd citationIds
          parentId model db =
        .ok (some row, db'))
    (cite : Text)
    (hCite : cite ∈ citationIds) :
    db'.cites row.1 cite := by
  rcases links_of_commit hCommit with ⟨-, -, hLinks, -⟩
  unfold commitAgentAnswer at hCommit
  split at hCommit
  · cases hCommit
  · dsimp only at hCommit
    split at hCommit
    · cases hCommit
    · split at hCommit
      · cases hCommit
      · rename_i db₂ hLink
        cases hCommit
        rcases frozen_of_linkCitations hLink with
          ⟨hCitations, hFrozen⟩
        rcases hFrozen cite hCite with ⟨key, hText, hKey⟩
        refine ⟨key, hText, ?_, by rwa [hCitations]⟩
        rw [hLinks]
        right
        exact ⟨rfl, by rwa [hText]⟩

/- The pending calls of a run are those of its cells. -/
theorem hasCell_of_pending
    {db : Db}
    {runId : RunId}
    {call : ToolCall}
    (hCall : call ∈ db.pendingToolCalls runId) :
    db.hasCell runId call := by
  rcases List.mem_map.mp hCall with ⟨message, hMem, rfl⟩
  rw [bySeq, List.mem_insertionSort, List.mem_filter] at hMem
  rcases hMem with ⟨hMem, hPending⟩
  simp only [Message.isPendingOf, Message.isCellOf,
    Bool.and_eq_true, beq_iff_eq] at hPending
  exact
    ⟨message.record, List.mem_map_of_mem hMem, hPending.1.1,
      hPending.1.2, rfl⟩

/- A successful call leaves what it is said to learn. -/
theorem learns_of_exec
    {inst : InstanceId}
    {op : Op}
    {world world' : World}
    {value : op.Reply}
    (hExec : exec inst op world = (.ok value, world'))
    (hFresh :
      world.db.runs.get? world.db.nextId = none) :
    op.learns world'.db value := by
  cases op with
  | openRun threadId model =>
      rcases of_openRun (statement_of_onDb hExec) with
        ⟨rfl, -, -, hDb⟩
      have hRun :
          world'.db.runs.get? world.db.nextId =
            some
              { threadId := threadId
                status := .running
                startedAt := world.db.now
                endedAt := none
                heartbeatAt := world.db.now
                model := model } := by
        rw [hDb]
        exact
          (Table.get?_insert hFresh _ _).trans (if_pos rfl)
      refine ⟨?_, ⟨_, hRun, rfl⟩⟩
      rw [Db.hasRun, hRun]
      rfl
  | getActiveRun threadId =>
      rcases value with _ | ⟨runId, status⟩
      · trivial
      · exact hasRun_of_getActiveRun hExec
  | getRun runId =>
      rcases value with _ | ⟨threadId, status⟩
      · trivial
      · exact hasRun_of_getRun hExec
  | tryTransition runId fromStatus toStatus ended =>
      rcases of_tryTransition (statement_of_onDb hExec) with
        ⟨rfl, -, -⟩ | ⟨rfl, run, hRun, -, -, hDb⟩
      · cases ended <;> trivial
      · cases ended with
        | false => trivial
        | true => exact hasEnd_of_written hRun (by rw [hDb])
  | addMessage threadId new =>
      have hInsert :
          insertMessage threadId new world.db =
            .ok (value, world'.db) :=
        statement_of_onDb hExec
      change _ ∈ world'.db.messageRecords
      rw [messageRecords_of_insert hInsert]
      exact List.mem_append_right _ (List.mem_singleton_self _)
  | commitAgentAnswer threadId runId contentMd citationIds
      parentId model =>
      cases value with
      | none => trivial
      | some row =>
          have hCommit :
              commitAgentAnswer threadId runId contentMd
                  citationIds parentId model world.db =
                .ok (some row, world'.db) :=
            statement_of_onDb hExec
          refine ⟨?_, ?_, cites_of_commit hCommit⟩
          · have hChanges := changesRuns_of_exec hExec
            cases hChanges with
            | committed hRun _ hRuns =>
                exact hasEnd_of_written hRun hRuns
            | kept hKept _ => cases hKept
          · rw [messageRecords_of_commit hCommit]
            exact
              List.mem_append_right _
                (List.mem_singleton_self _)
  | freezeCitation ref =>
      cases hExec
      change ((world.db.citations.insert ref.id _).get? _).isSome = _
      cases hOld : world.db.citations.get? ref.id with
      | some citation =>
          rw [get?_of_inserted hOld]
          rfl
      | none =>
          rw [Table.get?_insert hOld, if_pos rfl]
          rfl
  | getPendingToolCalls runId =>
      cases hExec
      intro call hCall
      exact hasCell_of_pending hCall
  | _ => trivial

/- What a call learned stays true. -/
theorem learns_of_retains
    {db db' : Db}
    {op : Op}
    {value : op.Reply}
    (hLearns : op.learns db value)
    (hRetains : Retains db db') :
    op.learns db' value := by
  cases op with
  | openRun threadId model =>
      exact
        ⟨hasRun_of_retains hLearns.1 hRetains,
          hasModel_of_retains hLearns.2 hRetains⟩
  | getActiveRun threadId =>
      rcases value with _ | ⟨runId, status⟩
      · trivial
      · exact hasRun_of_retains hLearns hRetains
  | getRun runId =>
      rcases value with _ | ⟨threadId, status⟩
      · trivial
      · exact hasRun_of_retains hLearns hRetains
  | tryTransition runId fromStatus toStatus ended =>
      cases ended with
      | false => trivial
      | true =>
          cases value with
          | false => trivial
          | true => exact hasEnd_of_retains hLearns hRetains
  | addMessage threadId new =>
      exact hRetains.messages _ hLearns
  | commitAgentAnswer threadId runId contentMd citationIds
      parentId model =>
      cases value with
      | none => trivial
      | some row =>
          rcases hLearns with ⟨hEnd, hRecord, hCites⟩
          exact
            ⟨hasEnd_of_retains hEnd hRetains,
              hRetains.messages _ hRecord,
              fun cite hCite =>
                cites_of_retains (hCites cite hCite) hRetains⟩
  | freezeCitation ref => exact hRetains.citations _ hLearns
  | getPendingToolCalls runId =>
      intro call hCall
      exact hasCell_of_retains (hLearns call hCall) hRetains
  | _ => trivial

------------------------------------------------------------
-- Rules
------------------------------------------------------------

/-
  How the tasks share the store: they retain what is recorded,
  and an event is logged once it is recorded.
-/
def storeRely : Rely Db Op Op.Reply Exn where
  grows := Retains
  refl := retains_refl
  trans := retains_trans
  posts op db reply db' :=
    Retains db db' ∧ ∀ value, reply = .ok value → op.learns db' value
  posts_grows hPosts := hPosts.1
  needs db op :=
    match op with
    | .appendRunEvent threadId _ event =>
        Records db threadId event
    | _ => True

/- A generator yields what is recorded in its thread. -/
abbrev Driver.Recorded
    {α : Type}
    (threadId : ThreadId)
    (pre : Db → Prop)
    (program : Driver α)
    (post : Except Exn α → Db → Prop) :
    Prop :=
  storeRely.Triple (fun db event => Records db threadId event)
    pre program post

/- A task logs what is recorded; it may send any event. -/
abbrev Driver.Tells
    {α : Type}
    (pre : Db → Prop)
    (program : Driver α)
    (post : Except Exn α → Db → Prop) :
    Prop :=
  storeRely.Triple (fun _ _ => True) pre program post

section Rules

variable {α : Type}
variable {shows : Db → RunEvent → Prop}
variable {pre : Db → Prop} {op : Op}

/- A call that logs nothing needs nothing. -/
theorem needs_of_quiet
    (hLogs : op.logs = false)
    (db : Db) :
    storeRely.needs db op := by
  cases op with
  | appendRunEvent threadId runId event => cases hLogs
  | _ => trivial

/- A stable assertion and what was learned hold after a call. -/
theorem learned_after
    {value : op.Reply}
    {db : Db}
    (hStable : storeRely.Stable pre)
    (hAfter : storeRely.after pre op (.ok value) db) :
    pre db ∧ op.learns db value := by
  refine ⟨Rely.of_after hStable hAfter, ?_⟩
  rcases hAfter with ⟨first, middle, -, hPosts, hGrows⟩
  exact learns_of_retains (hPosts.2 value rfl) hGrows

/- What a call learned is stable. -/
theorem stable_learned
    (hStable : storeRely.Stable pre)
    (value : op.Reply) :
    storeRely.Stable fun db => pre db ∧ op.learns db value :=
  hStable.and fun _ _ => learns_of_retains

/- Whether a run exists is stable. -/
theorem stable_hasRun
    (runId : RunId)
    (threadId : ThreadId) :
    storeRely.Stable fun db => db.hasRun runId threadId :=
  fun _ _ => hasRun_of_retains

theorem stable_true : storeRely.Stable fun _ => True :=
  fun _ _ _ _ => trivial

/- The rule of a call that logs nothing. -/
theorem recorded_call
    {post : Except Exn α → Db → Prop}
    {next : op.Reply → Driver α}
    (hStable : storeRely.Stable pre)
    (hLogs : op.logs = false)
    (hNext :
      ∀ value,
        storeRely.Triple shows
          (fun db => pre db ∧ op.learns db value) (next value)
          post)
    (hError : ∀ exn db, pre db → post (.error exn) db) :
    storeRely.Triple shows pre (call op >>= next) post := by
  apply Rely.triple_call
  · intro db _
    exact needs_of_quiet hLogs db
  · intro value
    exact
      Rely.triple_mono (hNext value)
        (fun db => learned_after hStable) fun _ _ hPost => hPost
  · intro exn db hAfter
    exact hError exn db (Rely.of_after hStable hAfter)

/- The rule of a call whose reply is of no interest. -/
theorem recorded_skip
    {post : Except Exn α → Db → Prop}
    {next : op.Reply → Driver α}
    (hStable : storeRely.Stable pre)
    (hLogs : op.logs = false)
    (hNext : ∀ value, storeRely.Triple shows pre (next value) post)
    (hError : ∀ exn db, pre db → post (.error exn) db) :
    storeRely.Triple shows pre (call op >>= next) post := by
  apply recorded_call hStable hLogs ?_ hError
  intro value
  exact
    Rely.triple_mono (hNext value) (fun _ hPre => hPre.1)
      fun _ _ hPost => hPost

/- The rule of a last call that logs nothing. -/
theorem recorded_lastCall
    (hStable : storeRely.Stable pre)
    (hLogs : op.logs = false) :
    storeRely.Triple shows pre (call op) fun _ => pre := by
  refine
    Rely.triple_mono
      (Rely.triple_perform fun db _ => needs_of_quiet hLogs db)
      (fun _ hPre => hPre) ?_
  intro reply db hAfter
  exact Rely.of_after hStable hAfter

/- The rule of `_emit`. -/
theorem recorded_emit
    {threadId : ThreadId}
    {data : EventData}
    (hStable : storeRely.Stable pre)
    (hRecords :
      ∀ seq db, pre db → Records db threadId ⟨data, seq⟩) :
    (RunService.emit data threadId).Recorded threadId pre
      fun _ => pre := by
  refine recorded_skip hStable rfl ?_ fun _ _ hPre => hPre
  intro seq
  exact ⟨hRecords seq, fun _ _ hPre => hPre⟩

/- The rule of a program that is caught whatever it raises. -/
theorem recorded_caught
    {program handler : Driver α}
    {post : Except Exn α → Db → Prop}
    (hProgram : storeRely.Triple shows pre program post)
    (hHandler :
      ∀ exn,
        storeRely.Triple shows (post (.error exn)) handler
          post) :
    storeRely.Triple shows pre
      (RunService.exceptException program handler) post := by
  apply Rely.triple_tryCatch hProgram
  · intro value db hPost
    exact hPost
  · intro exn
    split
    · exact hHandler exn
    · intro db hPost
      exact hPost

end Rules

end LegalAgent
