import LegalAgent.Properties.FrozenArticles
import LegalAgent.Properties.Citations
import LegalAgent.Text.Authority

/-
  The version notice of a committed answer.

  The head of an answer shows the effective dates of the cited
  articles that its own task froze.  A task begins without
  any, so an article that was frozen in an earlier turn, or in
  the same run before a pause, has its date in the head only
  when the task froze another cited article of that date.

  Key definitions include:
    * `noticeOf`
    * `NoticeComplete`
    * `CoversDates`
    * `Traced`

  Key theorems include:
    * `noticeOf_compose`
    * `complete_iff_covers`
    * `notice_complete_iff`
-/

------------------------------------------------------------
-- Notices
------------------------------------------------------------

namespace LegalAgent

open Library

/- The distinct dates in their order. -/
def sortedDates (dates : List Text) : List Text :=
  dates.dedup.insertionSort (· ≤ ·)

/-
  The dates in the version header at the head of a text, if
  there is one: separated by commas, up to the end of the line.
-/
def noticeOf (text : Text) : Option (List Text) :=
  if versionHead <+: text then
    some
      ((((text.drop versionHead.length).takeWhile
          (· != '\n')).filter (· != ' ')).splitOn ',')
  else
    none

/- Two lists have the same sorted dates as the same sets. -/
theorem sortedDates_eq_iff
    {dates others : List Text} :
    sortedDates dates = sortedDates others ↔
      ∀ date, date ∈ dates ↔ date ∈ others := by
  constructor
  · intro hEq date
    have hMem :
        ∀ list : List Text,
          date ∈ sortedDates list ↔ date ∈ list := by
      intro list
      rw [sortedDates, List.mem_insertionSort, List.mem_dedup]
    rw [← hMem dates, hEq, hMem others]
  · intro hSame
    have hPerm : dates.dedup.Perm others.dedup := by
      rw [List.perm_ext_iff_of_nodup dates.nodup_dedup
        others.nodup_dedup]
      intro date
      rw [List.mem_dedup, List.mem_dedup, hSame]
    have hSorted :
        (sortedDates dates).Perm (sortedDates others) :=
      ((List.perm_insertionSort _ _).trans hPerm).trans
        (List.perm_insertionSort _ _).symm
    exact
      List.Perm.eq_of_pairwise
        (fun _ _ _ _ hLe hGe => le_antisymm hLe hGe)
        (List.pairwise_insertionSort _ _)
        (List.pairwise_insertionSort _ _) hSorted

/- Sorting keeps whether there is a date. -/
theorem sortedDates_eq_nil
    {dates : List Text} :
    sortedDates dates = [] ↔ dates = [] := by
  have hNil : sortedDates [] = [] := rfl
  constructor
  · intro hEq
    rw [← hNil, sortedDates_eq_iff] at hEq
    exact List.eq_nil_iff_forall_not_mem.mpr fun date hMem =>
      nomatch (hEq date).mp hMem
  · rintro rfl
    rfl

/- A date has no blank, no comma and no line break. -/
theorem EffDate.not_mem
    (date : EffDate)
    {c : Char}
    (hOther : (c.isDigit || c == '-') = false) :
    c ∉ date.text := by
  intro hMem
  have hChar := List.all_eq_true.mp date.dated c hMem
  rw [hOther] at hChar
  cases hChar

/- Joined dates without their blanks are split at commas. -/
theorem filter_joinWith
    {dates : List Text}
    (hDates : ∀ date ∈ dates, ' ' ∉ date) :
    (joinWith [',', ' '] dates).filter (· != ' ') =
      [','].intercalate dates := by
  induction dates with
  | nil => rfl
  | cons date dates ih =>
      have hDate :
          date.filter (· != ' ') = date := by
        apply List.filter_eq_self.mpr
        intro c hMem
        have hNe : c ≠ ' ' := by
          rintro rfl
          exact hDates date List.mem_cons_self hMem
        simpa using hNe
      have hRest :=
        ih fun other hOther =>
          hDates other (List.mem_cons_of_mem date hOther)
      cases dates with
      | nil => simpa [joinWith] using hDate
      | cons next dates =>
          rw [joinWith, List.filter_append, List.filter_append,
            hDate, hRest]
          · simp [List.intercalate]
          · exact List.cons_ne_nil next dates

/- The dates of a composed answer are effective dates. -/
theorem not_mem_effDates
    {cited : List Text}
    {citedEff : List (Text × EffDate)}
    {c : Char}
    (hOther : (c.isDigit || c == '-') = false) :
    ∀ date ∈ effDates cited citedEff, c ∉ date := by
  intro text hText
  rcases exists_of_mem_effDates hText with ⟨date, rfl⟩
  exact date.not_mem hOther

/- A composed answer, with its header if there are dates. -/
theorem compose_eq_header
    (body : Text)
    (cited : List Text)
    (citedEff : List (Text × EffDate)) :
    compose body cited citedEff =
      joinWith ['\n', '\n']
        (versionHeader (effDates cited citedEff) ++
          [composedBody body, disclaimer]) := by
  rw [compose_eq_composeTexts, composeTexts_eq,
    effDateTexts_dates]

/- A header that begins a text ends before a line break. -/
theorem versionHead_before_break
    {text more : Text}
    (hPrefix : versionHead <+: text ++ '\n' :: more) :
    versionHead <+: text := by
  have hBreak : '\n' ∉ versionHead := by decide
  rcases List.prefix_or_prefix_of_prefix hPrefix
    (List.prefix_append text ('\n' :: more)) with
    hBefore | ⟨rest, hRest⟩
  · exact hBefore
  · rw [← hRest, List.prefix_append_right_inj] at hPrefix
    cases rest with
    | nil =>
        rw [List.append_nil] at hRest
        rw [hRest]
    | cons c rest =>
        have hHead : c = '\n' :=
          (List.cons_prefix_cons.mp hPrefix).1
        rw [← hRest, hHead] at hBreak
        exact absurd
          (List.mem_append_right text List.mem_cons_self) hBreak

/- The body of an answer does not begin as a header does. -/
theorem not_versionHead_composedBody (body more : Text) :
    ¬versionHead <+: composedBody body ++ '\n' :: more := by
  intro hPrefix
  have hRead : readAuthorityLine versionHead ≠ none := by
    decide
  exact
    hRead
      (authorityFree_composedBody body versionHead
        (versionHead_before_break hPrefix).isInfix)

/- The notice of a composed answer shows its dates. -/
theorem noticeOf_compose
    (body : Text)
    (cited : List Text)
    (citedEff : List (Text × EffDate)) :
    noticeOf (compose body cited citedEff) =
      if effDates cited citedEff = [] then none
      else some (effDates cited citedEff) := by
  rw [compose_eq_header]
  unfold versionHeader
  split
  · rw [noticeOf, if_neg]
    simp only [List.nil_append, joinWith, List.append_assoc,
      List.cons_append]
    exact not_versionHead_composedBody body _
  · rename_i hSome
    have hLine :
        (joinWith [',', ' '] (effDates cited citedEff)).takeWhile
            (· != '\n') =
          joinWith [',', ' '] (effDates cited citedEff) := by
      apply List.takeWhile_eq_self_iff.mpr
      intro c hMem
      have hNe : c ≠ '\n' := by
        rintro rfl
        rcases mem_joinWith hMem with
          hSep | ⟨date, hDate, hChar⟩
        · exact absurd hSep (by decide)
        · exact not_mem_effDates (by decide) date hDate hChar
      simpa using hNe
    simp only [List.singleton_append, joinWith,
      List.append_assoc]
    rw [noticeOf, if_pos (List.prefix_append _ _),
      List.drop_left]
    simp only [List.cons_append, List.nil_append]
    rw [List.takeWhile_append, hLine, if_pos rfl,
      List.takeWhile_cons_of_neg (by decide), List.append_nil,
      filter_joinWith (not_mem_effDates (by decide)),
      List.splitOn_intercalate _
        (not_mem_effDates (by decide)) hSome]

------------------------------------------------------------
-- Answers And Their Dates
------------------------------------------------------------

/- The text of a message. -/
def Db.textOf (db : Db) (messageId : MessageId) : Option Text :=
  (db.messages.find? fun message =>
    message.id == messageId).bind Message.contentMd

/- The stored dates of the citations linked to a message. -/
def Db.linkedDates (db : Db) (messageId : MessageId) : List Text :=
  db.messageCitations.filterMap fun link =>
    if link.1 = messageId then
      (db.citations.get? link.2).map fun citation =>
        citation.effDate.text
    else
      none

/-
  The notice of a message shows exactly the dates of its
  citations, and there is none without a citation.
-/
def NoticeComplete (db : Db) (messageId : MessageId) : Prop :=
  ∃ text,
    db.textOf messageId = some text ∧
      noticeOf text =
        if db.linkedDates messageId = [] then none
        else some (sortedDates (db.linkedDates messageId))

/-
  The stored date of every cited article is the date of a
  cited article among the given ones, and the given ones that
  are cited have stored dates of cited articles.
-/
structure CoversDates
    (db : Db)
    (messageId : MessageId)
    (frozen : List LawRef) :
    Prop where
  stored :
    ∀ key citation,
      (messageId, key) ∈ db.messageCitations →
        db.citations.get? key = some citation →
          ∃ ref ∈ frozen,
            (messageId, ref.id) ∈ db.messageCitations ∧
              ref.effDate = citation.effDate
  shown :
    ∀ ref ∈ frozen,
      (messageId, ref.id) ∈ db.messageCitations →
        ∃ key citation,
          (messageId, key) ∈ db.messageCitations ∧
            db.citations.get? key = some citation ∧
              citation.effDate = ref.effDate

/- A message is an answer composed with the given articles. -/
structure Answered
    (db : Db)
    (messageId : MessageId)
    (frozen : List LawRef) :
    Prop where
  known : messageId < db.nextId
  once : (frozen.map LawRef.id).Nodup
  content :
    ∃ body citationIds,
      db.textOf messageId =
          some (compose body citationIds (datesOf frozen)) ∧
        ∀ key : CitationId,
          (messageId, key) ∈ db.messageCitations ↔
            key.text ∈ citationIds

theorem mem_linkedDates
    {db : Db}
    {messageId : MessageId}
    {date : Text} :
    date ∈ db.linkedDates messageId ↔
      ∃ key citation,
        (messageId, key) ∈ db.messageCitations ∧
          db.citations.get? key = some citation ∧
            citation.effDate.text = date := by
  rw [Db.linkedDates, List.mem_filterMap]
  constructor
  · rintro ⟨⟨other, key⟩, hLink, hDate⟩
    split at hDate
    · rename_i hSame
      rcases Option.map_eq_some_iff.mp hDate with
        ⟨citation, hCitation, hText⟩
      cases hSame
      exact ⟨key, citation, hLink, hCitation, hText⟩
    · cases hDate
  · rintro ⟨key, citation, hLink, hCitation, hText⟩
    exact
      ⟨(messageId, key), hLink, by simp [hCitation, hText]⟩

/- Looking a date up finds the article with the id. -/
theorem lookup_datesOf
    {frozen : List LawRef}
    (hOnce : (frozen.map LawRef.id).Nodup)
    (id : Text)
    (date : EffDate) :
    (datesOf frozen).lookup id = some date ↔
      ∃ ref ∈ frozen, ref.id.text = id ∧ ref.effDate = date := by
  induction frozen with
  | nil => simp [datesOf]
  | cons ref frozen ih =>
      rw [List.map_cons, List.nodup_cons] at hOnce
      rw [datesOf, List.map_cons, List.lookup_cons, ← datesOf]
      by_cases hId : id = ref.id.text
      · subst hId
        have hNone :
            ∀ other ∈ frozen, other.id.text ≠ ref.id.text := by
          intro other hOther hEq
          rw [CitationId.text_inj] at hEq
          exact hOnce.1 (hEq ▸ List.mem_map_of_mem hOther)
        rw [beq_self_eq_true, Option.some_inj]
        constructor
        · rintro rfl
          exact ⟨ref, List.mem_cons_self, rfl, rfl⟩
        · rintro ⟨other, hOther, hSame, hDate⟩
          rcases List.mem_cons.mp hOther with rfl | hOther
          · exact hDate
          · exact absurd hSame (hNone other hOther)
      · rw [beq_eq_false_iff_ne.mpr hId, ih hOnce.2]
        constructor
        · rintro ⟨other, hOther, hRest⟩
          exact ⟨other, List.mem_cons_of_mem ref hOther, hRest⟩
        · rintro ⟨other, hOther, hSame, hDate⟩
          rcases List.mem_cons.mp hOther with rfl | hOther
          · exact absurd hSame.symm hId
          · exact ⟨other, hOther, hSame, hDate⟩

/- The dates that an answer shows are those of its articles. -/
theorem mem_effDates
    {frozen : List LawRef}
    (hOnce : (frozen.map LawRef.id).Nodup)
    {cited : List Text}
    {date : Text} :
    date ∈
        (cited.filterMap fun id =>
          (datesOf frozen).lookup id).map EffDate.text ↔
      ∃ ref ∈ frozen,
        ref.id.text ∈ cited ∧ ref.effDate.text = date := by
  simp only [List.mem_map, List.mem_filterMap,
    lookup_datesOf hOnce]
  constructor
  · rintro ⟨_, ⟨_, hCited, ref, hRef, rfl, rfl⟩, rfl⟩
    exact ⟨ref, hRef, hCited, rfl⟩
  · rintro ⟨ref, hRef, hCited, rfl⟩
    exact ⟨_, ⟨_, hCited, ref, hRef, rfl, rfl⟩, rfl⟩

/-
  The notice of an answer is complete if and only if the
  articles that it was composed with cover its dates.
-/
theorem complete_iff_covers
    {db : Db}
    {messageId : MessageId}
    {frozen : List LawRef}
    (hAnswered : Answered db messageId frozen) :
    NoticeComplete db messageId ↔
      CoversDates db messageId frozen := by
  rcases hAnswered with ⟨-, hOnce, body, cited, hText, hLinks⟩
  have hSorted :
      NoticeComplete db messageId ↔
        effDates cited (datesOf frozen) =
          sortedDates (db.linkedDates messageId) := by
    have hNil := @sortedDates_eq_nil (db.linkedDates messageId)
    simp only [NoticeComplete, hText, Option.some_inj,
      exists_eq_left', noticeOf_compose, ← hNil]
    constructor
    · intro hEq
      split at hEq <;> split at hEq
      · simp_all
      · cases hEq
      · cases hEq
      · exact Option.some_inj.mp hEq
    · intro hEq
      rw [hEq]
  rw [hSorted, effDates, ← sortedDates, sortedDates_eq_iff]
  simp only [mem_effDates hOnce, mem_linkedDates, ← hLinks]
  constructor
  · intro hSame
    refine ⟨?_, ?_⟩
    · intro key citation hLink hCitation
      rcases
          (hSame citation.effDate.text).mpr
            ⟨key, citation, hLink, hCitation, rfl⟩ with
        ⟨ref, hRef, hCited, hDate⟩
      exact ⟨ref, hRef, hCited, EffDate.text_inj.mp hDate⟩
    · intro ref hRef hLink
      rcases
          (hSame ref.effDate.text).mp ⟨ref, hRef, hLink, rfl⟩ with
        ⟨key, citation, hKey, hCitation, hDate⟩
      exact
        ⟨key, citation, hKey, hCitation,
          EffDate.text_inj.mp hDate⟩
  · rintro ⟨hStored, hShown⟩ date
    constructor
    · rintro ⟨ref, hRef, hLink, rfl⟩
      rcases hShown ref hRef hLink with
        ⟨key, citation, hKey, hCitation, hDate⟩
      exact ⟨key, citation, hKey, hCitation, by rw [hDate]⟩
    · rintro ⟨key, citation, hLink, hCitation, rfl⟩
      rcases hStored key citation hLink hCitation with
        ⟨ref, hRef, hCited, hDate⟩
      exact ⟨ref, hRef, hCited, by rw [hDate]⟩

------------------------------------------------------------
-- Kept Answers
------------------------------------------------------------

/- What is answered stays as it is. -/
structure KeepsAnswers (db db' : Db) : Prop where
  nextId : db.nextId ≤ db'.nextId
  texts :
    ∀ messageId text,
      db.textOf messageId = some text →
        db'.textOf messageId = some text
  links :
    ∀ link : MessageId × CitationId,
      link.1 < db.nextId →
        (link ∈ db'.messageCitations ↔
          link ∈ db.messageCitations)

/- The same messages and links keep the answers. -/
theorem keepsAnswers_of_same
    {db db' : Db}
    (hMessages : db'.messages = db.messages)
    (hLinks : db'.messageCitations = db.messageCitations)
    (hNext : db.nextId ≤ db'.nextId) :
    KeepsAnswers db db' where
  nextId := hNext
  texts messageId text hText := by
    rw [Db.textOf, hMessages]
    exact hText
  links link _ := by rw [hLinks]

/- Updates of other columns keep the answers. -/
theorem keepsAnswers_of_map
    {db db' : Db}
    {change : Message → Message}
    (hMessages : db'.messages = db.messages.map change)
    (hId : ∀ message, (change message).id = message.id)
    (hContent :
      ∀ message,
        (change message).contentMd = message.contentMd)
    (hLinks : db'.messageCitations = db.messageCitations)
    (hNext : db.nextId ≤ db'.nextId) :
    KeepsAnswers db db' where
  nextId := hNext
  texts messageId text hText := by
    rw [← hText, Db.textOf, Db.textOf, hMessages, List.find?_map]
    have hSame :
        ((fun message : Message => message.id == messageId) ∘
            change) =
          fun message => message.id == messageId := by
      funext message
      rw [Function.comp_apply, hId]
    rw [hSame]
    cases db.messages.find? fun message =>
        message.id == messageId with
    | none => rfl
    | some message => exact hContent message
  links link _ := by rw [hLinks]

/- An update of selected messages keeps the answers. -/
theorem keepsAnswers_updateMessages
    (db : Db)
    (selects : Message → Bool)
    {change : Message → Message}
    (hId : ∀ message, (change message).id = message.id)
    (hContent :
      ∀ message,
        (change message).contentMd = message.contentMd) :
    KeepsAnswers db (db.updateMessages selects change) := by
  refine keepsAnswers_of_map rfl ?_ ?_ rfl (Nat.le_refl _)
  · intro message
    split
    · exact hId message
    · rfl
  · intro message
    split
    · exact hContent message
    · rfl

/- A message that is added leaves the texts of the others. -/
theorem textOf_append
    {db db' : Db}
    {message : Message}
    (hMessages : db'.messages = db.messages ++ [message])
    {messageId : MessageId}
    {text : Text}
    (hText : db.textOf messageId = some text) :
    db'.textOf messageId = some text := by
  rcases Option.bind_eq_some_iff.mp hText with
    ⟨found, hFound, hContent⟩
  rw [Db.textOf, hMessages, List.find?_append, hFound]
  exact hContent

theorem KeepsAnswers.trans
    {db db₁ db₂ : Db}
    (hFirst : KeepsAnswers db db₁)
    (hLast : KeepsAnswers db₁ db₂) :
    KeepsAnswers db db₂ where
  nextId := Nat.le_trans hFirst.nextId hLast.nextId
  texts messageId text hText :=
    hLast.texts messageId text
      (hFirst.texts messageId text hText)
  links link hKnown :=
    (hLast.links link
      (Nat.lt_of_lt_of_le hKnown hFirst.nextId)).trans
        (hFirst.links link hKnown)

/- Every successful call keeps the answers. -/
theorem keepsAnswers_of_exec
    {inst : InstanceId}
    {op : Op}
    {world world' : World}
    {value : op.Reply}
    (hExec : exec inst op world = (.ok value, world')) :
    KeepsAnswers world.db world'.db := by
  have hFrame := frames_of_exec hExec
  cases op with
  | addMessage threadId new =>
      rcases links_of_insertMessage (statement_of_onDb hExec) with
        ⟨-, hNext, hLinks, message, hMessages, -⟩
      exact
        ⟨Nat.le_of_lt hNext,
          fun _ _ hText => textOf_append hMessages hText,
          fun link _ => by rw [hLinks]⟩
  | commitAgentAnswer threadId runId contentMd citationIds
      parentId model =>
      cases value with
      | none =>
          exact
            keepsAnswers_of_same (hFrame.messages rfl)
              (hFrame.links rfl) hFrame.nextId
      | some row =>
          rcases links_of_commit (statement_of_onDb hExec) with
            ⟨hId, hNext, hLinks, message, hMessages, -⟩
          refine
            ⟨Nat.le_of_lt hNext,
              fun _ _ hText => textOf_append hMessages hText, ?_⟩
          intro link hKnown
          rw [hLinks, hId]
          exact
            or_iff_left fun hNew =>
              absurd hNew.1 (Nat.ne_of_lt hKnown)
  | setToolResult runId toolCallId toolResult =>
      cases hExec
      exact
        keepsAnswers_updateMessages _ _ (fun _ => rfl)
          fun _ => rfl
  | markPartialApproval runId rejectedIds marker =>
      cases hExec
      refine
        @KeepsAnswers.trans _
          (world.db.rejectCells runId rejectedIds marker) _ ?_ ?_
      · exact
          keepsAnswers_updateMessages _ _ (fun _ => rfl)
            fun _ => rfl
      · exact
          keepsAnswers_updateMessages _ _ (fun _ => rfl)
            fun _ => rfl
  | resolveOrphanToolCells runId marker =>
      cases hExec
      exact
        keepsAnswers_updateMessages _ _ (fun _ => rfl)
          fun _ => rfl
  | setPendingApproval runId state =>
      cases hExec
      exact
        keepsAnswers_updateMessages _ _ (fun _ => rfl)
          fun _ => rfl
  | _ =>
      exact
        keepsAnswers_of_same (hFrame.messages rfl)
          (hFrame.links rfl) hFrame.nextId

/- A sweep fills cells only. -/
theorem keepsAnswers_sweep
    (db : Db)
    (selects : Run → Bool) :
    KeepsAnswers db (db.sweep selects) := by
  refine keepsAnswers_of_map rfl ?_ ?_ rfl (Nat.le_refl _)
  · intro message
    split <;> rfl
  · intro message
    split <;> rfl

/- An answer that is kept is the same answer. -/
theorem Answered.keep
    {db db' : Db}
    {messageId : MessageId}
    {frozen : List LawRef}
    (hAnswered : Answered db messageId frozen)
    (hKeeps : KeepsAnswers db db') :
    Answered db' messageId frozen := by
  rcases hAnswered with
    ⟨hKnown, hOnce, body, cited, hText, hLinks⟩
  refine
    ⟨Nat.lt_of_lt_of_le hKnown hKeeps.nextId, hOnce, body,
      cited, hKeeps.texts messageId _ hText, ?_⟩
  intro key
  rw [hKeeps.links (messageId, key) hKnown]
  exact hLinks key

------------------------------------------------------------
-- Traced Systems
------------------------------------------------------------

/-
  A system with the articles that its tasks have frozen, and
  the answers that they committed, each with what its task had
  frozen by then.
-/
structure Traced where
  system : System
  frozen : TaskId → List LawRef
  answers : List (MessageId × List LawRef)

/- The system before the first request. -/
def Traced.initial : Traced where
  system := .initial
  frozen := fun _ => []
  answers := []

/- The call that a task executes, or that fails, in a turn. -/
def Task.called
    (task : Task)
    (fault : Bool)
    (world : World) :
    Option DriverMoment :=
  match task.program with
  | .call op _ =>
      if fault then
        op.kind.fault.map fun exn => .called op (.error exn)
      else
        some (.called op (exec task.inst op world).1)
  | _ => none

/- The call of a turn of the system. -/
def System.called
    (system : System)
    (taskId : TaskId)
    (fault : Bool) :
    Option DriverMoment :=
  (system.tasks taskId).bind fun task =>
    task.called fault system.world

/- The articles that a task has frozen behind a moment. -/
def frozenBehind
    (frozen : List LawRef) :
    Option DriverMoment → List LawRef
| some (.called op reply) => frozenAfter frozen op reply
| _ => frozen

/- What the tasks have frozen behind an action. -/
def Traced.freezes
    (traced : Traced)
    (action : Action)
    (taskId : TaskId) :
    List LawRef :=
  match action with
  | .request other _ _ =>
      if taskId = other then [] else traced.frozen taskId
  | .turn other fault =>
      if taskId = other then
        frozenBehind (traced.frozen taskId)
          (traced.system.called taskId fault)
      else
        traced.frozen taskId
  | _ => traced.frozen taskId

/- The answer that an action commits. -/
def Traced.answer?
    (traced : Traced) :
    Action → Option (MessageId × List LawRef)
| .turn taskId fault =>
    ((traced.system.called taskId fault).bind committed).map
      fun messageId => (messageId, traced.frozen taskId)
| _ => none

/- A step of the system, with what it freezes and commits. -/
def Traced.step
    (registry : Registry)
    (traced : Traced)
    (action : Action) :
    Option Traced :=
  (traced.system.step registry action).map fun system =>
    { system := system
      frozen := traced.freezes action
      answers :=
        traced.answers ++ (traced.answer? action).toList }

/- What holds of a traced system. -/
structure Traced.Sound (traced : Traced) : Prop where
  tracked :
    ∀ taskId task,
      traced.system.tasks taskId = some task →
        task.program.Notices (traced.frozen taskId) anyEnd
  once :
    ∀ taskId, ((traced.frozen taskId).map LawRef.id).Nodup
  answered :
    ∀ answer ∈ traced.answers,
      Answered traced.system.world.db answer.1 answer.2

/- A traced system is a system. -/
theorem reachable_of_traced
    {registry : Registry}
    {allowed : Traced → Action → Prop}
    {traced : Traced}
    (hRun :
      Execution (Traced.step registry) allowed .initial traced) :
    Reachable registry (fun _ _ => True) traced.system := by
  induction hRun with
  | refl => exact Relation.ReflTransGen.refl
  | tail _ hNext ih =>
      rcases hNext with ⟨action, -, hStep⟩
      rcases Option.map_eq_some_iff.mp hStep with
        ⟨system, hSystem, rfl⟩
      exact ih.tail ⟨action, trivial, hSystem⟩

/- An action without an answer that keeps the answers. -/
theorem answered_of_keeps
    {traced : Traced}
    {action : Action}
    {db : Db}
    (hSound : traced.Sound)
    (hNone : traced.answer? action = none)
    (hKeeps : KeepsAnswers traced.system.world.db db) :
    ∀ answer ∈
        traced.answers ++ (traced.answer? action).toList,
      Answered db answer.1 answer.2 := by
  intro answer hMem
  rw [hNone, Option.toList_none, List.append_nil] at hMem
  exact (hSound.answered answer hMem).keep hKeeps

/- An answer that is committed is composed of the record. -/
theorem answered_of_commit
    {inst : InstanceId}
    {world world' : World}
    {threadId : ThreadId}
    {runId : RunId}
    {contentMd : Text}
    {citationIds : List Text}
    {parentId : Option MessageId}
    {model : Option Text}
    {row : MessageId × Nat}
    {frozen : List LawRef}
    (hFormed : world.db.WellFormed)
    (hKnown : LinksKnown world.db)
    (hOnce : (frozen.map LawRef.id).Nodup)
    (hAllows :
      noticeTracker.allows frozen
        (.commitAgentAnswer threadId runId contentMd citationIds
          parentId model))
    (hExec :
      exec inst
          (.commitAgentAnswer threadId runId contentMd
            citationIds parentId model)
          world =
        (.ok (some row), world')) :
    Answered world'.db row.1 frozen := by
  rcases links_of_commit (statement_of_onDb hExec) with
    ⟨hId, hNext, hLinks, message, hMessages, hMessage, hContent⟩
  rcases hAllows with ⟨body, rfl⟩
  refine
    ⟨by rw [hId]; exact hNext, hOnce, body, citationIds, ?_, ?_⟩
  · have hFresh :
        (world.db.messages.find? fun other =>
            other.id == row.1) =
          none := by
      refine List.find?_eq_none.mpr ?_
      intro other hMem hSame
      have hLt :=
        hFormed.slotIds other.slot (List.mem_map_of_mem hMem)
      rw [beq_iff_eq, hId] at hSame
      exact absurd hSame (Nat.ne_of_lt hLt)
    rw [Db.textOf, hMessages, List.find?_append, hFresh]
    simp [hMessage, hContent]
  · intro key
    rw [hLinks]
    constructor
    · rintro (hOld | hNew)
      · have hLt := hKnown _ hOld
        rw [hId] at hLt
        exact absurd hLt (Nat.lt_irrefl _)
      · exact hNew.2
    · exact fun hMem => Or.inr ⟨rfl, hMem⟩

/- A task whose program goes on behind a moment. -/
theorem sound_of_moment
    {traced : Traced}
    {taskId : TaskId}
    {fault : Bool}
    {task' : Task}
    {world' : World}
    (hSound : traced.Sound)
    (hTracked :
      task'.program.Notices
        (frozenBehind (traced.frozen taskId)
          (traced.system.called taskId fault))
        anyEnd)
    (hOnce :
      ((frozenBehind (traced.frozen taskId)
          (traced.system.called taskId fault)).map
        LawRef.id).Nodup)
    (hKeeps : KeepsAnswers traced.system.world.db world'.db)
    (hAnswer :
      ∀ answer,
        traced.answer? (.turn taskId fault) = some answer →
          Answered world'.db answer.1 answer.2) :
    Traced.Sound
      { system :=
          { traced.system with world := world' }.setTask taskId
            (some task')
        frozen := traced.freezes (.turn taskId fault)
        answers :=
          traced.answers ++
            (traced.answer? (.turn taskId fault)).toList } := by
  refine ⟨?_, ?_, ?_⟩
  · intro other task hTask
    simp only [System.setTask, Traced.freezes] at hTask ⊢
    split at hTask
    · rename_i hSame
      cases hTask
      subst hSame
      rw [if_pos rfl]
      exact hTracked
    · rename_i hOther
      rw [if_neg hOther]
      exact hSound.tracked other task hTask
  · intro other
    simp only [Traced.freezes]
    split
    · rename_i hSame
      subst hSame
      exact hOnce
    · exact hSound.once other
  · intro answer hMem
    rcases List.mem_append.mp hMem with hOld | hNew
    · exact (hSound.answered answer hOld).keep hKeeps
    · exact hAnswer answer (Option.mem_toList.mp hNew)

/- An allowed call freezes no article twice. -/
theorem nodup_frozenAfter
    {frozen : List LawRef}
    {op : Op}
    (hOnce : (frozen.map LawRef.id).Nodup)
    (hAllows : noticeTracker.allows frozen op)
    (reply : Except Exn op.Reply) :
    ((frozenAfter frozen op reply).map LawRef.id).Nodup := by
  cases op with
  | freezeCitation ref =>
      cases reply with
      | ok value => exact List.nodup_cons.mpr ⟨hAllows, hOnce⟩
      | error exn => exact hOnce
  | _ => exact hOnce

/- The turn of a task, with its record and its answer. -/
theorem sound_of_turn
    {traced : Traced}
    {taskId : TaskId}
    {fault : Bool}
    {task task' : Task}
    {world' : World}
    (hSound : traced.Sound)
    (hFormed : traced.system.world.db.WellFormed)
    (hKnown : LinksKnown traced.system.world.db)
    (hTask : traced.system.tasks taskId = some task)
    (hTurn :
      task.turn fault traced.system.world =
        some (task', world')) :
    Traced.Sound
      { system :=
          { traced.system with world := world' }.setTask taskId
            (some task')
        frozen := traced.freezes (.turn taskId fault)
        answers :=
          traced.answers ++
            (traced.answer? (.turn taskId fault)).toList } := by
  have hTracked := hSound.tracked taskId task hTask
  have hOnce := hSound.once taskId
  have hSame :
      KeepsAnswers traced.system.world.db
        traced.system.world.db :=
    keepsAnswers_of_same rfl rfl (Nat.le_refl _)
  rcases task with ⟨inst, request, program, phase, sent⟩
  cases program with
  | ret result => cases hTurn
  | yield event next =>
      have hCalled : traced.system.called taskId fault = none := by
        simp [System.called, hTask, Task.called]
      simp only [Task.turn] at hTurn
      split at hTurn
      · cases hTurn
      · cases hTurn
        refine sound_of_moment hSound ?_ ?_ hSame ?_
        · rw [hCalled]
          exact hTracked (.ok ())
        · rw [hCalled]
          exact hOnce
        · intro answer hAnswer
          simp [Traced.answer?, hCalled] at hAnswer
  | call op next =>
      rcases hTracked with ⟨hAllows, hNext⟩
      cases fault with
      | true =>
          simp only [Task.turn, if_true] at hTurn
          cases hFault : op.kind.fault with
          | none => simp [hFault] at hTurn
          | some exn =>
              simp only [hFault, Option.map_some] at hTurn
              cases hTurn
              have hCalled :
                  traced.system.called taskId true =
                    some (.called op (.error exn)) := by
                simp [System.called, hTask, Task.called, hFault]
              refine sound_of_moment hSound ?_ ?_ hSame ?_
              · rw [hCalled]
                exact hNext (.error exn)
              · rw [hCalled]
                exact nodup_frozenAfter hOnce hAllows _
              · intro answer hAnswer
                simp only [Traced.answer?, hCalled] at hAnswer
                cases op <;> cases hAnswer
      | false =>
          simp only [Task.turn, Bool.false_eq_true, if_false]
            at hTurn
          cases hTurn
          have hCalled :
              traced.system.called taskId false =
                some
                  (.called op
                    (exec inst op traced.system.world).1) := by
            simp [System.called, hTask, Task.called]
          refine sound_of_moment hSound ?_ ?_ ?_ ?_
          · rw [hCalled]
            exact hNext _
          · rw [hCalled]
            exact nodup_frozenAfter hOnce hAllows _
          · rcases hExec : exec inst op traced.system.world with
              ⟨exn | value, world'⟩
            · rw [world_of_error hExec]
              exact hSame
            · exact keepsAnswers_of_exec hExec
          · intro answer hAnswer
            simp only [Traced.answer?, hCalled,
              Option.bind_some] at hAnswer
            rcases Option.map_eq_some_iff.mp hAnswer with
              ⟨messageId, hCommitted, rfl⟩
            rcases hExec : exec inst op traced.system.world with
              ⟨exn | value, world'⟩
            · rw [hExec] at hCommitted
              cases op <;> cases hCommitted
            · rw [hExec] at hCommitted
              cases op <;> try cases hCommitted
              cases value with
              | none => cases hCommitted
              | some row =>
                  cases hCommitted
                  exact
                    answered_of_commit hFormed hKnown hOnce
                      hAllows hExec

/- Every step keeps a traced system sound. -/
theorem sound_step
    {registry : Registry}
    {traced next : Traced}
    {action : Action}
    (hSound : traced.Sound)
    (hFormed : traced.system.world.db.WellFormed)
    (hKnown : LinksKnown traced.system.world.db)
    (hStep : traced.step registry action = some next) :
    next.Sound := by
  rcases Option.map_eq_some_iff.mp hStep with
    ⟨system, hSystem, rfl⟩
  cases action with
  | request taskId inst request =>
      rcases of_request_step hSystem with ⟨-, rfl⟩
      refine
        ⟨?_, ?_,
          answered_of_keeps hSound rfl
            (keepsAnswers_of_same rfl rfl (Nat.le_refl _))⟩
      · intro other task hTask
        simp only [System.setTask, Traced.freezes] at hTask ⊢
        split at hTask
        · rename_i hSame
          cases hTask
          rw [if_pos hSame]
          exact tracked_request registry request
        · rename_i hOther
          rw [if_neg hOther]
          exact hSound.tracked other task hTask
      · intro other
        simp only [Traced.freezes]
        split
        · exact List.nodup_nil
        · exact hSound.once other
  | turn taskId fault =>
      rcases of_turn_step hSystem with
        ⟨task, task', world', hTask, hTurn, rfl⟩
      exact sound_of_turn hSound hFormed hKnown hTask hTurn
  | crash inst =>
      cases hSystem
      refine
        ⟨?_, hSound.once,
          answered_of_keeps hSound rfl
            (keepsAnswers_of_same rfl rfl (Nat.le_refl _))⟩
      intro taskId task hTask
      rw [Option.filter_eq_some_iff] at hTask
      exact hSound.tracked taskId task hTask.1
  | reconcile stale =>
      cases hSystem
      exact
        ⟨hSound.tracked, hSound.once,
          answered_of_keeps hSound rfl (keepsAnswers_sweep _ _)⟩
  | timeoutApprovals ttl =>
      cases hSystem
      exact
        ⟨hSound.tracked, hSound.once,
          answered_of_keeps hSound rfl (keepsAnswers_sweep _ _)⟩
  | timeoutRuns ttl =>
      cases hSystem
      exact
        ⟨hSound.tracked, hSound.once,
          answered_of_keeps hSound rfl (keepsAnswers_sweep _ _)⟩
  | _ =>
      cases hSystem
      exact
        ⟨hSound.tracked, hSound.once,
          answered_of_keeps hSound rfl
            (keepsAnswers_of_same rfl rfl (Nat.le_refl _))⟩

theorem sound_of_traced
    {registry : Registry}
    {allowed : Traced → Action → Prop}
    {traced : Traced}
    (hRun :
      Execution (Traced.step registry) allowed .initial traced) :
    traced.Sound := by
  induction hRun with
  | refl =>
      exact
        ⟨fun _ _ hTask => (nomatch hTask),
          fun _ => List.nodup_nil,
          fun _ hMem => (nomatch hMem)⟩
  | tail hBefore hNext ih =>
      rcases hNext with ⟨action, -, hStep⟩
      have hReachable := reachable_of_traced hBefore
      exact
        sound_step ih (wellFormed_of_reachable hReachable)
          (linksKnown_of_reachable hReachable) hStep

/-
  In every run of the server, the notice of a committed answer
  is complete if and only if the articles that its task froze
  before it cover the dates of the cited articles.
-/
theorem notice_complete_iff
    {registry : Registry}
    {allowed : Traced → Action → Prop}
    {traced : Traced}
    (hRun :
      Execution (Traced.step registry) allowed .initial traced)
    {messageId : MessageId}
    {frozen : List LawRef}
    (hAnswer : (messageId, frozen) ∈ traced.answers) :
    NoticeComplete traced.system.world.db messageId ↔
      CoversDates traced.system.world.db messageId frozen :=
  complete_iff_covers
    ((sound_of_traced hRun).answered _ hAnswer)

------------------------------------------------------------
-- Recorded Notices
------------------------------------------------------------

/- An article with an effective date. -/
def datedArticle : LawRef :=
  { foundArticle with
    effDate := ⟨"2024-01-01".toList, by decide⟩ }

/- A paused run whose tool finds the article that it cites. -/
def citedFinding : List Action :=
  pausedRun ++
    [.request 2 0
      (.resume 0 true none
        [.tools fun _ => ⟨.str [], .context [datedArticle]⟩,
          .agent (.str "[[cite:x]]".toList) []])] ++
    turns 2 28

/- Whether an answer has a given notice and linked dates. -/
def Traced.shows
    (traced : Traced)
    (messageId : MessageId)
    (notice : Option (List Text))
    (dates : List Text) :
    Bool :=
  (traced.answers.map Prod.fst).contains messageId &&
    (traced.system.world.db.textOf messageId).map noticeOf ==
      some notice &&
    traced.system.world.db.linkedDates messageId == dates

/- A shown answer is recorded with what was frozen. -/
theorem of_shows
    {traced : Traced}
    {messageId : MessageId}
    {notice : Option (List Text)}
    {dates : List Text}
    (hShows : traced.shows messageId notice dates = true) :
    (∃ frozen, (messageId, frozen) ∈ traced.answers) ∧
      traced.system.world.db.linkedDates messageId = dates ∧
        ∃ text,
          traced.system.world.db.textOf messageId = some text ∧
            noticeOf text = notice := by
  simp only [Traced.shows, Bool.and_eq_true, beq_iff_eq,
    List.contains_iff_mem, List.mem_map,
    Option.map_eq_some_iff] at hShows
  rcases hShows with
    ⟨⟨⟨⟨_, frozen⟩, hAnswer, rfl⟩, hText⟩, hDates⟩
  exact ⟨⟨frozen, hAnswer⟩, hDates, hText⟩

/- The resumed run shows the date of what it found itself. -/
theorem notice_complete_iff_found :
    ∃ traced frozen,
      execute (Traced.step .single) citedFinding .initial =
          some traced ∧
        (6, frozen) ∈ traced.answers ∧
          CoversDates traced.system.world.db 6 frozen := by
  rcases
      exists_of_execute
        (show
          (execute (Traced.step .single) citedFinding
              .initial).map
              (fun traced =>
                traced.shows 6 (some ["2024-01-01".toList])
                  ["2024-01-01".toList]) =
            some true by
          decide +kernel) with
    ⟨traced, hTraced, hShows⟩
  rcases of_shows hShows with
    ⟨⟨frozen, hAnswer⟩, hLinked, text, hText, hNotice⟩
  have hComplete :
      NoticeComplete traced.system.world.db 6 := by
    refine ⟨text, hText, ?_⟩
    rw [hLinked, hNotice]
    decide +kernel
  exact
    ⟨traced, frozen, hTraced, hAnswer,
      (notice_complete_iff (execution_of_execute hTraced)
        hAnswer).mp hComplete⟩

/- The next run cites the same article without finding it. -/
def citedAgain : List Action :=
  citedFinding ++
    [.request 3 0
      (.start 0 [] none
        [.agent (.str "[[cite:x]]".toList) []])] ++
    turns 3 18

/- Its answer shows no date of the article. -/
theorem notice_incomplete :
    ¬ ∀ (registry : Registry) (traced : Traced)
        (messageId : MessageId) (frozen : List LawRef),
      Execution (Traced.step registry) (fun _ _ => True)
          .initial traced →
        (messageId, frozen) ∈ traced.answers →
          NoticeComplete traced.system.world.db messageId := by
  intro hAlways
  rcases
      exists_of_execute
        (show
          (execute (Traced.step .single) citedAgain .initial).map
              (fun traced =>
                traced.shows 10 none ["2024-01-01".toList]) =
            some true by
          decide +kernel) with
    ⟨traced, hTraced, hShows⟩
  rcases of_shows hShows with
    ⟨⟨frozen, hAnswer⟩, hLinked, text, hText, hNotice⟩
  rcases
      hAlways .single traced 10 frozen
        (execution_of_execute hTraced) hAnswer with
    ⟨shown, hShown, hComplete⟩
  rw [hText, Option.some_inj] at hShown
  rw [← hShown, hNotice, hLinked,
    if_neg (List.cons_ne_nil _ _)] at hComplete
  cases hComplete

end LegalAgent
