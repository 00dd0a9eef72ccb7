import LegalAgent.Properties.DriverExits
import LegalAgent.Properties.Routine
import LegalAgent.Properties.Status

/-
  The check of the citations of a draft.

  A driver that ends its stream compares the ids that its
  draft cites with the articles that it froze itself and with
  the links of the answers of the thread.  An article that was
  announced by an earlier driver and is in no answer is in
  neither, and a draft that cites it counts as a forgery.

  Key definitions include:
    * `announced`
    * `draftIn`
    * `Forged`

  Key theorems include:
    * `consumeStream_followed`
    * `forged_iff`
-/

------------------------------------------------------------
-- Drafts and Announcements
------------------------------------------------------------

namespace LegalAgent

open Library

/- The citation that a moment announces. -/
def announced : DriverMoment → Option CitationId
| .taken ⟨.citationAdded surface, _⟩ => some surface.id
| _ => none

/- The citations that a driver has announced. -/
def announcedIn (moments : List DriverMoment) :
    List CitationId :=
  moments.filterMap announced

/- The draft after a message of the stream. -/
def messageDraft (draft : Text) : StreamMessage → Text
| .ai content calls =>
    if calls.isEmpty && !(textOf content).strip.isEmpty then
      textOf content
    else
      draft
| .tool .. => draft

/- The draft after a moment of the driver. -/
def momentDraft (draft : Text) : DriverMoment → Text
| .called (.graphNext _ _ (some _))
    (.ok (some (.updates messages, _))) =>
    messages.foldl messageDraft draft
| _ => draft

/- The last text of the agent that makes no calls. -/
def draftIn (moments : List DriverMoment) : Text :=
  moments.foldl momentDraft []

/- Whether the first moment after a check is a forgery's. -/
def Forged (after : List DriverMoment) : Prop :=
  ∃ runId reply rest,
    after =
      .called (.tryTransition runId .running .error true) reply ::
        rest

section Confined

variable {α : Type}

/- A program that does not check a draft. -/
abbrev Driver.Unchecked
    (program : Driver α)
    (done : α → Prop) :
    Prop :=
  Gen.Only (fun op => op.checks = false) (fun _ => True) done
    program

/- A program that does not ask the graph, either. -/
abbrev Driver.Handles (program : Driver α) : Prop :=
  Gen.Only (fun op => op.aside = true) (fun _ => True)
    (fun _ => True) program

/- A program that announces nothing, either. -/
abbrev Driver.Silent
    (program : Driver α)
    (done : α → Prop) :
    Prop :=
  Gen.Only (fun op => op.aside = true)
    (fun event => event.data.announces = false) done program

/- A program of plain calls that announces nothing. -/
abbrev Driver.Quiet
    (program : Driver α)
    (done : α → Prop) :
    Prop :=
  Gen.Only (fun op => op.plain = true)
    (fun event => event.data.announces = false) done program

theorem silent_of_quiet
    {program : Driver α}
    {done : α → Prop}
    (hQuiet : program.Quiet done) :
    program.Silent done :=
  Gen.only_mono hQuiet (fun _ hOp => aside_of_plain hOp)
    (fun _ hEvent => hEvent) fun _ hDone => hDone

theorem unchecked_of_handles
    {program : Driver α}
    (hHandles : program.Handles) :
    program.Unchecked fun _ => True := by
  refine Gen.only_mono hHandles ?_ (fun _ hEvent => hEvent)
    fun _ hDone => hDone
  intro op hOp
  cases op <;> first | rfl | cases hOp

theorem handles_of_silent
    {program : Driver α}
    {done : α → Prop}
    (hSilent : program.Silent done) :
    program.Handles :=
  Gen.only_mono hSilent (fun _ hOp => hOp)
    (fun _ _ => trivial) fun _ _ => trivial

theorem handles_of_quiet
    {program : Driver α}
    {done : α → Prop}
    (hQuiet : program.Quiet done) :
    program.Handles :=
  handles_of_silent (silent_of_quiet hQuiet)

theorem quiet_lastCall
    {op : Op}
    (hOp : op.plain = true) :
    Driver.Quiet (call op) fun _ => True :=
  only_lastCall hOp

theorem quiet_of_usual
    {program : Driver α}
    (hUsual : program.Usual) :
    program.Quiet fun _ => True :=
  Gen.only_mono hUsual (fun _ => plain_of_usual)
    (fun _ hEvent => hEvent) fun _ _ => trivial

theorem quiet_of_routine
    {program : Driver α}
    (hRoutine : program.Routine) :
    program.Quiet fun _ => True :=
  quiet_of_usual hRoutine.usual

theorem unchecked_of_routine
    {program : Driver α}
    (hRoutine : program.Routine) :
    program.Unchecked fun _ => True :=
  unchecked_of_handles
    (handles_of_quiet (quiet_of_routine hRoutine))

/- A chunk is handled without a question to the graph. -/
theorem handles_handleChunk
    (threadId : ThreadId)
    (rs : RunState)
    (messages : List StreamMessage) :
    (RunService.handleChunk threadId rs messages).Handles :=
  only_handleChunk (fun _ hAside _ _ => hAside) threadId rs
    messages

------------------------------------------------------------
-- Decisions
------------------------------------------------------------

/- A state without articles and without a draft. -/
def RunState.Blank (rs : RunState) : Prop :=
  rs.frozen = [] ∧ rs.draft = []

/- A decision begins a new state. -/
def Anew (decided : Option RunState) : Prop :=
  ∀ rs, decided = some rs → rs.Blank

/- A decision announces nothing and begins a new state. -/
theorem quiet_decide
    (registry : Registry)
    (threadId : ThreadId)
    (approve : Bool)
    (approvedIds : Option (List Text)) :
    (RunService.decide registry threadId approve
        approvedIds).Quiet
      fun decided => ∀ rs, decided = some rs → rs.New :=
  only_decide (fun _ => plain_of_routine)
    (fun _ hEvent => hEvent) (fun _ => rfl) registry threadId
    approve approvedIds

/- A state in which no chunk has been handled is blank. -/
theorem RunState.New.blank
    {rs : RunState}
    (hNew : rs.New) :
    rs.Blank := by
  rw [hNew]
  exact ⟨rfl, rfl⟩

theorem silent_decide
    (registry : Registry)
    (threadId : ThreadId)
    (approve : Bool)
    (approvedIds : Option (List Text)) :
    (RunService.decide registry threadId approve
        approvedIds).Silent
      Anew :=
  Gen.only_mono
    (silent_of_quiet
      (quiet_decide registry threadId approve approvedIds))
    (fun _ hOp => hOp) (fun _ hEvent => hEvent)
    fun _ hNew rs hEq => (hNew rs hEq).blank

end Confined

------------------------------------------------------------
-- Followed Streams
------------------------------------------------------------

section Followed

variable {W : Type} {machine : Machine Op Op.Reply Exn W}
variable {world last : W} {moments : List DriverMoment}
variable {threadId : ThreadId}

/- Moments that announce nothing. -/
theorem announcedIn_of_silent
    {calls : Op → Prop}
    (hSilent :
      ∀ moment ∈ moments,
        Gen.Confines calls
          (fun event => event.data.announces = false) moment) :
    announcedIn moments = [] := by
  apply List.filterMap_eq_nil_iff.mpr
  intro moment hMem
  have hMoment := hSilent moment hMem
  cases moment with
  | taken event =>
      rcases event with ⟨data, seq⟩
      cases data <;> first | rfl | cases hMoment
  | called op reply => rfl
  | closed event => rfl

/- Moments without replies of the graph keep the draft. -/
theorem draft_of_aside
    {events : RunEvent → Prop}
    (hAside :
      ∀ moment ∈ moments,
        Gen.Confines (fun op => op.aside = true) events moment)
    (draft : Text) :
    moments.foldl momentDraft draft = draft := by
  induction moments with
  | nil => rfl
  | cons moment moments ih =>
      have hMoment := hAside moment List.mem_cons_self
      have hSame : momentDraft draft moment = draft := by
        cases moment with
        | called op reply =>
            cases op <;> first | rfl | cases hMoment
        | taken event => rfl
        | closed event => rfl
      rw [List.foldl_cons, hSame]
      exact
        ih fun moment hMem =>
          hAside moment (List.mem_cons_of_mem _ hMem)

/- A driver knows what it announced, and the last draft. -/
structure Followed
    (rs : RunState)
    (moments : List DriverMoment)
    (rs' : RunState) :
    Prop where
  frozen :
    ∀ id,
      id ∈ rs'.frozen ↔
        id ∈ rs.frozen ∨ id ∈ announcedIn moments
  draft : rs'.draft = moments.foldl momentDraft rs.draft

/- The moments of a message and the draft after it. -/
structure Handled
    (rs : RunState)
    (draft : Text)
    (moments : List DriverMoment)
    (rs' : RunState) :
    Prop where
  frozen :
    ∀ id,
      id ∈ rs'.frozen ↔
        id ∈ rs.frozen ∨ id ∈ announcedIn moments
  draft : rs'.draft = draft

/- The moments of an event that is yielded. -/
theorem runs_emit
    {data : EventData}
    {value : Unit}
    (hRuns :
      Gen.Runs machine (RunService.emit data threadId) world
        moments (.ok value) last) :
    ∃ seq,
      moments =
        [.called (.nextSeq threadId) (.ok seq),
          .taken ⟨data, seq⟩] := by
  rcases Gen.runs_call hRuns with
    ⟨exn, hOk, -⟩ | ⟨seq, middle, after, rfl, -, hAfter⟩
  · cases hOk
  · refine ⟨seq, ?_⟩
    cases hAfter with
    | taken hNext =>
        rcases Gen.runs_ret hNext with ⟨rfl, -⟩
        rfl
    | closed hNext =>
        rcases Gen.runs_ret hNext with ⟨-, hOk, -⟩
        cases hOk

theorem handleArticles_handled
    {rs rs' : RunState}
    {refs : List LawRef}
    (hRuns :
      Gen.Runs machine
        (RunService.handleArticles threadId rs refs) world
        moments (.ok rs') last) :
    Handled rs rs.draft moments rs' := by
  induction refs generalizing rs world moments with
  | nil =>
      rcases Gen.runs_ret hRuns with ⟨rfl, hOk, -⟩
      cases hOk
      exact ⟨by simp [announcedIn], rfl⟩
  | cons ref refs ih =>
      rw [RunService.handleArticles] at hRuns
      split at hRuns
      · exact ih hRuns
      · rcases Gen.runs_call hRuns with
          ⟨exn, hOk, -⟩ | ⟨_, middle, after, rfl, -, hAfter⟩
        · cases hOk
        rcases Gen.runs_bind hAfter with
          ⟨exn, hOk, -⟩ |
            ⟨first, rest, _, middle, rfl, hEmit, hRest⟩
        · cases hOk
        rcases runs_emit hEmit with ⟨seq, rfl⟩
        rcases ih hRest with ⟨hFrozen, hDraft⟩
        refine ⟨?_, hDraft⟩
        intro id
        rw [hFrozen]
        simp only [announcedIn, announced, RunState.freeze,
          LawRef.surface, List.mem_cons, List.filterMap_cons,
          List.cons_append, List.nil_append]
        tauto

theorem handleMessage_handled
    {rs rs' : RunState}
    {message : StreamMessage}
    (hRuns :
      Gen.Runs machine
        (RunService.handleMessage rs threadId message) world
        moments (.ok rs') last) :
    Handled rs (messageDraft rs.draft message) moments rs' := by
  cases message with
  | ai content calls =>
      rw [RunService.handleMessage] at hRuns
      rcases Gen.runs_bind hRuns with
        ⟨exn, hOk, -⟩ |
          ⟨first, rest, _, middle, rfl, hCalls, hRest⟩
      · cases hOk
      have hNone :=
        announcedIn_of_silent
          (Gen.runs_only (routine_handleCalls rs threadId calls)
            hCalls).1
      split at hRest
      · rename_i hText
        rcases Gen.runs_ret hRest with ⟨rfl, hOk, -⟩
        cases hOk
        refine ⟨by simp [hNone], ?_⟩
        rw [messageDraft, if_pos hText]
      · rename_i hText
        rcases Gen.runs_ret hRest with ⟨rfl, hOk, -⟩
        cases hOk
        refine ⟨by simp [hNone], ?_⟩
        rw [messageDraft, if_neg hText]
  | tool callId content artifact =>
      rw [RunService.handleMessage] at hRuns
      rcases Gen.runs_call hRuns with
        ⟨exn, hOk, -⟩ | ⟨seq, middle, after, rfl, -, hAfter⟩
      · cases hOk
      rcases Gen.runs_bind hAfter with
        ⟨exn, hOk, -⟩ |
          ⟨first, rest, _, middle, rfl, hStore, hRest⟩
      · cases hOk
      have hNone :=
        announcedIn_of_silent
          (Gen.runs_only (routine_storeResult rs callId _)
            hStore).1
      rcases Gen.runs_yield hRest with
        ⟨hOk, -⟩ | ⟨more, rfl, hMore⟩
      · cases hOk
      unfold RunService.handleArtifact at hMore
      split at hMore
      · rcases handleArticles_handled hMore with
          ⟨hFrozen, hDraft⟩
        refine ⟨?_, hDraft⟩
        intro id
        rw [hFrozen]
        simp only [announcedIn, List.filterMap_cons,
          List.filterMap_append, announced] at hNone ⊢
        rw [hNone, List.nil_append]
      · rcases Gen.runs_ret hMore with ⟨-, hOk, -⟩
        cases hOk

theorem handleChunk_handled
    {rs rs' : RunState}
    {messages : List StreamMessage}
    (hRuns :
      Gen.Runs machine
        (RunService.handleChunk threadId rs messages) world
        moments (.ok rs') last) :
    Handled rs (messages.foldl messageDraft rs.draft) moments
      rs' := by
  induction messages generalizing rs world moments with
  | nil =>
      rcases Gen.runs_ret hRuns with ⟨rfl, hOk, -⟩
      cases hOk
      exact ⟨by simp [announcedIn], rfl⟩
  | cons message messages ih =>
      rw [RunService.handleChunk] at hRuns
      rcases Gen.runs_bind hRuns with
        ⟨exn, hOk, -⟩ |
          ⟨first, rest, next, middle, rfl, hMessage, hRest⟩
      · cases hOk
      rcases handleMessage_handled hMessage with
        ⟨hFirst, hDraft⟩
      rcases ih hRest with ⟨hFrozen, hLast⟩
      refine ⟨?_, ?_⟩
      · intro id
        rw [hFrozen, hFirst]
        simp [announcedIn, or_assoc]
      · rw [hLast, hDraft]
        rfl

/- A stream that ends was followed. -/
theorem consumeStream_followed
    {cancel : Option FlagId}
    {steps : List GraphStep}
    {state : GraphState}
    {rs rs' : RunState}
    (hRuns :
      Gen.Runs machine
        (RunService.consumeStream cancel threadId steps state rs)
        world moments (.ok (some rs')) last) :
    Followed rs moments rs' := by
  induction steps generalizing rs state world moments with
  | nil =>
      rw [RunService.consumeStream] at hRuns
      rcases Gen.runs_call hRuns with
        ⟨exn, hOk, -⟩ | ⟨reply, middle, after, rfl, -, hAfter⟩
      · cases hOk
      rcases Gen.runs_ret hAfter with ⟨rfl, hOk, -⟩
      cases hOk
      exact ⟨by simp [announcedIn, announced], rfl⟩
  | cons step steps ih =>
      rw [RunService.consumeStream] at hRuns
      rcases Gen.runs_call hRuns with
        ⟨exn, hOk, -⟩ | ⟨reply, middle, after, rfl, -, hAfter⟩
      · cases hOk
      cases reply with
      | none =>
          rcases Gen.runs_ret hAfter with ⟨rfl, hOk, -⟩
          cases hOk
          exact ⟨by simp [announcedIn, announced], rfl⟩
      | some next =>
          rcases next with ⟨chunk, state'⟩
          rcases Gen.runs_bind hAfter with
            ⟨exn, hOk, -⟩ |
              ⟨asked, rest, stopped, middle', rfl, hAsked, hRest⟩
          · cases hOk
          have hQuiet :=
            (Gen.runs_only
              (silent_of_quiet
                (quiet_of_usual (usual_isCancelled cancel)))
              hAsked).1
          have hNone := announcedIn_of_silent hQuiet
          have hSame := draft_of_aside hQuiet
          cases stopped with
          | true =>
              rcases Gen.runs_bind hRest with
                ⟨exn, hOk, -⟩ | ⟨_, _, _, _, -, -, hEnd⟩
              · cases hOk
              · rcases Gen.runs_ret hEnd with ⟨-, hOk, -⟩
                cases hOk
          | false =>
              cases chunk with
              | interrupt values =>
                  rcases Gen.runs_bind hRest with
                    ⟨exn, hOk, -⟩ | ⟨_, _, _, _, -, -, hEnd⟩
                  · cases hOk
                  · rcases Gen.runs_ret hEnd with ⟨-, hOk, -⟩
                    cases hOk
              | updates messages =>
                  rcases Gen.runs_bind hRest with
                    ⟨exn, hOk, -⟩ |
                      ⟨handled, more, next, _, rfl, hHandled,
                        hMore⟩
                  · cases hOk
                  rcases handleChunk_handled hHandled with
                    ⟨hFrozen, hDraft⟩
                  have hStill :=
                    draft_of_aside
                      (Gen.runs_only
                        (handles_handleChunk threadId rs
                          messages)
                        hHandled).1
                  rcases ih hMore with ⟨hLast, hEnd⟩
                  refine ⟨?_, ?_⟩
                  · intro id
                    rw [hLast, hFrozen]
                    simp only [announcedIn, announced,
                      List.filterMap_cons,
                      List.filterMap_append, List.mem_append]
                      at hNone ⊢
                    rw [hNone]
                    simp [or_assoc]
                  · rw [hEnd, hDraft, List.foldl_cons,
                      List.foldl_append, List.foldl_append,
                      hSame, hStill]
                    rfl

------------------------------------------------------------
-- Checks
------------------------------------------------------------

/- A moment that reads the links of a thread. -/
def Linked (moment : DriverMoment) : Prop :=
  ∃ threadId linked,
    moment =
      .called (.getThreadCitations threadId) (.ok linked)

/-
  Every id that the draft cites was announced by the driver
  or is linked in the thread.
-/
def Backed
    (before : List DriverMoment)
    (linked : List CitationId) :
    Prop :=
  ∀ id ∈ citeFindall (RunService.draftBody (draftIn before)),
    (∃ key ∈ announcedIn before, key.text = id) ∨
      ∃ key ∈ linked, key.text = id

instance
    (before : List DriverMoment)
    (linked : List CitationId) :
    Decidable (Backed before linked) :=
  inferInstanceAs (Decidable (∀ id ∈ _, _ ∨ _))

/- What every check of a draft finds. -/
def Checks (moments : List DriverMoment) : Prop :=
  ∀ before threadId linked after,
    moments =
        before ++
          .called (.getThreadCitations threadId)
              (.ok linked) ::
            after →
      after ≠ [] ∧ (Forged after ↔ ¬Backed before linked)

/- A check behind moments without one. -/
theorem split_of_first
    {first rest before after : List DriverMoment}
    {moment : DriverMoment}
    (hFirst : ∀ other ∈ first, ¬Linked other)
    (hMoment : Linked moment)
    (hSplit : first ++ rest = before ++ moment :: after) :
    ∃ more,
      before = first ++ more ∧ rest = more ++ moment :: after := by
  induction first generalizing before with
  | nil => exact ⟨before, rfl, hSplit⟩
  | cons other first ih =>
      cases before with
      | nil =>
          rcases List.cons_eq_cons.mp hSplit with ⟨rfl, -⟩
          exact absurd hMoment (hFirst _ List.mem_cons_self)
      | cons other' before =>
          rcases List.cons_eq_cons.mp hSplit with ⟨rfl, hRest⟩
          rcases
              ih
                (fun _ hMem =>
                  hFirst _ (List.mem_cons_of_mem _ hMem))
                hRest with
            ⟨more, rfl, hMore⟩
          exact ⟨more, rfl, hMore⟩

/- A check before moments without one. -/
theorem split_of_last
    {first rest before after : List DriverMoment}
    {moment : DriverMoment}
    (hRest : ∀ other ∈ rest, ¬Linked other)
    (hMoment : Linked moment)
    (hSplit : first ++ rest = before ++ moment :: after) :
    ∃ more,
      first = before ++ moment :: more ∧
        after = more ++ rest := by
  induction before generalizing first with
  | nil =>
      cases first with
      | nil =>
          rw [List.nil_append] at hSplit
          subst hSplit
          exact absurd hMoment (hRest _ List.mem_cons_self)
      | cons other first =>
          rcases List.cons_eq_cons.mp hSplit with ⟨rfl, rfl⟩
          exact ⟨first, rfl, rfl⟩
  | cons other' before ih =>
      cases first with
      | nil =>
          rw [List.nil_append] at hSplit
          subst hSplit
          exact absurd hMoment (hRest _ (by simp))
      | cons other first =>
          rcases List.cons_eq_cons.mp hSplit with ⟨rfl, hMore⟩
          rcases ih hMore with ⟨more, rfl, rfl⟩
          exact ⟨more, rfl, rfl⟩

/- The moments of a program that does not check a draft. -/
theorem unchecked_moments
    {α : Type}
    {program : Driver α}
    {result : Except Exn α}
    (hRuns :
      Gen.Runs machine program world moments result last)
    (hUnchecked : program.Unchecked fun _ => True) :
    ∀ moment ∈ moments, ¬Linked moment := by
  rintro moment hMem ⟨threadId, linked, rfl⟩
  have hOp := (Gen.runs_only hUnchecked hRuns).1 _ hMem
  cases hOp

/- Moments without a check. -/
theorem checks_of_none
    (hNone : ∀ moment ∈ moments, ¬Linked moment) :
    Checks moments := by
  rintro before threadId linked after rfl
  exact absurd ⟨threadId, linked, rfl⟩ (hNone _ (by simp))

theorem checks_nil : Checks [] :=
  checks_of_none fun _ hMem => nomatch hMem

/- Checks behind moments that announce nothing. -/
theorem checks_of_silent
    {first rest : List DriverMoment}
    (hFirst :
      ∀ moment ∈ first,
        Gen.Confines (fun op => op.aside = true)
          (fun event => event.data.announces = false) moment)
    (hRest : Checks rest) :
    Checks (first ++ rest) := by
  intro before threadId linked after hSplit
  have hNone : ∀ moment ∈ first, ¬Linked moment := by
    rintro moment hMem ⟨threadId', linked', rfl⟩
    have hOp := hFirst _ hMem
    cases hOp
  rcases split_of_first hNone ⟨threadId, linked, rfl⟩ hSplit with
    ⟨more, rfl, hMore⟩
  have hDraft : draftIn (first ++ more) = draftIn more := by
    rw [draftIn, List.foldl_append, draft_of_aside hFirst]
    rfl
  have hKeys :
      announcedIn (first ++ more) = announcedIn more := by
    have hFirstNone := announcedIn_of_silent hFirst
    rw [announcedIn, List.filterMap_append]
    rw [announcedIn] at hFirstNone
    rw [hFirstNone]
    rfl
  rw [Backed, hDraft, hKeys]
  exact hRest more threadId linked after hMore

/- Checks before moments without one. -/
theorem checks_of_last
    {first rest : List DriverMoment}
    (hFirst : Checks first)
    (hRest : ∀ moment ∈ rest, ¬Linked moment) :
    Checks (first ++ rest) := by
  intro before threadId linked after hSplit
  rcases split_of_last hRest ⟨threadId, linked, rfl⟩ hSplit with
    ⟨more, hMore, rfl⟩
  rcases hFirst before threadId linked more hMore with
    ⟨hNext, hForged⟩
  rcases List.exists_cons_of_ne_nil hNext with
    ⟨moment, more, rfl⟩
  refine ⟨List.cons_ne_nil _ _, ?_⟩
  rw [← hForged]
  constructor
  · rintro ⟨runId, reply, tail, hEq⟩
    rcases List.cons_eq_cons.mp hEq with ⟨rfl, -⟩
    exact ⟨runId, reply, more, rfl⟩
  · rintro ⟨runId, reply, tail, hEq⟩
    rcases List.cons_eq_cons.mp hEq with ⟨rfl, rfl⟩
    exact ⟨runId, reply, _, rfl⟩

------------------------------------------------------------
-- Drives
------------------------------------------------------------

/- A program that begins with a call makes it first. -/
theorem head_of_call
    {α : Type}
    {op : Op}
    {next : op.Reply → Driver α}
    {result : Except Exn α}
    (hRuns :
      Gen.Runs machine (call op >>= next) world moments result
        last) :
    ∃ reply rest, moments = .called op reply :: rest := by
  rcases Gen.runs_call hRuns with
    ⟨exn, -, rfl, -⟩ | ⟨value, -, after, rfl, -⟩
  · exact ⟨_, [], rfl⟩
  · exact ⟨_, after, rfl⟩

/- The check at the end of a stream. -/
theorem finalize_checks
    {rs : RunState}
    {before : List DriverMoment}
    {result : Except Exn Unit}
    (hBefore : ∀ moment ∈ before, ¬Linked moment)
    (hKeys :
      ∀ id, id ∈ rs.frozen ↔ id ∈ announcedIn before)
    (hDraft : rs.draft = draftIn before)
    (hRuns :
      Gen.Runs machine (RunService.finalize rs threadId) world
        moments result last) :
    Checks (before ++ moments) := by
  simp only [RunService.finalize] at hRuns
  rcases Gen.runs_call hRuns with
    ⟨exn, rfl, rfl, -⟩ | ⟨linked, middle, after, rfl, -, hAfter⟩
  · refine checks_of_none ?_
    intro moment hMem
    rcases List.mem_append.mp hMem with hMem | hMem
    · exact hBefore moment hMem
    · rintro ⟨threadId', linked', rfl⟩
      rw [List.mem_singleton] at hMem
      cases hMem
  · have hBacked :
        (citeFindall (RunService.draftBody rs.draft)).filter
              (fun id => !RunService.isValid rs linked id) =
            [] ↔
          Backed before linked := by
      rw [List.filter_eq_nil_iff, hDraft]
      refine forall₂_congr ?_
      intro id _
      simp only [RunService.isValid, Bool.not_eq_true',
        Bool.not_eq_false, List.contains_iff_mem, List.mem_map,
        List.mem_append, hKeys, or_and_right, exists_or]
    have hAfterNone :
        (∀ moment ∈ after, ¬Linked moment) ∧
          after ≠ [] ∧ (Forged after ↔ ¬Backed before linked) := by
      rw [← hBacked]
      split at hAfter
      · rename_i hForged
        have hNone : ∀ moment ∈ after, ¬Linked moment := by
          refine unchecked_moments hAfter ?_
          refine only_call rfl ?_
          intro won
          cases won with
          | false => exact trivial
          | true =>
              exact only_numbered rfl fun _ => trivial
        rcases head_of_call hAfter with ⟨reply, rest, rfl⟩
        refine ⟨hNone, List.cons_ne_nil _ _, ?_⟩
        refine iff_of_true ⟨_, reply, rest, rfl⟩ ?_
        simpa using hForged
      · rename_i hForged
        have hNone : ∀ moment ∈ after, ¬Linked moment := by
          refine unchecked_moments hAfter ?_
          refine only_call rfl ?_
          intro row
          cases row with
          | none => exact trivial
          | some row =>
              exact
                only_yield trivial
                  (only_numbered rfl fun _ => trivial)
        rcases head_of_call hAfter with ⟨reply, rest, rfl⟩
        refine ⟨hNone, List.cons_ne_nil _ _, ?_⟩
        refine iff_of_false ?_ ?_
        · rintro ⟨runId, reply', tail, hEq⟩
          cases hEq
        · intro hNot
          exact hNot (by simpa using hForged)
    intro before' threadId' linked' after' hSplit
    rcases
        split_of_first hBefore ⟨threadId', linked', rfl⟩ hSplit with
      ⟨more, rfl, hMore⟩
    cases more with
    | nil =>
        rw [List.nil_append] at hMore
        cases hMore
        rw [List.append_nil]
        exact hAfterNone.2
    | cons moment more =>
        rcases List.cons_eq_cons.mp hMore with ⟨-, rfl⟩
        exact
          absurd ⟨threadId', linked', rfl⟩
            (hAfterNone.1 _ (by simp))

/- The end of a stream, with what was announced until then. -/
theorem driveStream_followed
    {cancel : Option FlagId}
    {start : Driver GraphState}
    {script : List GraphStep}
    {rs rs' : RunState}
    (hStart : start.Silent fun _ => True)
    (hRuns :
      Gen.Runs machine
        (RunService.driveStream cancel start script rs threadId)
        world moments (.ok (some rs')) last) :
    Followed rs moments rs' := by
  rcases Gen.runs_andThen hRuns with
    ⟨body, tail, ended, middle, rfl, hBody, hTail⟩
  cases ended with
  | error exn =>
      dsimp only at hTail
      split at hTail
      · rcases Gen.runs_bind hTail with
          ⟨exn, hOk, -⟩ | ⟨_, _, _, _, -, -, hEnd⟩
        · cases hOk
        · rcases Gen.runs_ret hEnd with ⟨-, hOk, -⟩
          cases hOk
      · rcases Gen.runs_ret hTail with ⟨-, hOk, -⟩
        cases hOk
  | ok value =>
      rcases Gen.runs_ret hTail with ⟨rfl, hOk, -⟩
      cases hOk
      rw [List.append_nil]
      rcases Gen.runs_bind hBody with
        ⟨exn, hOk, -⟩ |
          ⟨first, rest, state, _, rfl, hFirst, hRest⟩
      · cases hOk
      have hQuiet := (Gen.runs_only hStart hFirst).1
      have hNone := announcedIn_of_silent hQuiet
      rcases consumeStream_followed hRest with ⟨hFrozen, hDraft⟩
      refine ⟨?_, ?_⟩
      · intro id
        rw [hFrozen]
        simp only [announcedIn, List.filterMap_append,
          List.mem_append] at hNone ⊢
        rw [hNone]
        simp
      · rw [hDraft, List.foldl_append, draft_of_aside hQuiet]

/- A stream does not check a draft, however it ends. -/
theorem unchecked_driveStream
    {cancel : Option FlagId}
    {start : Driver GraphState}
    {script : List GraphStep}
    {rs : RunState}
    (hStart : start.Silent fun _ => True) :
    (RunService.driveStream cancel start script rs
        threadId).Unchecked
      fun _ => True := by
  refine only_exceptException ?_ ?_
  · apply
      Gen.only_bind
        (unchecked_of_handles (handles_of_silent hStart))
    intro state _
    exact
      only_consumeStream (fun _ hChecks _ => hChecks) cancel
        threadId script state rs
  · exact
      Gen.only_bind
        (unchecked_of_routine (routine_failRun rs threadId))
        fun _ _ => trivial

theorem driveBody_checks
    {cancel : Option FlagId}
    {start : Driver GraphState}
    {script : List GraphStep}
    {rs : RunState}
    {result : Except Exn Unit}
    (hStart : start.Silent fun _ => True)
    (hBlank : rs.Blank)
    (hRuns :
      Gen.Runs machine
        (RunService.driveBody cancel start script rs threadId)
        world moments result last) :
    Checks moments := by
  rcases Gen.runs_bind hRuns with
    ⟨exn, rfl, hFailed⟩ |
      ⟨first, rest, ended, middle, rfl, hFirst, hRest⟩
  · exact
      checks_of_none
        (unchecked_moments hFailed
          (unchecked_driveStream hStart))
  have hNone :=
    unchecked_moments hFirst (unchecked_driveStream hStart)
  cases ended with
  | none =>
      rcases Gen.runs_ret hRest with ⟨rfl, -⟩
      rw [List.append_nil]
      exact checks_of_none hNone
  | some rs' =>
      rcases driveStream_followed hStart hFirst with
        ⟨hFrozen, hDraft⟩
      refine finalize_checks hNone ?_ ?_ hRest
      · intro id
        rw [hFrozen, hBlank.1]
        simp
      · rw [hDraft, hBlank.2]
        rfl

/- The check of a driver that begins with a new state. -/
theorem drive_checks
    {start : Driver GraphState}
    {script : List GraphStep}
    {rs : RunState}
    {result : Except Exn Unit}
    (hStart : start.Silent fun _ => True)
    (hBlank : rs.Blank)
    (hRuns :
      Gen.Runs machine
        (RunService.drive start script rs threadId) world
        moments result last) :
    Checks moments := by
  rcases Gen.runs_call hRuns with
    ⟨exn, -, rfl, -⟩ | ⟨cancel, _, after, rfl, -, hAfter⟩
  · apply checks_of_none
    rintro moment hMem ⟨threadId', linked, rfl⟩
    rw [List.mem_singleton] at hMem
    cases hMem
  rcases Gen.runs_andThen hAfter with
    ⟨guarded, tail, ended, _, rfl, hGuarded, hTail⟩
  rcases Gen.runs_andThen hGuarded with
    ⟨body, handled, failed, _, rfl, hBody, hHandled⟩
  have hBodyChecks := driveBody_checks hStart hBlank hBody
  have hHandledNone : ∀ moment ∈ handled, ¬Linked moment := by
    apply unchecked_moments hHandled
    cases failed with
    | ok value => exact trivial
    | error exn =>
        dsimp only
        split
        · exact unchecked_of_routine (routine_closeRun rs)
        · exact trivial
  have hTailNone : ∀ moment ∈ tail, ¬Linked moment := by
    apply unchecked_moments hTail
    refine
      Gen.only_andThen
        (unchecked_of_routine (routine_lastCall rfl)) ?_ ?_
    · intro _ _
      cases ended <;> exact trivial
    · intro exn
      exact trivial
  have hChecks :=
    checks_of_last (checks_of_last hBodyChecks hHandledNone)
      hTailNone
  have hFirst :
      ∀ moment ∈
          [(.called (.cancelsGet rs.runId) (.ok cancel) :
            DriverMoment)],
        Gen.Confines (fun op => op.aside = true)
          (fun event => event.data.announces = false)
          moment := by
    intro moment hMem
    rw [List.mem_singleton] at hMem
    subst hMem
    rfl
  exact checks_of_silent hFirst hChecks

/- Checks behind a program that announces nothing. -/
theorem checks_of_bind
    {α β : Type}
    {program : Driver α}
    {next : α → Driver β}
    {done : α → Prop}
    {result : Except Exn β}
    (hSilent : program.Silent done)
    (hNext :
      ∀ value world moments,
        done value →
          Gen.Runs machine (next value) world moments result
              last →
            Checks moments)
    (hRuns :
      Gen.Runs machine (program >>= next) world moments result
        last) :
    Checks moments := by
  rcases Gen.runs_bind hRuns with
    ⟨exn, rfl, hFailed⟩ |
      ⟨first, rest, value, middle, rfl, hFirst, hRest⟩
  · have hChecks :=
      checks_of_silent (Gen.runs_only hSilent hFailed).1
        checks_nil
    rw [List.append_nil] at hChecks
    exact hChecks
  · rcases Gen.runs_only hSilent hFirst with ⟨hMoments, hDone⟩
    exact
      checks_of_silent hMoments
        (hNext value middle rest (hDone value rfl) hRest)

/- The check of a generator, whatever its calls reply. -/
theorem generator_checks
    {registry : Registry}
    {entrance : Entrance}
    {script : List GraphStep}
    {result : Except Exn Unit}
    (hRuns :
      Gen.Runs machine
        (entrance.generator registry threadId script) world
        moments result last) :
    Checks moments := by
  have hStart :
      ∀ op : Op,
        op.plain = true →
          Driver.Silent (call op) fun _ => True :=
    fun _ hOp => silent_of_quiet (quiet_lastCall hOp)
  cases entrance with
  | run message model =>
      refine checks_of_bind (hStart _ rfl) ?_ hRuns
      intro runId world moments _ hRuns
      refine checks_of_bind (hStart _ rfl) ?_ hRuns
      intro _ world moments _ hRuns
      refine checks_of_bind
          (silent_of_quiet
            (quiet_of_routine (routine_emit rfl threadId)))
          ?_ hRuns
      intro _ world moments _ hRuns
      refine
        checks_of_bind
          (silent_of_quiet
            (quiet_of_routine
              (routine_storeQuestion runId message threadId)))
          ?_ hRuns
      intro parent world moments _ hRuns
      cases parent with
      | none =>
          rcases Gen.runs_ret hRuns with ⟨rfl, -⟩
          exact checks_nil
      | some parent =>
          exact
            drive_checks (hStart _ rfl) ⟨rfl, rfl⟩ hRuns
  | resume approve approvedIds =>
      refine
        checks_of_bind
          (silent_decide registry threadId approve approvedIds)
          ?_ hRuns
      intro decided world moments hAnew hRuns
      cases decided with
      | none =>
          rcases Gen.runs_ret hRuns with ⟨rfl, -⟩
          exact checks_nil
      | some rs =>
          exact
            drive_checks (hStart _ rfl) (hAnew rs rfl) hRuns

end Followed

/-
  For every generator, whatever other tasks do between its
  calls: the check of its draft takes no forgery if and only
  if every id of the draft was announced by the generator
  itself or is linked with a message of the thread.
-/
theorem forged_iff
    {inst : InstanceId}
    {registry : Registry}
    {threadId : ThreadId}
    {entrance : Entrance}
    {script : List GraphStep}
    {worlds last : Nat → World}
    {moments before after : List DriverMoment}
    {result : Except Exn Unit}
    {linked : List CitationId}
    (hRuns :
      Gen.Runs (driverMachine inst).shared
        (entrance.generator registry threadId script) worlds
        moments result last)
    (hCheck :
      moments =
        before ++
          .called (.getThreadCitations threadId)
              (.ok linked) ::
            after) :
    (∃ n, linked = (worlds n).db.threadCitations threadId) ∧
      (¬Forged after ↔ Backed before linked) := by
  constructor
  · have hMem :
        (.called (.getThreadCitations threadId) (.ok linked) :
            DriverMoment) ∈
          moments := by
      rw [hCheck]
      exact List.mem_append_right _ List.mem_cons_self
    rcases Gen.reply_of_shared hRuns hMem with ⟨n, hReply⟩
    exact ⟨n, (Except.ok.inj hReply).symm⟩
  · rcases
        generator_checks hRuns before threadId linked after hCheck with
      ⟨-, hForged⟩
    rw [hForged, not_not]

------------------------------------------------------------
-- Recorded Checks
------------------------------------------------------------

/- The first check among moments, with what is around it. -/
def checkIn :
    List DriverMoment →
      Option
        (List DriverMoment × List CitationId ×
          List DriverMoment)
| [] => none
| .called (.getThreadCitations 0) (.ok linked) :: after =>
    some ([], linked, after)
| moment :: moments =>
    (checkIn moments).map fun check =>
      (moment :: check.1, check.2)

theorem checkIn_split
    {moments before after : List DriverMoment}
    {linked : List CitationId}
    (hCheck : checkIn moments = some (before, linked, after)) :
    moments =
      before ++
        .called (.getThreadCitations 0) (.ok linked) ::
          after := by
  induction moments generalizing before with
  | nil => cases hCheck
  | cons moment moments ih =>
      rw [checkIn.eq_def] at hCheck
      split at hCheck
      · rename_i hEq
        cases hEq
      · rename_i hEq
        cases hEq
        cases hCheck
        rfl
      · rename_i hEq
        cases hEq
        rw [Option.map_eq_some_iff] at hCheck
        rcases hCheck with
          ⟨⟨before', linked', after'⟩, hInner, hSame⟩
        cases hSame
        rw [ih hInner]
        rfl

/- An article that a tool finds. -/
def foundArticle : LawRef where
  id := ⟨['x'], by decide⟩
  kind := []
  title := []
  ref := []
  snippet := []
  url := []
  uri := []
  resourceId := []
  effDate := ⟨[], by decide⟩
  articleText := []

/- A tool finds the article, and the agent writes a text. -/
def findingScript (text : String) : List GraphStep :=
  [.tools fun _ => ⟨.str [], .context [foundArticle]⟩,
    .agent (.str text.toList) []]

/- A resumed run may cite the article that it announced. -/
theorem forged_iff_announced :
    ∃ system before after linked,
      execute (System.step .single) pausedRun .initial =
          some system ∧
        ((Entrance.generator .single 0
              (findingScript "[[cite:x]]")
              (.resume true none)).record
            (driverMachine 0) [] system.world).1 =
          before ++
            .called (.getThreadCitations 0) (.ok linked) ::
              after ∧
          ¬Forged after := by
  rcases
      exists_of_execute
        (show
          (execute (System.step .single) pausedRun .initial).map
              (fun system =>
                (checkIn
                    ((Entrance.generator .single 0
                        (findingScript "[[cite:x]]")
                        (.resume true none)).record
                      (driverMachine 0) [] system.world).1).map
                  fun check => decide (Backed check.1 check.2.1)) =
            some (some true) by
          decide +kernel) with
    ⟨system, hSystem, hView⟩
  rcases Option.map_eq_some_iff.mp hView with
    ⟨⟨before, linked, after⟩, hCheck, hBacked⟩
  rcases
      Gen.runs_shared
        (Gen.runs_record
          (Entrance.generator .single 0
            (findingScript "[[cite:x]]") (.resume true none))
          [] system.world) with
    ⟨worlds, last, hRuns⟩
  exact
    ⟨system, before, after, linked, hSystem,
      checkIn_split hCheck,
      (forged_iff hRuns (checkIn_split hCheck)).2.mpr
        (of_decide_eq_true hBacked)⟩

/- The citations that the log of a thread announces. -/
def Db.announced
    (db : Db)
    (threadId : ThreadId) :
    List CitationId :=
  db.runEvents.filterMap fun row =>
    if row.threadId = threadId then
      match row.data with
      | .citationAdded surface => some surface.id
      | _ => none
    else
      none

/-
  Every id that the draft cites was announced in the thread,
  by the driver or before it began.
-/
def CitesAnnounced
    (db : Db)
    (threadId : ThreadId)
    (before : List DriverMoment) :
    Prop :=
  ∀ id ∈ citeFindall (RunService.draftBody (draftIn before)),
    ∃ key ∈ db.announced threadId ++ announcedIn before,
      key.text = id

instance
    (db : Db)
    (threadId : ThreadId)
    (before : List DriverMoment) :
    Decidable (CitesAnnounced db threadId before) :=
  inferInstanceAs (Decidable (∀ id ∈ _, ∃ key ∈ _, _))

/-
  A run whose tool finds the article and whose answer does
  not cite it.
-/
def foundOnly : List Action :=
  pausedRun ++
    [.request 2 0 (.resume 0 true none (findingScript "a"))] ++
    turns 2 28

/- The next run that cites the article counts as a forgery. -/
theorem forged_after_announced :
    ¬ ∀ (registry : Registry) (system : System)
        (inst : InstanceId) (threadId : ThreadId)
        (entrance : Entrance) (script : List GraphStep)
        (moments before after : List DriverMoment)
        (result : Except Exn Unit) (last : World)
        (linked : List CitationId),
      Reachable registry (fun _ _ => True) system →
        Gen.Runs (driverMachine inst)
            (entrance.generator registry threadId script)
            system.world moments result last →
          moments =
              before ++
                .called (.getThreadCitations threadId)
                    (.ok linked) ::
                  after →
            CitesAnnounced system.world.db threadId before →
              ¬Forged after := by
  intro hSound
  rcases
      exists_of_execute
        (show
          (execute (System.step .single) foundOnly .initial).map
              (fun system =>
                (checkIn
                    ((Entrance.generator .single 0
                        [.agent (.str "[[cite:x]]".toList) []]
                        (.run "q".toList none)).record
                      (driverMachine 0) [] system.world).1).map
                  fun check =>
                    (decide (Backed check.1 check.2.1),
                      decide
                        (CitesAnnounced system.world.db 0
                          check.1))) =
            some (some (false, true)) by
          decide +kernel) with
    ⟨system, hSystem, hView⟩
  rcases Option.map_eq_some_iff.mp hView with
    ⟨⟨before, linked, after⟩, hCheck, hBoth⟩
  rw [Prod.mk.injEq] at hBoth
  have hRuns :
      Gen.Runs (driverMachine 0)
        (Entrance.generator .single 0
          [.agent (.str "[[cite:x]]".toList) []]
          (.run "q".toList none))
        system.world _ _ _ :=
    Gen.runs_record _ [] _
  have hForged :=
    (generator_checks hRuns before 0 linked after
      (checkIn_split hCheck)).2.mpr
      (of_decide_eq_false hBoth.1)
  have hKnown := of_decide_eq_true hBoth.2
  exact
    hSound .single system 0 0 _ _ _ before after _ _ linked
      (execution_of_execute hSystem) hRuns
      (checkIn_split hCheck) hKnown hForged

end LegalAgent
