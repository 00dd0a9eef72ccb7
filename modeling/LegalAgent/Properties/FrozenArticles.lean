import LegalAgent.Library.Tracking
import LegalAgent.Properties.Forgery

/-
  What the drivers freeze, and what they compose of it.

  A task keeps a record of the articles that it has frozen.
  It freezes no article twice, and the answer that it commits
  is composed with the dates of its record.  The record of a
  driver is empty at its start, also when it resumes a run.

  Key definitions include:
    * `frozenAfter`
    * `noticeTracker`

  Key theorems include:
    * `notices_finalize`
    * `tracked_request`
-/

------------------------------------------------------------
-- Frozen Articles
------------------------------------------------------------

namespace LegalAgent

open Library

/- The articles that a task has frozen after a call. -/
def frozenAfter
    (frozen : List LawRef)
    (op : Op)
    (reply : Except Exn op.Reply) :
    List LawRef :=
  match op, reply with
  | .freezeCitation ref, .ok _ => ref :: frozen
  | _, _ => frozen

/- The ids and dates of articles, as a driver keeps them. -/
def datesOf (frozen : List LawRef) : List (Text × EffDate) :=
  frozen.map fun ref => (ref.id.text, ref.effDate)

/-
  An article is frozen once, and the head of an answer is
  composed of the dates of the frozen articles.
-/
def noticeTracker :
    Tracker Op Op.Reply Exn (List LawRef) where
  allows frozen op :=
    match op with
    | .freezeCitation ref => ref.id ∉ frozen.map LawRef.id
    | .commitAgentAnswer _ _ contentMd citationIds _ _ =>
        ∃ body,
          contentMd = compose body citationIds (datesOf frozen)
    | _ => True
  after := frozenAfter

/- A plain call neither freezes nor commits. -/
theorem frozenAfter_of_plain
    {op : Op}
    (hPlain : op.plain = true)
    (frozen : List LawRef)
    (reply : Except Exn op.Reply) :
    frozenAfter frozen op reply = frozen := by
  cases op <;> first | rfl | cases hPlain

/- Every plain call is allowed. -/
theorem allows_of_plain
    {op : Op}
    (hPlain : op.plain = true)
    (frozen : List LawRef) :
    noticeTracker.allows frozen op := by
  cases op <;> first | exact trivial | cases hPlain

/- The state of a driver remembers what it froze. -/
structure RunState.Froze
    (rs : RunState)
    (frozen : List LawRef) :
    Prop where
  ids : rs.frozen = frozen.map LawRef.id
  dates : rs.citedEff = datesOf frozen

/- A new state has frozen nothing. -/
theorem RunState.New.froze
    {rs : RunState}
    (hNew : rs.New) :
    rs.Froze [] := by
  rw [hNew]
  exact ⟨rfl, rfl⟩

/- The state behind one more article. -/
theorem RunState.Froze.freeze
    {rs : RunState}
    {frozen : List LawRef}
    (hFroze : rs.Froze frozen)
    (ref : LawRef) :
    (rs.freeze ref).Froze (ref :: frozen) where
  ids := congrArg (ref.id :: ·) hFroze.ids
  dates :=
    congrArg ((ref.id.text, ref.effDate) :: ·) hFroze.dates

------------------------------------------------------------
-- Tracked Drivers
------------------------------------------------------------

/- A driver with its record and a postcondition. -/
abbrev Driver.Notices
    {α : Type}
    (program : Driver α)
    (frozen : List LawRef)
    (post : Except Exn α → List LawRef → Prop) :
    Prop :=
  Gen.Tracked noticeTracker program frozen post

/- A program that ends in any way. -/
abbrev anyEnd {α : Type} : Except Exn α → List LawRef → Prop :=
  fun _ _ => True

/- A state that is handed on remembers what was frozen. -/
def keepsFrozen : Except Exn RunState → List LawRef → Prop
| .ok rs, frozen => rs.Froze frozen
| .error _, _ => True

/- The same of a state that may be missing. -/
def keepsSome :
    Except Exn (Option RunState) → List LawRef → Prop
| .ok (some rs), frozen => rs.Froze frozen
| _, _ => True

section Drivers

variable {α : Type} {frozen : List LawRef}
variable {threadId : ThreadId}

/- A quiet program leaves the record as it is. -/
theorem notices_of_quiet
    {program : Driver α}
    {done : α → Prop}
    (hQuiet : program.Quiet done)
    {post : Except Exn α → List LawRef → Prop}
    (hOk : ∀ value, done value → post (.ok value) frozen)
    (hError : ∀ exn, post (.error exn) frozen) :
    program.Notices frozen post := by
  refine
    Gen.tracked_mono
      (Gen.tracked_of_only hQuiet fun op hOp =>
        ⟨allows_of_plain hOp frozen,
          frozenAfter_of_plain hOp frozen⟩)
      ?_
  rintro result record ⟨rfl, hDone⟩
  cases result with
  | ok value => exact hOk value (hDone value rfl)
  | error exn => exact hError exn

/- A quiet program before the rest of a `do` block. -/
theorem notices_quiet_bind
    {β : Type}
    {program : Driver α}
    {done : α → Prop}
    {next : α → Driver β}
    {post : Except Exn β → List LawRef → Prop}
    (hQuiet : program.Quiet done)
    (hOk :
      ∀ value, done value → (next value).Notices frozen post)
    (hError : ∀ exn, post (.error exn) frozen) :
    (program >>= next).Notices frozen post :=
  Gen.tracked_andThen (notices_of_quiet hQuiet hOk hError)

/- A routine program before the rest of a `do` block. -/
theorem notices_routine_bind
    {β : Type}
    {program : Driver α}
    {next : α → Driver β}
    {post : Except Exn β → List LawRef → Prop}
    (hRoutine : program.Routine)
    (hOk : ∀ value, (next value).Notices frozen post)
    (hError : ∀ exn, post (.error exn) frozen) :
    (program >>= next).Notices frozen post :=
  notices_quiet_bind (quiet_of_routine hRoutine)
    (fun value _ => hOk value) hError

/- A plain call before the rest of a `do` block. -/
theorem notices_call
    {op : Op}
    {next : op.Reply → Driver α}
    {post : Except Exn α → List LawRef → Prop}
    (hPlain : op.plain = true)
    (hOk : ∀ value, (next value).Notices frozen post)
    (hError : ∀ exn, post (.error exn) frozen) :
    (call op >>= next).Notices frozen post :=
  notices_quiet_bind (quiet_lastCall hPlain)
    (fun value _ => hOk value) hError

/- An event of any kind before the rest of a `do` block. -/
theorem notices_emit
    {data : EventData}
    {next : Unit → Driver α}
    {post : Except Exn α → List LawRef → Prop}
    (hOk : (next ()).Notices frozen post)
    (hError : ∀ exn, post (.error exn) frozen) :
    (RunService.emit data threadId >>= next).Notices frozen
      post := by
  have hPlain :
      Gen.Only (fun op => op.plain = true) (fun _ => True)
        (fun _ => True) (RunService.emit data threadId) :=
    only_call rfl fun _ => Gen.only_emit trivial
  refine
    Gen.tracked_bind
      (Gen.tracked_of_only hPlain fun op hOp =>
        ⟨allows_of_plain hOp frozen,
          frozenAfter_of_plain hOp frozen⟩)
      ?_ ?_
  · rintro value record ⟨rfl, -⟩
    exact hOk
  · rintro exn record ⟨rfl, -⟩
    exact hError exn

/- An event at the end of a program. -/
theorem notices_lastEmit
    {data : EventData} :
    (RunService.emit data threadId).Notices frozen anyEnd :=
  notices_call rfl (fun _ _ => trivial) fun _ => trivial

theorem notices_handleArticles
    {rs : RunState}
    (hFroze : rs.Froze frozen)
    (refs : List LawRef) :
    (RunService.handleArticles threadId rs refs).Notices frozen
      keepsFrozen := by
  induction refs generalizing rs frozen with
  | nil => exact hFroze
  | cons ref refs ih =>
      rw [RunService.handleArticles]
      split
      · exact ih hFroze
      · rename_i hNew
        rw [hFroze.ids] at hNew
        refine
          Gen.tracked_perform_bind hNew ?_ fun _ => trivial
        intro _
        exact
          notices_emit (ih (hFroze.freeze ref)) fun _ => trivial

theorem notices_handleMessage
    {rs : RunState}
    (hFroze : rs.Froze frozen)
    (message : StreamMessage) :
    (RunService.handleMessage rs threadId message).Notices
      frozen keepsFrozen := by
  cases message with
  | ai content calls =>
      rw [RunService.handleMessage]
      refine
        notices_routine_bind
          (routine_handleCalls rs threadId calls) ?_
          fun _ => trivial
      intro _
      split
      · exact ⟨hFroze.ids, hFroze.dates⟩
      · exact hFroze
  | tool callId content artifact =>
      rw [RunService.handleMessage]
      refine notices_call rfl ?_ fun _ => trivial
      intro seq
      refine
        notices_routine_bind (routine_storeResult rs callId _)
          ?_ fun _ => trivial
      intro _
      refine Gen.tracked_emit_bind ?_ fun _ => trivial
      unfold RunService.handleArtifact
      cases articlesOf artifact with
      | ok refs => exact notices_handleArticles hFroze refs
      | error exn => exact trivial

theorem notices_handleChunk
    {rs : RunState}
    (hFroze : rs.Froze frozen)
    (messages : List StreamMessage) :
    (RunService.handleChunk threadId rs messages).Notices frozen
      keepsFrozen := by
  induction messages generalizing rs frozen with
  | nil => exact hFroze
  | cons message messages ih =>
      rw [RunService.handleChunk]
      refine
        Gen.tracked_bind (notices_handleMessage hFroze message)
          ?_ fun _ _ _ => trivial
      intro rs' frozen' hFroze'
      exact ih hFroze'

theorem notices_consumeStream
    (cancel : Option FlagId)
    (steps : List GraphStep)
    {state : GraphState}
    {rs : RunState}
    (hFroze : rs.Froze frozen) :
    (RunService.consumeStream cancel threadId steps state
        rs).Notices frozen keepsSome := by
  induction steps generalizing state rs frozen with
  | nil =>
      rw [RunService.consumeStream]
      refine
        Gen.tracked_perform_bind trivial ?_ fun _ => trivial
      intro reply
      exact hFroze
  | cons step steps ih =>
      rw [RunService.consumeStream]
      refine
        Gen.tracked_perform_bind trivial ?_ fun _ => trivial
      intro reply
      cases reply with
      | none => exact hFroze
      | some next =>
          rcases next with ⟨chunk, state'⟩
          refine
            notices_quiet_bind
              (quiet_of_usual (usual_isCancelled cancel)) ?_
              fun _ => trivial
          intro stopped _
          cases stopped with
          | true =>
              exact
                notices_routine_bind
                  (routine_cancelRun rs threadId)
                  (fun _ => trivial) fun _ => trivial
          | false =>
              cases chunk with
              | interrupt values =>
                  exact
                    notices_quiet_bind
                      (quiet_of_usual
                        (usual_pauseRun rs threadId values))
                      (fun _ _ => trivial) fun _ => trivial
              | updates messages =>
                  refine
                    Gen.tracked_bind
                      (notices_handleChunk hFroze messages) ?_
                      fun _ _ _ => trivial
                  intro rs' frozen' hFroze'
                  exact ih hFroze'

/- The head of an answer is composed of what was frozen. -/
theorem notices_finalize
    {rs : RunState}
    (hFroze : rs.Froze frozen) :
    (RunService.finalize rs threadId).Notices frozen anyEnd := by
  simp only [RunService.finalize]
  refine Gen.tracked_perform_bind trivial ?_ fun _ => trivial
  intro linked
  split
  · refine notices_call rfl ?_ fun _ => trivial
    intro won
    cases won with
    | false => exact trivial
    | true => exact notices_lastEmit
  · have hHead :
        noticeTracker.allows frozen
          (.commitAgentAnswer threadId rs.runId
            (compose (RunService.draftBody rs.draft)
              (citeFindall
                (RunService.draftBody rs.draft)).eraseDups
              rs.citedEff)
            (citeFindall
              (RunService.draftBody rs.draft)).eraseDups
            rs.parentId rs.model) := by
      rw [hFroze.dates]
      exact ⟨_, rfl⟩
    refine Gen.tracked_perform_bind hHead ?_ fun _ => trivial
    intro row
    cases row with
    | none => exact trivial
    | some row =>
        exact
          Gen.tracked_emit_bind notices_lastEmit fun _ => trivial

theorem notices_driveStream
    {cancel : Option FlagId}
    {start : Driver GraphState}
    (hStart : start.Quiet fun _ => True)
    (script : List GraphStep)
    {rs : RunState}
    (hFroze : rs.Froze frozen) :
    (RunService.driveStream cancel start script rs
        threadId).Notices
      frozen keepsSome := by
  apply Gen.tracked_andThen
  refine
    Gen.tracked_mono
      (notices_quiet_bind hStart
        (fun _ _ => notices_consumeStream cancel script hFroze)
        fun _ => trivial)
      ?_
  intro result frozen' hKept
  cases result with
  | ok value => exact hKept
  | error exn =>
      dsimp only
      split
      · exact
          notices_routine_bind (routine_failRun rs threadId)
            (fun _ => trivial) fun _ => trivial
      · exact trivial

/- A driver that begins with a new state. -/
theorem notices_drive
    {start : Driver GraphState}
    (hStart : start.Quiet fun _ => True)
    (script : List GraphStep)
    {rs : RunState}
    (hFroze : rs.Froze frozen) :
    (RunService.drive start script rs threadId).Notices frozen
      anyEnd := by
  refine notices_call rfl ?_ fun _ => trivial
  intro cancel
  have hBody :
      (RunService.driveBody cancel start script rs
          threadId).Notices
        frozen anyEnd := by
    refine
      Gen.tracked_bind
        (notices_driveStream hStart script hFroze) ?_
        fun _ _ _ => trivial
    intro ended frozen' hKept
    cases ended with
    | none => exact trivial
    | some rs' => exact notices_finalize hKept
  refine
    Gen.tracked_tryFinally (Gen.tracked_tryCatch hBody ?_) ?_
  · intro exn frozen' _
    split
    · exact
        notices_of_quiet (quiet_of_routine (routine_closeRun rs))
          (fun _ _ => trivial) fun _ => trivial
    · exact trivial
  · intro frozen'
    exact
      notices_of_quiet (quiet_lastCall rfl)
        (fun _ _ => trivial) fun _ => trivial

/- The driver of a new run. -/
theorem notices_run
    (registry : Registry)
    (message : Text)
    (model : Option Text)
    (script : List GraphStep) :
    (RunService.run registry message threadId model
        script).Notices
      [] anyEnd := by
  refine notices_call rfl ?_ fun _ => trivial
  intro runId
  refine notices_call rfl ?_ fun _ => trivial
  intro _
  refine notices_emit ?_ fun _ => trivial
  refine
    notices_routine_bind
      (routine_storeQuestion runId message threadId) ?_
      fun _ => trivial
  intro parent
  cases parent with
  | none => exact trivial
  | some parent =>
      exact
        notices_drive (quiet_lastCall rfl) script ⟨rfl, rfl⟩

/- The driver of a resumed run begins anew. -/
theorem notices_resume
    (registry : Registry)
    (approve : Bool)
    (approvedIds : Option (List Text))
    (script : List GraphStep) :
    (RunService.resume registry threadId approve approvedIds
        script).Notices
      [] anyEnd := by
  refine
    notices_quiet_bind
      (quiet_decide registry threadId approve approvedIds) ?_
      fun _ => trivial
  intro decided hNew
  cases decided with
  | none => exact trivial
  | some rs =>
      exact
        notices_drive (quiet_lastCall rfl) script
          (hNew rs rfl).froze

end Drivers

------------------------------------------------------------
-- Tracked Requests
------------------------------------------------------------

section Requests

variable {frozen : List LawRef}
variable {threadId : ThreadId} {runId : RunId}

/- A pump makes plain calls between those of its generator. -/
theorem notices_consume
    {generator : Driver Unit}
    (hGenerator : generator.Notices frozen anyEnd)
    (sawTerminal : Bool)
    (lastName : Option EventName) :
    (RunManager.consume threadId runId sawTerminal lastName
        generator).Notices
      frozen anyEnd := by
  have hEpilogue :
      ∀ (frozen : List LawRef) sawTerminal lastName,
        (RunManager.epilogue threadId runId sawTerminal
            lastName).Notices
          frozen fun _ frozen' => frozen' = frozen := by
    intro frozen sawTerminal lastName
    exact
      notices_of_quiet
        (quiet_of_routine
          (routine_epilogue threadId runId sawTerminal
            lastName))
        (fun _ _ => rfl) fun _ => rfl
  induction generator
    generalizing frozen sawTerminal lastName with
  | ret result =>
      exact
        Gen.tracked_mono
          (hEpilogue frozen sawTerminal lastName)
          fun _ _ _ => trivial
  | call op next ih =>
      exact
        ⟨hGenerator.1, fun reply =>
          ih reply (hGenerator.2 reply) sawTerminal lastName⟩
  | yield event next ih =>
      refine ⟨trivial, ?_⟩
      intro reply
      cases reply with
      | ok value =>
          exact
            ih (.ok ()) (hGenerator (.ok ())) _ _
      | error exn =>
          refine
            Gen.tracked_andThen
              (Gen.tracked_mono (hEpilogue frozen _ _) ?_)
          rintro result frozen' rfl
          exact
            Gen.tracked_close (hGenerator (.error .generatorExit))

theorem notices_spawnPump
    {generator : Driver Unit}
    (hGenerator : generator.Notices frozen anyEnd) :
    (RunManager.spawnPump generator threadId runId).Notices
      frozen anyEnd :=
  notices_call rfl
    (fun _ => notices_consume hGenerator false none)
    fun _ => trivial

/- The first event is handed to a program that goes on. -/
theorem notices_firstEvent
    {next :
      RunEvent → (Except Exn Unit → Driver Unit) →
        Driver Unit}
    {generator : Driver Unit}
    (hGenerator : generator.Notices frozen anyEnd)
    (hNext :
      ∀ (frozen : List LawRef) event resume,
        (∀ reply, (resume reply).Notices frozen anyEnd) →
          (next event resume).Notices frozen anyEnd) :
    (RunManager.firstEvent next generator).Notices frozen
      anyEnd := by
  induction generator generalizing frozen with
  | ret result => exact trivial
  | call op resume ih =>
      exact
        ⟨hGenerator.1, fun reply =>
          ih reply (hGenerator.2 reply)⟩
  | yield event resume ih =>
      exact hNext frozen event resume hGenerator

theorem notices_start
    (registry : Registry)
    (message : Text)
    (model : Option Text)
    (script : List GraphStep) :
    (RunManager.start registry threadId message model
        script).Notices
      [] anyEnd := by
  apply
    notices_firstEvent
      (notices_run registry message model script)
  intro frozen event resume hResume
  split
  · refine ⟨trivial, ?_⟩
    intro reply
    cases reply with
    | ok value => exact notices_spawnPump (hResume (.ok ()))
    | error exn =>
        refine
          Gen.tracked_andThen
            (Gen.tracked_mono
              (Gen.tracked_close
                (hResume (.error .generatorExit)))
              fun _ _ _ => ?_)
        exact trivial
  · exact trivial

theorem notices_resumeRequest
    (registry : Registry)
    (approve : Bool)
    (approvedIds : Option (List Text))
    (script : List GraphStep) :
    (RunManager.resume registry threadId approve approvedIds
        script).Notices
      [] anyEnd := by
  refine notices_call rfl ?_ fun _ => trivial
  intro active
  split
  · exact
      notices_spawnPump
        (notices_resume registry approve approvedIds script)
  · exact trivial

/- Events of a log may announce articles. -/
theorem notices_sendPage
    {cursor : RunManager.StreamCursor}
    (events : List RunEvent) :
    (RunManager.sendPage cursor events).Notices frozen
      fun _ frozen' => frozen' = frozen := by
  induction events generalizing cursor with
  | nil => exact rfl
  | cons event events ih =>
      rw [RunManager.sendPage]
      refine Gen.tracked_emit_bind ?_ fun _ => rfl
      split
      · exact rfl
      · exact ih

theorem notices_stream
    (runId : RunId)
    (polls : Nat)
    (cursor : Option Nat) :
    (RunManager.stream runId polls cursor).Notices frozen
      anyEnd := by
  induction polls generalizing cursor with
  | zero => exact trivial
  | succ polls ih =>
      rw [RunManager.stream]
      refine notices_call rfl ?_ fun _ => trivial
      intro rows
      refine
        Gen.tracked_bind (notices_sendPage rows) ?_
          fun _ _ _ => trivial
      rintro sent frozen' rfl
      split
      · exact trivial
      · split
        · refine notices_call rfl ?_ fun _ => trivial
          intro run
          split
          · split
            · intro reply
              exact trivial
            · exact ih sent.last
          · exact ih sent.last
        · exact ih sent.last

/- Every request freezes and commits as the tracker says. -/
theorem tracked_request
    (registry : Registry)
    (request : Request) :
    (request.program registry).Notices [] anyEnd := by
  cases request with
  | createThread title =>
      exact notices_call rfl (fun _ => trivial) fun _ => trivial
  | fork parentId forkPoint =>
      exact
        notices_of_quiet
          (quiet_of_routine (routine_fork parentId forkPoint))
          (fun _ _ => trivial) fun _ => trivial
  | start threadId message model script =>
      exact notices_start registry message model script
  | resume threadId approve approvedIds script =>
      exact
        notices_resumeRequest registry approve approvedIds
          script
  | interrupt runId =>
      exact
        notices_of_quiet
          (quiet_of_usual (usual_interrupt runId))
          (fun _ _ => trivial) fun _ => trivial
  | stream runId polls cursor =>
      exact notices_stream runId polls cursor

end Requests

end LegalAgent
