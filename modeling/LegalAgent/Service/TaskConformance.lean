import LegalAgent.Service.DriverConformance

/-
  The tasks of the run manager follow the service protocol.

  A pump turns the events that its generator yields into log
  entries, so a generator that follows the protocol makes a
  pump that does.

  Key theorems include:
    * `follows_consume`
    * `follows_start`
    * `follows_resume`
    * `follows_interrupt`
    * `follows_stream`
-/

------------------------------------------------------------
-- Epilogues
------------------------------------------------------------

namespace LegalAgent

open Library

/- A task stays within the service protocol and may end. -/
abbrev Driver.FollowsTask
    {α : Type}
    (program : Driver α)
    (quiet : Bool)
    (phase : Phase)
    (post : Bool → Except Exn α → Phase → Prop) :
    Prop :=
  Gen.follows serviceProtocol program quiet phase post

/- The postcondition of a task. -/
def taskEnd {α : Type} : Bool → Except Exn α → Phase → Prop :=
  fun _ _ phase => phase.role.mayEnd = true

/- Whether a role logs the events of a run in a thread. -/
def Role.Logs
    (threadId : ThreadId)
    (log : RunId) :
    Role → Prop
| .on job _ => job.thread = threadId ∧ job.log = log
| .looking log' threadId' _ => threadId' = threadId ∧ log' = log
| _ => False

/-
  What a pump remembers of the events that it logged: it saw
  the terminal event of a settled run, and the approval
  request of a paused one was the last.
-/
structure Remembers
    (sawTerminal : Bool)
    (lastName : Option EventName)
    (role : Role) :
    Prop where
  settled :
    ∀ job, role = .on job .settled → sawTerminal = true
  paused :
    ∀ job, role = .on job (.paused true) →
      lastName = some .approvalRequested

/- Only a terminal event settles a run. -/
theorem terminal_of_settles
    {job : Job}
    {stage : Stage}
    {event : RunEvent}
    (hAllows :
      Stage.Allows job stage
        (.appendRunEvent job.thread job.log event))
    (hSettled :
      stage.after
          (.appendRunEvent job.thread job.log event)
          (.ok ()) =
        .settled) :
    event.name.terminal = true := by
  cases hAllows with
  | erringLog hName => rw [hName]; rfl
  | closingLog hName =>
      by_contra hNot
      simp [Stage.after, hNot] at hSettled
  | _ => cases hSettled

/- Only an approval request completes a pause. -/
theorem approval_of_pauses
    {job : Job}
    {stage : Stage}
    {event : RunEvent}
    (hAllows :
      Stage.Allows job stage
        (.appendRunEvent job.thread job.log event))
    (hPaused :
      stage.after
          (.appendRunEvent job.thread job.log event)
          (.ok ()) =
        .paused true) :
    event.name = .approvalRequested := by
  cases hAllows with
  | pausedLog hName => exact hName
  | closingLog hName =>
      exfalso
      simp only [Stage.after] at hPaused
      split at hPaused <;> cases hPaused
  | _ => cases hPaused

/- Other calls neither settle a run nor complete a pause. -/
theorem stage_of_not_log
    {job : Job}
    {stage : Stage}
    {op : Op}
    (reply : Except Exn op.Reply)
    (hAllows : Stage.Allows job stage op)
    (hLog : op.isLog = false) :
    (stage.after op reply = .settled → stage = .settled) ∧
      (stage.after op reply = .paused true →
        stage = .paused true) := by
  cases hAllows <;>
    simp only [Op.isLog, Bool.true_eq_false] at hLog
  all_goals
    rcases reply with exn | value <;>
      simp only [Stage.after, stageOfEnd]
  all_goals repeat' split
  all_goals simp

/- The run that a role logs does not change. -/
theorem Role.Logs.after
    {threadId : ThreadId}
    {log : RunId}
    {role : Role}
    (hLogs : role.Logs threadId log)
    (op : Op)
    (reply : Except Exn op.Reply) :
    (role.after op reply).Logs threadId log := by
  cases role with
  | on job stage => exact hLogs
  | looking log' threadId' synthetic =>
      rcases hLogs with ⟨rfl, rfl⟩
      simp only [Role.after]
      repeat' split
      all_goals exact ⟨rfl, rfl⟩
  | aside => exact absurd hLogs id
  | fresh => exact absurd hLogs id
  | watching threadId' runId => exact absurd hLogs id

/- What a pump remembers holds until its next log entry. -/
theorem Remembers.after
    {sawTerminal : Bool}
    {lastName : Option EventName}
    {threadId : ThreadId}
    {log : RunId}
    {role : Role}
    {op : Op}
    {reply : Except Exn op.Reply}
    (hRemembers : Remembers sawTerminal lastName role)
    (hLogs : role.Logs threadId log)
    (hAllows : role.Allows op)
    (hLog : op.isLog = false) :
    Remembers sawTerminal lastName (role.after op reply) := by
  cases role with
  | on job stage =>
      cases hAllows with
      | on hStage =>
          have hStages :=
            stage_of_not_log reply hStage hLog
          constructor
          · intro job' hRole
            rcases Role.on.inj hRole with ⟨rfl, hSettled⟩
            exact
              hRemembers.settled job
                (by rw [hStages.1 hSettled])
          · intro job' hRole
            rcases Role.on.inj hRole with ⟨rfl, hPaused⟩
            exact
              hRemembers.paused job
                (by rw [hStages.2 hPaused])
  | looking log' threadId' synthetic =>
      simp only [Role.after]
      constructor <;> intro job hRole
      all_goals repeat' split at hRole
      all_goals cases hRole
  | aside => exact absurd hLogs id
  | fresh => exact absurd hLogs id
  | watching threadId' runId => exact absurd hLogs id

/- A pump remembers what it has just logged. -/
theorem remembers_log
    {sawTerminal : Bool}
    {job : Job}
    {stage : Stage}
    {event : RunEvent}
    (hAllows :
      Stage.Allows job stage
        (.appendRunEvent job.thread job.log event)) :
    Remembers (sawTerminal || event.name.terminal)
      (some event.name)
      (.on job
        (stage.after
          (.appendRunEvent job.thread job.log event)
          (.ok ()))) := by
  constructor
  · intro job' hRole
    rcases Role.on.inj hRole with ⟨-, hSettled⟩
    rw [terminal_of_settles hAllows hSettled, Bool.or_true]
  · intro job' hRole
    rcases Role.on.inj hRole with ⟨-, hPaused⟩
    rw [approval_of_pauses hAllows hPaused]

/-
  The roles in which a pump may have to log a synthetic event,
  before and after it has read that the run is not over.
-/
structure Departs
    (threadId : ThreadId)
    (log : RunId)
    (role : Bool → Role) :
    Prop where
  discard : (role false).Allows (.activeDiscard log)
  read : (role false).Allows (.getRun log)
  seq : (role true).Allows (.nextSeq threadId)
  logs :
    ∀ event : RunEvent,
      event.name = .error →
        (role true).Allows (.appendRunEvent threadId log event)
  afterDiscard :
    ∀ reply,
      (role false).after (.activeDiscard log) reply = role false
  afterRead :
    ∀ reply,
      (role false).after (.getRun log) reply =
        role (needsSynthetic reply)
  afterSeq :
    ∀ seq,
      (role true).after (.nextSeq threadId) (.ok seq) =
        role true
  afterSeqError :
    ∀ exn,
      (role true).after (.nextSeq threadId) (.error exn) =
        role false
  afterLog :
    ∀ event reply,
      (role true).after (.appendRunEvent threadId log event)
          reply =
        role false

theorem departs_left
    (job : Job)
    (reason : Leaving) :
    Departs job.thread job.log
      fun synthetic => .on job (.left reason synthetic) where
  discard := .on .leftDiscard
  read := .on .leftRead
  seq := .on .leftSeq
  logs := fun _ hName => .on (.leftLog hName)
  afterDiscard := fun _ => rfl
  afterRead := fun _ => rfl
  afterSeq := fun _ => rfl
  afterSeqError := fun _ => rfl
  afterLog := fun _ _ => rfl

theorem departs_looking
    (threadId : ThreadId)
    (log : RunId) :
    Departs threadId log fun synthetic =>
      .looking log threadId synthetic where
  discard := .lookingDiscard
  read := .lookingRead
  seq := .lookingSeq
  logs := fun _ hName => .lookingLog hName
  afterDiscard := fun _ => rfl
  afterRead := fun _ => rfl
  afterSeq := fun _ => rfl
  afterSeqError := fun _ => rfl
  afterLog := fun _ _ => rfl

section Pumps

variable {threadId : ThreadId} {log : RunId}
variable {quiet : Bool} {drawn : Option Nat}

/- The end of a pump that read the status of its run. -/
theorem follows_synthetic
    {role : Bool → Role}
    (hDeparts : Departs threadId log role)
    (run : Option (ThreadId × RunStatus)) :
    Driver.FollowsTask
      (if (run.all fun run => !run.2.terminal) = true then do
        let seq ← call (.nextSeq threadId)
        call
          (.appendRunEvent threadId log
            (syntheticTerminal seq))
      else
        pure PUnit.unit)
      quiet
      ⟨role (run.all fun run => !run.2.terminal), drawn⟩
      fun quiet' _ phase =>
        quiet' = quiet ∧ phase.role = role false ∧
          (drawn = none → phase.drawn = none) := by
  split
  · rename_i hActive
    rw [hActive]
    refine Gen.follows_perform_bind
      ⟨hDeparts.seq, trivial⟩ ?_ ?_
    · intro seq _
      refine ⟨⟨?_, rfl⟩, ?_⟩
      · dsimp only [serviceProtocol, Phase.after]
        rw [hDeparts.afterSeq]
        exact hDeparts.logs _ rfl
      · intro reply _
        refine ⟨rfl, ?_, fun _ => rfl⟩
        dsimp only [serviceProtocol, Phase.after]
        rw [hDeparts.afterSeq]
        exact hDeparts.afterLog _ _
    · intro exn _
      exact ⟨rfl, hDeparts.afterSeqError exn, id⟩
  · rename_i hEnded
    rw [Bool.not_eq_true] at hEnded
    rw [hEnded]
    exact ⟨rfl, rfl, id⟩

/- The epilogue of a pump leaves its role as it was. -/
theorem follows_epilogue
    {role : Bool → Role}
    (hDeparts : Departs threadId log role)
    (sawTerminal : Bool)
    (lastName : Option EventName) :
    (RunManager.epilogue threadId log sawTerminal
        lastName).FollowsTask quiet ⟨role false, drawn⟩
      fun quiet' _ phase =>
        quiet' = quiet ∧ phase.role = role false ∧
          (drawn = none → phase.drawn = none) := by
  rw [RunManager.epilogue]
  refine Gen.follows_perform_bind
    ⟨hDeparts.discard, trivial⟩ ?_ ?_
  · intro _ _
    dsimp only [serviceProtocol, Phase.after]
    rw [hDeparts.afterDiscard]
    split
    · apply Gen.follows_bind
      apply Gen.follows_tryCatch
      refine ⟨⟨hDeparts.read, trivial⟩, ?_⟩
      intro reply hPossible
      dsimp only [Phase.after]
      rw [hDeparts.afterRead]
      rcases reply with exn | run
      · have hException := (hPossible.error exn rfl).1
        simp only [Gen.follows_ret, hException, if_true]
        exact follows_synthetic hDeparts none
      · have hReply :
            needsSynthetic (.ok run) =
              run.all fun run => !run.2.terminal := by
          rcases run with _ | ⟨threadId', status⟩ <;> rfl
        rw [hReply]
        exact follows_synthetic hDeparts run
    · exact ⟨rfl, rfl, id⟩
  · intro exn hPossible
    exact absurd rfl (hPossible.error exn rfl).2

/- A pump that has nothing to add only ends its heartbeat. -/
theorem follows_epilogue_quiet
    {job : Job}
    {stage : Stage}
    {sawTerminal : Bool}
    {lastName : Option EventName}
    (hQuiet :
      sawTerminal = true ∨
        lastName = some .approvalRequested)
    (hDiscard :
      Stage.Allows job stage (.activeDiscard job.log))
    (hStays :
      stage.after (.activeDiscard job.log) (.ok ()) = stage)
    (hEnd : stage.mayEnd = true) :
    (RunManager.epilogue job.thread job.log sawTerminal
        lastName).FollowsTask quiet (job.at stage drawn)
      taskEnd := by
  rw [RunManager.epilogue]
  refine Gen.follows_perform_bind
    ⟨.on hDiscard, trivial⟩ ?_ ?_
  · intro _ _
    have hNothing :
        (!sawTerminal &&
          lastName != some .approvalRequested) = false := by
      rcases hQuiet with rfl | rfl
      · rfl
      · simp
    rw [if_neg (by rw [hNothing]; exact Bool.false_ne_true)]
    change (stage.after (.activeDiscard job.log)
      (.ok ())).mayEnd = true
    rw [hStays]
    exact hEnd
  · intro exn hPossible
    exact absurd rfl (hPossible.error exn rfl).2

/-
  The postcondition of the generator of a pump: it left its
  run, or found none, or was closed and may end.
-/
def atDeparture
    (threadId : ThreadId)
    (log : RunId) :
    Bool → Except Exn Unit → Phase → Prop
| false, _, phase =>
    phase.role = .looking log threadId false ∨
      ∃ job : Job,
        job.thread = threadId ∧ job.log = log ∧
          Released job phase
| true, _, phase => phase.role.mayEnd = true

/- A task may end where its generator departs. -/
theorem mayEnd_of_departure
    {result : Except Exn Unit}
    {phase : Phase}
    (hDeparture :
      atDeparture threadId log quiet result phase) :
    phase.role.mayEnd = true := by
  cases quiet with
  | true => exact hDeparture
  | false =>
      rcases hDeparture with hLooking | ⟨job, -, -, hReleased⟩
      · rw [hLooking]
        rfl
      · exact hReleased.mayEnd

/- The epilogue of a pump whose generator has ended. -/
theorem follows_departure
    {sawTerminal : Bool}
    {lastName : Option EventName}
    {result : Except Exn Unit}
    {phase : Phase}
    (hRemembers : Remembers sawTerminal lastName phase.role)
    (hDeparture :
      atDeparture threadId log false result phase) :
    (RunManager.epilogue threadId log sawTerminal
        lastName).FollowsTask true phase taskEnd := by
  rcases hDeparture with
    hLooking | ⟨job, rfl, rfl, stage, drawn, rfl, hStage⟩
  · rcases phase with ⟨role, drawn⟩
    cases hLooking
    apply Gen.follows_mono
      (follows_epilogue (departs_looking threadId log)
        sawTerminal lastName)
    rintro quiet result phase ⟨-, hRole, -⟩
    rw [taskEnd, hRole]
    rfl
  · unfold Stage.released at hStage
    split at hStage
    · exact follows_epilogue_quiet
        (Or.inr (hRemembers.paused job rfl))
        .pausedDiscard rfl rfl
    · exact follows_epilogue_quiet
        (Or.inl (hRemembers.settled job rfl))
        .settledDiscard rfl rfl
    · apply Gen.follows_mono
        (follows_epilogue (departs_left job _)
          sawTerminal lastName)
      rintro quiet result phase ⟨-, hRole, -⟩
      rw [taskEnd, hRole]
      exact hStage
    · cases hStage

/- A task that cannot log an event leaves its run. -/
theorem left_of_unlogged
    {job : Job}
    {stage : Stage}
    {event : RunEvent}
    (hAllows :
      Stage.Allows job stage
        (.appendRunEvent job.thread job.log event)) :
    ∃ reason, ∀ exn,
      stage.after
          (.appendRunEvent job.thread job.log event)
          (.error exn) =
        .left reason false := by
  cases hAllows <;> exact ⟨_, fun _ => rfl⟩

/- A closed generator goes on as a part of its task. -/
theorem follows_closed
    {program : Driver Unit}
    {phase : Phase}
    {post : Bool → Except Exn Unit → Phase → Prop}
    (hFollows : program.Follows true phase post) :
    Driver.FollowsTask (program.close .generatorExit) true
      phase post := by
  apply Gen.follows_close
  induction program generalizing phase with
  | ret result => exact hFollows
  | call op next ih =>
      rcases hFollows with ⟨⟨hAllows, -⟩, hNext⟩
      refine ⟨hAllows, ?_⟩
      intro reply hPossible
      exact ih reply (hNext reply hPossible)
  | yield event next ih => exact absurd hFollows.1 (by simp)

/-
  A pump follows the service protocol when its generator
  does.
-/
theorem follows_consume
    {sawTerminal : Bool}
    {lastName : Option EventName}
    {program : Driver Unit}
    {phase : Phase}
    (hLogs : phase.role.Logs threadId log)
    (hRemembers : Remembers sawTerminal lastName phase.role)
    (hFollows :
      program.Follows false phase
        (atDeparture threadId log)) :
    (RunManager.consume threadId log sawTerminal lastName
        program).FollowsTask true phase taskEnd := by
  induction program generalizing sawTerminal lastName phase with
  | ret result => exact follows_departure hRemembers hFollows
  | call op next ih =>
      rcases hFollows with ⟨⟨⟨hAllows, hDrawn⟩, hLog⟩, hNext⟩
      refine ⟨⟨hAllows, hDrawn⟩, ?_⟩
      intro reply hPossible
      exact ih reply (hLogs.after op reply)
        (hRemembers.after hLogs hAllows hLog)
        (hNext reply hPossible)
  | yield event next ih =>
      rcases hFollows with ⟨-, hYields, hTaken, hClosed⟩
      rcases phase with ⟨role, drawn⟩
      cases role with
      | on job stage =>
          rcases hLogs with ⟨rfl, rfl⟩
          rcases hYields with ⟨hAllows, hDrawn⟩
          refine ⟨⟨.on hAllows, hDrawn⟩, ?_⟩
          intro reply hPossible
          cases reply with
          | ok _ =>
              exact ih _ ⟨rfl, rfl⟩ (remembers_log hAllows)
                hTaken
          | error exn =>
              rcases left_of_unlogged hAllows with
                ⟨reason, hLeft⟩
              dsimp only [driverProtocol, serviceProtocol,
                Phase.after, Role.after, drawnAfter]
                at hClosed ⊢
              rw [hLeft] at hClosed ⊢
              apply Gen.follows_andThen
              apply Gen.follows_mono
                (follows_epilogue (departs_left job reason)
                  _ _)
              rintro quiet result ⟨role, drawn'⟩
                ⟨rfl, hRole, hDrawn'⟩
              cases hRole
              cases hDrawn' rfl
              apply Gen.follows_mono
                (follows_closed hClosed)
              intro quiet result phase hPost
              exact mayEnd_of_departure hPost
      | looking log' threadId' synthetic => exact absurd hYields id
      | aside => exact absurd hLogs id
      | fresh => exact absurd hLogs id
      | watching threadId' runId => exact absurd hLogs id

end Pumps

------------------------------------------------------------
-- Starts
------------------------------------------------------------

section Starts

variable {job : Job} {drawn : Option Nat}

/-
  The postcondition of what precedes a drive: the drive comes
  next, or the generator left its run.
-/
def untilDrive
    {α : Type}
    (job : Job)
    (done : α → Phase → Prop) :
    Bool → Except Exn α → Phase → Prop
| false, .ok value, phase => done value phase
| false, .error _, phase => Released job phase
| true, .ok _, _ => False
| true, .error _, phase => phase.role.mayEnd = true

/- The rule of `do` blocks before a drive. -/
theorem follows_untilBind
    {α β : Type}
    {phase : Phase}
    {program : Driver α}
    {next : α → Driver β}
    {done : α → Phase → Prop}
    {done' : β → Phase → Prop}
    (hFirst :
      program.Follows false phase (untilDrive job done))
    (hNext :
      ∀ value phase,
        done value phase →
          (next value).Follows false phase
            (untilDrive job done')) :
    Driver.Follows (program >>= next) false phase
      (untilDrive job done') := by
  apply Gen.follows_bind_of_loud hFirst hNext
  · intro quiet exn phase hPost
    cases quiet with
    | false => exact hPost
    | true => exact hPost
  · intro value phase hPost
    exact hPost

/- The rule of the drive itself. -/
theorem follows_untilRelease
    {α : Type}
    {phase : Phase}
    {program : Driver α}
    {next : α → Driver Unit}
    {done : α → Phase → Prop}
    (hFirst :
      program.Follows false phase (untilDrive job done))
    (hNext :
      ∀ value phase,
        done value phase →
          (next value).Follows false phase
            (atRelease job)) :
    Driver.Follows (program >>= next) false phase
      (atRelease job) := by
  apply Gen.follows_bind_of_loud hFirst hNext
  · intro quiet exn phase hPost
    cases quiet with
    | false => exact hPost
    | true => exact hPost
  · intro value phase hPost
    exact hPost

/-
  Where the question leaves a run: with a user message, or
  ended.
-/
def QuestionDone
    (job : Job) :
    Option MessageId → Phase → Prop
| none, phase => Released job phase
| some parent, phase =>
    ∃ drawn, phase = job.at (.opened (some parent)) drawn

/- The question is stored, or its run ends with an error. -/
theorem follows_storeQuestion
    (message : Text) :
    (RunService.storeQuestion job.run message
        job.thread).Follows false
      (job.at (.opened none) drawn)
      (untilDrive job (QuestionDone job)) := by
  have hHandler :
      ∀ drawn,
        Driver.Follows
          (do
            let _ ←
              call
                (.tryTransition job.run .running .error true)
            RunService.emit
              (.error (some job.run) runError none [] [])
              job.thread
            pure (none : Option MessageId))
          false (job.at (.erring false) drawn)
          (untilDrive job (QuestionDone job)) := by
    intro drawn
    refine follows_call .erringEnd rfl ?_ ?_
    · intro won
      apply Gen.follows_bind
      refine follows_emit .erringSeq (fun _ => rfl)
        (fun seq => .erringLog rfl) ?_ ?_ ?_
      · intro seq
        exact ⟨_, _, rfl, rfl⟩
      · intro seq
        exact rfl
      · intro exn hException
        exact ⟨_, _, rfl, rfl⟩
    · intro exn _ _
      exact ⟨_, _, rfl, rfl⟩
  apply Gen.follows_tryCatch
  refine follows_call .openedAsk rfl ?_ ?_
  · intro row
    split
    · refine follows_call .openedTitle rfl ?_ ?_
      · intro _
        exact ⟨_, rfl⟩
      · intro exn hException _
        simp only [hException, if_true]
        exact hHandler _
    · exact ⟨_, rfl⟩
  · intro exn hException _
    simp only [hException, if_true]
    exact hHandler _

/- The rest of a run behind its first event. -/
theorem follows_question
    (job : Job)
    (drawn : Option Nat)
    (message : Text)
    (model : Option Text)
    (script : List GraphStep) :
    Driver.Follows
      (do
        match ← RunService.storeQuestion job.run message
            job.thread with
        | none => pure ()
        | some parent =>
            RunService.drive
              (call (.graphInput job.thread message)) script
              (.fresh job.run model (some parent)) job.thread)
      false (job.at (.opened none) drawn)
      (atRelease job) := by
  apply follows_untilRelease
    (follows_storeQuestion message)
  intro parent phase hDone
  cases parent with
  | none => exact hDone
  | some parent =>
      rcases hDone with ⟨drawn', rfl⟩
      have hBelongs :
          Belongs job (some parent)
            (.fresh job.run model (some parent)) :=
        ⟨rfl, rfl⟩
      refine follows_drive hBelongs ?_ .openedDrive
        (fun _ => rfl) script
      intro drawn''
      refine follows_lastCall .drivingInput rfl ?_ ?_
      · intro state
        exact ⟨_, rfl⟩
      · intro exn hException _
        exact duringStream_failing hException

/- A generator that left its run departs from its pump. -/
theorem departure_of_release
    {quiet : Bool}
    {result : Except Exn Unit}
    {phase : Phase}
    (hRelease : atRelease job quiet result phase) :
    atDeparture job.thread job.log quiet result phase := by
  cases quiet with
  | true => exact hRelease
  | false => exact Or.inr ⟨job, rfl, rfl, hRelease⟩

/- A pump starts without a memory of events. -/
theorem remembers_nothing
    {stage : Stage}
    (hSettled : stage ≠ .settled)
    (hPaused : stage ≠ .paused true) :
    Remembers false none (.on job stage) := by
  constructor
  · intro job' hRole
    exact absurd (Role.on.inj hRole).2 hSettled
  · intro job' hRole
    exact absurd (Role.on.inj hRole).2 hPaused

/- A start opens a run and pumps its generator. -/
theorem follows_start
    (registry : Registry)
    (threadId : ThreadId)
    (message : Text)
    (model : Option Text)
    (script : List GraphStep) :
    (RunManager.start registry threadId message model
        script).FollowsTask true ⟨.fresh, none⟩ taskEnd := by
  refine ⟨⟨.freshOpen, trivial⟩, ?_⟩
  intro reply _
  cases reply with
  | error exn => exact rfl
  | ok runId =>
      refine ⟨⟨.on .openingCancel, trivial⟩, ?_⟩
      intro reply hPossible
      cases reply with
      | error exn =>
          exact absurd rfl (hPossible.error exn rfl).2
      | ok _ =>
          refine ⟨⟨.on .openingSeq, trivial⟩, ?_⟩
          intro reply _
          cases reply with
          | error exn => exact rfl
          | ok seq =>
              refine ⟨⟨.on (.openingLog rfl), rfl⟩, ?_⟩
              intro reply _
              cases reply with
              | error exn => exact rfl
              | ok _ =>
                  refine ⟨⟨.on .openingActive, trivial⟩, ?_⟩
                  intro reply hPossible
                  cases reply with
                  | error exn =>
                      exact absurd rfl
                        (hPossible.error exn rfl).2
                  | ok _ =>
                      refine follows_consume ⟨rfl, rfl⟩
                        (remembers_nothing nofun nofun) ?_
                      exact Gen.follows_mono
                        (follows_question
                          ⟨runId, threadId, runId⟩ none
                          message _ script)
                        fun _ _ _ => departure_of_release

end Starts

------------------------------------------------------------
-- Decisions
------------------------------------------------------------

section Decisions

variable {job : Job} {drawn : Option Nat}

/- The scope of a decision is read from the pending cells. -/
theorem follows_approvedSet
    (approve : Bool)
    (approvedIds : Option (List Text)) :
    (RunService.approvedSet job.run approve
        approvedIds).Follows false (job.at .choosing drawn)
      (untilDrive job fun _ phase =>
        phase = job.at .choosing drawn) := by
  cases approvedIds with
  | none => exact rfl
  | some ids =>
      refine follows_call .choosingPending rfl ?_ ?_
      · intro pending
        exact rfl
      · intro exn _ _
        exact ⟨_, _, rfl, rfl⟩

/- A rejection ends the run and cleans up behind it. -/
theorem follows_rejectRun :
    (RunService.rejectRun job.run job.thread).Follows false
      (job.at .choosing drawn)
      (untilDrive job fun _ phase => Released job phase) := by
  rw [RunService.rejectRun]
  refine follows_call .choosingReject rfl ?_ ?_
  · intro won
    cases won with
    | false => exact ⟨_, _, rfl, rfl⟩
    | true =>
        refine follows_call .closingMark rfl ?_ ?_
        · intro _
          refine follows_call .closingResolve rfl ?_ ?_
          · intro _
            refine follows_call .closingClear rfl ?_ ?_
            · intro _
              refine follows_emit .closingSeq (fun _ => rfl)
                (fun seq =>
                  .closingLog
                    (by simp [RunEvent.name, EventData.name]))
                ?_ ?_ ?_
              · intro seq
                exact ⟨_, _, rfl, rfl⟩
              · intro seq
                exact rfl
              · intro exn hException
                exact ⟨_, _, rfl, rfl⟩
            · intro exn _ _
              exact ⟨_, _, rfl, rfl⟩
          · intro exn _ _
            exact ⟨_, _, rfl, rfl⟩
        · intro exn _ _
          exact ⟨_, _, rfl, rfl⟩
  · intro exn _ _
    exact ⟨_, _, rfl, rfl⟩

/- The rejected tools of a partial approval are announced. -/
theorem follows_announceRejected
    {root : Option (Option MessageId)}
    (rejected : List (Option Text)) :
    (RunService.announceRejected job.thread
        rejected).Follows false (job.at (.won root []) drawn)
      (untilDrive job fun _ phase =>
        ∃ drawn, phase = job.at (.won root []) drawn) := by
  induction rejected generalizing drawn with
  | nil => exact ⟨drawn, rfl⟩
  | cons id ids ih =>
      rw [RunService.announceRejected]
      refine follows_call .wonSeq rfl ?_ ?_
      · intro seq
        refine follows_yield (.wonLog rfl) ?_ ?_
        · exact ih
        · exact rfl
      · intro exn _ _
        exact ⟨_, _, rfl, rfl⟩

/- The marks of an approval precede the drive. -/
theorem follows_markApproval
    {root : Option MessageId}
    (approved : Option (List Text)) :
    (RunService.markApproval job.run job.thread
        approved).Follows false
      (job.at (.won (some root) []) drawn)
      (untilDrive job fun _ phase =>
        ∃ drawn,
          phase = job.at (.won (some root) []) drawn) := by
  cases approved with
  | none =>
      refine follows_lastCall .wonApprove rfl ?_ ?_
      · intro _
        exact ⟨_, rfl⟩
      · intro exn _ _
        exact ⟨_, _, rfl, rfl⟩
  | some approved =>
      refine follows_call .wonPartial rfl ?_ ?_
      · intro rejected
        refine follows_call .wonMark rfl ?_ ?_
        · intro _
          exact follows_announceRejected rejected
        · intro exn _ _
          exact ⟨_, _, rfl, rfl⟩
      · intro exn _ _
        exact ⟨_, _, rfl, rfl⟩

/- Where a decision leaves a run: ended, or before a drive. -/
def DecisionDone
    (job : Job) :
    Option RunState → Phase → Prop
| none, phase => Released job phase
| some rs, phase =>
    ∃ root drawn,
      Belongs job root rs ∧
        phase = job.at (.won (some root) []) drawn

/- An approval goes on with the run that it won. -/
theorem follows_approveRun
    (registry : Registry)
    (approved : Option (List Text)) :
    (RunService.approveRun registry job.run job.thread
        approved).Follows false (job.at .choosing drawn)
      (untilDrive job fun rs phase =>
        DecisionDone job (some rs) phase) := by
  rw [RunService.approveRun]
  refine follows_call .choosingApprove rfl ?_ ?_
  · intro won
    cases won with
    | false => exact ⟨_, _, rfl, rfl⟩
    | true =>
        refine follows_call .wonCancel rfl ?_ ?_
        · intro _
          refine follows_call .wonModel rfl ?_ ?_
          · intro model
            refine follows_call .wonRoot rfl ?_ ?_
            · intro root
              apply follows_untilBind
                (follows_markApproval approved)
              rintro _ _ ⟨drawn', rfl⟩
              exact ⟨root, drawn', ⟨rfl, rfl⟩, rfl⟩
            · intro exn _ _
              exact ⟨_, _, rfl, rfl⟩
          · intro exn _ _
            exact ⟨_, _, rfl, rfl⟩
        · intro exn _ hKind
          exact absurd rfl hKind
  · intro exn _ _
    exact ⟨_, _, rfl, rfl⟩

/- A decision on a paused run, without the drive. -/
theorem follows_settle
    (registry : Registry)
    (approve : Bool)
    (approvedIds : Option (List Text)) :
    (RunService.settle registry job.run job.thread approve
        approvedIds).Follows false (job.at .choosing drawn)
      (untilDrive job (DecisionDone job)) := by
  rw [RunService.settle]
  apply follows_untilBind
    (follows_approvedSet approve approvedIds)
  rintro approved _ rfl
  split
  · apply follows_untilBind follows_rejectRun
    intro _ phase hReleased
    exact hReleased
  · apply follows_untilBind
      (follows_approveRun registry approved)
    intro rs phase hDone
    exact hDone

/- The generator of a decision that found a paused run. -/
theorem follows_decided
    (job : Job)
    (drawn : Option Nat)
    (registry : Registry)
    (approve : Bool)
    (approvedIds : Option (List Text))
    (script : List GraphStep) :
    Driver.Follows
      (do
        match ← RunService.settle registry job.run job.thread
            approve approvedIds with
        | none => pure ()
        | some rs =>
            RunService.drive (call (.graphResume job.thread))
              script rs job.thread)
      false (job.at .choosing drawn) (atRelease job) := by
  apply follows_untilRelease
    (follows_settle registry approve approvedIds)
  intro rs phase hDone
  cases rs with
  | none => exact hDone
  | some rs =>
      rcases hDone with ⟨root, drawn', hBelongs, rfl⟩
      refine follows_drive hBelongs ?_ .wonDrive
        (fun _ => rfl) script
      intro drawn''
      refine follows_lastCall .drivingResume rfl ?_ ?_
      · intro state
        exact ⟨_, rfl⟩
      · intro exn hException _
        exact duringStream_failing hException

end Decisions

------------------------------------------------------------
-- Requests
------------------------------------------------------------

/- A resume pumps the decision on the run that it finds. -/
theorem follows_resume
    (registry : Registry)
    (threadId : ThreadId)
    (approve : Bool)
    (approvedIds : Option (List Text))
    (script : List GraphStep) :
    (RunManager.resume registry threadId approve approvedIds
        script).FollowsTask true ⟨.fresh, none⟩ taskEnd := by
  have hGenerator :
      ∀ log,
        (RunService.resume registry threadId approve
            approvedIds script).Follows false
          ⟨.looking log threadId false, none⟩
          (atDeparture threadId log) := by
    intro log
    refine ⟨⟨⟨.lookingActive, trivial⟩, rfl⟩, ?_⟩
    intro reply _
    match reply with
    | .error exn => exact Or.inl rfl
    | .ok none => exact Or.inl rfl
    | .ok (some (runId, .awaitingApproval)) =>
        exact Gen.follows_mono
          (follows_decided ⟨log, threadId, runId⟩ none
            registry approve approvedIds script)
          fun _ _ _ => departure_of_release
    | .ok (some (_, .running)) => exact Or.inl rfl
    | .ok (some (_, .interrupted)) => exact Or.inl rfl
    | .ok (some (_, .completed)) => exact Or.inl rfl
    | .ok (some (_, .rejected)) => exact Or.inl rfl
    | .ok (some (_, .error)) => exact Or.inl rfl
  refine ⟨⟨.freshActive, trivial⟩, ?_⟩
  intro reply _
  match reply with
  | .error exn => exact rfl
  | .ok none => exact rfl
  | .ok (some (runId, .awaitingApproval)) =>
      refine ⟨⟨.lookingAdd, trivial⟩, ?_⟩
      intro reply hPossible
      cases reply with
      | error exn =>
          exact absurd rfl (hPossible.error exn rfl).2
      | ok _ =>
          exact follows_consume ⟨rfl, rfl⟩ ⟨nofun, nofun⟩
            (hGenerator runId)
  | .ok (some (_, .running)) => exact rfl
  | .ok (some (_, .interrupted)) => exact rfl
  | .ok (some (_, .completed)) => exact rfl
  | .ok (some (_, .rejected)) => exact rfl
  | .ok (some (_, .error)) => exact rfl

section Requests

variable {α : Type} {role : Role} {drawn : Option Nat}
variable {quiet : Bool}

/- The rule of a call of a task in a role that allows it. -/
theorem follows_taskCall
    {op : Op}
    {next : op.Reply → Driver α}
    {post : Bool → Except Exn α → Phase → Prop}
    (hAllows : role.Allows op)
    (hLog : op.isLog = false)
    (hOk :
      ∀ value,
        (next value).FollowsTask quiet
          ⟨role.after op (.ok value),
            drawnAfter drawn op (.ok value)⟩ post)
    (hError :
      ∀ exn : Exn,
        op.kind ≠ .memory →
          post quiet (.error exn)
            ⟨role.after op (.error exn),
              drawnAfter drawn op (.error exn)⟩) :
    Driver.FollowsTask (call op >>= next) quiet ⟨role, drawn⟩
      post := by
  refine Gen.follows_perform_bind
    ⟨hAllows, Op.logsDrawn_of_not_log hLog drawn⟩ ?_ ?_
  · intro value _
    exact hOk value
  · intro exn hPossible
    exact hError exn (hPossible.error exn rfl).2

/- A task logs the terminal event of a run that it ended. -/
theorem follows_pushTerminal
    (runId : RunId)
    (threadId : ThreadId) :
    (RunManager.pushTerminal runId threadId).FollowsTask quiet
      ⟨.on ⟨runId, threadId, runId⟩ (.closing false false),
        drawn⟩
      taskEnd := by
  refine follows_taskCall (.on .closingSeq) rfl ?_ ?_
  · intro seq
    refine ⟨⟨.on (.closingLog ?_), rfl⟩, ?_⟩
    · simp [RunEvent.name, EventData.name]
    · intro reply _
      cases reply with
      | ok _ => exact rfl
      | error exn => exact rfl
  · intro exn _
    exact rfl

/- A paused run is stopped and its leftovers are removed. -/
theorem follows_interruptPaused
    (runId : RunId)
    (threadId : ThreadId) :
    (RunService.interruptPaused threadId runId).FollowsTask
      quiet ⟨.watching threadId runId, drawn⟩
      fun quiet' result phase =>
        quiet' = quiet ∧ phase.role.mayEnd = true ∧
          (result = .ok true →
            phase.role =
              .on ⟨runId, threadId, runId⟩
                (.closing false false)) := by
  rw [RunService.interruptPaused]
  refine follows_taskCall .watchingPaused rfl ?_ ?_
  · intro won
    cases won with
    | false => exact ⟨rfl, rfl, nofun⟩
    | true =>
        refine follows_taskCall (.on .closingMark) rfl ?_ ?_
        · intro _
          refine follows_taskCall (.on .closingResolve) rfl
            ?_ ?_
          · intro _
            refine follows_taskCall (.on .closingClear) rfl
              ?_ ?_
            · intro _
              exact ⟨rfl, rfl, fun _ => rfl⟩
            · intro exn _
              exact ⟨rfl, rfl, nofun⟩
          · intro exn _
            exact ⟨rfl, rfl, nofun⟩
        · intro exn _
          exact ⟨rfl, rfl, nofun⟩
  · intro exn _
    exact ⟨rfl, rfl, nofun⟩

/- A cancel request sets at most a flag. -/
theorem follows_requestCancel
    (runId : RunId)
    (threadId : ThreadId) :
    (RunService.requestCancel runId).FollowsTask quiet
      ⟨.watching threadId runId, drawn⟩
      fun quiet' _ phase =>
        quiet' = quiet ∧
          phase = ⟨.watching threadId runId, drawn⟩ := by
  refine follows_taskCall .watchingGet rfl ?_ ?_
  · intro flag
    cases flag with
    | none => exact ⟨rfl, rfl⟩
    | some flag =>
        refine follows_taskCall .watchingSet rfl ?_ ?_
        · intro _
          exact ⟨rfl, rfl⟩
        · intro exn hKind
          exact absurd rfl hKind
  · intro exn hKind
    exact absurd rfl hKind

/- The interruption of a run that was running. -/
theorem follows_interruptRunning
    (runId : RunId)
    (threadId : ThreadId) :
    Driver.FollowsTask
      (do
        if ← RunService.requestCancel runId then
          pure ()
        else if ← call
            (.tryTransition runId .running .interrupted true)
        then
          RunManager.pushTerminal runId threadId
        else
          Gen.raise .valueError)
      quiet ⟨.watching threadId runId, drawn⟩ taskEnd := by
  apply Gen.follows_bind
  apply Gen.follows_mono
    (follows_requestCancel runId threadId)
  rintro _ result _ ⟨rfl, rfl⟩
  cases result with
  | error exn => exact rfl
  | ok cancelled =>
      cases cancelled with
      | true => exact rfl
      | false =>
          refine follows_taskCall .watchingRunning rfl ?_ ?_
          · intro won
            cases won with
            | false => exact rfl
            | true =>
                exact follows_pushTerminal runId threadId
          · intro exn _
            exact rfl

/- The interruption of a run that was paused. -/
theorem follows_interruptWaiting
    (runId : RunId)
    (threadId : ThreadId) :
    Driver.FollowsTask
      (do
        if ← RunService.interruptPaused threadId runId then
          RunManager.pushTerminal runId threadId
        else
          Gen.raise .valueError)
      quiet ⟨.watching threadId runId, drawn⟩ taskEnd := by
  apply Gen.follows_bind
  apply Gen.follows_mono
    (follows_interruptPaused runId threadId)
  rintro _ result ⟨role, drawn'⟩ ⟨rfl, hEnd, hRole⟩
  cases result with
  | error exn => exact hEnd
  | ok stopped =>
      cases stopped with
      | false => exact hEnd
      | true =>
          cases hRole rfl
          exact follows_pushTerminal runId threadId

/- An interrupt ends a run or asks its driver to. -/
theorem follows_interrupt (runId : RunId) :
    (RunManager.interrupt runId).FollowsTask true
      ⟨.fresh, none⟩ taskEnd := by
  refine ⟨⟨.freshRead, trivial⟩, ?_⟩
  intro reply _
  match reply with
  | .error exn => exact rfl
  | .ok none => exact rfl
  | .ok (some (threadId, .running)) =>
      exact follows_interruptRunning runId threadId
  | .ok (some (threadId, .awaitingApproval)) =>
      exact follows_interruptWaiting runId threadId
  | .ok (some (_, .interrupted)) => exact rfl
  | .ok (some (_, .completed)) => exact rfl
  | .ok (some (_, .rejected)) => exact rfl
  | .ok (some (_, .error)) => exact rfl

/-
  A task aside from all runs stays there, and ends when its
  client leaves.
-/
def staysAside
    {α : Type} :
    Bool → Except Exn α → Phase → Prop :=
  fun quiet result phase =>
    phase = ⟨.aside, none⟩ ∧
      (quiet = true → result = .error .generatorExit)

/- A page is sent without a call. -/
theorem follows_sendPage
    (cursor : RunManager.StreamCursor)
    (rows : List RunEvent) :
    (RunManager.sendPage cursor rows).FollowsTask false
      ⟨.aside, none⟩ staysAside := by
  induction rows generalizing cursor with
  | nil => exact ⟨rfl, nofun⟩
  | cons event rows ih =>
      refine ⟨rfl, trivial, ?_, rfl, fun _ => rfl⟩
      dsimp only
      split
      · exact ⟨rfl, nofun⟩
      · exact ih _

/- A stream only reads and sends. -/
theorem follows_stream
    (runId : RunId)
    (polls : Nat)
    (cursor : Option Nat) :
    (RunManager.stream runId polls cursor).FollowsTask false
      ⟨.aside, none⟩ taskEnd := by
  induction polls generalizing cursor with
  | zero => exact rfl
  | succ polls ih =>
      rw [RunManager.stream]
      refine follows_taskCall .asidePoll rfl ?_ ?_
      · intro rows
        apply Gen.follows_bind
        apply Gen.follows_mono (follows_sendPage _ rows)
        rintro quiet result _ ⟨rfl, hClosed⟩
        cases result with
        | error exn => exact rfl
        | ok sent =>
            cases quiet with
            | true => cases hClosed rfl
            | false =>
                dsimp only [Gen.thenPost]
                split
                · exact rfl
                · split
                  · refine follows_taskCall .asideRead rfl
                      ?_ ?_
                    · intro run
                      match run with
                      | none => exact ih sent.last
                      | some (threadId, status) =>
                          dsimp only
                          split
                          · exact ⟨rfl, trivial, rfl, rfl⟩
                          · exact ih sent.last
                    · intro exn _
                      exact rfl
                  · exact ih sent.last
      · intro exn _
        exact rfl

/- A fork copies a transcript aside from all runs. -/
theorem follows_fork
    (parentId : ThreadId)
    (forkPoint : MessageId) :
    (RunService.fork parentId forkPoint).FollowsTask quiet
      ⟨.aside, none⟩ taskEnd := by
  refine follows_taskCall .asideFork rfl ?_ fun _ _ => rfl
  intro threadId
  refine follows_taskCall .asideMessages rfl ?_ fun _ _ => rfl
  intro messages
  refine follows_taskCall .asideSeed rfl ?_ fun _ _ => rfl
  intro _
  dsimp only
  split
  · refine follows_taskCall .asideTitle rfl ?_ fun _ _ => rfl
    intro _
    exact rfl
  · exact rfl

end Requests

end LegalAgent
