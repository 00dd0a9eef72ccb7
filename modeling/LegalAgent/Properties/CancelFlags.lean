import LegalAgent.Library.Tracking
import LegalAgent.Properties.StreamEntry
import LegalAgent.System.Ownership

/-
  The cancel flags that the drivers look at.

  A driver takes the flag of its run before it enters the
  stream.  It looks at the flag behind every chunk, and it
  pauses its run only behind a look that found the flag not
  set.  The flag that it took is the one that its instance
  keeps for the run, unless the instance keeps none any more.

  Key definitions include:
    * `Watch`
    * `flagTracker`
    * `Role.gates?`
    * `Task.Watchful`

  Key theorems include:
    * `watches_consumeStream`
    * `watches_request`
    * `preserves_watchful`
-/

------------------------------------------------------------
-- Watches
------------------------------------------------------------

namespace LegalAgent

open Library

/-
  What a task knows of the flag of its run: it may still open
  a run, it is about to create the flag, it has not taken it,
  or it took one, and whether its last look at the flag
  cleared the way to a pause.
-/
inductive Watch where
  | fresh
  | opening
  | untaken
  | taken (flag : Option FlagId) (clear : Bool)

/- What a task knows behind a call. -/
def Watch.after
    (watch : Watch)
    (op : Op)
    (reply : Except Exn op.Reply) :
    Watch :=
  match watch, op, reply with
  | .fresh, .openRun .., .ok _ => .opening
  | .opening, .cancelsCreate _, _ => .untaken
  | _, .cancelsGet _, .ok flag => .taken flag false
  | .taken flag _, .flagIsSet _, .ok isSet =>
      .taken flag !isSet
  | .taken flag _, .graphNext .., _ => .taken flag false
  | watch, _, _ => watch

/-
  A new run is given its flag at once, a driver looks at the
  flag it took, and it pauses the run behind such a look.
-/
def flagTracker : Tracker Op Op.Reply Exn Watch where
  allows watch op :=
    match watch, op with
    | .opening, .cancelsCreate _ => True
    | .opening, _ => False
    | _, .cancelsCreate _ => False
    | .fresh, .openRun .. => True
    | _, .openRun .. => False
    | .taken flag clear, .setRunStatus .. =>
        flag = none ∨ clear = true
    | _, .setRunStatus .. => False
    | .taken flag _, .flagIsSet other => flag = some other
    | _, .flagIsSet _ => False
    | _, _ => True
  after := Watch.after

/- Whether a task has taken a flag. -/
def Watch.isTaken : Watch → Bool
| .taken .. => true
| _ => false

/- Whether a task opens no run any more. -/
def Watch.ready : Watch → Bool
| .untaken | .taken .. => true
| _ => false

/- A call that has nothing to do with the flags. -/
def Op.calm : Op → Bool
| .openRun .. | .graphNext .. => false
| op => !op.steers

/- A routine call is calm. -/
theorem calm_of_routine
    {op : Op}
    (hRoutine : op.routine = true) :
    op.calm = true := by
  cases op <;> first | rfl | cases hRoutine

/- A call that asks no graph, enters none and steers no run. -/
theorem calm_of_unasked
    {op : Op}
    (hUnasked : op.aside = true ∨ op.checks = true)
    (hEnters : op.enters = false)
    (hSteers : op.steers = false) :
    op.calm = true := by
  cases op <;> first
    | rfl
    | (cases hEnters; done)
    | (cases hSteers; done)
    | (rcases hUnasked with hNot | hNot <;> cases hNot)

/- A calm call is allowed and leaves the watch as it is. -/
theorem tracker_of_calm
    {watch : Watch}
    (hReady : watch.ready = true)
    (op : Op)
    (hCalm : op.calm = true) :
    flagTracker.allows watch op ∧
      ∀ reply, flagTracker.after watch op reply = watch := by
  cases watch with
  | fresh => cases hReady
  | opening => cases hReady
  | untaken =>
      cases op <;> first
        | exact ⟨trivial, fun _ => rfl⟩
        | cases hCalm
  | taken flag clear =>
      cases op <;> first
        | exact ⟨trivial, fun _ => rfl⟩
        | cases hCalm

/- A program with its watch and a postcondition. -/
abbrev Driver.Watches
    {α : Type}
    (program : Driver α)
    (watch : Watch)
    (post : Except Exn α → Watch → Prop) :
    Prop :=
  Gen.Tracked flagTracker program watch post

/- A program of calm calls. -/
abbrev Driver.Calm {α : Type} (program : Driver α) : Prop :=
  Gen.Only (fun op => op.calm = true) (fun _ => True)
    (fun _ => True) program

theorem calm_lastCall
    {op : Op}
    (hOp : op.calm = true) :
    Driver.Calm (call op) :=
  only_lastCall hOp

/- A program that ends in any way. -/
abbrev anyWatch {α : Type} : Except Exn α → Watch → Prop :=
  fun _ _ => True

/- A program that opens no run behind its end. -/
abbrev readyEnd {α : Type} : Except Exn α → Watch → Prop :=
  fun _ watch => watch.ready = true

theorem calm_program
    {α : Type}
    {program : Driver α}
    (hRoutine : program.Routine) :
    program.Calm :=
  only_of_routine hRoutine (fun _ => calm_of_routine)
    fun _ _ => trivial

section Drivers

variable {α : Type} {watch : Watch}
variable {threadId : ThreadId} {runId : RunId}

/- A calm program leaves the watch as it is. -/
theorem watches_of_calm
    {program : Driver α}
    {post : Except Exn α → Watch → Prop}
    (hCalm : program.Calm)
    (hReady : watch.ready = true)
    (hPost : ∀ result, post result watch) :
    program.Watches watch post := by
  refine
    Gen.tracked_mono
      (Gen.tracked_of_only hCalm (tracker_of_calm hReady)) ?_
  rintro result record ⟨rfl, -⟩
  exact hPost result

/- A calm program before the rest of a `do` block. -/
theorem watches_calm_bind
    {β : Type}
    {program : Driver α}
    {next : α → Driver β}
    {post : Except Exn β → Watch → Prop}
    (hCalm : program.Calm)
    (hReady : watch.ready = true)
    (hOk : ∀ value, (next value).Watches watch post)
    (hError : ∀ exn, post (.error exn) watch) :
    (program >>= next).Watches watch post := by
  refine
    Gen.tracked_andThen (watches_of_calm hCalm hReady ?_)
  intro result
  cases result with
  | ok value => exact hOk value
  | error exn => exact hError exn

/- A calm call before the rest of a `do` block. -/
theorem watches_call
    {op : Op}
    {next : op.Reply → Driver α}
    {post : Except Exn α → Watch → Prop}
    (hCalm : op.calm = true)
    (hReady : watch.ready = true)
    (hOk : ∀ value, (next value).Watches watch post)
    (hError : ∀ exn, post (.error exn) watch) :
    (call op >>= next).Watches watch post :=
  watches_calm_bind (only_lastCall hCalm) hReady hOk hError

------------------------------------------------------------
-- Streams
------------------------------------------------------------

/- A program that keeps the flag that it took. -/
abbrev takenEnd
    (flag : Option FlagId) :
    Except Exn α → Watch → Prop :=
  fun _ watch => ∃ clear, watch = .taken flag clear

/- A driver that has looked, or has no flag, may pause. -/
theorem watches_pauseRun
    (rs : RunState)
    (threadId : ThreadId)
    (values : Option (List (Option Text)))
    {cancel : Option FlagId}
    {clear : Bool}
    (hClear : cancel = none ∨ clear = true) :
    (RunService.pauseRun rs threadId values).Watches
      (.taken cancel clear) (takenEnd cancel) :=
  Gen.tracked_perform_bind hClear
    (fun _ =>
      watches_of_calm
        (calm_program
          (routine_announcePause rs threadId values))
        rfl fun _ => ⟨clear, rfl⟩)
    fun _ => ⟨clear, rfl⟩

/- A driver goes on behind a look at its flag, if it has one. -/
theorem watches_look
    {cancel : Option FlagId}
    {stopped go : Driver α}
    {clear : Bool}
    (hStopped :
      stopped.Watches (.taken cancel false) (takenEnd cancel))
    (hGo :
      ∀ clear,
        cancel = none ∨ clear = true →
          go.Watches (.taken cancel clear) (takenEnd cancel)) :
    (RunService.isCancelled cancel >>= fun isSet =>
        if isSet = true then stopped else go).Watches
      (.taken cancel clear) (takenEnd cancel) := by
  cases cancel with
  | none => exact hGo clear (Or.inl rfl)
  | some flag =>
      refine
        Gen.tracked_perform_bind rfl ?_ fun _ => ⟨clear, rfl⟩
      intro isSet
      cases isSet with
      | true => exact hStopped
      | false => exact hGo true (Or.inr rfl)

/- A driver looks at its flag before it pauses its run. -/
theorem watches_consumeStream
    (cancel : Option FlagId)
    (steps : List GraphStep)
    {state : GraphState}
    {rs : RunState}
    {clear : Bool} :
    (RunService.consumeStream cancel threadId steps state
        rs).Watches
      (.taken cancel clear) (takenEnd cancel) := by
  induction steps generalizing state rs clear with
  | nil =>
      rw [RunService.consumeStream]
      exact
        Gen.tracked_perform_bind trivial
          (fun _ => ⟨false, rfl⟩) fun _ => ⟨false, rfl⟩
  | cons step steps ih =>
      rw [RunService.consumeStream]
      refine
        Gen.tracked_perform_bind trivial ?_
          fun _ => ⟨false, rfl⟩
      intro reply
      cases reply with
      | none => exact ⟨false, rfl⟩
      | some next =>
          rcases next with ⟨chunk, state'⟩
          apply watches_look
          · exact
              watches_calm_bind
                (calm_program (routine_cancelRun rs threadId))
                rfl (fun _ => ⟨false, rfl⟩)
                fun _ => ⟨false, rfl⟩
          · intro clear hClear
            cases chunk with
            | interrupt values =>
                exact
                  Gen.tracked_bind
                    (watches_pauseRun rs threadId values hClear)
                    (fun _ _ hTaken => hTaken)
                    fun _ _ hTaken => hTaken
            | updates messages =>
                exact
                  watches_calm_bind
                    (only_handleChunk
                      (fun _ hAside hEnters =>
                        calm_of_unasked (Or.inl hAside) hEnters)
                      threadId rs messages)
                    rfl (fun rs' => ih) fun _ => ⟨clear, rfl⟩

theorem watches_driveStream
    {cancel : Option FlagId}
    {start : Driver GraphState}
    (hStart : start.Calm)
    (script : List GraphStep)
    (rs : RunState)
    {clear : Bool} :
    (RunService.driveStream cancel start script rs
        threadId).Watches
      (.taken cancel clear) (takenEnd cancel) := by
  refine
    Gen.tracked_tryCatch
      (watches_calm_bind hStart rfl
        (fun _ => watches_consumeStream cancel script)
        fun _ => ⟨clear, rfl⟩)
      ?_
  rintro exn _ ⟨clear', rfl⟩
  split
  · exact
      watches_calm_bind
        (calm_program (routine_failRun rs threadId)) rfl
        (fun _ => ⟨clear', rfl⟩) fun _ => ⟨clear', rfl⟩
  · exact ⟨clear', rfl⟩

/- A driver takes its flag and keeps it to the end. -/
theorem watches_drive
    {start : Driver GraphState}
    (hStart : start.Calm)
    (script : List GraphStep)
    (rs : RunState) :
    (RunService.drive start script rs threadId).Watches .untaken
      readyEnd := by
  refine Gen.tracked_perform_bind trivial ?_ fun _ => rfl
  intro cancel
  have hBody :
      (RunService.driveBody cancel start script rs
          threadId).Watches
        (.taken cancel false) (takenEnd cancel) := by
    refine
      Gen.tracked_bind (watches_driveStream hStart script rs) ?_
        fun _ _ hTaken => hTaken
    rintro ended _ ⟨clear, rfl⟩
    cases ended with
    | none => exact ⟨clear, rfl⟩
    | some rs' =>
        exact
          watches_of_calm
            (only_finalize (fun _ => calm_of_unasked) threadId
              rs')
            rfl fun _ => ⟨clear, rfl⟩
  refine
    Gen.tracked_andThen
      (Gen.tracked_mono (Gen.tracked_tryCatch hBody ?_) ?_)
  · rintro exn _ ⟨clear, rfl⟩
    split
    · exact
        watches_of_calm (calm_program (routine_closeRun rs)) rfl
          fun _ => ⟨clear, rfl⟩
    · exact ⟨clear, rfl⟩
  · rintro result _ ⟨clear, rfl⟩
    have hPop : Driver.Calm (call (.cancelsPop rs.runId)) :=
      only_lastCall rfl
    refine Gen.tracked_andThen (watches_of_calm hPop rfl ?_)
    intro ended
    cases ended <;> exact rfl

/- The driver of a resumed run. -/
theorem watches_resume
    (registry : Registry)
    (approve : Bool)
    (approvedIds : Option (List Text))
    (script : List GraphStep) :
    (RunService.resume registry threadId approve approvedIds
        script).Watches
      .untaken readyEnd := by
  have hDecide :
      (RunService.decide registry threadId approve
          approvedIds).Calm :=
    Gen.only_mono
      (only_decide (fun _ => calm_of_routine)
        (fun _ _ => trivial) (fun _ => rfl) registry threadId
        approve approvedIds)
      (fun _ hOp => hOp) (fun _ hEvent => hEvent)
      fun _ _ => trivial
  refine watches_calm_bind hDecide rfl ?_ fun _ => rfl
  intro decided
  cases decided with
  | none => exact rfl
  | some rs => exact watches_drive (calm_lastCall rfl) script rs

/- The driver of a new run once it has created its flag. -/
theorem watches_ask
    (message : Text)
    (model : Option Text)
    (script : List GraphStep) :
    Driver.Watches
      (do
        match ← RunService.storeQuestion runId message
            threadId with
        | none => pure ()
        | some parent =>
            RunService.drive (call (.graphInput threadId message))
              script (.fresh runId model (some parent)) threadId)
      .untaken readyEnd := by
  refine
    watches_calm_bind
      (calm_program
        (routine_storeQuestion runId message threadId))
      rfl ?_ fun _ => rfl
  intro parent
  cases parent with
  | none => exact rfl
  | some parent =>
      exact watches_drive (calm_lastCall rfl) script _

------------------------------------------------------------
-- Requests
------------------------------------------------------------

/- A task that is ready stays so. -/
theorem ready_after
    {op : Op}
    (hReady : watch.ready = true)
    (reply : Except Exn op.Reply) :
    (flagTracker.after watch op reply).ready = true := by
  cases watch with
  | fresh => cases hReady
  | opening => cases hReady
  | untaken =>
      cases op <;> first | rfl | (cases reply <;> rfl)
  | taken flag clear =>
      cases op <;> first | rfl | (cases reply <;> rfl)

/- A pump makes calm calls between those of its generator. -/
theorem watches_consume
    {generator : Driver Unit}
    (hGenerator : generator.Watches watch readyEnd)
    (hReady : watch.ready = true)
    (sawTerminal : Bool)
    (lastName : Option EventName) :
    (RunManager.consume threadId runId sawTerminal lastName
        generator).Watches
      watch anyWatch := by
  induction generator
    generalizing watch sawTerminal lastName with
  | ret result =>
      exact
        watches_of_calm
          (calm_program
            (routine_epilogue threadId runId sawTerminal
              lastName))
          hReady fun _ => trivial
  | call op next ih =>
      exact
        ⟨hGenerator.1, fun reply =>
          ih reply (hGenerator.2 reply)
            (ready_after hReady reply) sawTerminal
            lastName⟩
  | yield event next ih =>
      have hAppend :=
        tracker_of_calm hReady
          (.appendRunEvent threadId runId event) rfl
      refine ⟨hAppend.1, ?_⟩
      intro reply
      rw [hAppend.2 reply]
      cases reply with
      | ok value => exact ih (.ok ()) (hGenerator _) hReady _ _
      | error exn =>
          refine
            Gen.tracked_andThen
              (watches_of_calm
                (calm_program (routine_epilogue ..)) hReady ?_)
          intro _
          exact
            Gen.tracked_close
              (Gen.tracked_mono
                (hGenerator (.error .generatorExit))
                fun _ _ _ => trivial)

theorem watches_spawnPump
    {generator : Driver Unit}
    (hGenerator : generator.Watches watch readyEnd)
    (hReady : watch.ready = true) :
    (RunManager.spawnPump generator threadId runId).Watches
      watch anyWatch :=
  watches_call rfl hReady
    (fun _ => watches_consume hGenerator hReady false none)
    fun _ => trivial

/- The first event is handed to a program that goes on. -/
theorem watches_firstEvent
    {next :
      RunEvent → (Except Exn Unit → Driver Unit) →
        Driver Unit}
    {generator : Driver Unit}
    (hGenerator : generator.Watches watch readyEnd)
    (hReady : watch.ready = true)
    (hNext :
      ∀ watch event resume,
        watch.ready = true →
          (∀ reply, (resume reply).Watches watch readyEnd) →
            (next event resume).Watches watch anyWatch) :
    (RunManager.firstEvent next generator).Watches watch
      anyWatch := by
  induction generator generalizing watch with
  | ret result => exact trivial
  | call op resume ih =>
      exact
        ⟨hGenerator.1, fun reply =>
          ih reply (hGenerator.2 reply)
            (ready_after hReady reply)⟩
  | yield event resume ih =>
      exact hNext watch event resume hReady hGenerator

theorem watches_start
    (registry : Registry)
    (message : Text)
    (model : Option Text)
    (script : List GraphStep) :
    (RunManager.start registry threadId message model
        script).Watches
      .fresh anyWatch := by
  refine ⟨trivial, ?_⟩
  intro opened
  cases opened with
  | error exn => exact trivial
  | ok runId =>
      refine ⟨trivial, ?_⟩
      intro created
      cases created with
      | error exn => exact trivial
      | ok value =>
          have hFirst :
              Driver.Watches
                (RunService.emit
                    (.runStarted runId threadId
                      (registry.choose model))
                    threadId >>=
                  fun _ => do
                    match ← RunService.storeQuestion runId
                        message threadId with
                    | none => pure ()
                    | some parent =>
                        RunService.drive
                          (call (.graphInput threadId message))
                          script
                          (.fresh runId
                            (some (registry.choose model))
                            (some parent))
                          threadId)
                .untaken readyEnd :=
            watches_calm_bind
              (only_numbered rfl fun _ => trivial) rfl
              (fun _ => watches_ask message _ script)
              fun _ => rfl
          refine watches_firstEvent hFirst rfl ?_
          intro watch event resume hReady hResume
          split
          · refine ⟨(tracker_of_calm hReady _ rfl).1, ?_⟩
            intro reply
            rw [(tracker_of_calm hReady _ rfl).2 reply]
            cases reply with
            | ok value =>
                exact watches_spawnPump (hResume (.ok ())) hReady
            | error exn =>
                have hClose :=
                  Gen.tracked_mono
                    (hResume (.error .generatorExit))
                    fun _ _ _ => trivial
                exact
                  Gen.tracked_andThen
                    (Gen.tracked_mono (Gen.tracked_close hClose)
                      fun _ _ _ => trivial)
          · exact trivial

theorem watches_resumeRequest
    (registry : Registry)
    (approve : Bool)
    (approvedIds : Option (List Text))
    (script : List GraphStep) :
    (RunManager.resume registry threadId approve approvedIds
        script).Watches
      .untaken anyWatch := by
  refine watches_call rfl rfl ?_ fun _ => trivial
  intro active
  split
  · exact
      watches_spawnPump
        (watches_resume registry approve approvedIds script) rfl
  · exact trivial

/- An interrupt takes the flag only to set it. -/
theorem watches_interrupt (runId : RunId) :
    (RunManager.interrupt runId).Watches .untaken anyWatch := by
  refine watches_call rfl rfl ?_ fun _ => trivial
  intro run
  split
  · exact trivial
  · have hEnd :
        ∀ (watch : Watch) (threadId : ThreadId),
          watch.ready = true →
            Driver.Watches
              (do
                if ← call
                    (.tryTransition runId .running .interrupted
                      true) then
                  RunManager.pushTerminal runId threadId
                else
                  Gen.raise .valueError)
              watch anyWatch := by
      intro watch threadId hReady
      refine watches_call rfl hReady ?_ fun _ => trivial
      intro won
      cases won with
      | false => exact trivial
      | true =>
          exact
            watches_of_calm
              (calm_program
                (routine_pushTerminal runId threadId))
              hReady fun _ => trivial
    refine ⟨trivial, ?_⟩
    intro reply
    cases reply with
    | error exn => exact trivial
    | ok flag =>
        cases flag with
        | none => exact hEnd _ _ rfl
        | some flag =>
            refine ⟨trivial, ?_⟩
            intro reply
            cases reply <;> exact trivial
  · refine
      watches_calm_bind
        (calm_program (routine_interruptPaused _ runId)) rfl ?_
        fun _ => trivial
    intro won
    cases won with
    | false => exact trivial
    | true =>
        exact
          watches_of_calm
            (calm_program (routine_pushTerminal runId _)) rfl
            fun _ => trivial
  · exact trivial

end Drivers

/- What a task knows before its first call. -/
def Request.watch : Request → Watch
| .start .. => .fresh
| _ => .untaken

/- Every request handles the flags as the tracker says. -/
theorem watches_request
    (registry : Registry)
    (request : Request) :
    (request.program registry).Watches request.watch
      anyWatch := by
  cases request with
  | createThread title =>
      exact watches_call rfl rfl (fun _ => trivial) fun _ => trivial
  | fork parentId forkPoint =>
      exact
        watches_of_calm
          (calm_program (routine_fork parentId forkPoint)) rfl
          fun _ => trivial
  | start threadId message model script =>
      exact watches_start registry message model script
  | resume threadId approve approvedIds script =>
      exact
        watches_resumeRequest registry approve approvedIds script
  | interrupt runId => exact watches_interrupt runId
  | stream runId polls cursor =>
      exact
        watches_of_calm
          (within_stream (fun _ => calm_of_routine) runId polls
            cursor)
          rfl fun _ => trivial

------------------------------------------------------------
-- Stages
------------------------------------------------------------

/- The stages of a driver that has yet to take its flag. -/
def Stage.awaitsFlag : Stage → Bool
| .opening | .opened _ | .won .. => true
| _ => false

/- The stages of a driver that follows its stream. -/
def Stage.streams : Stage → Bool
| .driving .. | .gated _ => true
| _ => false

/- The run that a role may still pause. -/
def Role.gates? : Role → Option RunId
| .on job stage =>
    if stage.awaitsFlag || stage.streams then some job.run
    else none
| _ => none

/- The run whose flag a role has yet to take. -/
def Role.awaits? : Role → Option RunId
| .on job stage =>
    if stage.awaitsFlag then some job.run else none
| _ => none

/- The run whose stream a role follows. -/
def Role.streams? : Role → Option RunId
| .on job stage => if stage.streams then some job.run else none
| _ => none

/- The roles of tasks that have taken no flag. -/
def Role.untaken : Role → Bool
| .fresh | .looking .. | .on _ .choosing => true
| .on _ stage => stage.awaitsFlag
| _ => false

/- A call of the flag that an instance keeps for a run. -/
def Op.flags : Op → Bool
| .cancelsCreate _ | .cancelsSetdefault _ | .cancelsPop _
| .cancelsGet _ => true
| _ => false

section Roles

variable {role : Role} {op : Op} {runId : RunId}

/- A role that may pause a run writes it. -/
theorem writer_of_gates
    (hGates : role.gates? = some runId) :
    role.writer? = some runId := by
  cases role with
  | on job stage =>
      cases stage <;> first | exact hGates | cases hGates
  | _ => cases hGates

/- A role may pause a run before its stream and in it. -/
theorem gates_iff :
    role.gates? = some runId ↔
      role.awaits? = some runId ∨ role.streams? = some runId := by
  cases role with
  | on job stage =>
      cases stage <;> simp [Role.gates?, Role.awaits?,
        Role.streams?, Stage.awaitsFlag, Stage.streams]
  | _ => simp [Role.gates?, Role.awaits?, Role.streams?]

/- A task has taken no flag before its stream. -/
theorem untaken_of_awaits
    (hAwaits : role.awaits? = some runId) :
    role.untaken = true := by
  cases role with
  | on job stage =>
      cases stage <;> first | rfl | cases hAwaits
  | _ => cases hAwaits

/- A task without a flag had none, and did not take one. -/
theorem untaken_before
    {reply : Except Exn op.Reply}
    (hAllows : role.Allows op)
    (hUntaken : (role.after op reply).untaken = true) :
    role.untaken = true ∧ ∀ other, op ≠ .cancelsGet other := by
  cases hAllows with
  | on hStage =>
      cases hStage with
      | closingLog =>
          cases reply with
          | error exn => cases hUntaken
          | ok value =>
              simp only [Role.after, Stage.after] at hUntaken
              split at hUntaken <;> cases hUntaken
      | _ =>
          first
            | (refine ⟨rfl, ?_⟩; rintro _ ⟨⟩; done)
            | (cases reply <;> cases hUntaken)
            | (rcases reply with _ | (_ | _) <;>
                cases hUntaken)
            | (rcases reply with _ | (_ | ⟨_ | _, _⟩) <;>
                cases hUntaken)
  | _ =>
      first
        | (refine ⟨rfl, ?_⟩; rintro _ ⟨⟩)
        | (cases reply <;> cases hUntaken)
        | (rcases reply with _ | (_ | _) <;> cases hUntaken)

/-
  A driver that follows its stream did so before, or it has
  just asked for its flag.
-/
theorem streams_before
    {reply : Except Exn op.Reply}
    (hAllows : role.Allows op)
    (hStreams : (role.after op reply).streams? = some runId) :
    (role.streams? = some runId ∧ op.flags = false) ∨
      (role.awaits? = some runId ∧ op = .cancelsGet runId) := by
  cases hAllows with
  | @on job stage _ hStage =>
      have hJob : job.run = runId := by
        simp only [Role.after, Role.streams?] at hStreams
        split at hStreams
        · exact Option.some_inj.mp hStreams
        · cases hStreams
      subst hJob
      cases hStage with
      | closingLog =>
          cases reply with
          | error exn => cases hStreams
          | ok value =>
              simp only [Role.after, Role.streams?, Stage.after]
                at hStreams
              split at hStreams <;> cases hStreams
      | _ =>
          first
            | exact Or.inl ⟨rfl, rfl⟩
            | exact Or.inr ⟨rfl, rfl⟩
            | (cases reply <;> cases hStreams)
            | (rcases reply with _ | (_ | _) <;> cases hStreams)
  | _ =>
      first
        | (cases reply <;> cases hStreams)
        | (rcases reply with _ | (_ | _) <;> cases hStreams)
        | (rcases reply with _ | (_ | ⟨_, _ | _⟩) <;>
            cases hStreams)

/- A task takes a flag only when it asks for one. -/
theorem isTaken_after
    {watch : Watch}
    {reply : Except Exn op.Reply}
    (hUntaken : watch.isTaken = false)
    (hAsks : ∀ other, op ≠ .cancelsGet other) :
    (flagTracker.after watch op reply).isTaken = false := by
  cases op with
  | cancelsGet other => exact absurd rfl (hAsks other)
  | _ =>
      cases watch <;> first
        | rfl
        | (cases reply <;> rfl)
        | cases hUntaken

end Roles

------------------------------------------------------------
-- Kept Flags
------------------------------------------------------------

/- How a call moves the flag that an instance keeps. -/
inductive MovesFlag
    (inst : InstanceId)
    (op : Op)
    (world world' : World)
    (other : InstanceId)
    (runId : RunId) :
    Prop where
  | kept
      (hSame :
        (world'.instances other).cancels runId =
          (world.instances other).cancels runId)
  | stored
      (hInst : other = inst)
      (hOp :
        op = .cancelsCreate runId ∨
          op = .cancelsSetdefault runId ∧
            (world.instances inst).cancels runId = none)
      (hFlag :
        (world'.instances other).cancels runId =
          some world.nextFlag)
      (hNext : world'.nextFlag = world.nextFlag + 1)
  | popped
      (hInst : other = inst)
      (hOp : op = .cancelsPop runId)
      (hNone : (world'.instances other).cancels runId = none)

/- Flags that exist stay, and those that are set stay set. -/
structure KeepsFlags (world world' : World) : Prop where
  nextFlag : world.nextFlag ≤ world'.nextFlag
  isSet :
    ∀ flag,
      flag < world.nextFlag →
        world.flags flag = true → world'.flags flag = true

section Calls

variable {inst : InstanceId} {op : Op} {value : op.Reply}
variable {world world' : World} {runId : RunId}

/- A new flag is stored for one run of one instance. -/
theorem moves_createCancel
    (hOp :
      op = .cancelsCreate runId ∨
        op = .cancelsSetdefault runId ∧
          (world.instances inst).cancels runId = none)
    (other : InstanceId)
    (runId' : RunId) :
    MovesFlag inst op world (world.createCancel inst runId)
        other runId' ∧
      KeepsFlags world (world.createCancel inst runId) := by
  constructor
  · by_cases hSame : other = inst ∧ runId' = runId
    · rcases hSame with ⟨rfl, rfl⟩
      refine .stored rfl hOp ?_ rfl
      simp [World.createCancel, World.setInstance,
        Instance.setCancel]
    · refine .kept ?_
      simp only [World.createCancel, World.setInstance]
      split
      · rename_i hInst
        subst hInst
        simp only [Instance.setCancel]
        rw [if_neg fun hRun => hSame ⟨rfl, hRun⟩]
      · rfl
  · refine ⟨Nat.le_succ _, ?_⟩
    intro flag hLt hSet
    simp only [World.createCancel]
    rw [if_neg (Nat.ne_of_lt hLt)]
    exact hSet

/- How executed calls move the flags. -/
theorem movesFlag_of_exec
    (hExec : exec inst op world = (.ok value, world'))
    (other : InstanceId)
    (runId : RunId) :
    MovesFlag inst op world world' other runId ∧
      KeepsFlags world world' := by
  have hWorld : (exec inst op world).2 = world' := by
    rw [hExec]
  cases op with
  | cancelsCreate created =>
      cases hExec
      exact moves_createCancel (Or.inl rfl) other runId
  | cancelsSetdefault created =>
      simp only [exec] at hExec
      split at hExec
      · rename_i hNone
        cases hExec
        exact
          moves_createCancel (Or.inr ⟨rfl, hNone⟩) other runId
      · cases hExec
        exact ⟨.kept rfl, Nat.le_refl _, fun _ _ hSet => hSet⟩
  | cancelsPop popped =>
      cases hExec
      refine ⟨?_, Nat.le_refl _, fun _ _ hSet => hSet⟩
      by_cases hSame : other = inst ∧ runId = popped
      · rcases hSame with ⟨rfl, rfl⟩
        refine .popped rfl rfl ?_
        simp [World.setInstance, Instance.setCancel]
      · refine .kept ?_
        simp only [World.setInstance]
        split
        · rename_i hInst
          subst hInst
          simp only [Instance.setCancel]
          rw [if_neg fun hRun => hSame ⟨rfl, hRun⟩]
        · rfl
  | flagSet flag =>
      cases hExec
      refine ⟨.kept rfl, Nat.le_refl _, ?_⟩
      intro flag' _ hSet
      dsimp only
      split
      · rfl
      · exact hSet
  | activeAdd added =>
      cases hExec
      refine ⟨.kept ?_, Nat.le_refl _, fun _ _ hSet => hSet⟩
      simp only [World.setInstance]
      split
      · rename_i hInst
        rw [hInst]
      · rfl
  | activeDiscard discarded =>
      cases hExec
      refine ⟨.kept ?_, Nat.le_refl _, fun _ _ hSet => hSet⟩
      simp only [World.setInstance]
      split
      · rename_i hInst
        rw [hInst]
      · rfl
  | _ =>
      rw [← hWorld]
      exact ⟨.kept rfl, Nat.le_refl _, fun _ _ hSet => hSet⟩

end Calls

------------------------------------------------------------
-- Watchful Tasks
------------------------------------------------------------

/- What a task knows of its flag, and what is kept of it. -/
structure Task.Knows
    (task : Task)
    (world : World)
    (watch : Watch) :
    Prop where
  watches : task.program.Watches watch anyWatch
  untaken :
    task.phase.role.untaken = true → watch.isTaken = false
  streams :
    ∀ runId,
      task.phase.role.streams? = some runId →
        ∃ flag clear,
          watch = .taken flag clear ∧
            ((world.instances task.inst).cancels runId = flag ∨
              (world.instances task.inst).cancels runId = none)

/- The kept flags exist, and every task knows of its own. -/
structure System.Watchful (system : System) : Prop where
  kept :
    ∀ inst runId flag,
      (system.world.instances inst).cancels runId =
          some flag →
        flag < system.world.nextFlag
  tasks :
    ∀ taskId task,
      system.tasks taskId = some task →
        ∃ watch, task.Knows system.world watch

/- What is known of the flags depends on the memory alone. -/
theorem System.Watchful.same
    {system next : System}
    (hHolds : system.Watchful)
    (hInstances : next.world.instances = system.world.instances)
    (hNext : next.world.nextFlag = system.world.nextFlag)
    (hTasks : next.tasks = system.tasks) :
    next.Watchful := by
  constructor
  · rw [hInstances, hNext]
    exact hHolds.kept
  · rw [hTasks]
    intro taskId task hTask
    rcases hHolds.tasks taskId task hTask with ⟨watch, hKnows⟩
    refine ⟨watch, hKnows.watches, hKnows.untaken, ?_⟩
    rw [hInstances]
    exact hKnows.streams

/- A task that stores a flag of a run writes the run. -/
theorem writer_of_stores
    {role : Role}
    {op : Op}
    {runId : RunId}
    (hAllows : role.Allows op)
    (hStores :
      op = .cancelsCreate runId ∨
        op = .cancelsSetdefault runId) :
    role.writer? = some runId := by
  rcases hStores with rfl | rfl
  · cases hAllows with
    | on hStage =>
        cases hStage
        rfl
  · cases hAllows with
    | on hStage =>
        cases hStage
        rfl

/- A call that moves no flag keeps the flags of all runs. -/
theorem cancels_of_unmoved
    {inst other : InstanceId}
    {op : Op}
    {world world' : World}
    {runId : RunId}
    (hMoves : MovesFlag inst op world world' other runId)
    (hFlags : op.flags = false) :
    (world'.instances other).cancels runId =
      (world.instances other).cancels runId := by
  cases hMoves with
  | kept hSame => exact hSame
  | stored _ hOp =>
      rcases hOp with rfl | ⟨rfl, -⟩ <;> cases hFlags
  | popped _ hOp =>
      subst hOp
      cases hFlags

/- A flag that was taken stays so behind other calls. -/
theorem taken_after
    {op : Op}
    {flag : Option FlagId}
    {clear : Bool}
    (hFlags : op.flags = false)
    (reply : Except Exn op.Reply) :
    ∃ clear',
      flagTracker.after (.taken flag clear) op reply =
        .taken flag clear' := by
  cases op <;> first
    | exact ⟨_, rfl⟩
    | (cases reply <;> exact ⟨_, rfl⟩)
    | cases hFlags

section Steps

variable {registry : Registry}
variable {allowed : System → Action → Prop}
variable {system : System} {taskId : TaskId} {fault : Bool}
variable {task : Task} {op : Op} {reply : Except Exn op.Reply}
variable {world' : World}

/- A driver that asks for its flag is given the kept one. -/
theorem reply_of_cancelsGet
    {inst : InstanceId}
    {runId : RunId}
    {world world' : World}
    {reply : Except Exn (Op.cancelsGet runId).Reply}
    (hExecutes :
      Executes inst (.cancelsGet runId) world fault reply
        world') :
    reply = .ok ((world.instances inst).cancels runId) ∧
      world' = world := by
  cases hExecutes with
  | done hExec =>
      cases hExec
      exact ⟨rfl, rfl⟩
  | refused hExec => cases hExec
  | fault hFault => cases hFault

/- A task that made a call still knows of its flag. -/
theorem knows_of_call
    {watch : Watch}
    {next : Except Exn op.Reply → Driver Unit}
    (hCall :
      Calls registry allowed system taskId fault task op reply
        world')
    (hProgram : task.program = .call op next)
    (hKnows : task.Knows system.world watch) :
    Task.Knows
      { task with
        program := next reply
        phase := task.phase.after op reply }
      world' (flagTracker.after watch op reply) := by
  have hWatches := hKnows.watches
  rw [hProgram] at hWatches
  refine ⟨hWatches.2 reply, ?_, ?_⟩
  · intro hUntaken
    rcases untaken_before hCall.allows hUntaken with
      ⟨hBefore, hAsks⟩
    exact isTaken_after (hKnows.untaken hBefore) hAsks
  · intro runId hStreams
    rcases streams_before hCall.allows hStreams with
      ⟨hBefore, hFlags⟩ | ⟨-, rfl⟩
    · rcases hKnows.streams runId hBefore with
        ⟨flag, clear, rfl, hKept⟩
      rcases taken_after hFlags reply with ⟨clear', hTaken⟩
      refine ⟨flag, clear', hTaken, ?_⟩
      cases hCall.executes with
      | done hExec =>
          have hSame :=
            cancels_of_unmoved
              (movesFlag_of_exec hExec task.inst runId).1 hFlags
          dsimp only
          rw [hSame]
          exact hKept
      | refused _ => exact hKept
      | fault _ => exact hKept
    · rcases reply_of_cancelsGet hCall.executes with ⟨rfl, rfl⟩
      refine ⟨_, false, ?_, Or.inl rfl⟩
      cases watch <;> rfl

/- A task knows of its flag when another task makes a call. -/
theorem knows_of_other
    {watch : Watch}
    {otherId : TaskId}
    {other : Task}
    (hCall :
      Calls registry allowed system taskId fault task op reply
        world')
    (hNe : otherId ≠ taskId)
    (hOther : system.tasks otherId = some other)
    (hKnows : other.Knows system.world watch) :
    other.Knows world' watch := by
  refine ⟨hKnows.watches, hKnows.untaken, ?_⟩
  intro runId hStreams
  rcases hKnows.streams runId hStreams with
    ⟨flag, clear, rfl, hKept⟩
  refine ⟨flag, clear, rfl, ?_⟩
  cases hCall.executes with
  | refused _ => exact hKept
  | fault _ => exact hKept
  | done hExec =>
      cases (movesFlag_of_exec hExec other.inst runId).1 with
      | kept hSame =>
          rw [hSame]
          exact hKept
      | popped _ _ hNone => exact Or.inr hNone
      | stored _ hOp =>
          -- the other task would write the run as well
          have hStores :
              op = .cancelsCreate runId ∨
                op = .cancelsSetdefault runId := by
            rcases hOp with hCreate | ⟨hDefault, -⟩
            · exact Or.inl hCreate
            · exact Or.inr hDefault
          refine absurd ?_ hNe
          exact
            writers_of_reachable hCall.reachable hOther
              hCall.present
              (writer_of_gates (gates_iff.mpr (Or.inr hStreams)))
              (writer_of_stores hCall.allows hStores)

/- Every step keeps the tasks watchful. -/
theorem preserves_watchful :
    Preserves registry allowed System.Watchful where
  request := by
    intro system taskId inst request _ _ hNone hHolds
    refine ⟨hHolds.kept, ?_⟩
    intro other task hTask
    simp only [System.setTask] at hTask
    split at hTask
    · cases hTask
      refine
        ⟨request.watch, watches_request registry request, ?_, ?_⟩
      · intro _
        cases request <;> rfl
      · intro runId hStreams
        cases request <;> cases hStreams
    · exact hHolds.tasks other task hTask
  call := by
    intro system taskId fault task op reply world' next hCall
      hProgram hHolds
    constructor
    · intro inst runId flag hFlag
      cases hCall.executes with
      | refused _ => exact hHolds.kept inst runId flag hFlag
      | fault _ => exact hHolds.kept inst runId flag hFlag
      | done hExec =>
          rcases movesFlag_of_exec hExec inst runId with
            ⟨hMoves, hKeeps⟩
          cases hMoves with
          | kept hSame =>
              have hFlag' :
                  (world'.instances inst).cancels runId =
                    some flag := hFlag
              rw [hSame] at hFlag'
              exact
                Nat.lt_of_lt_of_le
                  (hHolds.kept inst runId flag hFlag')
                  hKeeps.nextFlag
          | stored _ _ hStored hNext =>
              have hFlag' := hStored.symm.trans hFlag
              rw [Option.some_inj] at hFlag'
              subst hFlag'
              change _ < world'.nextFlag
              rw [hNext]
              exact Nat.lt_succ_self _
          | popped _ _ hNone =>
              have hFlag' := hNone.symm.trans hFlag
              cases hFlag'
    · intro other task' hTask'
      simp only [System.setTask] at hTask'
      split at hTask'
      · cases hTask'
        rcases hHolds.tasks taskId task hCall.present with
          ⟨watch, hKnows⟩
        exact ⟨_, knows_of_call hCall hProgram hKnows⟩
      · rename_i hNe
        rcases hHolds.tasks other task' hTask' with
          ⟨watch, hKnows⟩
        exact ⟨watch, knows_of_other hCall hNe hTask' hKnows⟩
  sent := by
    intro system taskId task event next _ hTask hProgram hRole
      hHolds
    refine ⟨hHolds.kept, ?_⟩
    intro other task' hTask'
    simp only [System.setTask] at hTask'
    split at hTask'
    · cases hTask'
      rcases hHolds.tasks taskId task hTask with ⟨watch, hKnows⟩
      have hWatches := hKnows.watches
      rw [hProgram] at hWatches
      exact
        ⟨watch, hWatches (.ok ()), hKnows.untaken,
          hKnows.streams⟩
    · exact hHolds.tasks other task' hTask'
  advance := fun _ _ _ hHolds => hHolds.same rfl rfl rfl
  heartbeat := fun _ _ _ hHolds => hHolds.same rfl rfl rfl
  sweep := fun _ _ _ _ _ hHolds => hHolds.same rfl rfl rfl
  collect := fun _ _ _ hHolds => hHolds.same rfl rfl rfl
  crash := by
    intro system inst _ _ hHolds
    have hCancels :
        ∀ other runId,
          ((system.world.crash inst).instances other).cancels
                runId =
              (system.world.instances other).cancels runId ∨
            ((system.world.crash inst).instances other).cancels
                runId =
              none := by
      intro other runId
      simp only [World.crash, World.setInstance]
      split
      · exact Or.inr rfl
      · exact Or.inl rfl
    constructor
    · intro other runId flag hFlag
      rcases hCancels other runId with hSame | hNone
      · exact hHolds.kept other runId flag (hSame.symm.trans hFlag)
      · have hFlag' := hNone.symm.trans hFlag
        cases hFlag'
    · intro other task hTask
      rcases of_survivors hTask with ⟨hTask', -⟩
      rcases hHolds.tasks other task hTask' with ⟨watch, hKnows⟩
      refine ⟨watch, hKnows.watches, hKnows.untaken, ?_⟩
      intro runId hStreams
      rcases hKnows.streams runId hStreams with
        ⟨flag, clear, hWatch, hKept⟩
      refine ⟨flag, clear, hWatch, ?_⟩
      rcases hCancels task.inst runId with hSame | hNone
      · dsimp only
        rw [hSame]
        exact hKept
      · exact Or.inr hNone

/- In every reachable system the tasks are watchful. -/
theorem watchful_of_reachable
    (hReachable : Reachable registry allowed system) :
    system.Watchful := by
  refine
    preserved_of_reachable preserves_watchful ⟨?_, ?_⟩
      hReachable
  · intro inst runId flag hFlag
    cases hFlag
  · intro taskId task hTask
    cases hTask

end Steps

end LegalAgent
