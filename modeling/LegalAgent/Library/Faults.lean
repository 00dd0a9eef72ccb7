import LegalAgent.Library.Protocol

/-
  Runs of programs in which calls fail.

  A program runs alone on a `Machine`: every call is executed
  or fails, and the consumer of every yielded event asks for
  the next one or closes the program.  A run is recorded as
  the list of its moments, so that one can say which of them
  failed.

  Key definitions include:
    * `Machine`
    * `Moment`
    * `Gen.Runs`
    * `Gen.Serves`
    * `Gen.Straight`
    * `Gen.Only`
    * `Gen.record`
    * `Machine.shared`

  Key theorems include:
    * `Gen.runs_bind`
    * `Gen.runs_call`
    * `Gen.runs_of_follows`
    * `Gen.runs_straight`
    * `Gen.runs_only`
    * `Gen.runs_record`
    * `Gen.runs_shared`
-/

------------------------------------------------------------
-- Machines
------------------------------------------------------------

namespace LegalAgent

namespace Library

/-
  What executes the calls of programs, the exception of a
  call that fails for reasons of its own, and the exception
  that is raised in a program that is closed.
-/
structure Machine
    (Op : Type)
    (Reply : Op → Type)
    (Exn World : Type) :
    Type where
  exec : (op : Op) → World → Except Exn (Reply op) × World
  fault : Op → Option Exn
  stop : Exn

/- What happens in a run of a program. -/
inductive Moment
    (Op : Type)
    (Reply : Op → Type)
    (Exn Ev : Type) :
    Type where
  | called (op : Op) (reply : Except Exn (Reply op))
  | taken (event : Ev)
  | closed (event : Ev)

variable {Op : Type} {Reply : Op → Type}
variable {Exn Ev World α β : Type}

/- Whether a call raised or the program was closed. -/
def Moment.failed : Moment Op Reply Exn Ev → Bool
| .called _ (.error _) => true
| .closed _ => true
| _ => false

/- How often a run failed. -/
def faults (moments : List (Moment Op Reply Exn Ev)) : Nat :=
  moments.countP Moment.failed

@[simp] theorem faults_nil :
    faults ([] : List (Moment Op Reply Exn Ev)) = 0 := rfl

@[simp] theorem faults_append
    (moments more : List (Moment Op Reply Exn Ev)) :
    faults (moments ++ more) = faults moments + faults more :=
  List.countP_append

@[simp] theorem faults_cons
    (moment : Moment Op Reply Exn Ev)
    (moments : List (Moment Op Reply Exn Ev)) :
    faults (moment :: moments) =
      faults moments + if moment.failed then 1 else 0 :=
  List.countP_cons

@[simp] theorem failed_ok
    (op : Op)
    (value : Reply op) :
    (Moment.called op (.ok value) :
        Moment Op Reply Exn Ev).failed =
      false := rfl

@[simp] theorem failed_error
    (op : Op)
    (exn : Exn) :
    (Moment.called op (.error exn) :
        Moment Op Reply Exn Ev).failed =
      true := rfl

@[simp] theorem failed_taken
    (event : Ev) :
    (Moment.taken event : Moment Op Reply Exn Ev).failed =
      false := rfl

@[simp] theorem failed_closed
    (event : Ev) :
    (Moment.closed event : Moment Op Reply Exn Ev).failed =
      true := rfl

------------------------------------------------------------
-- Runs
------------------------------------------------------------

namespace Gen

/- A program runs with its moments, its result and a world. -/
inductive Runs
    (machine : Machine Op Reply Exn World) :
    Gen Op Reply Exn Ev α → World →
      List (Moment Op Reply Exn Ev) → Except Exn α → World →
        Prop where
  | ret (result : Except Exn α) (world : World) :
      Runs machine (.ret result) world [] result world
  | executed {op next world reply middle moments result last}
      (hExec : machine.exec op world = (reply, middle))
      (hNext :
        Runs machine (next reply) middle moments result last) :
      Runs machine (.call op next) world
        (.called op reply :: moments) result last
  | fault {op next world exn moments result last}
      (hFault : machine.fault op = some exn)
      (hNext :
        Runs machine (next (.error exn)) world moments result
          last) :
      Runs machine (.call op next) world
        (.called op (.error exn) :: moments) result last
  | taken {event next world moments result last}
      (hNext :
        Runs machine (next (.ok ())) world moments result
          last) :
      Runs machine (.yield event next) world
        (.taken event :: moments) result last
  | closed {event next world moments result last}
      (hNext :
        Runs machine (next (.error machine.stop)) world moments
          result last) :
      Runs machine (.yield event next) world
        (.closed event :: moments) result last

variable {machine : Machine Op Reply Exn World}
variable {world last : World}
variable {moments : List (Moment Op Reply Exn Ev)}

/- A program that has ended. -/
theorem runs_ret
    {ended result : Except Exn α}
    (hRuns :
      Runs machine
        (.ret ended : Gen Op Reply Exn Ev α) world moments
        result last) :
    moments = [] ∧ result = ended ∧ last = world := by
  cases hRuns
  exact ⟨rfl, rfl, rfl⟩

/- A program runs before what goes on with its result. -/
theorem runs_andThen
    {program : Gen Op Reply Exn Ev α}
    {next : Except Exn α → Gen Op Reply Exn Ev β}
    {result : Except Exn β}
    (hRuns :
      Runs machine (program.andThen next) world moments result
        last) :
    ∃ before after ended middle,
      moments = before ++ after ∧
        Runs machine program world before ended middle ∧
          Runs machine (next ended) middle after result
            last := by
  induction program generalizing world moments with
  | ret ended =>
      exact ⟨[], moments, ended, world, rfl, .ret _ _, hRuns⟩
  | call op k ih =>
      cases hRuns with
      | executed hExec hNext =>
          rcases ih _ hNext with
            ⟨before, after, ended, middle, rfl, hFirst, hRest⟩
          exact
            ⟨_ :: before, after, ended, middle, rfl,
              .executed hExec hFirst, hRest⟩
      | fault hFault hNext =>
          rcases ih _ hNext with
            ⟨before, after, ended, middle, rfl, hFirst, hRest⟩
          exact
            ⟨_ :: before, after, ended, middle, rfl,
              .fault hFault hFirst, hRest⟩
  | yield event k ih =>
      cases hRuns with
      | taken hNext =>
          rcases ih _ hNext with
            ⟨before, after, ended, middle, rfl, hFirst, hRest⟩
          exact
            ⟨_ :: before, after, ended, middle, rfl,
              .taken hFirst, hRest⟩
      | closed hNext =>
          rcases ih _ hNext with
            ⟨before, after, ended, middle, rfl, hFirst, hRest⟩
          exact
            ⟨_ :: before, after, ended, middle, rfl,
              .closed hFirst, hRest⟩

/- A `do` block goes on with a value, or an exception ends it. -/
theorem runs_bind
    {program : Gen Op Reply Exn Ev α}
    {next : α → Gen Op Reply Exn Ev β}
    {result : Except Exn β}
    (hRuns :
      Runs machine (program >>= next) world moments result
        last) :
    (∃ exn,
        result = .error exn ∧
          Runs machine program world moments (.error exn)
            last) ∨
      ∃ before after value middle,
        moments = before ++ after ∧
          Runs machine program world before (.ok value)
              middle ∧
            Runs machine (next value) middle after result
              last := by
  rcases runs_andThen hRuns with
    ⟨before, after, ended, middle, rfl, hFirst, hRest⟩
  cases ended with
  | ok value =>
      exact
        Or.inr
          ⟨before, after, value, middle, rfl, hFirst, hRest⟩
  | error exn =>
      rcases runs_ret hRest with ⟨rfl, rfl, rfl⟩
      rw [List.append_nil]
      exact Or.inl ⟨exn, rfl, hFirst⟩

/- A call in a `do` block replies, or it ends the block. -/
theorem runs_call
    {op : Op}
    {next : Reply op → Gen Op Reply Exn Ev β}
    {result : Except Exn β}
    (hRuns :
      Runs machine (perform op >>= next) world moments result
        last) :
    (∃ exn,
        result = .error exn ∧
          moments = [.called op (.error exn)] ∧
            (machine.exec op world = (.error exn, last) ∨
              machine.fault op = some exn ∧ last = world)) ∨
      ∃ value middle after,
        moments = .called op (.ok value) :: after ∧
          machine.exec op world = (.ok value, middle) ∧
            Runs machine (next value) middle after result
              last := by
  change Runs machine (.call op _) world moments result last
    at hRuns
  cases hRuns with
  | @executed _ _ _ reply middle after _ _ hExec hNext =>
      cases reply with
      | ok value =>
          exact
            Or.inr ⟨value, middle, after, rfl, hExec, hNext⟩
      | error exn =>
          rcases runs_ret hNext with ⟨rfl, rfl, rfl⟩
          exact Or.inl ⟨exn, rfl, rfl, Or.inl hExec⟩
  | @fault _ _ _ exn after _ _ hFault hNext =>
      rcases runs_ret hNext with ⟨rfl, rfl, rfl⟩
      exact Or.inl ⟨exn, rfl, rfl, Or.inr ⟨hFault, rfl⟩⟩

/- A yield in a `do` block goes on, or it ends the block. -/
theorem runs_yield
    {event : Ev}
    {next : Unit → Gen Op Reply Exn Ev β}
    {result : Except Exn β}
    (hRuns :
      Runs machine (emit event >>= next) world moments result
        last) :
    (result = .error machine.stop ∧
        moments = [.closed event] ∧ last = world) ∨
      ∃ after,
        moments = .taken event :: after ∧
          Runs machine (next ()) world after result last := by
  change Runs machine (.yield event _) world moments result last
    at hRuns
  cases hRuns with
  | taken hNext => exact Or.inr ⟨_, rfl, hNext⟩
  | closed hNext =>
      rcases runs_ret hNext with ⟨rfl, rfl, rfl⟩
      exact Or.inl ⟨rfl, rfl, rfl⟩

------------------------------------------------------------
-- Protocols
------------------------------------------------------------

section Protocols

variable {Phase : Type}
variable {protocol : Protocol Op Reply Exn Ev Phase}

/- The machine replies as the protocol expects. -/
structure Serves
    (machine : Machine Op Reply Exn World)
    (protocol : Protocol Op Reply Exn Ev Phase) :
    Prop where
  stop : machine.stop = protocol.stop
  possible :
    ∀ op world, protocol.possible op (machine.exec op world).1
  fault :
    ∀ op exn,
      machine.fault op = some exn →
        protocol.possible op (.error exn)

/-
  A program that follows a protocol ends as it says when it
  runs, and keeps what every call of the protocol keeps.
-/
theorem runs_of_follows
    {program : Gen Op Reply Exn Ev α}
    {quiet : Bool}
    {phase : Phase}
    {post : Bool → Except Exn α → Phase → Prop}
    (holds : World → Prop)
    {result : Except Exn α}
    (hServes : Serves machine protocol)
    (hFollows : program.follows protocol quiet phase post)
    (hKeeps :
      ∀ phase op world,
        protocol.allows phase op →
          holds world → holds (machine.exec op world).2)
    (hRuns : Runs machine program world moments result last)
    (hWorld : holds world) :
    holds last ∧
      (∀ op reply,
        Moment.called op reply ∈ moments →
          ∃ phase, protocol.allows phase op) ∧
        ∃ quiet' phase',
          post quiet' result phase' ∧
            (quiet' = true →
              quiet = true ∨ 0 < faults moments) := by
  induction hRuns generalizing quiet phase with
  | ret result world =>
      refine ⟨hWorld, ?_, quiet, phase, hFollows, Or.inl⟩
      intro op reply hMem
      cases hMem
  | @executed op next world reply middle moments _ _ hExec
      hNext ih =>
      have hPossible := hServes.possible op world
      have hMiddle := hKeeps phase op world hFollows.1 hWorld
      rw [hExec] at hPossible hMiddle
      rcases ih (hFollows.2 reply hPossible) hMiddle with
        ⟨hLast, hCalls, quiet', phase', hPost, hQuiet⟩
      refine ⟨hLast, ?_, quiet', phase', hPost, ?_⟩
      · intro op' reply' hMem
        rcases List.mem_cons.mp hMem with hEq | hMem
        · cases hEq
          exact ⟨phase, hFollows.1⟩
        · exact hCalls op' reply' hMem
      · intro hTrue
        rcases hQuiet hTrue with hOld | hFault
        · exact Or.inl hOld
        · rw [faults_cons]
          exact Or.inr (Nat.add_pos_left hFault _)
  | @fault op next world exn moments _ _ hFault hNext ih =>
      rcases
          ih (hFollows.2 _ (hServes.fault op exn hFault)) hWorld with
        ⟨hLast, hCalls, quiet', phase', hPost, -⟩
      refine ⟨hLast, ?_, quiet', phase', hPost, ?_⟩
      · intro op' reply' hMem
        rcases List.mem_cons.mp hMem with hEq | hMem
        · cases hEq
          exact ⟨phase, hFollows.1⟩
        · exact hCalls op' reply' hMem
      · intro _
        simp
  | taken hNext ih =>
      rcases hFollows with ⟨hNot, -, hTaken, -⟩
      rcases ih hTaken hWorld with
        ⟨hLast, hCalls, quiet', phase', hPost, hQuiet⟩
      refine ⟨hLast, ?_, quiet', phase', hPost, ?_⟩
      · intro op' reply' hMem
        rcases List.mem_cons.mp hMem with hEq | hMem
        · cases hEq
        · exact hCalls op' reply' hMem
      · intro hTrue
        rcases hQuiet hTrue with hOld | hFault
        · cases hOld
        · rw [faults_cons]
          exact Or.inr (Nat.add_pos_left hFault _)
  | closed hNext ih =>
      rcases hFollows with ⟨-, -, -, hClosed⟩
      rw [← hServes.stop] at hClosed
      rcases ih hClosed hWorld with
        ⟨hLast, hCalls, quiet', phase', hPost, -⟩
      refine ⟨hLast, ?_, quiet', phase', hPost, ?_⟩
      · intro op' reply' hMem
        rcases List.mem_cons.mp hMem with hEq | hMem
        · cases hEq
        · exact hCalls op' reply' hMem
      · intro _
        simp

end Protocols

------------------------------------------------------------
-- Straight Programs
------------------------------------------------------------

/- A program that ends with a value unless something fails. -/
def Straight : Gen Op Reply Exn Ev α → Prop
| .ret (.ok _) => True
| .ret (.error _) => False
| .call _ next =>
    (∀ value, (next (.ok value)).Straight) ∧
      ∀ exn, next (.error exn) = raise exn
| .yield _ next =>
    (next (.ok ())).Straight ∧
      ∀ exn, next (.error exn) = raise exn

theorem straight_perform
    (op : Op) :
    (perform op : Gen Op Reply Exn Ev (Reply op)).Straight :=
  ⟨fun _ => trivial, fun _ => rfl⟩

theorem straight_emit
    (event : Ev) :
    (emit event : Gen Op Reply Exn Ev Unit).Straight :=
  ⟨trivial, fun _ => rfl⟩

theorem straight_bind
    {program : Gen Op Reply Exn Ev α}
    {next : α → Gen Op Reply Exn Ev β}
    (hProgram : program.Straight)
    (hNext : ∀ value, (next value).Straight) :
    (program >>= next).Straight := by
  change (program.andThen _).Straight
  induction program with
  | ret result =>
      cases result with
      | ok value => exact hNext value
      | error exn => exact absurd hProgram id
  | call op k ih =>
      refine ⟨fun value => ih _ (hProgram.1 value), ?_⟩
      intro exn
      dsimp only
      rw [hProgram.2 exn]
      rfl
  | yield event k ih =>
      refine ⟨ih _ hProgram.1, ?_⟩
      intro exn
      dsimp only
      rw [hProgram.2 exn]
      rfl

/- A straight program raises if and only if something fails. -/
theorem runs_straight
    {program : Gen Op Reply Exn Ev α}
    (hStraight : program.Straight)
    {result : Except Exn α}
    (hRuns : Runs machine program world moments result last) :
    (∃ value, result = .ok value ∧ faults moments = 0) ∨
      ∃ exn, result = .error exn ∧ faults moments = 1 := by
  induction hRuns with
  | ret result world =>
      cases result with
      | ok value => exact Or.inl ⟨value, rfl, rfl⟩
      | error exn => exact absurd hStraight id
  | @executed op next world reply middle moments _ _ hExec
      hNext ih =>
      cases reply with
      | ok value => simpa using ih (hStraight.1 value)
      | error exn =>
          rw [hStraight.2 exn] at hNext
          rcases runs_ret hNext with ⟨rfl, rfl, rfl⟩
          exact Or.inr ⟨exn, rfl, rfl⟩
  | @fault op next world exn moments _ _ hFault hNext ih =>
      rw [hStraight.2 exn] at hNext
      rcases runs_ret hNext with ⟨rfl, rfl, rfl⟩
      exact Or.inr ⟨exn, rfl, rfl⟩
  | taken hNext ih => simpa using ih hStraight.1
  | closed hNext ih =>
      rw [hStraight.2] at hNext
      rcases runs_ret hNext with ⟨rfl, rfl, rfl⟩
      exact Or.inr ⟨_, rfl, rfl⟩

------------------------------------------------------------
-- Confined Programs
------------------------------------------------------------

/-
  A program that makes only calls and yields only events of a
  kind, and that ends with such values, whatever its calls
  reply.
-/
def Only
    (calls : Op → Prop)
    (events : Ev → Prop)
    (done : α → Prop) :
    Gen Op Reply Exn Ev α → Prop
| .ret (.ok value) => done value
| .ret (.error _) => True
| .call op next =>
    calls op ∧ ∀ reply, (next reply).Only calls events done
| .yield event next =>
    events event ∧ ∀ reply, (next reply).Only calls events done

section Only

variable {calls calls' : Op → Prop} {events events' : Ev → Prop}
variable {done : α → Prop}

theorem only_perform
    {op : Op}
    (hOp : calls op) :
    (perform op : Gen Op Reply Exn Ev (Reply op)).Only calls
      events fun _ => True := by
  refine ⟨hOp, ?_⟩
  intro reply
  cases reply <;> exact trivial

theorem only_emit
    {event : Ev}
    (hEvent : events event) :
    (emit event : Gen Op Reply Exn Ev Unit).Only calls events
      fun _ => True := by
  refine ⟨hEvent, ?_⟩
  intro reply
  cases reply <;> exact trivial

/- A kind may be widened. -/
theorem only_mono
    {program : Gen Op Reply Exn Ev α}
    {done' : α → Prop}
    (hOnly : program.Only calls events done)
    (hCalls : ∀ op, calls op → calls' op)
    (hEvents : ∀ event, events event → events' event)
    (hDone : ∀ value, done value → done' value) :
    program.Only calls' events' done' := by
  induction program with
  | ret result =>
      cases result with
      | ok value => exact hDone value hOnly
      | error exn => exact trivial
  | call op next ih =>
      exact
        ⟨hCalls op hOnly.1, fun reply => ih _ (hOnly.2 reply)⟩
  | yield event next ih =>
      exact
        ⟨hEvents event hOnly.1,
          fun reply => ih _ (hOnly.2 reply)⟩

/- A program before what goes on with its result. -/
theorem only_andThen
    {program : Gen Op Reply Exn Ev α}
    {next : Except Exn α → Gen Op Reply Exn Ev β}
    {done' : β → Prop}
    (hProgram : program.Only calls events done)
    (hValue :
      ∀ value,
        done value → (next (.ok value)).Only calls events done')
    (hError :
      ∀ exn, (next (.error exn)).Only calls events done') :
    (program.andThen next).Only calls events done' := by
  induction program with
  | ret result =>
      cases result with
      | ok value => exact hValue value hProgram
      | error exn => exact hError exn
  | call op k ih =>
      exact
        ⟨hProgram.1, fun reply => ih _ (hProgram.2 reply)⟩
  | yield event k ih =>
      exact
        ⟨hProgram.1, fun reply => ih _ (hProgram.2 reply)⟩

/- The rule of `do` blocks. -/
theorem only_bind
    {program : Gen Op Reply Exn Ev α}
    {next : α → Gen Op Reply Exn Ev β}
    {done' : β → Prop}
    (hProgram : program.Only calls events done)
    (hNext :
      ∀ value, done value → (next value).Only calls events done') :
    (program >>= next).Only calls events done' :=
  only_andThen hProgram hNext fun _ => trivial

/- The rule of handlers. -/
theorem only_tryCatch
    {program : Gen Op Reply Exn Ev α}
    {handler : Exn → Gen Op Reply Exn Ev α}
    (hProgram : program.Only calls events done)
    (hHandler :
      ∀ exn, (handler exn).Only calls events done) :
    (program.tryCatch handler).Only calls events done :=
  only_andThen hProgram (fun _ hDone => hDone) hHandler

/- The rule of last steps. -/
theorem only_tryFinally
    {program : Gen Op Reply Exn Ev α}
    {last : Gen Op Reply Exn Ev Unit}
    (hProgram : program.Only calls events done)
    (hLast : last.Only calls events fun _ => True) :
    (program.tryFinally last).Only calls events done := by
  have hThen :
      ∀ result : Except Exn α,
        (∀ value, result = .ok value → done value) →
          (tryFinally (.ret result) last).Only calls events
            done := by
    intro result hResult
    rw [tryFinally, andThen]
    refine only_andThen hLast ?_ fun _ => trivial
    intro _ _
    cases result with
    | ok value => exact hResult value rfl
    | error exn => exact trivial
  refine only_andThen hProgram ?_ ?_
  · intro value hDone
    apply hThen (.ok value)
    intro value' hEq
    cases hEq
    exact hDone
  · intro exn
    apply hThen (.error exn)
    intro _ hEq
    cases hEq

/- A closed program makes some of the calls of the program. -/
theorem only_close
    {Ev' : Type}
    {program : Gen Op Reply Exn Ev Unit}
    {stop : Exn}
    {events' : Ev' → Prop}
    (hProgram : program.Only calls events fun _ => True) :
    (program.close stop : Gen Op Reply Exn Ev' Unit).Only calls
      events' fun _ => True := by
  induction program with
  | ret result => cases result <;> exact trivial
  | call op next ih =>
      exact ⟨hProgram.1, fun reply => ih reply (hProgram.2 reply)⟩
  | yield event next ih => exact trivial

/- What a moment of a confined program is. -/
def Confines
    (calls : Op → Prop)
    (events : Ev → Prop) :
    Moment Op Reply Exn Ev → Prop
| .called op _ => calls op
| .taken event => events event
| .closed event => events event

/- The moments and the value of a confined program. -/
theorem runs_only
    {program : Gen Op Reply Exn Ev α}
    (hOnly : program.Only calls events done)
    {result : Except Exn α}
    (hRuns : Runs machine program world moments result last) :
    (∀ moment ∈ moments, Confines calls events moment) ∧
      ∀ value, result = .ok value → done value := by
  induction hRuns with
  | ret result world =>
      refine ⟨(fun _ hMem => nomatch hMem), ?_⟩
      rintro value rfl
      exact hOnly
  | executed hExec hNext ih =>
      rcases ih (hOnly.2 _) with ⟨hMoments, hValue⟩
      refine ⟨?_, hValue⟩
      rintro moment (_ | ⟨_, hMem⟩)
      · exact hOnly.1
      · exact hMoments moment hMem
  | fault hFault hNext ih =>
      rcases ih (hOnly.2 _) with ⟨hMoments, hValue⟩
      refine ⟨?_, hValue⟩
      rintro moment (_ | ⟨_, hMem⟩)
      · exact hOnly.1
      · exact hMoments moment hMem
  | taken hNext ih =>
      rcases ih (hOnly.2 _) with ⟨hMoments, hValue⟩
      refine ⟨?_, hValue⟩
      rintro moment (_ | ⟨_, hMem⟩)
      · exact hOnly.1
      · exact hMoments moment hMem
  | closed hNext ih =>
      rcases ih (hOnly.2 _) with ⟨hMoments, hValue⟩
      refine ⟨?_, hValue⟩
      rintro moment (_ | ⟨_, hMem⟩)
      · exact hOnly.1
      · exact hMoments moment hMem

end Only

------------------------------------------------------------
-- Recorded Runs
------------------------------------------------------------

/-
  Run a program and record it, where a plan says which of its
  moments fail.  Moments that the plan leaves out succeed.
-/
def record
    (machine : Machine Op Reply Exn World) :
    Gen Op Reply Exn Ev α → List Bool → World →
      List (Moment Op Reply Exn Ev) × Except Exn α × World
| .ret result, _, world => ([], result, world)
| .call op next, plan, world =>
    match plan.headD false, machine.fault op with
    | true, some exn =>
        let (moments, result, last) :=
          (next (.error exn)).record machine plan.tail world
        (.called op (.error exn) :: moments, result, last)
    | _, _ =>
        let (reply, middle) := machine.exec op world
        let (moments, result, last) :=
          (next reply).record machine plan.tail middle
        (.called op reply :: moments, result, last)
| .yield event next, plan, world =>
    match plan.headD false with
    | true =>
        let (moments, result, last) :=
          (next (.error machine.stop)).record machine plan.tail
            world
        (.closed event :: moments, result, last)
    | false =>
        let (moments, result, last) :=
          (next (.ok ())).record machine plan.tail world
        (.taken event :: moments, result, last)

/- A recorded run is a run. -/
theorem runs_record
    (program : Gen Op Reply Exn Ev α)
    (plan : List Bool)
    (world : World) :
    Runs machine program world
      (program.record machine plan world).1
      (program.record machine plan world).2.1
      (program.record machine plan world).2.2 := by
  induction program generalizing plan world with
  | ret result => exact .ret result world
  | call op next ih =>
      rw [record]
      split
      · rename_i exn _ hFault
        exact .fault hFault (ih _ _ _)
      · exact .executed rfl (ih _ _ _)
  | yield event next ih =>
      rw [record]
      split
      · exact .closed (ih _ _ _)
      · exact .taken (ih _ _ _)

end Gen

------------------------------------------------------------
-- Shared Worlds
------------------------------------------------------------

/-
  A machine whose world others change at will: every call is
  executed in the next one of given worlds.
-/
def Machine.shared
    (machine : Machine Op Reply Exn World) :
    Machine Op Reply Exn (Nat → World) where
  exec := fun op worlds =>
    ((machine.exec op (worlds 0)).1, fun n => worlds (n + 1))
  fault := machine.fault
  stop := machine.stop

/- A program that runs alone also runs in shared worlds. -/
theorem Gen.runs_shared
    {machine : Machine Op Reply Exn World}
    {program : Gen Op Reply Exn Ev α}
    {world last : World}
    {moments : List (Moment Op Reply Exn Ev)}
    {result : Except Exn α}
    (hRuns :
      Gen.Runs machine program world moments result last) :
    ∃ worlds after,
      Gen.Runs machine.shared program worlds moments result
        after := by
  induction hRuns with
  | ret result world =>
      exact ⟨fun _ => world, _, .ret result _⟩
  | @executed op next world reply middle _ _ _ hExec _ ih =>
      rcases ih with ⟨worlds, after, hNext⟩
      refine
        ⟨fun n => Nat.casesOn n world worlds, after,
          .executed ?_ hNext⟩
      change ((machine.exec op world).1, worlds) = _
      rw [hExec]
  | fault hFault _ ih =>
      rcases ih with ⟨worlds, after, hNext⟩
      exact ⟨worlds, after, .fault hFault hNext⟩
  | taken _ ih =>
      rcases ih with ⟨worlds, after, hNext⟩
      exact ⟨worlds, after, .taken hNext⟩
  | closed _ ih =>
      rcases ih with ⟨worlds, after, hNext⟩
      exact ⟨worlds, after, .closed hNext⟩

/- The replies of a shared machine are of its worlds. -/
theorem Gen.reply_of_shared
    {machine : Machine Op Reply Exn World}
    {program : Gen Op Reply Exn Ev α}
    {worlds last : Nat → World}
    {moments : List (Moment Op Reply Exn Ev)}
    {result : Except Exn α}
    {op : Op}
    {value : Reply op}
    (hRuns :
      Gen.Runs machine.shared program worlds moments result
        last)
    (hReply : .called op (.ok value) ∈ moments) :
    ∃ n, (machine.exec op (worlds n)).1 = .ok value := by
  induction hRuns with
  | ret result worlds => cases hReply
  | executed hExec _ ih =>
      rcases List.mem_cons.mp hReply with hEq | hMem
      · cases hEq
        exact ⟨0, congrArg Prod.fst hExec⟩
      · rcases ih hMem with ⟨n, hLater⟩
        cases congrArg Prod.snd hExec
        exact ⟨n + 1, hLater⟩
  | fault hFault _ ih =>
      rcases List.mem_cons.mp hReply with hEq | hMem
      · cases hEq
      · exact ih hMem
  | taken _ ih =>
      rcases List.mem_cons.mp hReply with hEq | hMem
      · cases hEq
      · exact ih hMem
  | closed _ ih =>
      rcases List.mem_cons.mp hReply with hEq | hMem
      · cases hEq
      · exact ih hMem

end Library

end LegalAgent
