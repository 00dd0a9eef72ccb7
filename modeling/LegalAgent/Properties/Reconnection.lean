import LegalAgent.Store.EventLog
import LegalAgent.System.WellFormed

/-
  Clients that reconnect to the stream of a run.

  A client whose connection is cut opens the next stream
  behind the last event that it received.  Once the log of the
  run has stopped growing, the events of all its connections
  together are the log.

  Key definitions include:
    * `Visit`
    * `receive`

  Key theorems include:
    * `run_stream`
    * `reconnection_lossless`
-/

------------------------------------------------------------
-- Keys
------------------------------------------------------------

namespace LegalAgent

open Library

variable {registry : Registry}
variable {allowed : System → Action → Prop}

/- Every call keeps the primary key of the log. -/
theorem keyed_of_exec
    {inst : InstanceId}
    {op : Op}
    {world world' : World}
    {value : op.Reply}
    (hExec : exec inst op world = (.ok value, world'))
    (hKeyed : world.db.KeyedEvents) :
    world'.db.KeyedEvents := by
  cases op with
  | appendRunEvent threadId runId event =>
      cases hExec
      exact keyed_appendEvent hKeyed threadId runId event
  | _ =>
      unfold Db.KeyedEvents
      rw [(frames_of_exec hExec).log rfl]
      exact hKeyed

/- Every step keeps the primary key of the log. -/
theorem preserves_keyed :
    Preserves registry allowed fun system =>
      system.world.db.KeyedEvents where
  request := by
    intro system taskId inst request _ _ _ hKeyed
    exact hKeyed
  call := by
    intro system taskId fault task op reply world' next hCall _
      hKeyed
    cases hCall.executes with
    | done hExec => exact keyed_of_exec hExec hKeyed
    | refused => exact hKeyed
    | fault => exact hKeyed
  sent := by
    intro system taskId task event next _ _ _ _ hKeyed
    exact hKeyed
  advance := by
    intro system seconds _ _ hKeyed
    exact hKeyed
  heartbeat := by
    intro system inst _ _ hKeyed
    exact hKeyed
  sweep := by
    intro system action selects _ _ _ hKeyed
    exact hKeyed
  collect := by
    intro system retention _ _ hKeyed
    exact List.Pairwise.sublist List.filter_sublist hKeyed
  crash := by
    intro system inst _ _ hKeyed
    exact hKeyed

/- The events of a log have different numbers. -/
theorem seqs_of_reachable
    {system : System}
    (hReachable : Reachable registry allowed system)
    (runId : RunId) :
    (system.world.db.runLog runId).Pairwise fun event other =>
      event.seq ≠ other.seq :=
  seqs_of_keyed
    (preserved_of_reachable preserves_keyed List.Pairwise.nil
      hReachable)
    runId

------------------------------------------------------------
-- Sessions
------------------------------------------------------------

section Sessions

variable (inst : InstanceId) {world : World} {runId : RunId}

/- A page is sent up to its first terminal event. -/
theorem run_sendPage
    (last : Option Nat)
    (events : List RunEvent) :
    (RunManager.sendPage ⟨last, false⟩ events).run (exec inst)
        world =
      (.ok
          ⟨(lastEventId (throughTerminal events)).or last,
            events.any fun event => event.name.terminal⟩,
        world, throughTerminal events) := by
  induction events generalizing last with
  | nil => rfl
  | cons event events ih =>
      cases hTerminal : event.name.terminal with
      | true =>
          simp only [throughTerminal, hTerminal, if_true,
            List.any_cons, Bool.true_or]
          apply Gen.run_emit
          rw [if_pos hTerminal]
          rfl
      | false =>
          simp only [throughTerminal, hTerminal, List.any_cons,
            Bool.false_or, if_neg Bool.false_ne_true]
          apply Gen.run_emit
          rw [if_neg (by rw [hTerminal]; exact Bool.false_ne_true),
            ih, ← List.singleton_append (l := throughTerminal _),
            lastEventId_append, Option.or_assoc]
          rfl

/- A poll that reads a terminal event ends the stream. -/
theorem run_stream_terminal
    (polls : Nat)
    {cursor : Option Nat}
    {rows : List RunEvent}
    (hPage :
      getRunEventsAfter runId cursor world.db =
        .ok (rows, world.db))
    (hTerminal :
      (rows.any fun event => event.name.terminal) = true) :
    (RunManager.stream runId (polls + 1) cursor).run (exec inst)
        world =
      (.ok (), world, throughTerminal rows) := by
  have hReply :
      exec inst (.getRunEventsAfter runId cursor) world =
        (.ok rows, world) := by
    simp only [exec, World.onDb, Statement.commit, hPage]
  rw [RunManager.stream, Gen.run_perform_ok hReply]
  rw [← List.append_nil (throughTerminal rows)]
  apply Gen.run_bind_ok (run_sendPage inst cursor rows)
  rw [hTerminal]
  rfl

/- A poll that reads other events goes on behind them. -/
theorem run_stream_more
    (polls : Nat)
    {cursor : Option Nat}
    {rows : List RunEvent}
    (hPage :
      getRunEventsAfter runId cursor world.db =
        .ok (rows, world.db))
    (hRows : rows ≠ [])
    (hNone : ∀ event ∈ rows, event.name.terminal = false)
    {result : Except Exn Unit}
    {world' : World}
    {more : List RunEvent}
    (hMore :
      (RunManager.stream runId polls
          ((lastEventId rows).or cursor)).run (exec inst) world =
        (result, world', more)) :
    (RunManager.stream runId (polls + 1) cursor).run (exec inst)
        world =
      (result, world', rows ++ more) := by
  have hReply :
      exec inst (.getRunEventsAfter runId cursor) world =
        (.ok rows, world) := by
    simp only [exec, World.onDb, Statement.commit, hPage]
  have hSent :
      (RunManager.sendPage ⟨cursor, false⟩ rows).run (exec inst)
          world = _ :=
    run_sendPage inst cursor rows
  rw [throughTerminal_of_none hNone] at hSent
  rw [RunManager.stream, Gen.run_perform_ok hReply]
  apply Gen.run_bind_ok hSent
  have hAny :
      (rows.any fun event => event.name.terminal) = false := by
    rw [List.any_eq_false]
    intro event hMem
    simp [hNone event hMem]
  have hEmpty : rows.isEmpty = false := by
    simp [hRows]
  rw [hAny, hEmpty]
  exact hMore

/-
  A session behind a prefix of the log sends a beginning of
  the rest, and all of it when it polls often enough.
-/
theorem run_stream
    (polls : Nat)
    (hSeqs :
      (world.db.runLog runId).Pairwise fun event other =>
        event.seq ≠ other.seq)
    {received rest : List RunEvent}
    (hReplay : world.db.replay runId = received ++ rest)
    (hEnds : EndsOnce rest) :
    ∃ result events,
      (RunManager.stream runId polls
          (lastEventId received)).run (exec inst) world =
        (result, world, events) ∧
        events <+: rest ∧
          (rest.length ≤ polls →
            result = .ok () ∧ events = rest) := by
  have hNonempty : rest ≠ [] := by
    rcases hEnds with ⟨before, last, rfl, -, -⟩
    simp
  induction polls generalizing received rest with
  | zero =>
      refine ⟨_, _, rfl, List.nil_prefix, ?_⟩
      intro hLe
      exact
        absurd (List.length_eq_zero_iff.mp (Nat.le_zero.mp hLe))
          hNonempty
  | succ polls ih =>
      have hPage := page_of_prefix hSeqs hReplay
      have hSplit := List.take_append_drop pageLimit rest
      by_cases hTerminal :
          ((rest.take pageLimit).any fun event =>
            event.name.terminal) = true
      · have hAll : rest.take pageLimit = rest := by
          rcases List.any_eq_true.mp hTerminal with
            ⟨event, hMem, hName⟩
          have hNil : rest.drop pageLimit = [] := by
            rw [← hSplit] at hEnds
            exact eq_nil_of_endsOnce hEnds hMem hName
          rwa [hNil, List.append_nil] at hSplit
        have hRun :=
          run_stream_terminal inst polls hPage
            hTerminal
        rw [hAll, throughTerminal_of_endsOnce hEnds] at hRun
        exact
          ⟨_, _, hRun, List.prefix_rfl, fun _ => ⟨rfl, rfl⟩⟩
      · have hNone :
            ∀ event ∈ rest.take pageLimit,
              event.name.terminal = false := by
          intro event hMem
          by_contra hName
          rw [Bool.not_eq_false] at hName
          exact
            hTerminal (List.any_eq_true.mpr ⟨event, hMem, hName⟩)
        have hRows : rest.take pageLimit ≠ [] := by
          rw [Ne, List.take_eq_nil_iff]
          simp [pageLimit, hNonempty]
        have hEnds' : EndsOnce (rest.drop pageLimit) := by
          rw [← hSplit] at hEnds
          exact endsOnce_of_append hEnds hNone
        have hReplay' :
            world.db.replay runId =
              (received ++ rest.take pageLimit) ++
                rest.drop pageLimit := by
          rw [List.append_assoc, hSplit, hReplay]
        have hNonempty' : rest.drop pageLimit ≠ [] := by
          rcases hEnds' with ⟨before, last, hEq, -, -⟩
          rw [hEq]
          simp
        rcases ih hReplay' hEnds' hNonempty' with
          ⟨result, events, hRun, hPrefix, hDone⟩
        rw [lastEventId_append] at hRun
        refine
          ⟨_, _,
            run_stream_more inst polls hPage hRows hNone hRun,
            ?_, ?_⟩
        · nth_rewrite 2 [← hSplit]
          exact (List.prefix_append_right_inj _).mpr hPrefix
        · intro hLe
          have hShort : (rest.drop pageLimit).length ≤ polls := by
            rw [List.length_drop]
            unfold pageLimit
            omega
          rcases hDone hShort with ⟨rfl, rfl⟩
          exact ⟨rfl, hSplit⟩

end Sessions

------------------------------------------------------------
-- Connections
------------------------------------------------------------

/- A connection that is cut after some events. -/
structure Visit where
  inst : InstanceId
  world : World
  polls : Nat
  cut : Nat

/- The events that a client receives over a connection. -/
def Visit.events
    (visit : Visit)
    (runId : RunId)
    (cursor : Option Nat) :
    List RunEvent :=
  ((RunManager.stream runId visit.polls cursor).run
      (exec visit.inst) visit.world).2.2.take visit.cut

/-
  The events over several connections, each of which begins
  behind the last event that was received.
-/
def receive (runId : RunId) :
    List Visit → List RunEvent → List RunEvent
| [], received => received
| visit :: visits, received =>
    receive runId visits
      (received ++
        visit.events runId (lastEventId received))

/- More connections only add events. -/
theorem prefix_receive
    (runId : RunId)
    (visits : List Visit)
    (received : List RunEvent) :
    received <+: receive runId visits received := by
  induction visits generalizing received with
  | nil => exact List.prefix_rfl
  | cons visit visits ih =>
      exact (List.prefix_append _ _).trans (ih _)

/-
  As long as a client has not received the terminal event of a
  log, it has received a beginning of the log.
-/
theorem receive_prefix
    {runId : RunId}
    {log : List RunEvent}
    (hSeqs :
      log.Pairwise fun event other => event.seq ≠ other.seq)
    (hEnds : EndsOnce (inOrder log))
    (visits : List Visit)
    (hStopped :
      ∀ visit ∈ visits, visit.world.db.runLog runId = log)
    {received rest : List RunEvent}
    (hReceived : inOrder log = received ++ rest)
    (hCut :
      ∀ event ∈ receive runId visits received,
        event.name.terminal = false) :
    receive runId visits received <+: inOrder log := by
  induction visits generalizing received rest with
  | nil => exact ⟨rest, hReceived.symm⟩
  | cons visit visits ih =>
      rw [List.forall_mem_cons] at hStopped
      have hNone :
          ∀ event ∈ received, event.name.terminal = false := by
        intro event hMem
        exact
          hCut event ((prefix_receive _ _ _).subset hMem)
      have hRest : EndsOnce rest := by
        rw [hReceived] at hEnds
        exact endsOnce_of_append hEnds hNone
      have hReplay :
          visit.world.db.replay runId = received ++ rest := by
        rw [Db.replay, hStopped.1, hReceived]
      rcases
          run_stream visit.inst visit.polls
            (hStopped.1.symm ▸ hSeqs) hReplay hRest with
        ⟨result, events, hRun, hPrefix, -⟩
      have hEvents :
          visit.events runId (lastEventId received) =
            events.take visit.cut := by
        rw [Visit.events, hRun]
      rcases
          (List.take_prefix visit.cut events).trans hPrefix with
        ⟨behind, hBehind⟩
      have hMore :
          inOrder log =
            (received ++
              visit.events runId (lastEventId received)) ++
                behind := by
        rw [hEvents, List.append_assoc, hBehind, hReceived]
      exact ih hStopped.2 hMore hCut

/-
  Once the log of a run has stopped growing and its last event
  is its only terminal one, a client that was cut any number
  of times before the terminal event receives exactly the rest
  of the log in a session that polls often enough, and the
  session ends.
-/
theorem reconnection_lossless
    {system : System}
    (hReachable : Reachable registry allowed system)
    {runId : RunId}
    (hEnds : EndsOnce (system.world.db.replay runId))
    (visits : List Visit)
    (hStopped :
      ∀ visit ∈ visits,
        visit.world.db.runLog runId =
          system.world.db.runLog runId)
    (hCut :
      ∀ event ∈ receive runId visits [],
        event.name.terminal = false)
    (inst : InstanceId)
    {world : World}
    (hWorld :
      world.db.runLog runId = system.world.db.runLog runId)
    {polls : Nat}
    (hPolls : (system.world.db.replay runId).length ≤ polls) :
    ∃ events,
      (RunManager.stream runId polls
          (lastEventId (receive runId visits []))).run
            (exec inst) world =
        (.ok (), world, events) ∧
        receive runId visits [] ++ events =
          system.world.db.replay runId ∧
          (system.world.db.replay runId).Pairwise
            fun event other => event.seq < other.seq := by
  have hSeqs := seqs_of_reachable hReachable runId
  rcases
      receive_prefix hSeqs hEnds visits hStopped
        (List.nil_append _).symm hCut with
    ⟨rest, hRest⟩
  have hReplay :
      world.db.replay runId =
        receive runId visits [] ++ rest := by
    rw [Db.replay, hWorld, hRest]
  have hLast : EndsOnce rest := by
    rw [Db.replay, ← hRest] at hEnds
    exact endsOnce_of_append hEnds hCut
  have hLength : rest.length ≤ polls := by
    refine Nat.le_trans ?_ hPolls
    rw [Db.replay, ← hRest, List.length_append]
    exact Nat.le_add_left _ _
  rcases
      run_stream inst polls (hWorld.symm ▸ hSeqs)
        hReplay hLast with
    ⟨result, events, hRun, -, hDone⟩
  rcases hDone hLength with ⟨rfl, rfl⟩
  exact ⟨_, hRun, hRest, sorted_inOrder hSeqs⟩

/- A run that answers at once. -/
def promptRun : List Action :=
  [.request 0 0 (.createThread none)] ++ turns 0 1 ++
    [.request 1 0
      (.start 0 [] none [.agent (.str []) []])] ++
    turns 1 18

/- A client that is cut after the first event of `promptRun`. -/
theorem reconnection_lossless_prompt :
    ∃ system events,
      execute (System.step .single) promptRun .initial =
          some system ∧
        (RunManager.stream 1 3
            (lastEventId
              (receive 1 [⟨0, system.world, 2, 1⟩] []))).run
              (exec 1) system.world =
          (.ok (), system.world, events) ∧
          receive 1 [⟨0, system.world, 2, 1⟩] [] ++ events =
            system.world.db.replay 1 := by
  rcases
      exists_of_execute
        (show
          (execute (System.step .single) promptRun
              .initial).map (fun system =>
                (decide (EndsOnce (system.world.db.replay 1)),
                  (receive 1 [⟨0, system.world, 2, 1⟩] []).all
                    (fun event => !event.name.terminal),
                  (system.world.db.replay 1).length)) =
            some (true, true, 3) by
          decide +kernel) with
    ⟨system, hSystem, hView⟩
  simp only [Prod.mk.injEq, decide_eq_true_eq, List.all_eq_true,
    Bool.not_eq_true'] at hView
  rcases hView with ⟨hEnds, hCut, hLength⟩
  have hReachable : Reachable .single (fun _ _ => True) system :=
    execution_of_execute hSystem
  rcases
      reconnection_lossless hReachable hEnds
        [⟨0, system.world, 2, 1⟩]
        (by
          intro visit hMem
          rw [List.mem_singleton.mp hMem])
        hCut 1 rfl (Nat.le_of_eq hLength) with
    ⟨events, hRun, hAll, -⟩
  exact ⟨system, events, hSystem, hRun, hAll⟩

end LegalAgent
