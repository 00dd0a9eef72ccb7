import LegalAgent.System.Kinship

/-
  The deletion of a thread is a complete and confined cascade.

  Beside the requests of the clients, threads are renamed,
  summarized and deleted, and the graph saves its state.  In
  every store reached so, the deletion of a thread violates no
  foreign key on its way, it removes what is keyed by the
  thread and nothing else, and when one of its statements
  fails it changes nothing.

  Key definitions include:
    * `Service`
    * `ServiceAction`
    * `Service.step`

  Key theorems include:
    * `sound_of_service`
    * `delete_thread_cascades`
-/

------------------------------------------------------------
-- Services
------------------------------------------------------------

namespace LegalAgent

open Library

variable {Saved : Type}

/- The server with the tables that its requests do not read. -/
structure Service (Saved : Type) where
  system : System
  tables : Tables Saved

/- All tables of a service. -/
def Service.store (service : Service Saved) : Store Saved where
  db := service.system.world.db
  tables := service.tables

/- Replace all tables. -/
def Service.setStore
    (service : Service Saved)
    (store : Store Saved) :
    Service Saved where
  system := service.system.setDb store.db
  tables := store.tables

/- The service before the first request. -/
def Service.initial : Service Saved where
  system := .initial
  tables := ⟨[], [], [], []⟩

/- The tables in which the graph saves its state. -/
inductive SavedTable where
  | checkpointWrites
  | checkpointBlobs
  | checkpoints

/- What happens to a service. -/
inductive ServiceAction (Saved : Type) where
  | act (action : Action)
  | renameThread (threadId : ThreadId) (title : Text)
  | addSummary
      (threadId : ThreadId)
      (coversFromSeq coversToSeq : Option Nat)
      (contentMd : Text)
  | save
      (table : SavedTable)
      (threadId : ThreadId)
      (saved : List Saved)
  | deleteThread (threadId : ThreadId) (fault : Option Nat)

/- Change the title of a thread. -/
def Store.renameThread
    (threadId : ThreadId)
    (title : Text)
    (store : Store Saved) :
    Store Saved :=
  store.withDb
    { store.db with
      threads :=
        store.db.threads.update
          (fun other _ => other == threadId)
          fun thread => { thread with title := some title } }

/- A summary of a thread that does not exist is refused. -/
def Store.addSummary
    (threadId : ThreadId)
    (coversFromSeq coversToSeq : Option Nat)
    (contentMd : Text)
    (store : Store Saved) :
    Except Exn Nat × Store Saved :=
  if (store.db.threads.get? threadId).isSome then
    (.ok store.db.nextId,
      { db := store.db.drawId
        tables :=
          { store.tables with
            summaries :=
              store.tables.summaries ++
                [{ id := store.db.nextId
                   threadId := threadId
                   coversFromSeq := coversFromSeq
                   coversToSeq := coversToSeq
                   contentMd := contentMd }] } })
  else
    (.error .database, store)

/- Replace the rows of a thread in a table of the graph. -/
def replaceSaved
    (threadId : ThreadId)
    (saved : List Saved)
    (rows : List (ThreadId × Saved)) :
    List (ThreadId × Saved) :=
  (rows.filter fun row => row.1 != threadId) ++
    saved.map fun one => (threadId, one)

/- The tables once the graph has saved its state. -/
def Tables.save
    (threadId : ThreadId)
    (saved : List Saved)
    (tables : Tables Saved) :
    SavedTable → Tables Saved
| .checkpointWrites =>
    { tables with
      checkpointWrites :=
        replaceSaved threadId saved tables.checkpointWrites }
| .checkpointBlobs =>
    { tables with
      checkpointBlobs :=
        replaceSaved threadId saved tables.checkpointBlobs }
| .checkpoints =>
    { tables with
      checkpoints :=
        replaceSaved threadId saved tables.checkpoints }

/- The service after an action, if the action can happen. -/
def Service.step
    (registry : Registry)
    (service : Service Saved) :
    ServiceAction Saved → Option (Service Saved)
| .act action =>
    (service.system.step registry action).map fun system =>
      { service with system := system }
| .renameThread threadId title =>
    some
      (service.setStore
        (service.store.renameThread threadId title))
| .addSummary threadId coversFromSeq coversToSeq contentMd =>
    some
      (service.setStore
        (service.store.addSummary threadId coversFromSeq
          coversToSeq contentMd).2)
| .save table threadId saved =>
    some
      { service with
        tables := service.tables.save threadId saved table }
| .deleteThread threadId fault =>
    some
      (service.setStore
        (service.store.deleteThread threadId fault).2)

------------------------------------------------------------
-- Preservation
------------------------------------------------------------

/- A deletion removes the thread or changes nothing. -/
theorem db_deleteThread
    (store : Store Saved)
    (threadId : ThreadId)
    (fault : Option Nat) :
    (store.deleteThread threadId fault).2.db =
        store.db.withoutThread threadId ∨
      (store.deleteThread threadId fault).2 = store := by
  unfold Store.deleteThread
  split
  · rename_i next hDone
    left
    rw [transact_of_true hDone]
    rfl
  · rename_i next hFailed
    right
    exact transact_of_false hFailed

/- Every action keeps the system of a service sound. -/
theorem sound_serviceStep
    {registry : Registry}
    {service next : Service Saved}
    {action : ServiceAction Saved}
    (hSound : service.system.Sound)
    (hStep : service.step registry action = some next) :
    next.system.Sound := by
  have hSame :
      ∀ taskId task,
        service.system.tasks taskId = some task →
          service.system.tasks taskId = some task :=
    fun _ _ hTask => hTask
  cases action with
  | act action =>
      simp only [Service.step, Option.map_eq_some_iff] at hStep
      rcases hStep with ⟨system, hSystem, rfl⟩
      exact sound_systemStep hSound hSystem
  | renameThread threadId title =>
      cases hStep
      exact
        sound_of_same hSound hSame (Nat.le_refl _)
          (fun _ _ => Iff.rfl) rfl
  | addSummary threadId coversFromSeq coversToSeq contentMd =>
      cases hStep
      simp only [Service.setStore, Store.addSummary]
      split
      · exact
          sound_of_same hSound hSame (Nat.le_succ _)
            (fun _ _ => Iff.rfl) rfl
      · exact
          sound_of_same hSound hSame (Nat.le_refl _)
            (fun _ _ => Iff.rfl) rfl
  | save table threadId saved =>
      cases hStep
      exact hSound
  | deleteThread threadId fault =>
      cases hStep
      have hDb :=
        db_deleteThread service.store threadId fault
      simp only [Service.setStore]
      rcases hDb with hGone | hKept
      · rw [hGone]
        exact
          sound_of_evolves hSound hSame
            (evolves_withoutThread threadId)
            (apart_withoutThread hSound.apart threadId)
      · rw [hKept]
        exact hSound

/- The system of a reachable service is sound. -/
theorem sound_of_service
    {registry : Registry}
    {allowed : Service Saved → ServiceAction Saved → Prop}
    {service : Service Saved}
    (hReachable :
      Execution (Service.step registry) allowed .initial
        service) :
    service.system.Sound := by
  induction hReachable with
  | refl => exact sound_initial
  | tail _ hNext ih =>
      rcases hNext with ⟨action, -, hStep⟩
      exact sound_serviceStep ih hStep

------------------------------------------------------------
-- Deletion
------------------------------------------------------------

/- A deletion that fails leaves the store. -/
theorem deleteThread_of_error
    {store store' : Store Saved}
    {threadId : ThreadId}
    {fault : Option Nat}
    {exn : Exn}
    (hFailed :
      store.deleteThread threadId fault = (.error exn, store')) :
    store' = store := by
  unfold Store.deleteThread at hFailed
  split at hFailed
  · cases hFailed
  · rename_i next hTransact
    cases hFailed
    exact transact_of_false hTransact

/- A deletion without a fault executes its statements. -/
theorem deleteThread_of_keys
    {store : Store Saved}
    {threadId : ThreadId}
    (hKeys : ForeignKeys store)
    (hKin : store.db.Kin)
    (hThread :
      (store.db.threads.get? threadId).isSome = true) :
    store.deleteThread threadId none =
      (.ok true, behind (cascade threadId) 10 store) := by
  have hDone :
      transact (fun store => decide (ForeignKeys store))
          (cascade threadId) none store =
        (true, behind (cascade threadId) 10 store) :=
    transact_of_valid fun number _ =>
      decide_eq_true (foreignKeys_behind hKeys hKin number)
  rw [Store.deleteThread, hDone, hThread]

/-
  In every reachable store that satisfies the foreign keys,
  the deletion of a thread violates none of them behind any
  number of its statements.  Without a fault it removes all
  that is keyed by the thread and leaves the rest, and when
  one of its ten statements fails it leaves the whole store.
-/
theorem delete_thread_cascades
    {registry : Registry}
    {allowed : Service Saved → ServiceAction Saved → Prop}
    {service : Service Saved}
    {threadId : ThreadId}
    (hReachable :
      Execution (Service.step registry) allowed .initial
        service)
    (hKeys : ForeignKeys service.store)
    (hThread :
      (service.store.db.threads.get? threadId).isSome =
        true) :
    (∀ number,
        ForeignKeys
          (behind (cascade threadId) number service.store)) ∧
      (∃ store',
          service.store.deleteThread threadId none =
              (.ok true, store') ∧
            Cascaded service.store store' threadId ∧
              Spared service.store store' threadId) ∧
        (∀ number < 10,
            service.store.deleteThread threadId
                (some number) =
              (.error .database, service.store)) ∧
          ∀ fault exn store',
            service.store.deleteThread threadId fault =
                (.error exn, store') →
              store' = service.store := by
  have hKin : service.store.db.Kin :=
    kin_of_apart (sound_of_service hReachable).apart
  refine
    ⟨foreignKeys_behind hKeys hKin,
      ⟨_, deleteThread_of_keys hKeys hKin hThread,
        cascaded_behind, spared_behind hKin⟩,
      ?_, ?_⟩
  · intro number hNumber
    rw [Store.deleteThread, transact_of_fault hNumber]
  · intro fault exn store' hFailed
    exact deleteThread_of_error hFailed

/- A thread with a question and a fork at the question. -/
def askedFork : List Action :=
  [.request 0 0 (.createThread none)] ++ turns 0 1 ++
    [.request 1 0 (.start 0 [] none [])] ++ turns 1 6 ++
    [.request 2 0 (.fork 0 2)] ++ turns 2 3

/- The thread is renamed and has a summary and a state. -/
def forkedRun : List (ServiceAction Nat) :=
  askedFork.map ServiceAction.act ++
    [.addSummary 0 (some 1) (some 2) [],
      .save .checkpoints 0 [7], .renameThread 0 []]

/- The thread of the run can be deleted, beside its fork. -/
theorem delete_thread_cascades_forked :
    ∃ service : Service Nat,
      execute (Service.step .single) forkedRun .initial =
          some service ∧
        ∃ store',
          service.store.deleteThread 0 none =
              (.ok true, store') ∧
            Cascaded service.store store' 0 ∧
              Spared service.store store' 0 := by
  rcases
      exists_of_execute
        (show
          (execute (Service.step .single) forkedRun .initial).map
              (fun service : Service Nat =>
                (decide (ForeignKeys service.store),
                  (service.store.db.threads.get? 0).isSome)) =
            some (true, true) by
          decide +kernel) with
    ⟨service, hService, hView⟩
  have hKeys : ForeignKeys service.store :=
    of_decide_eq_true (Prod.mk.inj hView).1
  exact
    ⟨service, hService,
      (delete_thread_cascades (execution_of_execute hService)
        hKeys (Prod.mk.inj hView).2).2.1⟩

end LegalAgent
