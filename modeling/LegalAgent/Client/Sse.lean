import LegalAgent.Store.EventLog
import LegalAgent.Library.Transition

/-
  The event sources of the browser client (`sse.ts`).

  `send` and every `approve` open an event source of the run.
  The server replays the log of the run to each source and
  then closes it.  The sources of a client share the largest
  number that it has applied; whether a source is done or has
  seen an answer is its own.

  Key definitions include:
    * `Client.Source`
    * `Client.State`
    * `Client.listen`
    * `Client.onerror`
    * `Client.step`
-/

------------------------------------------------------------
-- Sources
------------------------------------------------------------

namespace LegalAgent

namespace Client

/- What an iterable yields: a logged event or a made-up error. -/
inductive Item where
  | event (event : RunEvent)
  | lost (seq : Int)

/-
  An event source with the queue of its iterable and what the
  iterable has yielded; `next` events have been delivered.
-/
structure Source where
  next : Nat
  done : Bool
  terminated : Bool
  queue : List Item
  yielded : List Item

/- A source that was just opened. -/
def Source.opened : Source where
  next := 0
  done := false
  terminated := false
  queue := []
  yielded := []

/- The events behind which a closed source is no error. -/
def settles : EventName → Bool
| .messageCompleted | .runDone | .error => true
| _ => false

/-
  The listener of the named events; numbers that the client
  has applied are skipped.
-/
def listen
    (maxSeq : Int)
    (source : Source)
    (event : RunEvent) :
    Source × Int :=
  if (event.seq : Int) ≤ maxSeq then
    (source, maxSeq)
  else
    ({ source with
        terminated := source.terminated || settles event.name
        queue := source.queue ++ [.event event]
        done := source.done || event.name.terminal },
      event.seq)

/- The handler of a closed connection. -/
def onerror (maxSeq : Int) (source : Source) : Source :=
  { source with
    queue :=
      if source.terminated then source.queue
      else source.queue ++ [.lost (maxSeq + 1)]
    done := true }

------------------------------------------------------------
-- Clients
------------------------------------------------------------

/-
  The sources of a client, its largest applied number, and
  the deliveries so far: the source and the position in the
  log of each.
-/
structure State where
  sources : List Source
  maxSeq : Int
  deliveries : List (Nat × Nat)

/- A client once `send` has opened its source. -/
def State.sent (maxSeq : Int) : State where
  sources := [.opened]
  maxSeq := maxSeq
  deliveries := []

/-
  What happens next: an approval opens a source, the server
  delivers the next event to a source or closes it, or the
  loop of `streamRun` yields an item.
-/
inductive Action where
  | approve
  | deliver (index : Nat)
  | close (index : Nat)
  | take (index : Nat)

/- Deliver an event; one named `error` is also an error event. -/
def State.deliver
    (state : State)
    (index : Nat)
    (source : Source)
    (event : RunEvent) :
    State :=
  let (heard, maxSeq) := listen state.maxSeq source event
  let heard :=
    if event.name = .error then onerror maxSeq heard else heard
  { sources :=
      state.sources.set index { heard with next := source.next + 1 }
    maxSeq := maxSeq
    deliveries := state.deliveries ++ [(index, source.next)] }

/- The client after an action, if the action can happen. -/
def step
    (log : List RunEvent)
    (state : State) :
    Action → Option State
| .approve =>
    some { state with sources := state.sources ++ [.opened] }
| .deliver index =>
    match state.sources[index]? with
    | none => none
    | some source =>
        if source.done then
          none
        else
          (log[source.next]?).map (state.deliver index source)
| .close index =>
    match state.sources[index]? with
    | none => none
    | some source =>
        if source.done || decide (source.next < log.length) then
          none
        else
          some
            { state with
              sources :=
                state.sources.set index
                  (onerror state.maxSeq source) }
| .take index =>
    match state.sources[index]? with
    | none => none
    | some source =>
        match source.queue with
        | [] => none
        | item :: queue =>
            some
              { state with
                sources :=
                  state.sources.set index
                    { source with
                      queue := queue
                      yielded := source.yielded ++ [item] } }

/- Whether every iterable has returned. -/
def State.returned (state : State) : Bool :=
  state.sources.all fun source =>
    source.done && source.queue.isEmpty

/- What the iterables have yielded together. -/
def State.yielded (state : State) : List Item :=
  state.sources.flatMap Source.yielded

/- The source that an event of the log reached first. -/
def State.first? (state : State) (position : Nat) : Option Nat :=
  (state.deliveries.find? fun delivery =>
    delivery.2 == position).map Prod.fst

end Client

end LegalAgent
