import LegalAgent.Library.EventStream
import LegalAgent.Text.Json

/-
  Events on the wire.

  `sse_wire` of `run_service.py` writes an event as a frame of
  an event stream; the event source of the browser reads the
  frames back.  `json.dumps` and `JSON.parse` are parameters.

  Key definitions include:
    * `WireEvent`
    * `sseWire`
    * `readStream`

  Key theorems include:
    * `oneLine_cleanName`
    * `readStream_sseWire`
-/

------------------------------------------------------------
-- The Writer
------------------------------------------------------------

namespace LegalAgent

open Library

namespace Client

/- An event to be written (`RunEvent`), with any name and data. -/
structure WireEvent where
  event : Text
  data : List (Text × Json)
  seq : Int

/- The name of an event without ends of lines. -/
def cleanName (name : Text) : Text :=
  (name.filter fun c => decide (c ≠ '\n')).filter fun c =>
    decide (c ≠ '\r')

/- The data of an event with its number. -/
def WireEvent.payload (ev : WireEvent) : Json :=
  .obj (setItem "seq".toList (.num (intText ev.seq)) ev.data)

/- An event as it is sent (`sse_wire`). -/
def sseWire (dumps : Json → Text) (ev : WireEvent) : Text :=
  "id: ".toList ++ intText ev.seq ++ "\nevent: ".toList ++
    cleanName ev.event ++ "\ndata: ".toList ++
      dumps ev.payload ++ "\n\n".toList

------------------------------------------------------------
-- The Reader
------------------------------------------------------------

/- What a listener of the event source sees of an event. -/
structure Received where
  id : Text
  event : Text
  data : Option Json

/- The events of a stream, with their data parsed. -/
def readStream
    (loads : Text → Option Json)
    (stream : Text) :
    List Received :=
  (EventStream.parse stream).map fun dispatched =>
    { id := dispatched.id
      event := dispatched.event
      data := loads dispatched.data }

/- The name that is sent is one line. -/
theorem oneLine_cleanName (name : Text) :
    EventStream.OneLine (cleanName name) := by
  intro c hMem
  rcases List.mem_filter.mp hMem with ⟨hRest, hReturn⟩
  have hFeed := (List.mem_filter.mp hRest).2
  exact ⟨of_decide_eq_true hReturn, of_decide_eq_true hFeed⟩

/- The id that is sent is one line and has no NUL. -/
theorem clean_intText (n : Int) :
    EventStream.OneLine (intText n) ∧ '\x00' ∉ intText n := by
  constructor
  · intro c hMem
    rcases isDigit_of_mem_intText hMem with hDigit | rfl
    · constructor <;> rintro rfl <;> exact absurd hDigit (by decide)
    · decide
  · intro hMem
    rcases isDigit_of_mem_intText hMem with hDigit | hSign
    · exact absurd hDigit (by decide)
    · exact absurd hSign (by decide)

/-
  The stream of any events is read back as these events: each
  has its number as id, its name without ends of lines and its
  data with the number.  No event adds, splits or renames
  another, whatever its name and data contain.
-/
theorem readStream_sseWire
    (dumps : Json → Text)
    (loads : Text → Option Json)
    (events : List WireEvent)
    (hNames : ∀ ev ∈ events, cleanName ev.event ≠ [])
    (hOneLine : ∀ ev ∈ events,
      EventStream.OneLine (dumps ev.payload))
    (hLoads : ∀ ev ∈ events,
      loads (dumps ev.payload) = some ev.payload) :
    readStream loads (events.flatMap (sseWire dumps)) =
      events.map fun ev =>
        { id := intText ev.seq
          event := cleanName ev.event
          data := some ev.payload } := by
  let frames : List EventStream.Dispatched :=
    events.map fun ev =>
      { id := intText ev.seq
        event := cleanName ev.event
        data := dumps ev.payload }
  have hStream :
      events.flatMap (sseWire dumps) =
        frames.flatMap fun event =>
          EventStream.frame event.id event.event event.data := by
    rw [List.flatMap_map]
    rfl
  have hFrames : ∀ event ∈ frames,
      EventStream.OneLine event.id ∧ '\x00' ∉ event.id ∧
        EventStream.OneLine event.event ∧ event.event ≠ [] ∧
        EventStream.OneLine event.data := by
    intro event hMem
    rcases List.mem_map.mp hMem with ⟨ev, hEv, rfl⟩
    rcases clean_intText ev.seq with ⟨hId, hNul⟩
    exact
      ⟨hId, hNul, oneLine_cleanName ev.event, hNames ev hEv,
        hOneLine ev hEv⟩
  rw [readStream, hStream, EventStream.parse_frames _ hFrames,
    List.map_map]
  apply List.map_congr_left
  intro ev hEv
  simp only [Function.comp_apply, hLoads ev hEv]

/-
  Two events of a stream; the name of the first poses as a
  frame, and its data has a number of its own.
-/
theorem readStream_sseWire_two :
    let first : WireEvent :=
      { event := "a\nevent: b: c".toList
        data := [("seq".toList, .null)]
        seq := 7 }
    let second : WireEvent :=
      { event := " run.done".toList, data := [], seq := 8 }
    let dumps : Json → Text := fun value =>
      match value with
      | .obj [(_, .num text)] =>
          "\x7b\"seq\": ".toList ++ text ++ "\x7d".toList
      | _ => []
    let loads : Text → Option Json := fun text =>
      if text = "\x7b\"seq\": 7\x7d".toList then
        some (.obj [("seq".toList, .num "7".toList)])
      else if text = "\x7b\"seq\": 8\x7d".toList then
        some (.obj [("seq".toList, .num "8".toList)])
      else none
    readStream loads
        (sseWire dumps first ++ sseWire dumps second) =
      [{ id := "7".toList
         event := "aevent: b: c".toList
         data := some first.payload },
        { id := "8".toList
          event := " run.done".toList
          data := some second.payload }] := by
  intro first second dumps loads
  have hRead :=
    readStream_sseWire dumps loads [first, second]
      (by decide)
      (by
        intro ev hEv
        rcases List.mem_cons.mp hEv with rfl | hEv
        · exact EventStream.oneLine_of_all (by decide)
        · rw [List.mem_singleton.mp hEv]
          exact EventStream.oneLine_of_all (by decide))
      (by
        intro ev hEv
        rcases List.mem_cons.mp hEv with rfl | hEv
        · rfl
        · rw [List.mem_singleton.mp hEv]
          rfl)
  rw [List.flatMap_cons, List.flatMap_cons, List.flatMap_nil,
    List.append_nil] at hRead
  exact hRead

end Client

end LegalAgent
