import Mathlib.Data.List.TakeWhile

/-
  The line rules of event streams.

  A stream is a list of lines, each ended by a line feed, a
  carriage return or both.  A line is split at its first colon
  into a field and its value, from which one leading space is
  dropped.  A blank line dispatches what the fields in front
  of it have set.

  Key definitions include:
    * `EventStream.lines`
    * `EventStream.parse`
    * `EventStream.frame`

  Key theorems include:
    * `EventStream.parseLines_frame`
    * `EventStream.parse_frames`
-/

------------------------------------------------------------
-- Lines
------------------------------------------------------------

namespace LegalAgent

namespace Library

namespace EventStream

/- The lines of a stream behind a part of the first line. -/
def linesFrom (pending : List Char) :
    List Char → List (List Char)
| [] => []
| '\n' :: rest => pending :: linesFrom [] rest
| '\r' :: '\n' :: rest => pending :: linesFrom [] rest
| '\r' :: rest => pending :: linesFrom [] rest
| c :: rest => linesFrom (pending ++ [c]) rest

/- The lines of a stream; a line without an end is dropped. -/
def lines (input : List Char) : List (List Char) :=
  linesFrom [] input

/- Whether a text has no end of a line in it. -/
def OneLine (text : List Char) : Prop :=
  ∀ c ∈ text, c ≠ '\r' ∧ c ≠ '\n'

/- A text whose characters were checked is one line. -/
theorem oneLine_of_all
    {text : List Char}
    (hAll :
      text.all (fun c => decide (c ≠ '\r' ∧ c ≠ '\n')) = true) :
    OneLine text :=
  fun c hMem => of_decide_eq_true (List.all_eq_true.mp hAll c hMem)

/- A text without ends of lines continues the line. -/
theorem linesFrom_append
    {text : List Char}
    (hText : OneLine text)
    (pending rest : List Char) :
    linesFrom pending (text ++ rest) =
      linesFrom (pending ++ text) rest := by
  induction text generalizing pending with
  | nil => rw [List.nil_append, List.append_nil]
  | cons c text ih =>
      rcases hText c List.mem_cons_self with ⟨hReturn, hFeed⟩
      have hStep :
          linesFrom pending (c :: (text ++ rest)) =
            linesFrom (pending ++ [c]) (text ++ rest) := by
        rw [linesFrom]
        · exact hFeed
        · intro _ hEq
          exact absurd hEq hReturn
        · exact hReturn
      rw [List.cons_append, hStep,
        ih fun d hMem => hText d (List.mem_cons_of_mem c hMem)]
      rw [List.append_assoc, List.singleton_append]

/- A text without ends of lines and a line feed are a line. -/
theorem lines_line
    {text : List Char}
    (hText : OneLine text)
    (rest : List Char) :
    lines (text ++ '\n' :: rest) = text :: lines rest := by
  rw [lines, linesFrom_append hText, List.nil_append,
    linesFrom, lines]

------------------------------------------------------------
-- Fields
------------------------------------------------------------

/- An event as a listener gets it. -/
structure Dispatched where
  id : List Char
  event : List Char
  data : List Char
deriving DecidableEq

/- What the fields behind the last blank line have set. -/
structure Buffers where
  lastEventId : List Char
  eventType : List Char
  data : List Char

/- The buffers at the start of a stream. -/
def Buffers.empty : Buffers where
  lastEventId := []
  eventType := []
  data := []

/- A field and its value set a buffer. -/
def Buffers.set
    (buffers : Buffers)
    (field value : List Char) :
    Buffers :=
  if field = "event".toList then
    { buffers with eventType := value }
  else if field = "data".toList then
    { buffers with data := buffers.data ++ value ++ ['\n'] }
  else if field = "id".toList then
    if '\x00' ∈ value then buffers
    else { buffers with lastEventId := value }
  else
    buffers

/- Drop one leading space. -/
def dropSpace : List Char → List Char
| ' ' :: rest => rest
| value => value

/- A line that is not blank: a comment or a field. -/
def Buffers.readLine
    (buffers : Buffers)
    (line : List Char) :
    Buffers :=
  match line.dropWhile fun c => decide (c ≠ ':') with
  | [] => buffers.set line []
  | _ :: value =>
      let field := line.takeWhile fun c => decide (c ≠ ':')
      if field = [] then buffers
      else buffers.set field (dropSpace value)

/- A line with a field, a colon, a space and a value. -/
theorem Buffers.readLine_field
    {field : List Char}
    (hColon :
      field.all (fun c => decide (c ≠ ':')) = true)
    (hField : field ≠ [])
    (buffers : Buffers)
    (value : List Char) :
    buffers.readLine (field ++ ':' :: ' ' :: value) =
      buffers.set field value := by
  rw [List.all_eq_true] at hColon
  rw [Buffers.readLine,
    List.dropWhile_append_of_pos hColon,
    List.takeWhile_append_of_pos hColon]
  simp [hField, dropSpace]

/- A blank line dispatches an event, if there is data. -/
def Buffers.dispatch (buffers : Buffers) : List Dispatched :=
  if buffers.data = [] then
    []
  else
    [{ id := buffers.lastEventId
       event :=
        if buffers.eventType = [] then "message".toList
        else buffers.eventType
       data := buffers.data.dropLast }]

/- The events that lines dispatch. -/
def parseLines : Buffers → List (List Char) → List Dispatched
| _, [] => []
| buffers, [] :: rest =>
    buffers.dispatch ++
      parseLines
        { buffers with eventType := [], data := [] } rest
| buffers, line :: rest =>
    parseLines (buffers.readLine line) rest

/- The events of a stream. -/
def parse (input : List Char) : List Dispatched :=
  parseLines .empty (lines input)

------------------------------------------------------------
-- Frames
------------------------------------------------------------

/- An event as a server writes it. -/
def frame (id event data : List Char) : List Char :=
  "id: ".toList ++ id ++ "\nevent: ".toList ++ event ++
    "\ndata: ".toList ++ data ++ "\n\n".toList

/- Texts of one line make a text of one line. -/
theorem OneLine.append
    {text more : List Char}
    (hText : OneLine text)
    (hMore : OneLine more) :
    OneLine (text ++ more) :=
  fun c hMem =>
    (List.mem_append.mp hMem).elim (hText c) (hMore c)

/- A frame is three lines and a blank one. -/
theorem lines_frame
    {id event data : List Char}
    (hId : OneLine id)
    (hEvent : OneLine event)
    (hData : OneLine data)
    (rest : List Char) :
    lines (frame id event data ++ rest) =
      ("id: ".toList ++ id) :: ("event: ".toList ++ event) ::
        ("data: ".toList ++ data) :: [] :: lines rest := by
  have hIdHead : OneLine "id: ".toList :=
    oneLine_of_all (by decide)
  have hEventHead : OneLine "event: ".toList :=
    oneLine_of_all (by decide)
  have hDataHead : OneLine "data: ".toList :=
    oneLine_of_all (by decide)
  have hBlank : OneLine [] := oneLine_of_all rfl
  have hShape :
      frame id event data ++ rest =
        ("id: ".toList ++ id) ++ '\n' ::
          (("event: ".toList ++ event) ++ '\n' ::
            (("data: ".toList ++ data) ++ '\n' ::
              ([] ++ '\n' :: rest))) := by
    unfold frame
    simp only [List.append_assoc]
    rfl
  rw [hShape, lines_line (hIdHead.append hId),
    lines_line (hEventHead.append hEvent),
    lines_line (hDataHead.append hData), lines_line hBlank]

/- The first line of a frame sets the id. -/
theorem Buffers.readLine_id
    {id : List Char}
    (hNul : '\x00' ∉ id)
    (buffers : Buffers) :
    buffers.readLine ("id: ".toList ++ id) =
      { buffers with lastEventId := id } := by
  have hLine :=
    @Buffers.readLine_field "id".toList (by decide) (by decide)
      buffers id
  apply Eq.trans hLine
  rw [Buffers.set, if_neg (by decide), if_neg (by decide),
    if_pos rfl, if_neg hNul]

/- The second line sets the name. -/
theorem Buffers.readLine_event
    (buffers : Buffers)
    (event : List Char) :
    buffers.readLine ("event: ".toList ++ event) =
      { buffers with eventType := event } := by
  have hLine :=
    @Buffers.readLine_field "event".toList (by decide)
      (by decide) buffers event
  apply Eq.trans hLine
  rw [Buffers.set, if_pos rfl]

/- The third line adds to the data. -/
theorem Buffers.readLine_data
    (buffers : Buffers)
    (data : List Char) :
    buffers.readLine ("data: ".toList ++ data) =
      { buffers with data := buffers.data ++ data ++ ['\n'] } := by
  have hLine :=
    @Buffers.readLine_field "data".toList (by decide)
      (by decide) buffers data
  apply Eq.trans hLine
  rw [Buffers.set, if_neg (by decide), if_pos rfl]

/- A line that is not blank is read. -/
theorem parseLines_cons
    {line : List Char}
    (hLine : line ≠ [])
    (buffers : Buffers)
    (rest : List (List Char)) :
    parseLines buffers (line :: rest) =
      parseLines (buffers.readLine line) rest := by
  cases line with
  | nil => exact absurd rfl hLine
  | cons c line => rfl

/- The lines of a frame dispatch its event. -/
theorem parseLines_frame
    {id event : List Char}
    (hNul : '\x00' ∉ id)
    (hName : event ≠ [])
    (data last : List Char)
    (rest : List (List Char)) :
    parseLines
        { lastEventId := last, eventType := [], data := [] }
        (("id: ".toList ++ id) :: ("event: ".toList ++ event) ::
          ("data: ".toList ++ data) :: [] :: rest) =
      { id := id, event := event, data := data } ::
        parseLines
          { lastEventId := id, eventType := [], data := [] }
          rest := by
  rw [parseLines_cons (by simp), parseLines_cons (by simp),
    parseLines_cons (by simp), Buffers.readLine_id hNul,
    Buffers.readLine_event, Buffers.readLine_data, parseLines,
    Buffers.dispatch, if_neg (by simp), if_neg hName]
  simp

/-
  Frames round trip: the stream of any frames dispatches
  exactly their events, in order.
-/
theorem parse_frames
    (events : List Dispatched)
    (hEvents : ∀ event ∈ events,
      OneLine event.id ∧ '\x00' ∉ event.id ∧
        OneLine event.event ∧ event.event ≠ [] ∧
        OneLine event.data) :
    parse
        (events.flatMap fun event =>
          frame event.id event.event event.data) =
      events := by
  suffices hFrom : ∀ last,
      parseLines
          { lastEventId := last, eventType := [], data := [] }
          (lines
            (events.flatMap fun event =>
              frame event.id event.event event.data)) =
        events from hFrom []
  induction events with
  | nil => intro last; rfl
  | cons event events ih =>
      intro last
      rcases hEvents event List.mem_cons_self with
        ⟨hId, hNul, hEvent, hName, hData⟩
      rw [List.flatMap_cons, lines_frame hId hEvent hData,
        parseLines_frame hNul hName,
        ih fun other hMem =>
          hEvents other (List.mem_cons_of_mem event hMem)]

end EventStream

end Library

end LegalAgent
