import LegalAgent.Text.Json

/-
  The limit on the bodies of requests
  (`_BodySizeLimitMiddleware` of `app.py`).

  A request is answered 413 when its declared length exceeds
  the limit.  Otherwise the application receives its messages
  through a wrapper that counts the bytes of the bodies; the
  message that crosses the limit is replaced by an empty last
  one.  Scopes that are no HTTP requests are passed on
  unchanged and are left out.

  Key definitions include:
    * `Request.overDeclared`
    * `limitedReceive`
    * `received`
    * `Guarded`
    * `NoCleanCut`

  Key theorems include:
    * `bounded_received`
    * `received_within`
    * `completeBody?_received`
    * `guarded_iff`
-/

------------------------------------------------------------
-- Messages
------------------------------------------------------------

namespace LegalAgent

namespace Api

abbrev Bytes := List UInt8

/- What `receive` returns. -/
inductive Message where
  | request (body : Bytes) (moreBody : Bool)
  | disconnect
deriving DecidableEq

/- The bytes of a message. -/
def Message.body : Message → Bytes
| .request body _ => body
| .disconnect => []

/- The bytes of messages, in order. -/
def content (messages : List Message) : Bytes :=
  messages.flatMap Message.body

/- A request: its headers and what `receive` returns, in order. -/
structure Request where
  headers : List (Bytes × Bytes)
  messages : List Message

/- The ASCII bytes of a text. -/
def ascii (text : String) : Bytes :=
  text.toList.map fun c => c.toNat.toUInt8

/- The blanks that `int` drops around the digits of bytes. -/
def isByteSpace (c : Char) : Bool :=
  c = ' ' || (9 ≤ c.toNat && c.toNat ≤ 13)

/- The integer of bytes (`int`); `none` is a `ValueError`. -/
def intOfBytes? (value : Bytes) : Option Int :=
  let text := value.map fun byte => Char.ofNat byte.toNat
  signed?
    ((text.dropWhile isByteSpace).reverse.dropWhile
      isByteSpace).reverse

/- The declared length, if the first one is a number. -/
def declaredLength?
    (headers : List (Bytes × Bytes)) :
    Option Int :=
  (headers.lookup (ascii "content-length")).bind intOfBytes?

/- Whether a request is answered 413 before it is read. -/
def Request.overDeclared
    (maxBytes : Nat)
    (request : Request) :
    Bool :=
  match declaredLength? request.headers with
  | some length => decide ((maxBytes : Int) < length)
  | none => false

------------------------------------------------------------
-- The Wrapper
------------------------------------------------------------

/- The variables of the wrapper. -/
structure Limit where
  total : Nat
  stopped : Bool

/- The message after which nothing more is read. -/
def lastMessage : Message :=
  .request [] false

/-
  One call of the wrapper, with what `receive` still has to
  return; without a message the call does not return.
-/
def limitedReceive
    (maxBytes : Nat)
    (limit : Limit)
    (incoming : List Message) :
    Option (Message × Limit × List Message) :=
  if limit.stopped then
    some (lastMessage, limit, incoming)
  else
    match incoming with
    | [] => none
    | .disconnect :: rest => some (.disconnect, limit, rest)
    | .request body moreBody :: rest =>
        let total := limit.total + body.length
        if maxBytes < total then
          some (lastMessage, ⟨total, true⟩, rest)
        else
          some (.request body moreBody, ⟨total, false⟩, rest)

/- What the first calls of the wrapper return. -/
def received
    (maxBytes : Nat) :
    Nat → Limit → List Message → List Message
| 0, _, _ => []
| calls + 1, limit, incoming =>
    match limitedReceive maxBytes limit incoming with
    | none => []
    | some (message, limit, rest) =>
        message :: received maxBytes calls limit rest

/-
  What the application receives by a number of calls; a
  request that is answered 413 does not reach it.
-/
def appReceives
    (maxBytes : Nat)
    (request : Request)
    (calls : Nat) :
    List Message :=
  if request.overDeclared maxBytes then []
  else received maxBytes calls ⟨0, false⟩ request.messages

/- The body of a request whose last message has been received. -/
def completeBody? : List Message → Option Bytes
| [] => none
| .disconnect :: _ => none
| .request body false :: _ => some body
| .request body true :: rest =>
    (completeBody? rest).map (body ++ ·)

/- The body that the client sends, complete or not. -/
def sentBody : List Message → Bytes
| [] => []
| .disconnect :: _ => []
| .request body false :: _ => body
| .request body true :: rest => body ++ sentBody rest

/-
  The limit does what it is for: it bounds what reaches the
  application, leaves a request within the limit alone, and
  of another one the application gets no shorter body that it
  accepts, unless it is answered 413.
-/
structure Guarded
    (acceptable : Bytes → Bool)
    (maxBytes : Nat)
    (request : Request) : Prop where
  bounded : ∀ calls,
    (content (appReceives maxBytes request calls)).length ≤
      maxBytes
  transparent :
    request.overDeclared maxBytes = false →
      (content request.messages).length ≤ maxBytes →
        ∀ calls,
          appReceives maxBytes request calls =
            request.messages.take calls
  closed :
    (request.overDeclared maxBytes = true ∨
        maxBytes < (content request.messages).length) →
      request.overDeclared maxBytes = true ∨
        ∀ calls body,
          completeBody? (appReceives maxBytes request calls) =
              some body →
            ¬ (body <+: sentBody request.messages ∧
              body ≠ sentBody request.messages ∧
                acceptable body = true)

/-
  A chunk that crosses the limit, with the messages in front
  of it: all of them chunks of the same body.
-/
structure Crossing
    (maxBytes total : Nat)
    (messages before : List Message) : Prop where
  chunks : ∀ message ∈ before,
    ∃ body, message = .request body true
  within : total + (content before).length ≤ maxBytes
  crosses : ∃ body moreBody after,
    messages = before ++ .request body moreBody :: after ∧
      maxBytes < total + (content before).length + body.length

/-
  Where the limit is crossed inside the body, the bytes in
  front of the crossing chunk are not acceptable.
-/
def NoCleanCut
    (acceptable : Bytes → Bool)
    (maxBytes : Nat)
    (request : Request) : Prop :=
  request.overDeclared maxBytes = false →
    ∀ before,
      Crossing maxBytes 0 request.messages before →
        acceptable (content before) = false

------------------------------------------------------------
-- Calls Of The Wrapper
------------------------------------------------------------

section Calls

variable {maxBytes : Nat}

@[simp] theorem content_nil : content [] = [] := rfl

@[simp] theorem content_cons
    (message : Message)
    (messages : List Message) :
    content (message :: messages) =
      message.body ++ content messages := rfl

/- A wrapper that has stopped returns empty last messages. -/
theorem content_received_stopped
    (calls total : Nat)
    (incoming : List Message) :
    content (received maxBytes calls ⟨total, true⟩ incoming) =
      [] := by
  induction calls with
  | zero => rfl
  | succ calls ih => exact ih

/- A disconnection is passed on. -/
theorem received_disconnect
    (calls total : Nat)
    (rest : List Message) :
    received maxBytes (calls + 1) ⟨total, false⟩
        (.disconnect :: rest) =
      .disconnect ::
        received maxBytes calls ⟨total, false⟩ rest := rfl

/- A chunk within the limit is passed on and counted. -/
theorem received_request
    {total : Nat}
    {body : Bytes}
    (hWithin : total + body.length ≤ maxBytes)
    (calls : Nat)
    (moreBody : Bool)
    (rest : List Message) :
    received maxBytes (calls + 1) ⟨total, false⟩
        (.request body moreBody :: rest) =
      .request body moreBody ::
        received maxBytes calls ⟨total + body.length, false⟩
          rest := by
  simp [received, limitedReceive, Nat.not_lt.mpr hWithin]

/- The chunk that crosses the limit ends the body. -/
theorem received_crossing
    {total : Nat}
    {body : Bytes}
    (hCrosses : maxBytes < total + body.length)
    (calls : Nat)
    (moreBody : Bool)
    (rest : List Message) :
    received maxBytes (calls + 1) ⟨total, false⟩
        (.request body moreBody :: rest) =
      lastMessage ::
        received maxBytes calls ⟨total + body.length, true⟩
          rest := by
  simp [received, limitedReceive, hCrosses]

/- What is received stays within the limit. -/
theorem bounded_received
    {total : Nat}
    (hTotal : total ≤ maxBytes)
    (calls : Nat)
    (incoming : List Message) :
    total +
        (content
          (received maxBytes calls ⟨total, false⟩
            incoming)).length ≤
      maxBytes := by
  induction calls generalizing total incoming with
  | zero => exact hTotal
  | succ calls ih =>
      cases incoming with
      | nil => exact hTotal
      | cons message rest =>
          cases message with
          | disconnect =>
              rw [received_disconnect]
              exact ih hTotal rest
          | request body moreBody =>
              by_cases hCrosses : maxBytes < total + body.length
              · rw [received_crossing hCrosses, content_cons,
                  content_received_stopped]
                exact hTotal
              · have hWithin := Nat.not_lt.mp hCrosses
                have hRest := ih hWithin rest
                rw [received_request hWithin, content_cons,
                  Message.body, List.length_append]
                omega

/- Messages within the limit are received as they are. -/
theorem received_within
    {total : Nat}
    {incoming : List Message}
    (hWithin :
      total + (content incoming).length ≤ maxBytes)
    (calls : Nat) :
    received maxBytes calls ⟨total, false⟩ incoming =
      incoming.take calls := by
  induction calls generalizing total incoming with
  | zero => rfl
  | succ calls ih =>
      cases incoming with
      | nil => rfl
      | cons message rest =>
          cases message with
          | disconnect =>
              rw [received_disconnect, List.take_succ_cons]
              exact congrArg _ (ih hWithin)
          | request body moreBody =>
              rw [content_cons, Message.body,
                List.length_append] at hWithin
              rw [received_request (by omega), ih (by omega)]
              rfl

/- A crossing behind a chunk of the body. -/
theorem Crossing.cons
    {total : Nat}
    {body : Bytes}
    {rest before : List Message}
    (hCrossing :
      Crossing maxBytes (total + body.length) rest before) :
    Crossing maxBytes total (.request body true :: rest)
      (.request body true :: before) := by
  rcases hCrossing with
    ⟨hChunks, hWithin, chunk, moreBody, after, hSplit, hCrosses⟩
  refine ⟨?_, ?_, chunk, moreBody, after, ?_, ?_⟩
  · intro message hMem
    rcases List.mem_cons.mp hMem with rfl | hMem
    · exact ⟨body, rfl⟩
    · exact hChunks message hMem
  · rw [content_cons, Message.body, List.length_append]
    omega
  · rw [hSplit]
    rfl
  · rw [content_cons, Message.body, List.length_append]
    omega

/-
  A complete request that is received is the one that was
  sent, or what stood in front of the crossing chunk.
-/
theorem completeBody?_received
    {total calls : Nat}
    {incoming : List Message}
    {body : Bytes}
    (hTotal : total ≤ maxBytes)
    (hBody :
      completeBody?
          (received maxBytes calls ⟨total, false⟩ incoming) =
        some body) :
    body = sentBody incoming ∨
      ∃ before,
        Crossing maxBytes total incoming before ∧
          body = content before := by
  induction calls generalizing total incoming body with
  | zero => cases hBody
  | succ calls ih =>
      cases incoming with
      | nil => cases hBody
      | cons message rest =>
          cases message with
          | disconnect => cases hBody
          | request chunk moreBody =>
              by_cases hCrosses : maxBytes < total + chunk.length
              · rw [received_crossing hCrosses] at hBody
                cases hBody
                right
                refine ⟨[], ⟨?_, hTotal, ?_⟩, rfl⟩
                · intro message hMem
                  cases hMem
                · exact ⟨chunk, moreBody, rest, rfl, hCrosses⟩
              · have hWithin := Nat.not_lt.mp hCrosses
                rw [received_request hWithin] at hBody
                cases moreBody with
                | false =>
                    cases hBody
                    exact Or.inl rfl
                | true =>
                    rcases Option.map_eq_some_iff.mp hBody with
                      ⟨tail, hTail, rfl⟩
                    cases ih hWithin hTail with
                    | inl hSent =>
                        left
                        rw [sentBody, hSent]
                    | inr hCut =>
                        rcases hCut with
                          ⟨before, hCrossing, rfl⟩
                        exact
                          Or.inr
                            ⟨_, hCrossing.cons, rfl⟩

/- The messages in front of a crossing make a request. -/
theorem completeBody?_crossing
    {total : Nat}
    {messages before : List Message}
    (hCrossing : Crossing maxBytes total messages before) :
    completeBody?
        (received maxBytes (before.length + 1) ⟨total, false⟩
          messages) =
      some (content before) := by
  rcases hCrossing with
    ⟨hChunks, hWithin, chunk, moreBody, after, rfl, hCrosses⟩
  induction before generalizing total with
  | nil =>
      rw [content_nil, List.length_nil, Nat.add_zero]
        at hCrosses
      rw [List.nil_append, received_crossing hCrosses]
      rfl
  | cons message before ih =>
      rcases hChunks message List.mem_cons_self with ⟨body, rfl⟩
      rw [content_cons, Message.body, List.length_append]
        at hWithin hCrosses
      rw [List.cons_append, List.length_cons,
        received_request (by omega), completeBody?,
        ih
          (fun other hMem =>
            hChunks other (List.mem_cons_of_mem _ hMem))
          (by omega) (by omega)]
      rfl

/- What stands in front of a crossing is a shorter body. -/
theorem sentBody_of_crossing
    {total : Nat}
    {messages before : List Message}
    (hCrossing : Crossing maxBytes total messages before) :
    content before <+: sentBody messages ∧
      content before ≠ sentBody messages := by
  rcases hCrossing with
    ⟨hChunks, hWithin, chunk, moreBody, after, rfl, hCrosses⟩
  have hSent : ∃ more,
      sentBody
          (before ++ .request chunk moreBody :: after) =
        content before ++ (chunk ++ more) := by
    clear hWithin hCrosses
    induction before with
    | nil =>
        cases moreBody with
        | false => exact ⟨[], (List.append_nil chunk).symm⟩
        | true => exact ⟨sentBody after, rfl⟩
    | cons message before ih =>
        rcases hChunks message List.mem_cons_self with
          ⟨body, rfl⟩
        rcases ih fun other hMem =>
            hChunks other (List.mem_cons_of_mem _ hMem) with
          ⟨more, hMore⟩
        refine ⟨more, ?_⟩
        rw [List.cons_append, sentBody, hMore, content_cons,
          Message.body, List.append_assoc]
  rcases hSent with ⟨more, hMore⟩
  rw [hMore]
  refine ⟨List.prefix_append _ _, ?_⟩
  intro hEq
  have hNil : chunk ++ more = [] :=
    List.self_eq_append_right.mp hEq
  rw [(List.append_eq_nil_iff.mp hNil).1, List.length_nil]
    at hCrosses
  omega

end Calls

/-
  The limit does what it is for exactly when no crossing
  chunk leaves an acceptable body in front of it.
-/
theorem guarded_iff
    (acceptable : Bytes → Bool)
    (maxBytes : Nat)
    (request : Request) :
    Guarded acceptable maxBytes request ↔
      NoCleanCut acceptable maxBytes request := by
  constructor
  · intro hGuarded hDeclared before hCrossing
    have hApp : ∀ calls,
        appReceives maxBytes request calls =
          received maxBytes calls ⟨0, false⟩
            request.messages := by
      intro calls
      rw [appReceives, hDeclared, if_neg Bool.false_ne_true]
    have hOver :
        maxBytes < (content request.messages).length := by
      rcases hCrossing with
        ⟨-, -, chunk, moreBody, after, hSplit, hCrosses⟩
      rw [hSplit, content, List.flatMap_append,
        List.flatMap_cons, List.length_append,
        List.length_append, Message.body, ← content]
      omega
    rcases hGuarded.closed (Or.inr hOver) with hRefused | hAll
    · rw [hDeclared] at hRefused
      cases hRefused
    · have hBody := completeBody?_crossing hCrossing
      rw [← hApp] at hBody
      rcases sentBody_of_crossing hCrossing with ⟨hPrefix, hNe⟩
      cases hAccept : acceptable (content before) with
      | false => rfl
      | true =>
          exact
            absurd ⟨hPrefix, hNe, hAccept⟩ (hAll _ _ hBody)
  · intro hCut
    refine ⟨?_, ?_, ?_⟩
    · intro calls
      unfold appReceives
      split
      · exact Nat.zero_le maxBytes
      · have hBound :=
          bounded_received (Nat.zero_le maxBytes) calls
            request.messages
        rwa [Nat.zero_add] at hBound
    · intro hDeclared hWithin calls
      rw [appReceives, hDeclared, if_neg Bool.false_ne_true,
        received_within (by rwa [Nat.zero_add])]
    · intro _
      cases hDeclared : request.overDeclared maxBytes with
      | true => exact Or.inl rfl
      | false =>
          right
          rintro calls body hBody ⟨hPrefix, hNe, hAccept⟩
          rw [appReceives, hDeclared,
            if_neg Bool.false_ne_true] at hBody
          rcases completeBody?_received (Nat.zero_le maxBytes)
            hBody with hSent | ⟨before, hCrossing, rfl⟩
          · exact hNe hSent
          · rw [hCut hDeclared before hCrossing] at hAccept
            cases hAccept

/- A request without a declared length. -/
def chunkedRequest (messages : List Message) : Request where
  headers := []
  messages := messages

/-
  An object and then more bytes than the limit allows: the
  application gets the object as the whole body.
-/
theorem limit_leaves_object :
    ¬ ∀ (acceptable : Bytes → Bool) (maxBytes : Nat)
        (request : Request),
      Guarded acceptable maxBytes request := by
  intro hAll
  have hGuarded :=
    hAll (fun body => decide (body = ascii "\x7b\x7d")) 4
      (chunkedRequest
        [.request (ascii "\x7b\x7d") true,
          .request (ascii "     ") false])
  rcases hGuarded.closed (Or.inr (by decide)) with
    hRefused | hAll
  · cases hRefused
  · exact
      hAll 2 (ascii "\x7b\x7d") (by decide)
        ⟨by decide, by decide, by decide⟩

end Api

end LegalAgent
