import LegalAgent.Service.RunService
import LegalAgent.Store.Fork

/-
  The summary of a range of a conversation (`summarize`).

  The questions and the answers of a range are put into one
  text, which the model is asked to summarise.  The summary is
  stored with the numbers of the first and of the last message
  that it covers.

  Key definitions include:
    * `SummaryDraft`
    * `Db.summaryDraft`

  Key theorems include:
    * `draftOf_map`
    * `draftOf_append`
-/

------------------------------------------------------------
-- Drafts
------------------------------------------------------------

namespace LegalAgent

/- What is summarised, and the range that it covers. -/
structure SummaryDraft where
  text : Text
  coversFromSeq : Nat
  coversToSeq : Nat
deriving DecidableEq

/- Whether a message is summarised in a range. -/
def Message.inRange
    (fromSeq toSeq : Option Nat)
    (message : Message) :
    Bool :=
  message.role != .tool &&
    !(message.contentMd.getD []).strip.isEmpty &&
      fromSeq.all (fun seq => decide (seq ≤ message.seq)) &&
        toSeq.all fun seq => decide (message.seq ≤ seq)

def MessageRole.text : MessageRole → Text
| .user => "user".toList
| .agent => "agent".toList
| .tool => "tool".toList

/- The line of a message. -/
def Message.line (message : Message) : Text :=
  message.role.text ++ ": ".toList ++ message.contentMd.getD []

/- The draft of some messages; without one there is none. -/
def draftOf
    (fromSeq toSeq : Option Nat)
    (messages : List Message) :
    Option SummaryDraft :=
  let messages := messages.filter (Message.inRange fromSeq toSeq)
  messages.head?.bind fun first =>
    messages.getLast?.map fun last =>
      { text := joinWith ['\n'] (messages.map Message.line)
        coversFromSeq := first.seq
        coversToSeq := last.seq }

/- What `summarize` reads of a thread. -/
def Db.summaryDraft
    (db : Db)
    (threadId : ThreadId)
    (fromSeq toSeq : Option Nat) :
    Option SummaryDraft :=
  draftOf fromSeq toSeq (db.threadMessages threadId)

section Drafts

variable {fromSeq toSeq : Option Nat}
variable {messages : List Message}

/- A change that keeps what is summarised keeps the draft. -/
theorem draftOf_map
    (change : Message → Message)
    (hRole : ∀ message, (change message).role = message.role)
    (hSeq : ∀ message, (change message).seq = message.seq)
    (hText :
      ∀ message, (change message).contentMd = message.contentMd) :
    draftOf fromSeq toSeq (messages.map change) =
      draftOf fromSeq toSeq messages := by
  have hRange :
      Message.inRange fromSeq toSeq ∘ change =
        Message.inRange fromSeq toSeq := by
    funext message
    simp only [Function.comp, Message.inRange, hRole, hSeq, hText]
  have hLine : Message.line ∘ change = Message.line := by
    funext message
    simp only [Function.comp, Message.line, hRole, hText]
  unfold draftOf
  dsimp only
  rw [List.filter_map, hRange, List.head?_map, List.getLast?_map,
    List.map_map, hLine]
  cases (messages.filter (Message.inRange fromSeq toSeq)).head? with
  | none => rfl
  | some first =>
      cases
          (messages.filter
            (Message.inRange fromSeq toSeq)).getLast? with
      | none => rfl
      | some last =>
          simp only [Option.map_some, Option.bind_some, hSeq]

/- The first message of an ordered list has the least number. -/
theorem le_of_head?
    (hSorted :
      messages.Pairwise fun message other =>
        message.seq < other.seq)
    {first : Message}
    (hFirst : messages.head? = some first)
    {message : Message}
    (hMem : message ∈ messages) :
    first.seq ≤ message.seq := by
  rcases List.head?_eq_some_iff.mp hFirst with ⟨rest, rfl⟩
  rcases List.mem_cons.mp hMem with rfl | hMem
  · exact Nat.le_refl _
  · exact
      Nat.le_of_lt
        ((List.pairwise_cons.mp hSorted).1 message hMem)

/- The last one has the greatest. -/
theorem le_of_getLast?
    (hSorted :
      messages.Pairwise fun message other =>
        message.seq < other.seq)
    {last : Message}
    (hLast : messages.getLast? = some last)
    {message : Message}
    (hMem : message ∈ messages) :
    message.seq ≤ last.seq := by
  rcases List.getLast?_eq_some_iff.mp hLast with ⟨front, rfl⟩
  rcases List.mem_append.mp hMem with hMem | hMem
  · exact
      Nat.le_of_lt
        ((List.pairwise_append.mp hSorted).2.2 message hMem last
          List.mem_cons_self)
  · rw [List.mem_singleton.mp hMem]

/- What the range of a draft has is what the draft was of. -/
theorem filter_covered
    (hSorted :
      messages.Pairwise fun message other =>
        message.seq < other.seq)
    {first last : Message}
    (hFirst :
      (messages.filter
          (Message.inRange fromSeq toSeq)).head? =
        some first)
    (hLast :
      (messages.filter
          (Message.inRange fromSeq toSeq)).getLast? =
        some last) :
    messages.filter
        (Message.inRange (some first.seq) (some last.seq)) =
      messages.filter (Message.inRange fromSeq toSeq) := by
  have hFiltered :=
    hSorted.filter (Message.inRange fromSeq toSeq)
  have hFirstIn :=
    (List.mem_filter.mp (List.mem_of_mem_head? hFirst)).2
  have hLastIn :=
    (List.mem_filter.mp (List.mem_of_getLast? hLast)).2
  apply List.filter_congr
  intro message hMem
  rw [Bool.eq_iff_iff]
  constructor
  · simp only [Message.inRange, Bool.and_eq_true,
      Option.all_eq_true, decide_eq_true_eq,
      Option.some_inj, forall_eq'] at hFirstIn hLastIn ⊢
    rintro ⟨⟨hTold, hFrom⟩, hTo⟩
    refine ⟨⟨hTold, ?_⟩, ?_⟩
    · intro seq hSeq
      exact Nat.le_trans (hFirstIn.1.2 seq hSeq) hFrom
    · intro seq hSeq
      exact Nat.le_trans hTo (hLastIn.2 seq hSeq)
  · intro hIn
    have hDrafted := List.mem_filter.mpr ⟨hMem, hIn⟩
    simp only [Message.inRange, Bool.and_eq_true,
      Option.all_eq_true, decide_eq_true_eq,
      Option.some_inj, forall_eq'] at hIn ⊢
    exact
      ⟨⟨hIn.1.1, le_of_head? hFiltered hFirst hDrafted⟩,
        le_of_getLast? hFiltered hLast hDrafted⟩

/-
  Messages behind those of a draft do not change the draft of
  the range that it covers.
-/
theorem draftOf_append
    {draft : SummaryDraft}
    (hDraft : draftOf fromSeq toSeq messages = some draft)
    {behind : List Message}
    (hOrder :
      (messages ++ behind).Pairwise fun message other =>
        message.seq < other.seq) :
    draftOf (some draft.coversFromSeq) (some draft.coversToSeq)
        (messages ++ behind) =
      some draft := by
  rcases List.pairwise_append.mp hOrder with
    ⟨hSorted, -, hBehind⟩
  unfold draftOf at hDraft
  dsimp only at hDraft
  rcases Option.bind_eq_some_iff.mp hDraft with
    ⟨first, hFirst, hRest⟩
  rcases Option.map_eq_some_iff.mp hRest with
    ⟨last, hLast, rfl⟩
  have hNone :
      behind.filter
          (Message.inRange (some first.seq) (some last.seq)) =
        [] := by
    rw [List.filter_eq_nil_iff]
    intro message hMem hIn
    simp only [Message.inRange, Bool.and_eq_true,
      Option.all_eq_true, decide_eq_true_eq, Option.some_inj,
      forall_eq'] at hIn
    have hLess :=
      hBehind last
        (List.mem_of_mem_filter (List.mem_of_getLast? hLast))
        message hMem
    exact absurd hIn.2 (Nat.not_le.mpr hLess)
  unfold draftOf
  dsimp only
  rw [List.filter_append, filter_covered hSorted hFirst hLast,
    hNone, List.append_nil, hFirst, hLast]
  rfl

end Drafts

end LegalAgent
