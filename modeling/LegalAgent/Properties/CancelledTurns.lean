import LegalAgent.Agent.Graph

/-
  What a cancelled turn leaves in a checkpoint.

  A checkpoint holds completed turns, each a question, rounds
  of tool calls and an answer.  The surgery of a cancel cuts
  behind the last answer, so it removes the cancelled turn
  unless its final answer has already arrived.

  Key definitions include:
    * `Round`
    * `Turn`
    * `CancelledTurn`
    * `Db.cancelTurns`
    * `memory`

  Key theorems include:
    * `cancelled_turns_forgotten`
-/

------------------------------------------------------------
-- Turns
------------------------------------------------------------

namespace LegalAgent

/- An AI message with tool calls, and what the tools return. -/
structure Round where
  id : Nat
  content : Content
  calls : List ToolCall
  results : ToolCall → Content
  called : calls.isEmpty = false

/- The AI message of a round. -/
def Round.request (round : Round) : CheckpointMessage :=
  .ai round.id round.content round.calls

/- The messages of a round. -/
def Round.messages (round : Round) : List CheckpointMessage :=
  round.request ::
    round.calls.map fun call =>
      .tool call.id (round.results call)

/- A completed turn. -/
structure Turn where
  question : Content
  rounds : List Round
  answerId : Nat
  answer : Content

/- The messages of a completed turn. -/
def Turn.messages (turn : Turn) : List CheckpointMessage :=
  .human turn.question ::
    (turn.rounds.flatMap Round.messages ++
      [.ai turn.answerId turn.answer []])

/- The question and the answer of a turn. -/
def Turn.exchange (turn : Turn) : List CheckpointMessage :=
  [.human turn.question, .ai turn.answerId turn.answer []]

/-
  The last chunk of a cancelled turn: an AI message with tool
  calls, the results of the tools, or the final answer.
-/
inductive LastChunk where
  | called (round : Round)
  | used (round : Round)
  | answered (id : Nat) (answer : Content)

/- The messages that the last chunk added. -/
def LastChunk.messages : LastChunk → List CheckpointMessage
| .called round => [round.request]
| .used round => round.messages
| .answered id answer => [.ai id answer []]

/- A turn that was cancelled at the boundary of a chunk. -/
structure CancelledTurn where
  question : Content
  rounds : List Round
  last : LastChunk

/- The messages of a cancelled turn. -/
def CancelledTurn.messages
    (turn : CancelledTurn) :
    List CheckpointMessage :=
  .human turn.question ::
    (turn.rounds.flatMap Round.messages ++ turn.last.messages)

/- Whether the final answer of a cancelled turn arrived. -/
def CancelledTurn.answered (turn : CancelledTurn) : Bool :=
  match turn.last with
  | .answered .. => true
  | _ => false

/- The database after a turn that was cancelled. -/
def Db.cancelTurn
    (db : Db)
    (threadId : ThreadId)
    (turn : CancelledTurn) :
    Db :=
  ((clearInterruptedTools threadId).commit
    (db.updateState threadId (· ++ turn.messages))).2

/- The database after turns that were cancelled. -/
def Db.cancelTurns
    (db : Db)
    (threadId : ThreadId)
    (turns : List CancelledTurn) :
    Db :=
  turns.foldl (fun db turn => db.cancelTurn threadId turn) db

/-
  What an agent should remember of completed turns, or of the
  first question when there is none.
-/
def memory
    (turns : List Turn)
    (question : Content) :
    List CheckpointMessage :=
  if turns.isEmpty then [.human question]
  else turns.flatMap Turn.exchange

------------------------------------------------------------
-- Cuts
------------------------------------------------------------

section Cuts

variable {messages more : List CheckpointMessage}

/- Nothing of a message list without answers is completed. -/
theorem completedTurns_append
    (hMore : ∀ message ∈ more, message.isAnswer = false) :
    completedTurns (messages ++ more) =
      completedTurns messages := by
  unfold completedTurns
  rw [List.reverse_append, List.dropWhile_append_of_pos]
  intro message hMem
  rw [hMore message (List.mem_reverse.mp hMem)]
  rfl

/- Messages that end with an answer are completed. -/
theorem completedTurns_of_answer
    {message : CheckpointMessage}
    (hAnswer : message.isAnswer = true) :
    completedTurns (messages ++ [message]) =
      messages ++ [message] := by
  unfold completedTurns
  rw [List.reverse_append, List.reverse_singleton,
    List.singleton_append, List.dropWhile_cons_of_neg,
    List.reverse_cons, List.reverse_reverse]
  simp [hAnswer]

/- Behind the last answer are no answers. -/
theorem countP_completedTurns
    (messages : List CheckpointMessage) :
    (completedTurns messages).countP CheckpointMessage.isAnswer =
      messages.countP CheckpointMessage.isAnswer := by
  unfold completedTurns
  rw [List.countP_reverse,
    ← List.countP_reverse (l := messages)]
  generalize messages.reverse = reversed
  induction reversed with
  | nil => rfl
  | cons message reversed ih =>
      cases hAnswer : message.isAnswer with
      | true => simp [hAnswer]
      | false => simp [hAnswer, ih]

/- The surgery neither adds nor removes an answer. -/
theorem countP_withoutInterrupted
    (messages : List CheckpointMessage) :
    (withoutInterrupted messages).countP
        CheckpointMessage.isAnswer =
      messages.countP CheckpointMessage.isAnswer := by
  have hTurns :
      ((completedTurns messages).filter fun message =>
          message.isHuman || message.isAnswer).countP
            CheckpointMessage.isAnswer =
        messages.countP CheckpointMessage.isAnswer := by
    rw [List.countP_filter, ← countP_completedTurns]
    apply List.countP_congr
    intro message _
    cases message <;>
      simp [CheckpointMessage.isAnswer,
        CheckpointMessage.isHuman]
  unfold withoutInterrupted
  split
  · rfl
  · dsimp only
    split
    · rename_i hEmpty
      rw [List.isEmpty_iff] at hEmpty
      rw [hEmpty] at hTurns
      split
      · rfl
      · rename_i question hQuestion
        rw [← hTurns]
        have hHuman := List.find?_some hQuestion
        cases question with
        | human content => rfl
        | ai id content calls => cases hHuman
        | tool callId content => cases hHuman
    · exact hTurns

end Cuts

------------------------------------------------------------
-- Messages Of Turns
------------------------------------------------------------

/- The messages of a round contain no answer. -/
theorem isAnswer_of_round
    {round : Round}
    {message : CheckpointMessage}
    (hMem : message ∈ round.messages) :
    message.isAnswer = false := by
  rcases List.mem_cons.mp hMem with rfl | hTool
  · exact round.called
  · rcases List.mem_map.mp hTool with ⟨call, -, rfl⟩
    rfl

/- The messages of a round contain no question. -/
theorem isHuman_of_round
    {round : Round}
    {message : CheckpointMessage}
    (hMem : message ∈ round.messages) :
    message.isHuman = false := by
  rcases List.mem_cons.mp hMem with rfl | hTool
  · rfl
  · rcases List.mem_map.mp hTool with ⟨call, -, rfl⟩
    rfl

/- An unanswered turn contains no answer. -/
theorem isAnswer_of_unanswered
    {turn : CancelledTurn}
    (hUnanswered : turn.answered = false)
    {message : CheckpointMessage}
    (hMem : message ∈ turn.messages) :
    message.isAnswer = false := by
  rcases List.mem_cons.mp hMem with rfl | hRest
  · rfl
  · rcases List.mem_append.mp hRest with hRounds | hLast
    · rcases List.mem_flatMap.mp hRounds with ⟨round, -, hRound⟩
      exact isAnswer_of_round hRound
    · unfold CancelledTurn.answered at hUnanswered
      cases hChunk : turn.last with
      | called round =>
          rw [hChunk] at hLast
          rw [List.mem_singleton.mp hLast]
          exact round.called
      | used round =>
          rw [hChunk] at hLast
          exact isAnswer_of_round hLast
      | answered id answer =>
          rw [hChunk] at hUnanswered
          cases hUnanswered

/- An unanswered turn has called tools. -/
theorem called_of_unanswered
    {turn : CancelledTurn}
    (hUnanswered : turn.answered = false) :
    ∃ round : Round, round.request ∈ turn.messages := by
  unfold CancelledTurn.answered at hUnanswered
  unfold CancelledTurn.messages
  cases hChunk : turn.last with
  | called round =>
      exact ⟨round, by simp [LastChunk.messages]⟩
  | used round =>
      exact ⟨round, by simp [LastChunk.messages, Round.messages]⟩
  | answered id answer =>
      rw [hChunk] at hUnanswered
      cases hUnanswered

/- The questions and answers of a turn. -/
theorem filter_turn
    (turn : Turn) :
    (turn.messages.filter fun message =>
        message.isHuman || message.isAnswer) =
      turn.exchange := by
  have hRounds :
      ((turn.rounds.flatMap Round.messages).filter fun message =>
          message.isHuman || message.isAnswer) = [] := by
    rw [List.filter_eq_nil_iff]
    intro message hMem
    rcases List.mem_flatMap.mp hMem with ⟨round, -, hRound⟩
    simp [isAnswer_of_round hRound, isHuman_of_round hRound]
  unfold Turn.messages Turn.exchange
  rw [List.filter_cons_of_pos rfl, List.filter_append, hRounds]
  rfl

/- The questions and answers of turns. -/
theorem filter_turns
    (turns : List Turn) :
    ((turns.flatMap Turn.messages).filter fun message =>
        message.isHuman || message.isAnswer) =
      turns.flatMap Turn.exchange := by
  rw [List.filter_flatMap]
  simp only [filter_turn]

/- Questions and answers are all kept. -/
theorem filter_exchanges
    (turns : List Turn) :
    ((turns.flatMap Turn.exchange).filter fun message =>
        message.isHuman || message.isAnswer) =
      turns.flatMap Turn.exchange := by
  rw [List.filter_flatMap]
  rfl

/- There are no answers in rounds. -/
theorem countP_rounds
    (rounds : List Round) :
    (rounds.flatMap Round.messages).countP
        CheckpointMessage.isAnswer = 0 := by
  rw [List.countP_eq_zero]
  intro message hMem
  rcases List.mem_flatMap.mp hMem with ⟨round, -, hRound⟩
  simp [isAnswer_of_round hRound]

/- A turn has one answer. -/
theorem countP_turn
    (turn : Turn) :
    turn.messages.countP CheckpointMessage.isAnswer = 1 := by
  unfold Turn.messages
  rw [List.countP_cons, List.countP_append, countP_rounds]
  rfl

/- Completed turns have one answer each. -/
theorem countP_turns
    (turns : List Turn) :
    (turns.flatMap Turn.messages).countP
        CheckpointMessage.isAnswer =
      turns.length := by
  induction turns with
  | nil => rfl
  | cons turn turns ih =>
      rw [List.flatMap_cons, List.countP_append, ih,
        countP_turn, List.length_cons, Nat.add_comm]

/- What should be remembered has one answer for each turn. -/
theorem countP_memory
    (turns : List Turn)
    (question : Content) :
    (memory turns question).countP CheckpointMessage.isAnswer =
      turns.length := by
  unfold memory
  split
  · rename_i hEmpty
    rw [List.isEmpty_iff] at hEmpty
    rw [hEmpty]
    rfl
  · rw [← filter_turns, List.countP_filter, ← countP_turns]
    apply List.countP_congr
    intro message _
    cases hAnswer : message.isAnswer <;> simp

/- A cancelled turn has an answer if its answer arrived. -/
theorem countP_cancelledTurn
    (turn : CancelledTurn) :
    turn.messages.countP CheckpointMessage.isAnswer =
      if turn.answered then 1 else 0 := by
  cases hAnswered : turn.answered with
  | false =>
      rw [if_neg Bool.false_ne_true, List.countP_eq_zero]
      intro message hMem
      simp [isAnswer_of_unanswered hAnswered hMem]
  | true =>
      unfold CancelledTurn.answered at hAnswered
      cases hChunk : turn.last with
      | called round =>
          rw [hChunk] at hAnswered
          cases hAnswered
      | used round =>
          rw [hChunk] at hAnswered
          cases hAnswered
      | answered id answer =>
          unfold CancelledTurn.messages
          rw [List.countP_cons, List.countP_append,
            countP_rounds, hChunk]
          rfl

------------------------------------------------------------
-- Surgery
------------------------------------------------------------

/-
  Behind an unanswered turn the questions and answers of the
  completed turns are left, or the first question.
-/
theorem withoutInterrupted_append
    {turn : CancelledTurn}
    (hUnanswered : turn.answered = false)
    (messages : List CheckpointMessage) :
    withoutInterrupted (messages ++ turn.messages) =
      let turns := (completedTurns messages).filter
        fun message => message.isHuman || message.isAnswer
      if turns.isEmpty then
        match (messages ++ turn.messages).find?
            CheckpointMessage.isHuman with
        | none => messages ++ turn.messages
        | some question => [question]
      else
        turns := by
  rcases called_of_unanswered hUnanswered with ⟨round, hRound⟩
  have hCalls :
      ((messages ++ turn.messages).all fun message =>
          message.calls.isEmpty) = false := by
    rw [List.all_eq_false]
    refine ⟨round.request, List.mem_append_right _ hRound, ?_⟩
    rw [Round.request, CheckpointMessage.calls, round.called]
    exact Bool.false_ne_true
  have hTurns :
      completedTurns (messages ++ turn.messages) =
        completedTurns messages :=
    completedTurns_append fun message hMem =>
      isAnswer_of_unanswered hUnanswered hMem
  rw [← hTurns]
  exact if_neg (by rw [hCalls]; exact Bool.false_ne_true)

/- Messages of turns end with an answer. -/
theorem completedTurns_turns
    (turns : List Turn) :
    completedTurns (turns.flatMap Turn.messages) =
      turns.flatMap Turn.messages := by
  rcases List.eq_nil_or_concat turns with
    rfl | ⟨before, turn, rfl⟩
  · rfl
  · rw [List.concat_eq_append, List.flatMap_append,
      List.flatMap_singleton, Turn.messages, ← List.cons_append,
      ← List.append_assoc]
    exact completedTurns_of_answer rfl

/- Questions and answers of turns end with an answer. -/
theorem completedTurns_exchanges
    (turns : List Turn) :
    completedTurns (turns.flatMap Turn.exchange) =
      turns.flatMap Turn.exchange := by
  rcases List.eq_nil_or_concat turns with
    rfl | ⟨before, turn, rfl⟩
  · rfl
  · rw [List.concat_eq_append, List.flatMap_append,
      List.flatMap_singleton, Turn.exchange,
      ← List.singleton_append, ← List.append_assoc]
    exact completedTurns_of_answer rfl

/- The exchanges of turns are empty without a turn. -/
theorem isEmpty_exchanges
    (turns : List Turn) :
    (turns.flatMap Turn.exchange).isEmpty = turns.isEmpty := by
  cases turns with
  | nil => rfl
  | cons turn turns => rfl

/- The surgery removes an unanswered turn. -/
theorem withoutInterrupted_turns
    {turn : CancelledTurn}
    (hUnanswered : turn.answered = false)
    (turns : List Turn) :
    withoutInterrupted
        (turns.flatMap Turn.messages ++ turn.messages) =
      memory turns turn.question := by
  rw [withoutInterrupted_append hUnanswered,
    completedTurns_turns, filter_turns]
  dsimp only
  rw [isEmpty_exchanges, memory]
  cases turns with
  | nil => rfl
  | cons first turns => rfl

/- The surgery removes a turn behind what is remembered. -/
theorem withoutInterrupted_memory
    {turn : CancelledTurn}
    (hUnanswered : turn.answered = false)
    (turns : List Turn)
    (question : Content) :
    withoutInterrupted
        (memory turns question ++ turn.messages) =
      memory turns question := by
  rw [withoutInterrupted_append hUnanswered]
  cases turns with
  | nil => rfl
  | cons first turns =>
      have hMemory :
          memory (first :: turns) question =
            (first :: turns).flatMap Turn.exchange :=
        rfl
      rw [hMemory, completedTurns_exchanges, filter_exchanges]
      rfl

------------------------------------------------------------
-- Cancels
------------------------------------------------------------

variable {db : Db} {threadId : ThreadId}

/- The checkpoint behind a cancelled turn. -/
theorem checkpoints_cancelTurn
    (turn : CancelledTurn) :
    (db.cancelTurn threadId turn).checkpoints threadId =
      withoutInterrupted
        (db.checkpoints threadId ++ turn.messages) := by
  simp [Db.cancelTurn, clearInterruptedTools, Statement.modify,
    Statement.commit, Db.updateState]

/- Every answer that arrived stays in the checkpoint. -/
theorem countP_cancelTurns
    (db : Db)
    (threadId : ThreadId)
    (cancelled : List CancelledTurn) :
    ((db.cancelTurns threadId cancelled).checkpoints
        threadId).countP CheckpointMessage.isAnswer =
      (db.checkpoints threadId).countP
          CheckpointMessage.isAnswer +
        cancelled.countP CancelledTurn.answered := by
  induction cancelled generalizing db with
  | nil => rfl
  | cons turn cancelled ih =>
      have hTurn :
          ((db.cancelTurn threadId turn).checkpoints
              threadId).countP CheckpointMessage.isAnswer =
            (db.checkpoints threadId).countP
                CheckpointMessage.isAnswer +
              if turn.answered then 1 else 0 := by
        rw [checkpoints_cancelTurn, countP_withoutInterrupted,
          List.countP_append, countP_cancelledTurn]
      change
        ((Db.cancelTurns _ threadId cancelled).checkpoints
          threadId).countP _ = _
      rw [ih, hTurn, List.countP_cons, Nat.add_assoc,
        Nat.add_comm (List.countP _ cancelled)]

/- Turns cancelled before their answers leave what is known. -/
theorem checkpoints_cancelTurns
    {cancelled : List CancelledTurn}
    (hUnanswered :
      ∀ turn ∈ cancelled, turn.answered = false)
    {turns : List Turn}
    {question : Content}
    (hCheckpoint :
      db.checkpoints threadId = memory turns question) :
    (db.cancelTurns threadId cancelled).checkpoints threadId =
      memory turns question := by
  induction cancelled generalizing db with
  | nil => exact hCheckpoint
  | cons turn cancelled ih =>
      rw [List.forall_mem_cons] at hUnanswered
      apply ih hUnanswered.2
      rw [checkpoints_cancelTurn, hCheckpoint,
        withoutInterrupted_memory hUnanswered.1]

/-
  After completed turns, any number of cancelled turns leave
  the questions and answers of the completed turns, or the
  first question when there is none, exactly when each turn is
  cancelled before the chunk with its final answer.
-/
theorem cancelled_turns_forgotten
    (db : Db)
    (threadId : ThreadId)
    (turns : List Turn)
    (hCheckpoint :
      db.checkpoints threadId = turns.flatMap Turn.messages)
    (turn : CancelledTurn)
    (more : List CancelledTurn) :
    (db.cancelTurns threadId (turn :: more)).checkpoints
          threadId =
        memory turns turn.question ↔
      ∀ cancelled ∈ turn :: more, cancelled.answered = false := by
  constructor
  · intro hMemory
    have hCount :=
      countP_cancelTurns db threadId (turn :: more)
    rw [hMemory, countP_memory, hCheckpoint, countP_turns]
      at hCount
    have hZero :
        (turn :: more).countP CancelledTurn.answered = 0 := by
      omega
    intro cancelled hMem
    have hNot := List.countP_eq_zero.mp hZero cancelled hMem
    rwa [Bool.not_eq_true] at hNot
  · intro hUnanswered
    rw [List.forall_mem_cons] at hUnanswered
    apply checkpoints_cancelTurns hUnanswered.2
    rw [checkpoints_cancelTurn, hCheckpoint,
      withoutInterrupted_turns hUnanswered.1]

/- A round with one call. -/
def Round.single : Round where
  id := 1
  content := .str []
  calls := [⟨some [], none, none⟩]
  results := fun _ => .str []
  called := rfl

/- A turn that is cancelled behind the results of a tool. -/
def cancelledUse : CancelledTurn where
  question := .str []
  rounds := []
  last := .used .single

/- A turn that is cancelled when its answer arrives. -/
def cancelledAnswer : CancelledTurn where
  question := .str []
  rounds := [.single]
  last := .answered 2 (.str [])

/- A turn with a round of tools and an answer. -/
def completedUse : Turn where
  question := .str ['q']
  rounds := [.single]
  answerId := 2
  answer := .str ['a']

/- A checkpoint with one completed turn. -/
def completedDb : Db :=
  { Db.empty with checkpoints := fun _ => completedUse.messages }

/-
  Two turns that are cancelled during their rounds, at the
  start of a thread and behind a completed turn.
-/
theorem cancelled_turns_forgotten_twice :
    (Db.empty.cancelTurns 0
          [cancelledUse, cancelledUse]).checkpoints
        0 =
        [.human (.str [])] ∧
      (completedDb.cancelTurns 0
            [cancelledUse, cancelledUse]).checkpoints
          0 =
        [.human (.str ['q']), .ai 2 (.str ['a']) []] :=
  ⟨(cancelled_turns_forgotten .empty 0 [] rfl cancelledUse
      [cancelledUse]).mpr (by decide),
    (cancelled_turns_forgotten completedDb 0 [completedUse] rfl
      cancelledUse [cancelledUse]).mpr (by decide)⟩

/- An answer that arrived before the cancel is remembered. -/
theorem cancelled_answer_remembered :
    ¬ ∀ (db : Db) (threadId : ThreadId) (turns : List Turn)
        (turn : CancelledTurn),
      db.checkpoints threadId = turns.flatMap Turn.messages →
        (db.cancelTurn threadId turn).checkpoints threadId =
          memory turns turn.question := by
  intro hAll
  have hMemory := hAll .empty 0 [] cancelledAnswer rfl
  exact absurd hMemory (by decide)

end LegalAgent
