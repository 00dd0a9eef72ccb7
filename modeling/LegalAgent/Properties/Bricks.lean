import LegalAgent.Properties.Surgery
import LegalAgent.Properties.ToolCells

/-
  Threads that are not bricked.

  The agent node raises when a tool call of the checkpoint has
  no tool message.  A run leaves its thread answered when it
  completes or stops at its flag, and the surgery of a paused
  run does so too.  The other ends of a run do not look at the
  checkpoint.

  Key definitions include:
    * `Bricks`
    * `System.Attended`

  Key theorems include:
    * `sustains_mended`
    * `preserves_attended`
    * `opens_answered`
-/

------------------------------------------------------------
-- Answered Checkpoints
------------------------------------------------------------

namespace LegalAgent

open Library

section Messages

variable {messages messages' : List CheckpointMessage}

/- Every call of an answered checkpoint has a tool message. -/
theorem answered_iff :
    answered messages = true ↔
      ∀ message ∈ messages, ∀ call ∈ message.calls,
        call.id ∈
          messages.filterMap CheckpointMessage.answers? := by
  unfold answered
  simp only [List.all_eq_true, List.mem_flatMap,
    List.contains_iff_mem]
  constructor
  · intro hAll message hMem call hCall
    exact hAll call ⟨message, hMem, hCall⟩
  · rintro hAll call ⟨message, hMem, hCall⟩
    exact hAll message hMem call hCall

/- Fewer calls and more tool messages are answered, too. -/
theorem answered_of_calls
    (hCalls :
      ∀ message ∈ messages', ∀ call ∈ message.calls,
        ∃ old ∈ messages, call ∈ old.calls)
    (hAnswers :
      ∀ message ∈ messages,
        ∀ id, message.answers? = some id →
          message ∈ messages')
    (hAnswered : answered messages = true) :
    answered messages' = true := by
  rw [answered_iff] at hAnswered ⊢
  intro message hMem call hCall
  rcases hCalls message hMem call hCall with
    ⟨old, hOld, hOldCall⟩
  rcases
      List.mem_filterMap.mp (hAnswered old hOld call hOldCall) with
    ⟨answer, hAnswer, hId⟩
  exact
    List.mem_filterMap.mpr
      ⟨answer, hAnswers answer hAnswer _ hId, hId⟩

/- Messages without calls leave a checkpoint answered. -/
theorem answered_append
    (hPlain : ∀ message ∈ messages', message.calls = [])
    (hAnswered : answered messages = true) :
    answered (messages ++ messages') = true := by
  refine
    answered_of_calls ?_
      (fun _ hMem _ _ => List.mem_append_left _ hMem) hAnswered
  intro message hMem call hCall
  rcases List.mem_append.mp hMem with hOld | hNew
  · exact ⟨message, hOld, hCall⟩
  · rw [hPlain message hNew] at hCall
    cases hCall

/- A checkpoint without calls is answered. -/
theorem answered_of_plain
    (hPlain : ∀ message ∈ messages, message.calls = []) :
    answered messages = true := by
  rw [answered_iff]
  intro message hMem call hCall
  rw [hPlain message hMem] at hCall
  cases hCall

/- Only AI messages have an id. -/
theorem not_sameId_of_answers
    {pending message : CheckpointMessage}
    {callId : Option Text}
    (hAnswers : message.answers? = some callId) :
    pending.sameId message = false := by
  cases message with
  | tool => cases pending <;> rfl
  | human => cases hAnswers
  | ai => cases hAnswers

/- The removal of AI messages leaves a checkpoint answered. -/
theorem answered_without
    (pending : CheckpointMessage)
    (hAnswered : answered messages = true) :
    answered
        (messages.filter fun message =>
          !pending.sameId message) =
      true := by
  refine answered_of_calls ?_ ?_ hAnswered
  · intro message hMem call hCall
    exact ⟨message, List.mem_of_mem_filter hMem, hCall⟩
  · intro message hMem callId hAnswers
    refine List.mem_filter.mpr ⟨hMem, ?_⟩
    rw [not_sameId_of_answers hAnswers]
    rfl

theorem answered_withoutPending
    (hAnswered : answered messages = true) :
    answered (withoutPending messages) = true := by
  unfold withoutPending
  split
  · exact hAnswered
  · exact answered_without _ hAnswered

/- The answers of a checkpoint are in its completed turns. -/
theorem mem_completedTurns
    {message : CheckpointMessage}
    (hMem : message ∈ messages)
    (hAnswer : message.isAnswer = true) :
    message ∈ completedTurns messages := by
  have hRest :=
    List.takeWhile_append_dropWhile
      (p := fun message : CheckpointMessage => !message.isAnswer)
      (l := messages.reverse)
  have hReverse := List.mem_reverse.mpr hMem
  rw [← hRest] at hReverse
  rcases List.mem_append.mp hReverse with hBehind | hTurns
  · have hNot := List.mem_takeWhile_imp hBehind
    rw [hAnswer] at hNot
    cases hNot
  · exact List.mem_reverse.mpr hTurns

/-
  A cleared checkpoint has no calls, unless it has neither a
  question nor an answer and is kept whole.
-/
theorem withoutInterrupted_plain
    (messages : List CheckpointMessage) :
    (∀ message ∈ withoutInterrupted messages,
        message.calls = []) ∨
      withoutInterrupted messages = messages ∧
        (messages.any fun message =>
            message.isHuman || message.isAnswer) =
          false := by
  have hPlain :
      ∀ message : CheckpointMessage,
        (message.isHuman || message.isAnswer) = true →
          message.calls = [] := by
    intro message hEither
    cases message with
    | human => rfl
    | tool => rfl
    | ai id content calls =>
        have hCalls : calls.isEmpty = true := hEither
        exact List.isEmpty_iff.mp hCalls
  unfold withoutInterrupted
  split
  · rename_i hAll
    left
    intro message hMem
    simpa using List.all_eq_true.mp hAll message hMem
  · dsimp only
    split
    · rename_i hEmpty
      split
      · rename_i hNone
        refine Or.inr ⟨rfl, ?_⟩
        rw [List.any_eq_false]
        intro message hMem hEither
        have hHuman : message.isHuman = false := by
          have hNot := List.find?_eq_none.mp hNone message hMem
          simpa using hNot
        have hAnswer : message.isAnswer = true := by
          simpa [hHuman] using hEither
        have hMore :
            message ∈
              (completedTurns messages).filter fun message =>
                message.isHuman || message.isAnswer :=
          List.mem_filter.mpr
            ⟨mem_completedTurns hMem hAnswer, hEither⟩
        rw [List.isEmpty_iff.mp hEmpty] at hMore
        cases hMore
      · rename_i question hQuestion
        left
        intro message hMem
        rw [List.mem_singleton] at hMem
        subst hMem
        apply hPlain _
        rw [List.find?_some hQuestion]
        rfl
    · left
      intro message hMem
      exact hPlain message (List.mem_filter.mp hMem).2

/- A cleared checkpoint is answered if it is not kept whole. -/
theorem answered_withoutInterrupted
    (hTurns :
      answered messages = true ∨
        (messages.any fun message =>
            message.isHuman || message.isAnswer) =
          true) :
    answered (withoutInterrupted messages) = true := by
  rcases withoutInterrupted_plain messages with
    hPlain | ⟨hSame, hNone⟩
  · exact answered_of_plain hPlain
  · rcases hTurns with hAnswered | hAny
    · rw [hSame]
      exact hAnswered
    · rw [hNone] at hAny
      cases hAny

/- What the approval of some calls leaves of a message. -/
def trimCalls
    (pending : CheckpointMessage)
    (kept : List ToolCall)
    (message : CheckpointMessage) :
    CheckpointMessage :=
  if pending.sameId message then
    message.keepCalls kept
  else
    message

/- Trimmed calls of the pending message are answered, too. -/
theorem answered_trimCalls
    {pending : CheckpointMessage}
    {kept : List ToolCall}
    (hMem : pending ∈ messages)
    (hKept : ∀ call ∈ kept, call ∈ pending.calls)
    (hAnswered : answered messages = true) :
    answered
        (messages.map (trimCalls pending kept)) =
      true := by
  refine answered_of_calls ?_ ?_ hAnswered
  · intro message hNew call hCall
    rcases List.mem_map.mp hNew with ⟨old, hOld, rfl⟩
    unfold trimCalls at hCall
    split at hCall
    · cases old with
      | ai => exact ⟨pending, hMem, hKept call hCall⟩
      | human => cases hCall
      | tool => cases hCall
    · exact ⟨old, hOld, hCall⟩
  · intro message hOld callId hAnswers
    refine List.mem_map.mpr ⟨message, hOld, ?_⟩
    rw [trimCalls, not_sameId_of_answers hAnswers,
      if_neg Bool.false_ne_true]

/- A change of the pending message finds the message again. -/
theorem find?_map_pending
    {pending : CheckpointMessage}
    {change : CheckpointMessage → CheckpointMessage}
    (hFound :
      messages.find? (fun message => !message.calls.isEmpty) =
        some pending)
    (hPending : (change pending).calls ≠ [])
    (hSame : ∀ message, (change message).id? = message.id?)
    (hOthers :
      ∀ message,
        pending.sameId message = false →
          change message = message) :
    ∃ found,
      (messages.map change).find?
          (fun message => !message.calls.isEmpty) =
          some found ∧
        (found.id? = pending.id?) := by
  induction messages with
  | nil => cases hFound
  | cons message messages ih =>
      rw [List.find?_cons] at hFound
      rw [List.map_cons, List.find?_cons]
      split at hFound
      · cases hFound
        have hCalls :
            (!(change pending).calls.isEmpty) = true := by
          simpa using hPending
        rw [hCalls]
        exact ⟨_, rfl, hSame pending⟩
      · rename_i hNone
        split
        · rename_i hSome
          refine ⟨_, rfl, ?_⟩
          rw [hSame]
          by_contra hNe
          have hOther : pending.sameId message = false := by
            rw [Bool.eq_false_iff]
            intro hEq
            rcases (sameId_iff _ _).mp hEq with ⟨id, hId, hId'⟩
            exact hNe (hId'.trans hId.symm)
          rw [hOthers message hOther] at hSome
          rw [hSome] at hNone
          cases hNone
        · exact ih hFound

end Messages

/- Whether only the last message with calls may be unanswered. -/
def Db.Mended (db : Db) : Prop :=
  ∀ threadId,
    answered (withoutPending (db.checkpoints threadId)) = true

/- Messages without calls leave the pending message. -/
theorem pendingMessage?_append
    {messages more : List CheckpointMessage}
    (hPlain : ∀ message ∈ more, message.calls = []) :
    pendingMessage? (messages ++ more) =
      pendingMessage? messages := by
  unfold pendingMessage?
  rw [List.reverse_append, List.find?_append,
    List.find?_eq_none.mpr]
  · rfl
  · intro message hMem
    rw [hPlain message (List.mem_reverse.mp hMem)]
    simp

/- Messages without calls leave the others answered. -/
theorem answered_withoutPending_append
    {messages more : List CheckpointMessage}
    (hPlain : ∀ message ∈ more, message.calls = [])
    (hMended : answered (withoutPending messages) = true) :
    answered (withoutPending (messages ++ more)) = true := by
  unfold withoutPending at hMended ⊢
  rw [pendingMessage?_append hPlain]
  split
  · rename_i hNone
    rw [hNone] at hMended
    exact answered_append hPlain hMended
  · rename_i pending hPending
    rw [hPending] at hMended
    rw [List.filter_append]
    refine answered_append ?_ hMended
    intro message hMem
    exact hPlain message (List.mem_of_mem_filter hMem)

/- A new message with calls leaves the others answered. -/
theorem answered_withoutPending_agent
    {messages : List CheckpointMessage}
    (id : Nat)
    (content : Content)
    (calls : List ToolCall)
    (hAnswered : answered messages = true) :
    answered
        (withoutPending (messages ++ [.ai id content calls])) =
      true := by
  cases calls with
  | nil =>
      refine answered_withoutPending (answered_append ?_ hAnswered)
      intro message hMem
      rw [List.mem_singleton.mp hMem]
      rfl
  | cons call calls =>
      have hPending :
          pendingMessage?
              (messages ++ [.ai id content (call :: calls)]) =
            some (.ai id content (call :: calls)) := by
        unfold pendingMessage?
        rw [List.reverse_append, List.reverse_singleton,
          List.singleton_append, List.find?_cons_of_pos]
        rfl
      unfold withoutPending
      rw [hPending]
      dsimp only
      have hSelf :
          CheckpointMessage.sameId
              (.ai id content (call :: calls))
              (.ai id content (call :: calls)) =
            true := by
        simp [CheckpointMessage.sameId]
      rw [List.filter_append, List.filter_cons_of_neg,
        List.filter_nil, List.append_nil]
      · exact answered_without _ hAnswered
      · rw [hSelf]
        exact Bool.false_ne_true

/- Two messages with one id are the same to others. -/
theorem sameId_congr
    {message message' other other' : CheckpointMessage}
    (hMessage : message.id? = message'.id?)
    (hOther : other.id? = other'.id?) :
    message.sameId other = message'.sameId other' := by
  rw [Bool.eq_iff_iff, sameId_iff, sameId_iff, hMessage, hOther]

theorem id?_trimCalls
    (pending : CheckpointMessage)
    (kept : List ToolCall)
    (message : CheckpointMessage) :
    (trimCalls pending kept message).id? = message.id? := by
  unfold trimCalls
  split
  · cases message <;> rfl
  · rfl

/- Other messages than the pending one are not trimmed. -/
theorem trimCalls_of_other
    {pending message : CheckpointMessage}
    (kept : List ToolCall)
    (hOther : pending.sameId message = false) :
    trimCalls pending kept message = message := by
  rw [trimCalls, hOther, if_neg Bool.false_ne_true]

/- Trimmed calls of the pending message leave the others. -/
theorem withoutPending_trimCalls
    {messages : List CheckpointMessage}
    {pending : CheckpointMessage}
    {kept : List ToolCall}
    (hPending : pendingMessage? messages = some pending)
    (hKept : kept ≠ []) :
    withoutPending (messages.map (trimCalls pending kept)) =
      withoutPending messages := by
  rcases of_pendingMessage hPending with ⟨-, hCalls⟩
  have hTrimmed : (trimCalls pending kept pending).calls ≠ [] := by
    unfold trimCalls
    split
    · cases pending with
      | ai => exact hKept
      | human => exact absurd rfl hCalls
      | tool => exact absurd rfl hCalls
    · exact hCalls
  rcases
      find?_map_pending hPending hTrimmed
        (id?_trimCalls pending kept)
        fun _ hOther => trimCalls_of_other kept hOther with
    ⟨found, hFound, hId⟩
  have hReverse :
      pendingMessage? (messages.map (trimCalls pending kept)) =
        some found := by
    rw [pendingMessage?, ← List.map_reverse]
    exact hFound
  unfold withoutPending
  rw [hPending, hReverse]
  dsimp only
  have hSame :
      ((fun message => !found.sameId message) ∘
          trimCalls pending kept) =
        fun message => !pending.sameId message := by
    funext message
    rw [Function.comp_apply,
      sameId_congr hId (id?_trimCalls pending kept message)]
  rw [List.filter_map, hSame]
  refine (List.map_congr_left ?_).trans (List.map_id _)
  intro message hMem
  have hOther := (List.mem_filter.mp hMem).2
  rw [Bool.not_eq_true'] at hOther
  exact trimCalls_of_other kept hOther

------------------------------------------------------------
-- Writes
------------------------------------------------------------

section Exec

variable {inst : InstanceId} {op : Op} {world world' : World}
variable {value : op.Reply}

/- How a call changes a checkpoint. -/
inductive Rewrites
    (threadId : ThreadId)
    (messages : List CheckpointMessage) :
    Op → List CheckpointMessage → Prop where
  | kept {call} : Rewrites threadId messages call messages
  | plain {call more}
      (hPlain : ∀ message ∈ more, message.calls = []) :
      Rewrites threadId messages call (messages ++ more)
  | agent {id content calls}
      (hAnswered : answered messages = true) :
      Rewrites threadId messages
        (.graphNext threadId .agentNext
          (some (.agent content calls)))
        (messages ++ [.ai id content calls])
  | removed {call} :
      Rewrites threadId messages call (withoutPending messages)
  | cleared :
      Rewrites threadId messages (.clearInterruptedTools threadId)
        (withoutInterrupted messages)
  | trimmed {call pending kept}
      (hPending : pendingMessage? messages = some pending)
      (hKept : kept ≠ [])
      (hCalls : ∀ tool ∈ kept, tool ∈ pending.calls) :
      Rewrites threadId messages call
        (messages.map (trimCalls pending kept))

/- A changed checkpoint, or another thread's. -/
theorem rewrites_updateState
    {db : Db}
    {other threadId : ThreadId}
    {change :
      List CheckpointMessage → List CheckpointMessage}
    (hChange :
      Rewrites other (db.checkpoints other) op
        (change (db.checkpoints other))) :
    Rewrites threadId (db.checkpoints threadId) op
      ((db.updateState other change).checkpoints threadId) := by
  simp only [Db.updateState]
  split
  · rename_i hEq
    subst hEq
    exact hChange
  · exact .kept

/- Every call changes the checkpoints in one of the ways. -/
theorem rewrites_of_exec
    (hExec : exec inst op world = (.ok value, world'))
    (threadId : ThreadId) :
    Rewrites threadId (world.db.checkpoints threadId) op
      (world'.db.checkpoints threadId) := by
  cases op with
  | graphInput other text =>
      have hNext :
          graphInput other text world.db =
            .ok (value, world'.db) :=
        statement_of_onDb hExec
      simp only [graphInput, Except.ok.injEq, Prod.mk.injEq]
        at hNext
      rw [← hNext.2]
      refine rewrites_updateState (.plain ?_)
      intro message hMem
      rw [List.mem_singleton.mp hMem]
      rfl
  | graphNext other state step =>
      have hNext := statement_of_onDb hExec
      unfold graphNext at hNext
      split at hNext
      · simp only [Except.ok.injEq, Prod.mk.injEq] at hNext
        rw [← hNext.2]
        exact .kept
      · split at hNext
        · rename_i hAnswered
          simp only [Except.ok.injEq, Prod.mk.injEq] at hNext
          rw [← hNext.2]
          exact
            @rewrites_updateState _ world.db.drawId other
              threadId _ (.agent hAnswered)
        · cases hNext
      · simp only [Except.ok.injEq, Prod.mk.injEq] at hNext
        rw [← hNext.2]
        refine rewrites_updateState (.plain ?_)
        intro message hMem
        rcases List.mem_map.mp hMem with ⟨call, -, rfl⟩
        rfl
      · simp only [Except.ok.injEq, Prod.mk.injEq] at hNext
        rw [← hNext.2]
        exact .kept
      · cases hNext
  | rejectPending other =>
      cases hExec
      exact rewrites_updateState .removed
  | clearInterruptedTools other =>
      cases hExec
      exact rewrites_updateState .cleared
  | approvePartial other approved =>
      have hNext := statement_of_onDb hExec
      unfold approvePartial at hNext
      split at hNext
      · simp only [Except.ok.injEq, Prod.mk.injEq] at hNext
        rw [← hNext.2]
        exact .kept
      · rename_i pending hPending
        dsimp only at hNext
        split at hNext
        · simp only [Except.ok.injEq, Prod.mk.injEq] at hNext
          rw [← hNext.2]
          exact rewrites_updateState .removed
        · rename_i hKept
          split at hNext
          · simp only [Except.ok.injEq, Prod.mk.injEq] at hNext
            rw [← hNext.2]
            exact .kept
          · simp only [Except.ok.injEq, Prod.mk.injEq] at hNext
            rw [← hNext.2]
            refine
              rewrites_updateState (.trimmed hPending ?_ ?_)
            · simpa using hKept
            · intro call hMem
              exact List.mem_of_mem_filter hMem
  | forkState other transcript =>
      have hNext :
          forkState other transcript world.db =
            .ok (value, world'.db) :=
        statement_of_onDb hExec
      simp only [forkState, Statement.modify, Except.ok.injEq,
        Prod.mk.injEq] at hNext
      rw [← hNext.2]
      refine rewrites_updateState (.plain ?_)
      intro message hMem
      rcases List.mem_filterMap.mp hMem with ⟨seed, -, hSeed⟩
      split at hSeed <;> cases hSeed <;> rfl
  | _ =>
      have hSame := (frames_of_exec hExec).checkpoints rfl
      rw [hSame]
      exact .kept

end Exec

section Rewrites

variable {messages messages' : List CheckpointMessage}
variable {op : Op} {threadId : ThreadId}

/- The thread of an agent step that writes calls. -/
def Op.asks? : Op → Option ThreadId
| .graphNext threadId .agentNext (some (.agent _ (_ :: _))) =>
    some threadId
| _ => none

/- Only an agent step with calls leaves a checkpoint open. -/
theorem answered_of_rewrites
    (hRewrites : Rewrites threadId messages op messages')
    (hPlain : op.asks? ≠ some threadId)
    (hAnswered : answered messages = true) :
    answered messages' = true := by
  cases hRewrites with
  | kept => exact hAnswered
  | plain hNone => exact answered_append hNone hAnswered
  | @agent id content calls _ =>
      cases calls with
      | nil =>
          refine answered_append ?_ hAnswered
          intro message hMem
          rw [List.mem_singleton.mp hMem]
          rfl
      | cons => exact absurd rfl hPlain
  | removed => exact answered_withoutPending hAnswered
  | cleared =>
      exact answered_withoutInterrupted (Or.inl hAnswered)
  | trimmed hPending _ hCalls =>
      exact
        answered_trimCalls (of_pendingMessage hPending).1
          hCalls hAnswered

/- At most the last message with calls stays unanswered. -/
theorem mended_of_rewrites
    (hRewrites : Rewrites threadId messages op messages')
    (hMended : answered (withoutPending messages) = true) :
    answered (withoutPending messages') = true := by
  cases hRewrites with
  | kept => exact hMended
  | plain hNone =>
      exact answered_withoutPending_append hNone hMended
  | agent hAnswered =>
      exact answered_withoutPending_agent _ _ _ hAnswered
  | removed => exact answered_withoutPending hMended
  | cleared =>
      rcases withoutInterrupted_plain messages with
        hPlain | ⟨hSame, -⟩
      · exact answered_withoutPending (answered_of_plain hPlain)
      · rw [hSame]
        exact hMended
  | trimmed hPending hKept _ =>
      rw [withoutPending_trimCalls hPending hKept]
      exact hMended

end Rewrites

variable {registry : Registry}
variable {allowed : System → Action → Prop}

/- Every step keeps the other messages answered. -/
theorem sustains_mended :
    SustainsRoles registry allowed
      ⟨Db.Mended, fun _ _ => True, fun _ _ => True⟩ where
  idle := fun _ _ _ _ => trivial
  alone := fun _ _ _ => ⟨trivial, trivial⟩
  done := by
    intro system taskId task op value world' _ hExec hHolds
    refine
      ⟨?_, trivial,
        fun _ _ _ _ _ _ => ⟨trivial, trivial, trivial⟩⟩
    intro threadId
    exact
      mended_of_rewrites (rewrites_of_exec hExec threadId)
        (hHolds.globally threadId)
  failed := by
    intro system taskId fault task op exn _ _ hHolds
    exact
      ⟨hHolds.globally, trivial,
        fun _ _ _ _ _ _ => ⟨trivial, trivial, trivial⟩⟩
  advance := fun _ _ hHolds => ⟨hHolds, fun _ _ => trivial⟩
  heartbeat := fun _ _ hHolds => ⟨hHolds, fun _ _ => trivial⟩
  sweep := fun _ _ _ hHolds => ⟨hHolds, fun _ _ => trivial⟩
  collect := fun _ _ hHolds => ⟨hHolds, fun _ _ => trivial⟩

/- A surgery leaves every reachable checkpoint answered. -/
theorem mended_of_reachable
    {system : System}
    (hReachable : Reachable registry allowed system) :
    system.world.db.Mended :=
  globally_of_execution sustains_mended .refl
    (fun _ => rfl) hReachable

------------------------------------------------------------
-- Conditions
------------------------------------------------------------

/-
  The stages in which a driver has cleared the checkpoint, or
  has come to the end of the graph.
-/
def Stage.answers : Stage → Bool
| .stopping true _ | .finalizing _ => true
| .driving _ (some .ended) _ => true
| _ => false

def Role.answers : Role → Bool
| .on _ stage => stage.answers
| _ => false

/- The thread of the surgery that is due to a role. -/
def Role.mends? : Role → Option ThreadId
| .on job (.closing _ true) => some job.thread
| _ => none

/-
  The steps that may leave a thread with an unanswered call
  and nobody to remove it: an end of a running run other than
  its completion or its stop at the flag, a sweep, a start
  before the surgery of the run before, a lost surgery, calls
  that the driver of a run that has ended still writes, a
  clearing that finds nothing to keep, and a resume that finds
  no pending message.
-/
inductive Bricks (system : System) : Action → Prop where
  | ended {taskId task op runId threadId}
      (hCall :
        system.call? (.turn taskId false) = some (task, op))
      (hEnds : op.endsRunning = some runId)
      (hRole : task.phase.role.answers = false)
      (hRunning :
        system.world.db.status? runId = some .running)
      (hRun : system.world.db.hasRun runId threadId)
      (hOpen :
        answered (system.world.db.checkpoints threadId) = false) :
      Bricks system (.turn taskId false)
  | swept {action selects runId run}
      (hSweeps :
        action.sweeps system.world.db.now = some selects)
      (hRun : system.world.db.runs.get? runId = some run)
      (hSelects : selects run = true)
      (hOpen :
        answered (system.world.db.checkpoints run.threadId) =
          false) :
      Bricks system action
  | hurried {action task threadId model otherId other}
      (hCall :
        system.call? action =
          some (task, .openRun threadId model))
      (hOther : system.tasks otherId = some other)
      (hMends : other.phase.role.mends? = some threadId) :
      Bricks system action
  | failed {taskId fault task op threadId}
      (hCall :
        system.call? (.turn taskId fault) = some (task, op))
      (hMends : task.phase.role.mends? = some threadId)
      (hFails :
        fault = true ∨
          (exec task.inst op system.world).1.isOk = false)
      (hOpen :
        answered (system.world.db.checkpoints threadId) = false) :
      Bricks system (.turn taskId fault)
  | crashed {inst taskId task threadId}
      (hTask : system.tasks taskId = some task)
      (hInst : task.inst = inst)
      (hMends : task.phase.role.mends? = some threadId)
      (hOpen :
        answered (system.world.db.checkpoints threadId) = false) :
      Bricks system (.crash inst)
  | late {action task op job}
      (hCall : system.call? action = some (task, op))
      (hJob : task.phase.role.job? = some job)
      (hAsks : op.asks? = some job.thread)
      (hEnded : system.world.db.isActive job.run = false) :
      Bricks system action
  | uncleared {action task threadId}
      (hCall :
        system.call? action =
          some (task, .clearInterruptedTools threadId))
      (hOpen :
        answered (system.world.db.checkpoints threadId) = false)
      (hNone :
        ((system.world.db.checkpoints threadId).any fun message =>
            message.isHuman || message.isAnswer) =
          false) :
      Bricks system action
  | unresumed {action task threadId}
      (hCall :
        system.call? action = some (task, .graphResume threadId))
      (hOpen :
        answered (system.world.db.checkpoints threadId) = false)
      (hEnded :
        graphResume threadId system.world.db =
          .ok (.ended, system.world.db)) :
      Bricks system action

/- No step bricks a thread. -/
def Careful (system : System) (action : Action) : Prop :=
  ¬Bricks system action

------------------------------------------------------------
-- Answered Ends
------------------------------------------------------------

/-
  An active run whose driver has cleared the checkpoint or has
  come to the end of the graph has an answered checkpoint.
-/
def answeredOutline : Outline Db Role where
  globally := fun _ => True
  locally := fun db role =>
    ∀ job,
      role.job? = some job →
        role.answers = true →
          db.isActive job.run = true →
            answered (db.checkpoints job.thread) = true
  mutually := fun _ _ => True

/- A driver at such a stage writes its run. -/
theorem writer_of_answers
    {role : Role}
    {job : Job}
    (hJob : role.job? = some job)
    (hAnswers : role.answers = true) :
    role.writer? = some job.run := by
  cases role with
  | on job' stage =>
      cases hJob
      apply writer?_of_writes
      cases stage with
      | stopping => rfl
      | finalizing => rfl
      | driving => rfl
      | _ => cases hAnswers
  | _ => cases hJob

section Calls

variable {system : System} {taskId : TaskId} {task : Task}
variable {op : Op} {value : op.Reply} {world' : World}

/-
  How a driver comes to such a stage: it was at one, it has
  cleared the checkpoint, it has resumed a graph that was at
  its end, or it has found the checkpoint answered.
-/
theorem answers_after
    {inst : InstanceId}
    {world : World}
    {job : Job}
    {stage : Stage}
    (hExec : exec inst op world = (.ok value, world'))
    (hStage : Stage.Allows job stage op)
    (hAnswers : (stage.after op (.ok value)).answers = true) :
    op.wroteRuns value = false ∧ op.asks? = none ∧
      (stage.answers = true ∨
        op = .clearInterruptedTools job.thread ∨
          (op = .graphResume job.thread ∧
              graphResume job.thread world.db =
                .ok (.ended, world.db)) ∨
            answered (world.db.checkpoints job.thread) =
              true) := by
  cases hStage with
  | @drivingInput root message =>
      have hNext :
          graphInput job.thread message world.db =
            .ok (value, world'.db) :=
        statement_of_onDb hExec
      simp only [graphInput, Except.ok.injEq, Prod.mk.injEq]
        at hNext
      rw [← hNext.1] at hAnswers
      cases hAnswers
  | drivingResume =>
      have hNext :
          graphResume job.thread world.db =
            .ok (value, world'.db) :=
        statement_of_onDb hExec
      cases value with
      | ended =>
          have hSame : world'.db = world.db := by
            simp only [graphResume, Statement.query,
              Except.ok.injEq, Prod.mk.injEq] at hNext
            exact hNext.2.symm
          rw [hSame] at hNext
          exact
            ⟨rfl, rfl, Or.inr (Or.inr (Or.inl ⟨rfl, hNext⟩))⟩
      | agentNext => cases hAnswers
      | toolsNext => cases hAnswers
  | @drivingNext root state step =>
      have hNext :
          graphNext job.thread state step world.db =
            .ok (value, world'.db) :=
        statement_of_onDb hExec
      unfold graphNext at hNext
      split at hNext
      · exact ⟨rfl, rfl, Or.inl rfl⟩
      · split at hNext
        · rename_i content calls hAnswered
          simp only [Except.ok.injEq, Prod.mk.injEq] at hNext
          rw [← hNext.1] at hAnswers
          cases calls with
          | nil =>
              exact
                ⟨rfl, rfl, Or.inr (Or.inr (Or.inr hAnswered))⟩
          | cons => cases hAnswers
        · cases hNext
      · simp only [Except.ok.injEq, Prod.mk.injEq] at hNext
        rw [← hNext.1] at hAnswers
        cases hAnswers
      · simp only [Except.ok.injEq, Prod.mk.injEq] at hNext
        rw [← hNext.1] at hAnswers
        cases hAnswers
      · cases hNext
  | @drivingCell root state =>
      rcases state with _ | state
      · cases hAnswers
      · cases state with
        | ended => exact ⟨rfl, rfl, Or.inl rfl⟩
        | _ => cases hAnswers
  | @drivingResult root state =>
      rcases state with _ | state
      · cases hAnswers
      · cases state with
        | ended => exact ⟨rfl, rfl, Or.inl rfl⟩
        | _ => cases hAnswers
  | @stoppingResolve cleared =>
      cases cleared with
      | false => cases hAnswers
      | true => exact ⟨rfl, rfl, Or.inl rfl⟩
  | drivingClear => exact ⟨rfl, rfl, Or.inr (Or.inl rfl)⟩
  | gatedClear => exact ⟨rfl, rfl, Or.inr (Or.inl rfl)⟩
  | finalizingCommit => cases value <;> cases hAnswers
  | finalizingForged => cases value <;> cases hAnswers
  | drivingFail => cases value <;> cases hAnswers
  | stoppingEnd => cases value <;> cases hAnswers
  | failingEnd => cases value <;> cases hAnswers
  | leftEnd => cases value <;> cases hAnswers
  | choosingApprove => cases value <;> cases hAnswers
  | choosingReject => cases value <;> cases hAnswers
  | closingLog =>
      simp only [Stage.after] at hAnswers
      split at hAnswers <;> cases hAnswers
  | _ =>
      first
        | exact ⟨rfl, rfl, Or.inl hAnswers⟩
        | cases hAnswers

/- Nobody comes to such a stage by a failure. -/
theorem not_answers_failed
    {role : Role}
    {exn : Exn}
    (hAllows : role.Allows op) :
    (role.after op (.error exn)).answers = false := by
  cases hAllows with
  | on hStage => cases hStage <;> rfl
  | _ => rfl

/- A job that a role has after a call at such a stage. -/
theorem on_of_answers
    {role : Role}
    {reply : Except Exn op.Reply}
    {job : Job}
    (hAllows : role.Allows op)
    (hJob : (role.after op reply).job? = some job)
    (hAnswers : (role.after op reply).answers = true) :
    ∃ stage, role = .on job stage ∧ Stage.Allows job stage op := by
  cases hAllows with
  | on hStage =>
      cases hJob
      exact ⟨_, rfl, hStage⟩
  | freshOpen => rcases reply with _ | _ <;> cases hAnswers
  | freshActive =>
      rcases reply with _ | _ | ⟨_, status⟩
      · cases hAnswers
      · cases hAnswers
      · cases status <;> cases hAnswers
  | freshRead =>
      rcases reply with _ | _ | _ <;> cases hAnswers
  | lookingActive =>
      rcases reply with _ | _ | ⟨_, status⟩
      · cases hAnswers
      · cases hAnswers
      · cases status <;> cases hAnswers
  | watchingRunning =>
      rcases reply with _ | won
      · cases hAnswers
      · cases won <;> cases hAnswers
  | watchingPaused =>
      rcases reply with _ | won
      · cases hAnswers
      · cases won <;> cases hAnswers
  | _ =>
      first
        | cases hAnswers
        | (rcases reply with _ | _ <;> cases hAnswers)

/- A driver that comes to such a stage finds an answered thread. -/
theorem answered_of_mine
    (hCall :
      Calls registry Careful system taskId false task op
        (.ok value) world')
    (hExec :
      exec task.inst op system.world = (.ok value, world'))
    (hMine :
      answeredOutline.locally system.world.db task.phase.role)
    {job : Job}
    (hJob :
      (task.phase.role.after op (.ok value)).job? = some job)
    (hAnswers :
      (task.phase.role.after op (.ok value)).answers = true)
    (hActive : world'.db.isActive job.run = true) :
    answered (world'.db.checkpoints job.thread) = true := by
  rcases on_of_answers hCall.allows hJob hAnswers with
    ⟨stage, hRole, hStage⟩
  rw [hRole] at hAnswers
  rcases answers_after hExec hStage hAnswers with
    ⟨hKept, hPlain, hHow⟩
  have hRewrites := rewrites_of_exec hExec job.thread
  have hAsks : op.asks? ≠ some job.thread := by
    rw [hPlain]
    nofun
  rcases hHow with hWas | rfl | ⟨rfl, hEnded⟩ | hAnswered
  · apply answered_of_rewrites hRewrites hAsks
    refine hMine job ?_ ?_ ?_
    · rw [hRole]
      rfl
    · rw [hRole]
      exact hWas
    · rwa [Db.isActive,
        status?_of_runs ((frames_of_exec hExec).runs hKept)]
        at hActive
  · have hTurns :
        answered (system.world.db.checkpoints job.thread) =
            true ∨
          ((system.world.db.checkpoints job.thread).any
              fun message =>
                message.isHuman || message.isAnswer) =
            true := by
      by_contra hNeither
      rw [not_or, Bool.not_eq_true, Bool.not_eq_true]
        at hNeither
      exact
        hCall.permitted
          (.uncleared (call?_of_calls hCall) hNeither.1
            hNeither.2)
    cases hExec
    change
      answered
          ((system.world.db.updateState job.thread
            withoutInterrupted).checkpoints job.thread) =
        true
    dsimp only [Db.updateState]
    rw [if_pos rfl]
    exact answered_withoutInterrupted hTurns
  · apply answered_of_rewrites hRewrites hAsks
    by_contra hOpen
    rw [Bool.not_eq_true] at hOpen
    exact
      hCall.permitted
        (.unresumed (call?_of_calls hCall) hOpen hEnded)
  · exact answered_of_rewrites hRewrites hAsks hAnswered

/- An agent step is taken by a driver of its thread. -/
theorem on_of_asks
    {role : Role}
    {threadId : ThreadId}
    (hAllows : role.Allows op)
    (hAsks : op.asks? = some threadId) :
    ∃ job,
      role.job? = some job ∧ job.thread = threadId ∧
        role.writer? = some job.run := by
  cases hAllows with
  | @on job stage _ hStage =>
      cases hStage with
      | drivingNext =>
          simp only [Op.asks?] at hAsks
          split at hAsks
          · cases hAsks
            rename_i hOp
            cases hOp
            exact ⟨job, rfl, rfl, rfl⟩
          · cases hAsks
      | _ => cases hAsks
  | _ => cases hAsks

/- A role knows the thread of its run. -/
theorem hasRun_of_job
    {db : Db}
    {role : Role}
    {job : Job}
    (hJob : role.job? = some job)
    (hKnown : role.Known db) :
    db.hasRun job.run job.thread := by
  cases role with
  | on job' stage =>
      cases hJob
      exact hKnown.1
  | _ => cases hJob

/- A thread has one active run. -/
theorem alone_of_active
    {db : Db}
    {runId other : RunId}
    {threadId : ThreadId}
    (hFormed : db.WellFormed)
    (hRun : db.hasRun runId threadId)
    (hOther : db.hasRun other threadId)
    (hActive : db.isActive runId = true)
    (hActive' : db.isActive other = true) :
    runId = other := by
  rcases Option.map_eq_some_iff.mp hRun with
    ⟨run, hGet, hThread⟩
  rcases Option.map_eq_some_iff.mp hOther with
    ⟨run', hGet', hThread'⟩
  rw [Db.isActive, Db.status?, hGet] at hActive
  rw [Db.isActive, Db.status?, hGet'] at hActive'
  exact
    hFormed.alone runId other run run' hGet hGet'
      (hThread.trans hThread'.symm) hActive hActive'

/- The thread of another driver at such a stage stays answered. -/
theorem answered_of_theirs
    (hCall :
      Calls registry Careful system taskId false task op
        (.ok value) world')
    (hExec :
      exec task.inst op system.world = (.ok value, world'))
    {otherId : TaskId}
    {other : Task}
    (hNe : otherId ≠ taskId)
    (hOther : system.tasks otherId = some other)
    (hTheirs :
      answeredOutline.locally system.world.db other.phase.role)
    {job : Job}
    (hJob : other.phase.role.job? = some job)
    (hAnswers : other.phase.role.answers = true)
    (hActive : world'.db.isActive job.run = true) :
    answered (world'.db.checkpoints job.thread) = true := by
  have hFormed := wellFormed_of_reachable hCall.reachable
  have hWriter := writer_of_answers hJob hAnswers
  have hAlone : task.phase.role.writer? ≠ some job.run := by
    intro hMine
    exact
      hNe
        (writers_of_reachable hCall.reachable hOther
          hCall.present hWriter hMine)
  have hWas : system.world.db.isActive job.run = true := by
    rcases isActive_before (changesRuns_of_exec hExec)
        hFormed.freshRun hCall.allows hActive with
      hWas | hNew | ⟨status, ended, rfl⟩
    · exact hWas
    · rcases
          written_of_reachable hCall.reachable hOther hWriter with
        ⟨status, hStatus, -⟩
      rw [hNew, Db.status?, hFormed.freshRun] at hStatus
      cases hStatus
    · rcases pause_of_allows hCall.allows with
        ⟨-, -, job', root, hRole, hRun⟩
      rw [hRole, hRun] at hAlone
      exact absurd rfl hAlone
  refine
    answered_of_rewrites (rewrites_of_exec hExec job.thread) ?_
      (hTheirs job hJob hAnswers hWas)
  -- two active runs of one thread would be the same run
  intro hAsks
  rcases on_of_asks hCall.allows hAsks with
    ⟨job', hJob', hThread, hWriter'⟩
  have hRuns : system.world.db.isActive job'.run = true := by
    by_contra hEnded
    rw [Bool.not_eq_true] at hEnded
    rw [← hThread] at hAsks
    exact
      hCall.permitted
        (.late (call?_of_calls hCall) hJob' hAsks hEnded)
  have hMineIn :=
    hasRun_of_job hJob'
      (known_of_reachable hCall.reachable hCall.present)
  have hTheirsIn :=
    hasRun_of_job hJob
      (known_of_reachable hCall.reachable hOther)
  rw [hThread] at hMineIn
  have hSame := alone_of_active hFormed hMineIn hTheirsIn hRuns hWas
  rw [hSame] at hWriter'
  exact hAlone hWriter'

end Calls

/- Every step keeps such stages answered. -/
theorem sustains_answered :
    SustainsRoles registry Careful answeredOutline where
  idle := by
    intro db role hIdle _ job hJob
    cases role with
    | aside => cases hJob
    | fresh => cases hJob
    | _ => cases hIdle
  alone := fun _ _ _ => ⟨trivial, trivial⟩
  done := by
    intro system taskId task op value world' hCall hExec hHolds
    refine ⟨trivial, ?_, ?_⟩
    · intro job hJob hAnswers hActive
      exact
        answered_of_mine hCall hExec
          (hHolds.locally taskId task hCall.present) hJob
          hAnswers hActive
    · intro otherId other hNe hOther hTheirs _
      refine ⟨?_, trivial, trivial⟩
      intro job hJob hAnswers hActive
      exact
        answered_of_theirs hCall hExec hNe hOther hTheirs hJob
          hAnswers hActive
  failed := by
    intro system taskId fault task op exn hCall _ _
    refine
      ⟨trivial, ?_,
        fun _ _ _ _ hTheirs _ => ⟨hTheirs, trivial, trivial⟩⟩
    intro job _ hAnswers
    rw [not_answers_failed hCall.allows] at hAnswers
    cases hAnswers
  advance := fun _ _ _ => ⟨trivial, fun _ hMine => hMine⟩
  heartbeat := by
    intro db runIds _
    refine ⟨trivial, ?_⟩
    intro role hMine job hJob hAnswers hActive
    rw [Db.isActive, status?_heartbeat] at hActive
    exact hMine job hJob hAnswers hActive
  sweep := by
    intro db selects _ _
    refine ⟨trivial, ?_⟩
    intro role hMine job hJob hAnswers hActive
    exact hMine job hJob hAnswers (active_of_sweep hActive)
  collect := fun _ _ _ => ⟨trivial, fun _ hMine => hMine⟩

/- A driver at such a stage has an answered thread. -/
theorem answered_of_reachable
    {system : System}
    (hReachable : Reachable registry Careful system)
    {taskId : TaskId}
    {task : Task}
    {job : Job}
    (hTask : system.tasks taskId = some task)
    (hJob : task.phase.role.job? = some job)
    (hAnswers : task.phase.role.answers = true)
    (hActive : system.world.db.isActive job.run = true) :
    answered (system.world.db.checkpoints job.thread) = true :=
  (roles_of_reachable sustains_answered trivial
    hReachable).locally taskId task hTask job hJob hAnswers
    hActive

------------------------------------------------------------
-- Attended Threads
------------------------------------------------------------

/-
  A thread with an unanswered call has an active run or a
  surgery that is due.
-/
def System.Attended (system : System) : Prop :=
  ∀ threadId,
    answered (system.world.db.checkpoints threadId) = false →
      (∃ runId,
          system.world.db.hasRun runId threadId ∧
            system.world.db.isActive runId = true) ∨
        ∃ taskId task,
          system.tasks taskId = some task ∧
            task.phase.role.mends? = some threadId

section Calls

variable {system : System} {taskId : TaskId} {task : Task}
variable {op : Op} {value : op.Reply} {world' : World}
variable {runId : RunId} {threadId : ThreadId}

/- A surgery stays due until it is done. -/
theorem mends_after
    {role : Role}
    (hAllows : role.Allows op)
    (hMends : role.mends? = some threadId) :
    (role.after op (.ok value)).mends? = some threadId ∨
      op = .rejectPending threadId := by
  cases hAllows with
  | @on job stage _ hStage =>
      cases hStage with
      | closingMark => exact Or.inl hMends
      | @closingResolve graph marker =>
          cases graph with
          | false => cases hMends
          | true => exact Or.inl hMends
      | closingClear =>
          exact
            Or.inr
              (congrArg Op.rejectPending
                (Option.some_inj.mp hMends))
      | _ => cases hMends
  | _ => cases hMends

/-
  A call that ends a run makes its surgery due, or it is one
  that ends a running run.
-/
theorem mends_of_ended
    {role : Role}
    (hAllows : role.Allows op)
    (hEnded : op.ended value = some runId) :
    (∃ job,
        (role.after op (.ok value)).mends? = some job.thread ∧
          (role.after op (.ok value)).job? = some job ∧
            job.run = runId) ∨
      op.endsRunning = some runId := by
  cases op with
  | tryTransition other fromStatus toStatus ended =>
      cases value with
      | false => cases hEnded
      | true =>
          cases hAllows with
          | on hStage =>
              cases hStage <;>
                first
                  | exact Or.inr hEnded
                  | exact
                      Or.inl
                        ⟨_, rfl, rfl, Option.some_inj.mp hEnded⟩
          | watchingRunning => exact Or.inr hEnded
          | watchingPaused =>
              exact
                Or.inl ⟨_, rfl, rfl, Option.some_inj.mp hEnded⟩
  | commitAgentAnswer =>
      cases value with
      | none => cases hEnded
      | some row => exact Or.inr hEnded
  | _ => cases hEnded

/- A driver ends its own run. -/
theorem run_of_ends
    {role : Role}
    {job : Job}
    (hAllows : role.Allows op)
    (hJob : role.job? = some job)
    (hEnds : op.endsRunning = some runId) :
    job.run = runId := by
  cases hAllows with
  | on hStage =>
      cases hJob
      cases hStage <;>
        first
          | exact Option.some_inj.mp hEnds
          | cases hEnds
  | _ => cases hJob

/- A run that ends leaves its thread attended. -/
theorem attended_of_ended
    (hCall :
      Calls registry Careful system taskId false task op
        (.ok value) world')
    (hExec :
      exec task.inst op system.world = (.ok value, world'))
    (hRun : system.world.db.hasRun runId threadId)
    (hEnded : op.ended value = some runId)
    (hWas :
      answered (system.world.db.checkpoints threadId) = false) :
    (task.phase.role.after op (.ok value)).mends? =
      some threadId := by
  have hFormed := wellFormed_of_reachable hCall.reachable
  rcases mends_of_ended hCall.allows hEnded with
    ⟨job, hMends, hJob, rfl⟩ | hEnds
  · have hKnown :=
      known_after hExec hFormed.freshRun
        (fun _ _ =>
          hasRun_of_changes (changesRuns_of_exec hExec)
            hFormed.freshRun)
        hCall.allows
        (known_of_reachable hCall.reachable hCall.present)
    have hIn := hasRun_of_job hJob hKnown
    have hStays :=
      hasRun_of_changes (changesRuns_of_exec hExec)
        hFormed.freshRun hRun
    rw [Db.hasRun, hIn, Option.some_inj] at hStays
    rw [hMends, hStays]
  · exfalso
    have hRunning :=
      running_of_ended (changesRuns_of_exec hExec) hEnded hEnds
    cases hAnswers : task.phase.role.answers with
    | false =>
        exact
          hCall.permitted
            (.ended (call?_of_calls hCall) hEnds hAnswers
              hRunning hRun hWas)
    | true =>
        cases hRole : task.phase.role with
        | on job stage =>
            have hJob : task.phase.role.job? = some job := by
              rw [hRole]
              rfl
            have hSame := run_of_ends hCall.allows hJob hEnds
            have hActive :
                system.world.db.isActive job.run = true := by
              rw [hSame, Db.isActive, hRunning]
              rfl
            have hIn :=
              hasRun_of_job hJob
                (known_of_reachable hCall.reachable
                  hCall.present)
            rw [Db.hasRun, hSame, hRun, Option.some_inj] at hIn
            have hDone :=
              answered_of_reachable hCall.reachable
                hCall.present hJob hAnswers hActive
            rw [← hIn, hWas] at hDone
            cases hDone
        | _ =>
            rw [hRole] at hAnswers
            cases hAnswers

/- A thread that is open behind a call is attended. -/
theorem attended_of_exec
    (hAttended : system.Attended)
    (hCall :
      Calls registry Careful system taskId false task op
        (.ok value) world')
    (hExec :
      exec task.inst op system.world = (.ok value, world'))
    (hOpen :
      answered (world'.db.checkpoints threadId) = false) :
    (∃ runId,
        world'.db.hasRun runId threadId ∧
          world'.db.isActive runId = true) ∨
      (task.phase.role.after op (.ok value)).mends? =
          some threadId ∨
        ∃ other task',
          other ≠ taskId ∧ system.tasks other = some task' ∧
            task'.phase.role.mends? = some threadId := by
  have hFormed := wellFormed_of_reachable hCall.reachable
  have hChanges := changesRuns_of_exec hExec
  have hRewrites := rewrites_of_exec hExec threadId
  cases hWas :
      answered (system.world.db.checkpoints threadId) with
  | true =>
      -- only an agent step of the active run opens a thread
      have hAsks : op.asks? = some threadId := by
        by_contra hPlain
        rw [answered_of_rewrites hRewrites hPlain hWas] at hOpen
        cases hOpen
      rcases on_of_asks hCall.allows hAsks with
        ⟨job, hJob, rfl, -⟩
      have hActive :
          system.world.db.isActive job.run = true := by
        by_contra hEnded
        rw [Bool.not_eq_true] at hEnded
        exact
          hCall.permitted
            (.late (call?_of_calls hCall) hJob hAsks hEnded)
      have hIn :=
        hasRun_of_job hJob
          (known_of_reachable hCall.reachable hCall.present)
      refine
        Or.inl
          ⟨job.run,
            hasRun_of_changes hChanges hFormed.freshRun hIn, ?_⟩
      apply
        (isActive_of_changes hChanges hFormed.freshRun
          hCall.allows hActive).resolve_right
      intro hEnded
      cases op <;> first | cases hAsks | cases hEnded
  | false =>
      rcases hAttended threadId hWas with
        ⟨runId, hRun, hActive⟩ | ⟨other, task', hTask, hMends⟩
      · rcases isActive_of_changes hChanges hFormed.freshRun
            hCall.allows hActive with
          hStill | hEnded
        · exact
            Or.inl
              ⟨runId,
                hasRun_of_changes hChanges hFormed.freshRun hRun,
                hStill⟩
        · exact
            Or.inr
              (Or.inl
                (attended_of_ended hCall hExec hRun hEnded hWas))
      · by_cases hEq : other = taskId
        · subst hEq
          rw [hCall.present, Option.some_inj] at hTask
          subst hTask
          have hEither :
              (task.phase.role.after op (.ok value)).mends? =
                  some threadId ∨
                _ :=
            mends_after hCall.allows hMends
          rcases hEither with hStays | rfl
          · exact Or.inr (Or.inl hStays)
          · exfalso
            have hMended :=
              mended_of_reachable hCall.reachable threadId
            cases hExec
            change
              answered
                  ((system.world.db.updateState threadId
                    withoutPending).checkpoints threadId) =
                false
              at hOpen
            dsimp only [Db.updateState] at hOpen
            rw [if_pos rfl, hMended] at hOpen
            cases hOpen
        · exact Or.inr (Or.inr ⟨other, task', hEq, hTask, hMends⟩)

end Calls

/- A surgery that is needed is not that of a failing task. -/
theorem other_of_mends
    {system : System}
    {taskId other : TaskId}
    {fault : Bool}
    {task task' : Task}
    {op : Op}
    {exn : Exn}
    {world' : World}
    {threadId : ThreadId}
    (hCall :
      Calls registry Careful system taskId fault task op
        (.error exn) world')
    (hOpen :
      answered (system.world.db.checkpoints threadId) = false)
    (hTask : system.tasks other = some task')
    (hMends : task'.phase.role.mends? = some threadId) :
    other ≠ taskId := by
  rintro rfl
  rw [hCall.present, Option.some_inj] at hTask
  subst hTask
  have hFails := fails_of_calls hCall
  exact
    hCall.permitted
      (.failed (call?_of_calls hCall) hMends hFails hOpen)

/- Every step keeps the threads attended. -/
theorem preserves_attended :
    Preserves registry Careful System.Attended where
  request := by
    intro system taskId inst request _ _ hNone hAttended threadId
      hOpen
    rcases hAttended threadId hOpen with
      hRun | ⟨other, task, hTask, hMends⟩
    · exact Or.inl hRun
    · exact
        Or.inr
          ⟨other, task, present_of_added hNone hTask, hMends⟩
  call := by
    intro system taskId fault task op reply world' next hCall _
      hAttended threadId hOpen
    have hOpen' :
        answered (world'.db.checkpoints threadId) = false :=
      hOpen
    have hExecutes := hCall.executes
    cases hExecutes with
    | done hExec =>
        rcases attended_of_exec hAttended hCall hExec hOpen' with
          hRun | hMends | ⟨other, task', hNe, hTask, hMends⟩
        · exact Or.inl hRun
        · exact Or.inr ⟨taskId, _, if_pos rfl, hMends⟩
        · refine Or.inr ⟨other, task', ?_, hMends⟩
          exact present_of_other hNe hTask
    | refused _ | fault _ =>
        rcases hAttended threadId hOpen' with
          hRun | ⟨other, task', hTask, hMends⟩
        · exact Or.inl hRun
        · have hNe := other_of_mends hCall hOpen' hTask hMends
          exact
            Or.inr
              ⟨other, task', present_of_other hNe hTask, hMends⟩
  sent := by
    intro system taskId task event next _ hTask _ hRole hAttended
      threadId hOpen
    rcases hAttended threadId hOpen with
      hRun | ⟨other, task', hTask', hMends⟩
    · exact Or.inl hRun
    · refine Or.inr ⟨other, task', ?_, hMends⟩
      have hNe : other ≠ taskId := by
        rintro rfl
        rw [hTask, Option.some_inj] at hTask'
        rw [← hTask', hRole] at hMends
        cases hMends
      exact present_of_other hNe hTask'
  advance := fun _ _ _ hAttended => hAttended
  heartbeat := by
    intro system inst _ _ hAttended threadId hOpen
    rcases hAttended threadId hOpen with
      ⟨runId, hRun, hActive⟩ | hTask
    · refine Or.inl ⟨runId, ?_, ?_⟩
      · change
          (system.world.db.heartbeat
            (system.world.instances inst).active).hasRun runId
            threadId
        rw [Db.hasRun, runs_heartbeat, Table.get?_update,
          Option.map_map]
        refine Eq.trans ?_ hRun
        congr 1
        funext run
        rw [Function.comp_apply]
        split <;> rfl
      · change
          (system.world.db.heartbeat
            (system.world.instances inst).active).isActive
            runId =
            true
        rwa [Db.isActive, status?_heartbeat]
    · exact Or.inr hTask
  sweep := by
    intro system action selects _ hCareful hSweeps hAttended
      threadId hOpen
    rcases hAttended threadId hOpen with
      ⟨runId, hRun, hActive⟩ | hTask
    · left
      rcases Option.map_eq_some_iff.mp hRun with
        ⟨run, hGet, rfl⟩
      have hSpared : selects run = false := by
        by_contra hSelects
        rw [Bool.not_eq_false] at hSelects
        exact hCareful (.swept hSweeps hGet hSelects hOpen)
      refine ⟨runId, ?_, ?_⟩
      · change
          (system.world.db.sweep selects).hasRun runId _
        rw [Db.hasRun, get?_sweep, hGet, Option.map_some,
          Option.map_some, hSpared, if_neg Bool.false_ne_true]
      · change
          (system.world.db.sweep selects).isActive runId = true
        rw [Db.isActive, status?_sweep, hGet, Option.map_some,
          hSpared, if_neg Bool.false_ne_true]
        rwa [Db.isActive, Db.status?, hGet] at hActive
    · exact Or.inr hTask
  collect := fun _ _ _ hAttended => hAttended
  crash := by
    intro system inst _ hCareful hAttended threadId hOpen
    rcases hAttended threadId hOpen with
      hRun | ⟨taskId, task, hTask, hMends⟩
    · exact Or.inl hRun
    · refine Or.inr ⟨taskId, task, ?_, hMends⟩
      have hNe : task.inst ≠ inst := by
        intro hInst
        exact hCareful (.crashed hTask hInst hMends hOpen)
      simp [System.survivors, hTask, hNe]

/-
  A run that is opened finds every tool call of its thread
  answered, as long as no step bricks a thread.
-/
theorem opens_answered
    {system : System}
    {action : Action}
    {task : Task}
    {threadId : ThreadId}
    {model : Option Text}
    (hReachable : Reachable registry Careful system)
    (hCareful : Careful system action)
    (hCall :
      system.call? action = some (task, .openRun threadId model))
    (hOpens :
      (exec task.inst (.openRun threadId model)
          system.world).1.isOk =
        true) :
    answered (system.world.db.checkpoints threadId) = true := by
  by_contra hOpen
  rw [Bool.not_eq_true] at hOpen
  have hAttended : system.Attended :=
    preserved_of_reachable preserves_attended
      (fun _ hNone => nomatch hNone) hReachable
  rcases hAttended threadId hOpen with
    ⟨runId, hRun, hActive⟩ | ⟨other, task', hTask, hMends⟩
  · cases hExec :
        exec task.inst (.openRun threadId model)
          system.world with
    | mk reply world' =>
        cases reply with
        | error exn =>
            rw [hExec] at hOpens
            cases hOpens
        | ok value =>
            rcases of_openRun (statement_of_onDb hExec) with
              ⟨hValue, -, hAlone, -⟩
            rcases Option.map_eq_some_iff.mp hRun with
              ⟨run, hGet, hThread⟩
            rw [Db.isActive, Db.status?, hGet] at hActive
            have hSame :=
              activeElsewhere_eq_false hAlone hGet hThread
                hActive
            have hFresh :=
              (wellFormed_of_reachable hReachable).freshRun
            rw [hSame, hValue, hFresh] at hGet
            cases hGet
  · exact hCareful (.hurried hCall hTask hMends)

------------------------------------------------------------
-- Runs Of The Server
------------------------------------------------------------

/- Whether a call neither decides a pause nor cuts a graph. -/
def Op.goesOn : Op → Bool
| .clearInterruptedTools _ | .graphResume _
| .tryTransition _ .awaitingApproval _ _ => false
| _ => true

/-
  Whether a step succeeds and goes on with its run, or ends it
  with an answered checkpoint.
-/
def System.plain (system : System) (action : Action) : Bool :=
  match action, system.call? action with
  | .turn _ fault, some (task, op) =>
      !fault && (exec task.inst op system.world).1.isOk &&
        op.goesOn &&
          (op.endsRunning.all fun runId =>
            (system.world.db.runs.get? runId).all fun run =>
              answered
                (system.world.db.checkpoints run.threadId)) &&
            task.phase.role.job?.all fun job =>
              system.world.db.isActive job.run ||
                op.asks?.isNone
  | .turn .., none => true
  | .request .., _ | .advance _, _ | .heartbeat _, _
  | .collectEvents _, _ => true
  | _, _ => false

/- A surgery is due to a role that mends a thread. -/
theorem operates_of_mends
    {role : Role}
    {threadId : ThreadId}
    (hMends : role.mends? = some threadId) :
    ∃ runId, role.operates? = some runId := by
  cases role with
  | on job stage =>
      cases stage with
      | closing cells graph =>
          cases graph with
          | false => cases hMends
          | true => exact ⟨job.run, rfl⟩
      | _ => cases hMends
  | _ => cases hMends

/- No surgery becomes due in plain steps. -/
theorem sustains_unoperated :
    SustainsRoles registry
      (fun system action => system.plain action = true)
      ⟨fun _ => True, fun _ role => role.operates? = none,
        fun _ _ => True⟩ where
  idle := by
    intro db role hIdle _
    cases role <;> first | rfl | cases hIdle
  alone := fun _ _ _ => ⟨trivial, trivial⟩
  done := by
    intro system taskId task op value world' hCall _ hHolds
    refine
      ⟨trivial, ?_,
        fun _ _ _ _ hOther _ => ⟨hOther, trivial, trivial⟩⟩
    have hNone : task.phase.role.operates? = none :=
      hHolds.locally taskId task hCall.present
    change (task.phase.role.after op (.ok value)).operates? = none
    rw [Option.eq_none_iff_forall_ne_some]
    intro runId hDue
    rcases operates_after hCall.allows hDue with
      hWas | ⟨status, ended, rfl, -⟩
    · rw [hNone] at hWas
      cases hWas
    · have hPlain := hCall.permitted
      simp [System.plain, call?_of_calls hCall, Op.goesOn]
        at hPlain
  failed := by
    intro system taskId fault task op exn hCall _ hHolds
    refine
      ⟨trivial, ?_,
        fun _ _ _ _ hOther _ => ⟨hOther, trivial, trivial⟩⟩
    have hNone : task.phase.role.operates? = none :=
      hHolds.locally taskId task hCall.present
    change (task.phase.role.after op (.error exn)).operates? = none
    rw [Option.eq_none_iff_forall_ne_some]
    intro runId hDue
    rw [operates_failed hCall.allows hDue] at hNone
    cases hNone
  advance := fun _ _ _ => ⟨trivial, fun _ hMine => hMine⟩
  heartbeat := fun _ _ _ => ⟨trivial, fun _ hMine => hMine⟩
  sweep := fun _ _ _ _ => ⟨trivial, fun _ hMine => hMine⟩
  collect := fun _ _ _ => ⟨trivial, fun _ hMine => hMine⟩

/- A plain step behind plain steps bricks no thread. -/
theorem careful_of_plain
    {system : System}
    {action : Action}
    (hReachable :
      Reachable registry
        (fun system action => system.plain action = true) system)
    (hPlain : system.plain action = true) :
    Careful system action := by
  intro hBricks
  have hUndue :
      ∀ taskId task threadId,
        system.tasks taskId = some task →
          task.phase.role.mends? ≠ some threadId := by
    intro taskId task threadId hTask hMends
    rcases operates_of_mends hMends with ⟨runId, hDue⟩
    have hNone : task.phase.role.operates? = none :=
      (roles_of_reachable sustains_unoperated trivial
        hReachable).locally taskId task hTask
    rw [hNone] at hDue
    cases hDue
  have hTask :
      ∀ {taskId fault task op},
        system.call? (.turn taskId fault) = some (task, op) →
          system.tasks taskId = some task := by
    intro taskId fault task op hCall
    simp only [System.call?, Option.bind_eq_some_iff,
      Option.map_eq_some_iff] at hCall
    rcases hCall with ⟨task', hTask, op', -, hEq⟩
    cases hEq
    exact hTask
  cases hBricks with
  | ended hCall hEnds _ hRunning hRun hOpen =>
      rcases Option.map_eq_some_iff.mp hRun with
        ⟨run, hGet, rfl⟩
      simp [System.plain, hCall, hEnds, hGet, hOpen] at hPlain
  | swept hSweeps _ _ _ =>
      cases action with
      | reconcile | timeoutApprovals | timeoutRuns =>
          cases hPlain
      | _ => cases hSweeps
  | hurried _ hOther hMends => exact hUndue _ _ _ hOther hMends
  | failed hCall hMends => exact hUndue _ _ _ (hTask hCall) hMends
  | crashed hPresent _ hMends =>
      exact hUndue _ _ _ hPresent hMends
  | late hCall hJob hAsks hEnded =>
      cases action with
      | turn taskId fault =>
          simp [System.plain, hCall, hJob, hAsks, hEnded]
            at hPlain
      | _ => cases hCall
  | uncleared hCall =>
      cases action with
      | turn taskId fault =>
          simp [System.plain, hCall, Op.goesOn] at hPlain
      | _ => cases hCall
  | unresumed hCall =>
      cases action with
      | turn taskId fault =>
          simp [System.plain, hCall, Op.goesOn] at hPlain
      | _ => cases hCall

/- Plain runs brick no thread. -/
theorem careful_of_plainRun
    {system : System}
    (hReachable :
      Reachable registry
        (fun system action => system.plain action = true)
        system) :
    Reachable registry Careful system := by
  induction hReachable with
  | refl => exact .refl
  | tail hRun hNext ih =>
      rcases hNext with ⟨action, hPlain, hStep⟩
      exact
        ih.tail ⟨action, careful_of_plain hRun hPlain, hStep⟩

/- The thread in which an action opens a run. -/
def System.opens?
    (system : System)
    (action : Action) :
    Option ThreadId :=
  match system.call? action with
  | some (task, .openRun threadId model) =>
      if (exec task.inst (.openRun threadId model)
          system.world).1.isOk then
        some threadId
      else
        none
  | _ => none

theorem of_opens
    {system : System}
    {action : Action}
    {threadId : ThreadId}
    (hOpens : system.opens? action = some threadId) :
    ∃ task model,
      system.call? action =
          some (task, .openRun threadId model) ∧
        (exec task.inst (.openRun threadId model)
            system.world).1.isOk =
          true := by
  unfold System.opens? at hOpens
  split at hOpens
  · rename_i task other model hCall
    split at hOpens
    · rename_i hOk
      cases hOpens
      exact ⟨task, model, hCall, hOk⟩
    · cases hOpens
  · cases hOpens

/- A question behind a run that has called a tool. -/
def askedAgain : List Action :=
  [.request 0 0 (.createThread none)] ++ turns 0 1 ++
    [.request 1 0
      (.start 0 [] none
        [.agent (.str []) (toolCalls ["a"]),
          .tools fun _ => ⟨.str [], .absent⟩,
          .agent (.str ['o', 'k']) []])] ++
    turns 1 27 ++ [.request 2 0 (.start 0 [] none [])]

/- The call of a tool is answered when the question is asked. -/
theorem opens_answered_again :
    ∃ system task model,
      execute (System.step .single) askedAgain .initial =
          some system ∧
        system.call? (.turn 2 false) =
            some (task, .openRun 0 model) ∧
          ((system.world.db.checkpoints 0).flatMap
              CheckpointMessage.calls).length = 1 ∧
            answered (system.world.db.checkpoints 0) = true := by
  rcases
      exists_of_execute
        (show
          (execute (System.step .single) askedAgain .initial).map
              (fun system =>
                (((system.world.db.checkpoints 0).flatMap
                    CheckpointMessage.calls).length,
                  system.opens? (.turn 2 false),
                  system.plain (.turn 2 false))) =
            some (1, some 0, true) by
          decide +kernel) with
    ⟨system, hSystem, hView⟩
  obtain ⟨hCalls, hOpens, hPlain⟩ :
      ((system.world.db.checkpoints 0).flatMap
            CheckpointMessage.calls).length = 1 ∧
        system.opens? (.turn 2 false) = some 0 ∧
          system.plain (.turn 2 false) = true := by
    simpa only [Prod.mk.injEq] using hView
  rcases of_opens hOpens with ⟨task, model, hCall, hOk⟩
  have hPasses :
      passes (System.step .single) System.plain askedAgain
          .initial =
        true := by
    decide +kernel
  have hReachable :
      Reachable .single
        (fun system action => system.plain action = true)
        system :=
    run_of_execute hSystem hPasses fun _ _ hTest => hTest
  exact
    ⟨system, task, model, hSystem, hCall, hCalls,
      opens_answered (careful_of_plainRun hReachable)
        (careful_of_plain hReachable hPlain) hCall hOk⟩

/-
  A question behind a run whose stream raised at its tools.
-/
def brickedThread : List Action :=
  [.request 0 0 (.createThread none)] ++ turns 0 1 ++
    [.request 1 0
      (.start 0 [] none
        [.agent (.str []) (toolCalls ["a"]), .raised])] ++
    turns 1 19 ++ [.request 2 0 (.start 0 [] none [])]

/- The run of the question opens with an unanswered call. -/
theorem opens_unanswered :
    ¬ ∀ (registry : Registry) (system : System)
        (action : Action) (task : Task) (threadId : ThreadId)
        (model : Option Text),
      Reachable registry (fun _ _ => True) system →
        system.call? action =
            some (task, .openRun threadId model) →
          (exec task.inst (.openRun threadId model)
              system.world).1.isOk =
              true →
            answered (system.world.db.checkpoints threadId) =
              true := by
  intro hAnswered
  rcases
      exists_of_execute
        (show
          (execute (System.step .single) brickedThread
              .initial).map (fun system =>
                (answered (system.world.db.checkpoints 0),
                  system.opens? (.turn 2 false))) =
            some (false, some 0) by
          decide +kernel) with
    ⟨system, hSystem, hView⟩
  obtain ⟨hOpen, hOpens⟩ :
      answered (system.world.db.checkpoints 0) = false ∧
        system.opens? (.turn 2 false) = some 0 := by
    simpa only [Prod.mk.injEq] using hView
  rcases of_opens hOpens with ⟨task, model, hCall, hOk⟩
  have hDone :=
    hAnswered .single system (.turn 2 false) task 0 model
      (execution_of_execute hSystem) hCall hOk
  rw [hOpen] at hDone
  cases hDone

end LegalAgent
