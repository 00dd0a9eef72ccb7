import LegalAgent.Service.Effects
import LegalAgent.Service.Phase

/-
  What the protocol says about the calls that change a run.

  A task writes a run from its opening or its approval to the
  next pause or answer.  Only such a task pauses the run or
  commits its answer; other tasks may only end it.

  Key definitions include:
    * `Op.ended`
    * `Stage.writes`
    * `Role.writer?`
    * `Op.begins`

  Key theorems include:
    * `isActive_of_changes`
    * `isActive_before`
    * `writer_after`
    * `writer_failed`
    * `transition_of_allows`
    * `pause_of_allows`
    * `commit_of_allows`
-/

------------------------------------------------------------
-- Status Changes
------------------------------------------------------------

namespace LegalAgent

open Library

/- The status changes that the protocol compares and sets. -/
inductive Transits : RunStatus → RunStatus → Bool → Prop where
  | fail : Transits .running .error true
  | stop : Transits .running .interrupted true
  | approve : Transits .awaitingApproval .running false
  | reject : Transits .awaitingApproval .rejected true
  | withdraw : Transits .awaitingApproval .interrupted true

/- Every compared status change is one of them. -/
theorem transition_of_allows
    {role : Role}
    {runId : RunId}
    {fromStatus toStatus : RunStatus}
    {ended : Bool}
    (hAllows :
      role.Allows
        (.tryTransition runId fromStatus toStatus ended)) :
    Transits fromStatus toStatus ended := by
  cases hAllows with
  | on hStage => cases hStage <;> constructor
  | watchingRunning => constructor
  | watchingPaused => constructor

/- A status is set only to pause at an approval gate. -/
theorem pause_of_allows
    {role : Role}
    {runId : RunId}
    {status : RunStatus}
    {ended : Bool}
    (hAllows : role.Allows (.setRunStatus runId status ended)) :
    status = .awaitingApproval ∧ ended = false ∧
      ∃ job root,
        role = .on job (.gated root) ∧ runId = job.run := by
  cases hAllows with
  | on hStage =>
      cases hStage
      exact ⟨rfl, rfl, _, _, rfl, rfl⟩

/- An answer is committed only at the end of a stream. -/
theorem commit_of_allows
    {role : Role}
    {threadId : ThreadId}
    {runId : RunId}
    {contentMd : Text}
    {citationIds : List Text}
    {parentId : Option MessageId}
    {model : Option Text}
    (hAllows :
      role.Allows
        (.commitAgentAnswer threadId runId contentMd
          citationIds parentId model)) :
    ∃ job,
      role = .on job (.finalizing parentId) ∧
        threadId = job.thread ∧ runId = job.run := by
  cases hAllows with
  | on hStage =>
      cases hStage
      exact ⟨_, rfl, rfl, rfl⟩

/- The run that a call with its reply ended. -/
def Op.ended : (op : Op) → op.Reply → Option RunId
| .tryTransition runId _ toStatus _, true =>
    if toStatus.active then none else some runId
| .commitAgentAnswer _ runId .., some _ => some runId
| _, _ => none

/- A run stays active until a call ends it. -/
theorem isActive_of_changes
    {role : Role}
    {db db' : Db}
    {op : Op}
    {value : op.Reply}
    {runId : RunId}
    (hChanges : ChangesRuns db db' op value)
    (hFresh : db.runs.get? db.nextId = none)
    (hAllows : role.Allows op)
    (hActive : db.isActive runId = true) :
    db'.isActive runId = true ∨ op.ended value = some runId := by
  have hSame :
      db'.status? runId = db.status? runId →
        db'.isActive runId = true := by
    intro hStatus
    rwa [Db.isActive, hStatus]
  cases hChanges with
  | opened hThread hAlone hRuns =>
      left
      by_cases hEq : runId = db.nextId
      · rw [hEq, Db.isActive, Db.status?, hFresh] at hActive
        cases hActive
      · apply hSame
        rw [Db.status?, hRuns, Table.get?_insert hFresh,
          if_neg hEq]
        rfl
  | @set other status ended run hRun hAlone hRuns =>
      left
      rcases pause_of_allows hAllows with ⟨rfl, -, -⟩
      by_cases hEq : runId = other
      · subst hEq
        rw [Db.isActive, status?_of_written hRun hRuns]
        rfl
      · exact hSame (status?_of_other hRuns hEq)
  | @moved other fromStatus toStatus ended run hRun hStatus
      hAlone hRuns =>
      by_cases hEq : runId = other
      · subst hEq
        rw [Db.isActive, status?_of_written hRun hRuns,
          Op.ended]
        cases hTo : toStatus.active with
        | true => exact Or.inl hTo
        | false => exact Or.inr rfl
      · exact Or.inl (hSame (status?_of_other hRuns hEq))
  | @committed threadId other contentMd citationIds parentId
      model row run hRun hStatus hRuns =>
      by_cases hEq : runId = other
      · exact Or.inr (congrArg some hEq.symm)
      · exact Or.inl (hSame (status?_of_other hRuns hEq))
  | missing _ hRuns =>
      exact Or.inl (hSame (status?_of_runs hRuns runId))
  | kept _ hRuns =>
      exact Or.inl (hSame (status?_of_runs hRuns runId))

/-
  A run that is active behind a call was so, unless the call
  opened it or paused it.
-/
theorem isActive_before
    {role : Role}
    {db db' : Db}
    {op : Op}
    {value : op.Reply}
    {runId : RunId}
    (hChanges : ChangesRuns db db' op value)
    (hFresh : db.runs.get? db.nextId = none)
    (hAllows : role.Allows op)
    (hActive : db'.isActive runId = true) :
    db.isActive runId = true ∨
      runId = db.nextId ∨
        ∃ status ended,
          op = .setRunStatus runId status ended := by
  have hWritten :
      ∀ other status ended run,
        db.runs.get? other = some run →
          run.status.active = true →
            db'.runs =
                (db.writeStatus other status ended).runs →
              db.isActive runId = true := by
    intro other status ended run hRun hOpen hRuns
    by_cases hEq : runId = other
    · rw [hEq, Db.isActive, Db.status?, hRun]
      exact hOpen
    · rwa [Db.isActive, status?_of_other hRuns hEq] at hActive
  cases hChanges with
  | opened _ _ hRuns =>
      by_cases hEq : runId = db.nextId
      · exact Or.inr (Or.inl hEq)
      · left
        rw [Db.isActive, Db.status?, hRuns,
          Table.get?_insert hFresh, if_neg hEq] at hActive
        exact hActive
  | @set other status ended run hRun _ hRuns =>
      by_cases hEq : runId = other
      · subst hEq
        exact Or.inr (Or.inr ⟨_, _, rfl⟩)
      · left
        rwa [Db.isActive, status?_of_other hRuns hEq] at hActive
  | moved hRun hStatus _ hRuns =>
      left
      refine hWritten _ _ _ _ hRun ?_ hRuns
      rw [hStatus]
      cases transition_of_allows hAllows <;> rfl
  | committed hRun hStatus hRuns =>
      left
      refine hWritten _ _ _ _ hRun ?_ hRuns
      rw [hStatus]
      rfl
  | missing _ hRuns =>
      left
      rwa [Db.isActive, status?_of_runs hRuns] at hActive
  | kept _ hRuns =>
      left
      rwa [Db.isActive, status?_of_runs hRuns] at hActive

------------------------------------------------------------
-- Writers
------------------------------------------------------------

/-
  The stages in which a task drives its run, from the opening
  or the approval to the next pause or end.
-/
def Stage.writes : Stage → Bool
| .opening | .opened _ | .erring false | .won ..
| .driving .. | .gated _ | .finalizing _ | .stopping ..
| .failing false => true
| _ => false

/- The run whose turn a role writes. -/
def Role.writer? : Role → Option RunId
| .on job stage => if stage.writes then some job.run else none
| _ => none

/- The run that a call with its reply began to write. -/
def Op.begins : (op : Op) → op.Reply → Option RunId
| .openRun .., runId => some runId
| .tryTransition runId .awaitingApproval .running _, true =>
    some runId
| _, _ => none

/- A call that left the runs begins none. -/
theorem Op.begins_of_kept
    {op : Op}
    {value : op.Reply}
    (hKept : op.wroteRuns value = false) :
    op.begins value = none := by
  cases op with
  | openRun => cases hKept
  | tryTransition _ fromStatus toStatus =>
      cases hKept
      cases fromStatus <;> cases toStatus <;> rfl
  | _ => rfl

section Writers

variable {job : Job} {stage : Stage}
variable {role : Role} {op : Op} {value : op.Reply}
variable {runId : RunId}

/-
  A stage that writes was one that writes, without a change of
  the status of its run, or it begins to.
-/
theorem writes_after
    (hAllows : Stage.Allows job stage op)
    (hWrites : (stage.after op (.ok value)).writes = true) :
    (stage.writes = true ∧ op.wroteRuns value = false) ∨
      op.begins value = some job.run := by
  cases hAllows with
  | choosingApprove =>
      cases value with
      | false => cases hWrites
      | true => exact Or.inr rfl
  | finalizingCommit => cases value <;> cases hWrites
  | closingLog =>
      simp only [Stage.after] at hWrites
      split at hWrites <;> cases hWrites
  | _ =>
      first
        | exact Or.inl ⟨rfl, rfl⟩
        | cases hWrites
        | (cases value <;> cases hWrites)

/- A stage that writes after a failure wrote before. -/
theorem writes_failed
    {exn : Exn}
    (hAllows : Stage.Allows job stage op)
    (hWrites : (stage.after op (.error exn)).writes = true) :
    stage.writes = true := by
  cases hAllows <;> first | rfl | cases hWrites

/-
  A writer wrote before, without a change of its run's status,
  or has just begun.
-/
theorem writer_after
    (hAllows : role.Allows op)
    (hWriter :
      (role.after op (.ok value)).writer? = some runId) :
    (role.writer? = some runId ∧
        op.wroteRuns value = false) ∨
      op.begins value = some runId := by
  cases hAllows with
  | on hStage =>
      simp only [Role.after, Role.writer?] at hWriter
      split at hWriter
      · rename_i hWrites
        cases hWriter
        rcases writes_after hStage hWrites with
          ⟨hBefore, hKept⟩ | hBegins
        · exact Or.inl ⟨by simp [Role.writer?, hBefore], hKept⟩
        · exact Or.inr hBegins
      · cases hWriter
  | freshOpen =>
      cases hWriter
      exact Or.inr rfl
  | freshActive =>
      rcases value with _ | ⟨_, status⟩
      · cases hWriter
      · cases status <;> cases hWriter
  | freshRead => rcases value with _ | _ <;> cases hWriter
  | lookingActive =>
      rcases value with _ | ⟨_, status⟩
      · cases hWriter
      · cases status <;> cases hWriter
  | watchingRunning => cases value <;> cases hWriter
  | watchingPaused => cases value <;> cases hWriter
  | _ => cases hWriter

/- A writer whose call failed wrote before. -/
theorem writer_failed
    {exn : Exn}
    (hAllows : role.Allows op)
    (hWriter :
      (role.after op (.error exn)).writer? = some runId) :
    role.writer? = some runId := by
  cases hAllows with
  | on hStage =>
      simp only [Role.after, Role.writer?] at hWriter
      split at hWriter
      · rename_i hWrites
        cases hWriter
        have hBefore := writes_failed hStage hWrites
        simp [Role.writer?, hBefore]
      · cases hWriter
  | _ => cases hWriter

end Writers

end LegalAgent
