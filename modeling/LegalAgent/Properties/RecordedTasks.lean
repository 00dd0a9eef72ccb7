import LegalAgent.Properties.Recording

/-
  Every task logs what it has recorded.

  The drivers store the run, the cell, the article or the
  answer of an event before they yield it, and the pumps log
  what the drivers yield.

  Key definitions include:
    * `RunState.within`

  Key theorems include:
    * `recorded_handleMessage`
    * `recorded_finalize`
    * `recorded_drive`
    * `tells_consume`
    * `tells_request`
-/

------------------------------------------------------------
-- Chunks
------------------------------------------------------------

namespace LegalAgent

open Library

/- The state of a driver is still about its run. -/
def keepsRun
    (pre : Db → Prop)
    (runId : RunId) :
    Except Exn RunState → Db → Prop
| .ok rs, db => rs.runId = runId ∧ pre db
| .error _, db => pre db

section Chunks

variable {rs : RunState} {threadId : ThreadId}
variable {pre : Db → Prop}

/- Every call is announced with its cell. -/
theorem recorded_handleCalls
    (hStable : storeRely.Stable pre)
    (calls : List ToolCall) :
    (RunService.handleCalls rs threadId calls).Recorded threadId
      pre fun _ => pre := by
  induction calls with
  | nil => exact fun _ hPre => hPre
  | cons toolCall calls ih =>
      refine recorded_call hStable rfl ?_ fun _ _ hPre => hPre
      intro row
      apply Rely.triple_emit
      · rintro db ⟨-, hRecord⟩
        exact ⟨_, hRecord, rfl, rfl, rfl, rfl⟩
      · exact
          Rely.triple_mono ih (fun _ hPre => hPre.1)
            fun _ _ hPost => hPost
      · rintro exn db ⟨hPre, -⟩
        exact hPre

/- Every article is announced once it is frozen. -/
theorem recorded_handleArticles
    (hStable : storeRely.Stable pre)
    (refs : List LawRef) :
    (RunService.handleArticles threadId rs refs).Recorded
      threadId pre (keepsRun pre rs.runId) := by
  induction refs generalizing rs with
  | nil => exact fun _ hPre => ⟨rfl, hPre⟩
  | cons ref refs ih =>
      rw [RunService.handleArticles]
      split
      · exact ih
      · apply recorded_call hStable rfl
        · intro value
          refine
            Rely.triple_bind
              (recorded_emit (stable_learned hStable value)
                fun seq db hPre => hPre.2) ?_ ?_
          · intro value
            exact
              Rely.triple_mono (@ih (rs.freeze ref))
                (fun _ hPre => hPre.1) fun _ _ hPost => hPost
          · rintro exn db ⟨hPre, -⟩
            exact hPre
        · intro exn db hPre
          exact hPre

/- The messages of a chunk are announced as they are stored. -/
theorem recorded_handleMessage
    (hStable : storeRely.Stable pre)
    (message : StreamMessage) :
    (RunService.handleMessage rs threadId message).Recorded
      threadId pre (keepsRun pre rs.runId) := by
  cases message with
  | ai content calls =>
      refine
        Rely.triple_bind (recorded_handleCalls hStable calls)
          ?_ ?_
      · intro value
        split
        · exact fun _ hPre => ⟨rfl, hPre⟩
        · exact fun _ hPre => ⟨rfl, hPre⟩
      · intro exn db hPre
        exact hPre
  | tool callId content artifact =>
      refine recorded_skip hStable rfl ?_ fun _ _ hPre => hPre
      intro seq
      have hStore :
          (RunService.storeResult rs callId
              (truncateToolResult content)).Recorded
            threadId pre fun _ => pre := by
        rw [RunService.storeResult.eq_def]
        split
        · exact recorded_lastCall hStable rfl
        · exact fun _ hPre => hPre
      refine Rely.triple_bind hStore ?_ fun _ _ hPre => hPre
      intro value
      apply Rely.triple_emit
      · intro db _
        trivial
      · rw [RunService.handleArtifact]
        split
        · exact recorded_handleArticles hStable _
        · exact fun _ hPre => hPre
      · intro exn db hPre
        exact hPre

theorem recorded_handleChunk
    (hStable : storeRely.Stable pre)
    (messages : List StreamMessage) :
    (RunService.handleChunk threadId rs messages).Recorded
      threadId pre (keepsRun pre rs.runId) := by
  induction messages generalizing rs with
  | nil => exact fun _ hPre => ⟨rfl, hPre⟩
  | cons message messages ih =>
      refine
        Rely.triple_bind (recorded_handleMessage hStable message)
          ?_ fun _ _ hPre => hPre
      intro rs'
      apply Rely.triple_of_fact
      intro hRun
      rw [← hRun]
      exact ih

/- The end of a stream, or the stop before it. -/
def retainsSome
    (pre : Db → Prop)
    (runId : RunId) :
    Except Exn (Option RunState) → Db → Prop
| .ok (some rs), db => rs.runId = runId ∧ pre db
| _, db => pre db

end Chunks

------------------------------------------------------------
-- Drivers
------------------------------------------------------------

section Drivers

variable {rs : RunState} {threadId : ThreadId}

/- The run of a driver belongs to its thread. -/
def RunState.within
    (rs : RunState)
    (threadId : ThreadId)
    (db : Db) :
    Prop :=
  db.hasRun rs.runId threadId

/- The run of a driver is all that counts. -/
theorem within_of_run
    {rs' : RunState}
    (hRun : rs'.runId = rs.runId) :
    rs'.within threadId = rs.within threadId := by
  funext db
  rw [RunState.within, hRun, RunState.within]

theorem stable_within :
    storeRely.Stable (rs.within threadId) :=
  stable_hasRun rs.runId threadId

/- A status change with an end is followed by its event. -/
theorem recorded_end
    {fromStatus toStatus : RunStatus}
    {won : Driver Unit}
    (hWon :
      won.Recorded threadId
        (fun db =>
          rs.within threadId db ∧ db.hasEnd rs.runId)
        fun _ => rs.within threadId) :
    Driver.Recorded threadId (rs.within threadId)
      (do
        if ← call
            (.tryTransition rs.runId fromStatus toStatus true)
        then
          won)
      fun _ => rs.within threadId := by
  refine recorded_call stable_within rfl ?_ fun _ _ hPre => hPre
  intro value
  cases value with
  | false => exact fun _ hPre => hPre.1
  | true => exact hWon

theorem recorded_cancelRun :
    (RunService.cancelRun rs threadId).Recorded threadId
      (rs.within threadId) fun _ => rs.within threadId := by
  refine
    Rely.triple_bind
      (recorded_caught (recorded_lastCall stable_within rfl)
        fun _ _ hPre => hPre)
      ?_ fun _ _ hPre => hPre
  intro value
  refine recorded_skip stable_within rfl ?_ fun _ _ hPre => hPre
  intro value
  apply recorded_end
  exact
    Rely.triple_mono
      (recorded_emit
        (stable_within.and fun _ _ => hasEnd_of_retains)
        fun seq db hPre => hPre)
      (fun _ hPre => hPre) fun _ _ hPost => hPost.1

theorem recorded_pauseRun
    (values : Option (List (Option Text))) :
    (RunService.pauseRun rs threadId values).Recorded threadId
      (rs.within threadId) fun _ => rs.within threadId := by
  refine recorded_skip stable_within rfl ?_ fun _ _ hPre => hPre
  intro value
  refine recorded_skip stable_within rfl ?_ fun _ _ hPre => hPre
  intro value
  refine recorded_call stable_within rfl ?_ fun _ _ hPre => hPre
  intro tools
  exact
    Rely.triple_mono
      (recorded_emit (stable_learned stable_within tools)
        fun seq db hPre => hPre)
      (fun _ hPre => hPre) fun _ _ hPost => hPost.1

theorem recorded_isCancelled
    {pre : Db → Prop}
    (hStable : storeRely.Stable pre)
    (cancel : Option FlagId) :
    (RunService.isCancelled cancel).Recorded threadId pre
      fun _ => pre := by
  cases cancel with
  | none => exact fun _ hPre => hPre
  | some flag => exact recorded_lastCall hStable rfl

theorem recorded_consumeStream
    (cancel : Option FlagId)
    (steps : List GraphStep)
    (state : GraphState) :
    (RunService.consumeStream cancel threadId steps state
        rs).Recorded threadId (rs.within threadId)
      (retainsSome (rs.within threadId) rs.runId) := by
  induction steps generalizing state rs with
  | nil =>
      refine recorded_skip stable_within rfl ?_ fun _ _ hPre => hPre
      intro value db hPre
      exact ⟨rfl, hPre⟩
  | cons step steps ih =>
      refine recorded_skip stable_within rfl ?_ fun _ _ hPre => hPre
      intro value
      rcases value with _ | ⟨chunk, state⟩
      · exact fun _ hPre => ⟨rfl, hPre⟩
      · refine
          Rely.triple_bind
            (recorded_isCancelled stable_within cancel) ?_
            fun _ _ hPre => hPre
        intro cancelled
        cases cancelled with
        | true =>
            exact
              Rely.triple_bind recorded_cancelRun
                (fun _ _ hPre => hPre) fun _ _ hPre => hPre
        | false =>
            cases chunk with
            | interrupt values =>
                exact
                  Rely.triple_bind (recorded_pauseRun values)
                    (fun _ _ hPre => hPre)
                    fun _ _ hPre => hPre
            | updates messages =>
                refine
                  Rely.triple_bind
                    (recorded_handleChunk stable_within
                      messages)
                    ?_ fun _ _ hPre => hPre
                intro rs'
                apply Rely.triple_of_fact
                intro hRun
                have hRest := @ih rs' state
                rw [within_of_run hRun, hRun] at hRest
                exact hRest

theorem recorded_failRun :
    (RunService.failRun rs threadId).Recorded threadId
      (rs.within threadId) fun _ => rs.within threadId := by
  apply recorded_end
  refine
    Rely.triple_from (rs.within threadId)
      (fun _ hPre => hPre.1) ?_
  refine recorded_skip stable_within rfl ?_ fun _ _ hPre => hPre
  intro value
  exact recorded_emit stable_within fun _ _ hPre => hPre

theorem recorded_closeRun :
    (RunService.closeRun rs).Recorded threadId
      (rs.within threadId) fun _ => rs.within threadId := by
  refine recorded_skip stable_within rfl ?_ fun _ _ hPre => hPre
  intro value
  cases value with
  | false => exact fun _ hPre => hPre
  | true =>
      refine recorded_skip stable_within rfl ?_ fun _ _ hPre => hPre
      intro value db hPre
      exact hPre

/- An answer is announced once it is committed. -/
theorem recorded_finalize :
    (RunService.finalize rs threadId).Recorded threadId
      (rs.within threadId) fun _ => rs.within threadId := by
  refine recorded_skip stable_within rfl ?_ fun _ _ hPre => hPre
  intro linked
  dsimp only
  split
  · apply recorded_end
    exact
      Rely.triple_mono
        (recorded_emit stable_within fun _ _ hPre => hPre)
        (fun _ hPre => hPre.1) fun _ _ hPost => hPost
  · apply recorded_call stable_within rfl
    · intro value
      cases value with
      | none => exact fun _ hPre => hPre.1
      | some row =>
          apply Rely.triple_emit
          · rintro db ⟨hRun, hEnd, hRecord, hCites⟩
            exact
              ⟨rs.runId, hRun, hEnd, _, hRecord, rfl, rfl,
                rfl, rfl, rfl, hCites⟩
          · exact
              Rely.triple_mono
                (recorded_emit
                  (stable_within.and fun _ _ =>
                    hasEnd_of_retains)
                  fun seq db hPre => hPre)
                (fun _ hPre => ⟨hPre.1, hPre.2.1⟩)
                fun _ _ hPost => hPost.1
          · rintro exn db ⟨hPre, -⟩
            exact hPre
    · intro exn db hPre
      exact hPre

theorem recorded_drive
    {start : Driver GraphState}
    (hStart :
      start.Recorded threadId (rs.within threadId)
        fun _ => rs.within threadId)
    (script : List GraphStep) :
    (RunService.drive start script rs threadId).Recorded
      threadId (rs.within threadId)
      fun _ => rs.within threadId := by
  have hStream :
      ∀ cancel,
        (RunService.driveStream cancel start script rs
            threadId).Recorded threadId (rs.within threadId)
          (retainsSome (rs.within threadId) rs.runId) := by
    intro cancel
    apply recorded_caught
    · refine Rely.triple_bind hStart ?_ fun _ _ hPre => hPre
      intro state
      exact recorded_consumeStream cancel script state
    · intro exn
      exact
        Rely.triple_bind recorded_failRun
          (fun _ _ hPre => hPre) fun _ _ hPre => hPre
  have hBody :
      ∀ cancel,
        (RunService.driveBody cancel start script rs
            threadId).Recorded threadId (rs.within threadId)
          fun _ => rs.within threadId := by
    intro cancel
    refine
      Rely.triple_bind (hStream cancel) ?_ fun _ _ hPre => hPre
    intro value
    cases value with
    | none => exact fun _ hPre => hPre
    | some rs' =>
        apply Rely.triple_of_fact
        intro hRun
        have hFinal :=
          @recorded_finalize rs' threadId
        rw [within_of_run hRun] at hFinal
        exact hFinal
  refine recorded_skip stable_within rfl ?_ fun _ _ hPre => hPre
  intro cancel
  apply Rely.triple_tryFinally
  · refine
      Rely.triple_tryCatch (hBody cancel)
        (fun _ _ hPre => hPre) ?_
    intro exn
    split
    · exact recorded_closeRun
    · exact fun _ hPre => hPre
  · intro result
    refine
      Rely.triple_mono (recorded_lastCall stable_within rfl)
        (fun _ hPre => hPre) ?_
    intro ended db hPre
    cases ended <;> exact hPre

end Drivers

------------------------------------------------------------
-- Generators
------------------------------------------------------------

section Generators

variable {registry : Registry} {threadId : ThreadId}
variable {runId : RunId}

/- The question of a run that belongs to the thread. -/
theorem recorded_storeQuestion (message : Text) :
    (RunService.storeQuestion runId message threadId).Recorded
      threadId (fun db => db.hasRun runId threadId)
      fun _ db => db.hasRun runId threadId := by
  have hStable := stable_hasRun runId threadId
  apply recorded_caught
  · apply recorded_skip hStable rfl
    · intro row
      dsimp only
      split
      · apply recorded_skip hStable rfl
        · intro value db hPre
          exact hPre
        · intro exn db hPre
          exact hPre
      · exact fun _ hPre => hPre
    · intro exn db hPre
      exact hPre
  · intro exn
    refine recorded_skip hStable rfl ?_ fun _ _ hPre => hPre
    intro value
    exact
      Rely.triple_bind
        (recorded_emit hStable fun _ _ hPre => hPre)
        (fun _ _ hPre => hPre) fun _ _ hPre => hPre

theorem recorded_run
    (message : Text)
    (model : Option Text)
    (script : List GraphStep) :
    (RunService.run registry message threadId model
        script).Recorded threadId (fun _ => True)
      fun _ _ => True := by
  refine recorded_call stable_true rfl ?_ fun _ _ _ => trivial
  intro runId
  have hOpened :=
    @stable_learned _
      (.openRun threadId (some (registry.choose model)))
      stable_true runId
  refine recorded_skip hOpened rfl ?_ fun _ _ _ => trivial
  intro value
  refine
    Rely.triple_bind
      (recorded_emit hOpened fun seq db hPre =>
        ⟨rfl, hPre.2.1, hPre.2.2⟩)
      ?_ fun _ _ _ => trivial
  intro value
  refine
    Rely.triple_from
      (fun db => db.hasRun runId threadId)
      (fun _ hPre => hPre.2.1) ?_
  refine
    Rely.triple_bind (recorded_storeQuestion message) ?_
      fun _ _ _ => trivial
  intro root
  cases root with
  | none => exact fun _ _ => trivial
  | some root =>
      exact
        Rely.triple_mono
          (@recorded_drive (.fresh runId _ (some root)) _ _
            (recorded_lastCall stable_within rfl) script)
          (fun _ hPre => hPre) fun _ _ _ => trivial

theorem recorded_approvedSet
    {pre : Db → Prop}
    (hStable : storeRely.Stable pre)
    (approve : Bool)
    (approvedIds : Option (List Text)) :
    (RunService.approvedSet runId approve
        approvedIds).Recorded threadId pre fun _ => pre := by
  cases approvedIds with
  | none => exact fun _ hPre => hPre
  | some ids =>
      refine recorded_skip hStable rfl ?_ fun _ _ hPre => hPre
      intro pending db hPre
      exact hPre

theorem recorded_rejectRun :
    (RunService.rejectRun runId threadId).Recorded threadId
      (fun db => db.hasRun runId threadId)
      fun _ db => db.hasRun runId threadId := by
  have hStable := stable_hasRun runId threadId
  have hEnded :
      storeRely.Stable fun db =>
        db.hasRun runId threadId ∧ db.hasEnd runId :=
    hStable.and fun _ _ => hasEnd_of_retains
  refine recorded_call hStable rfl ?_ fun _ _ hPre => hPre
  intro value
  cases value with
  | false => exact fun _ hPre => hPre.1
  | true =>
      refine
        Rely.triple_to
          (fun _ db =>
            db.hasRun runId threadId ∧ db.hasEnd runId)
          (fun _ _ hPost => hPost.1) ?_
      refine recorded_skip hEnded rfl ?_ fun _ _ hPre => hPre
      intro value
      refine recorded_skip hEnded rfl ?_ fun _ _ hPre => hPre
      intro value
      refine recorded_skip hEnded rfl ?_ fun _ _ hPre => hPre
      intro value
      exact recorded_emit hEnded fun _ _ hPre => hPre

theorem recorded_announceRejected
    {pre : Db → Prop}
    (hStable : storeRely.Stable pre)
    (ids : List (Option Text)) :
    (RunService.announceRejected threadId ids).Recorded threadId
      pre fun _ => pre := by
  induction ids with
  | nil => exact fun _ hPre => hPre
  | cons id ids ih =>
      refine recorded_skip hStable rfl ?_ fun _ _ hPre => hPre
      intro seq
      exact
        Rely.triple_emit (fun _ _ => trivial) ih
          fun _ _ hPre => hPre

theorem recorded_approveRun
    (approved : Option (List Text)) :
    (RunService.approveRun registry runId threadId
        approved).Recorded threadId
      (fun db => db.hasRun runId threadId)
      (keepsRun (fun db => db.hasRun runId threadId) runId) := by
  have hStable := stable_hasRun runId threadId
  have hMark :
      (RunService.markApproval runId threadId
          approved).Recorded threadId
        (fun db => db.hasRun runId threadId)
        fun _ db => db.hasRun runId threadId := by
    cases approved with
    | none => exact recorded_lastCall hStable rfl
    | some approved =>
        refine recorded_skip hStable rfl ?_ fun _ _ hPre => hPre
        intro rejected
        refine recorded_skip hStable rfl ?_ fun _ _ hPre => hPre
        intro value
        exact recorded_announceRejected hStable rejected
  refine recorded_skip hStable rfl ?_ fun _ _ hPre => hPre
  intro value
  cases value with
  | false => exact fun _ hPre => hPre
  | true =>
      refine recorded_skip hStable rfl ?_ fun _ _ hPre => hPre
      intro value
      refine recorded_skip hStable rfl ?_ fun _ _ hPre => hPre
      intro model
      refine recorded_skip hStable rfl ?_ fun _ _ hPre => hPre
      intro root
      refine
        Rely.triple_bind hMark ?_ fun _ _ hPre => hPre
      intro value db hPre
      exact ⟨rfl, hPre⟩

theorem recorded_resume
    (approve : Bool)
    (approvedIds : Option (List Text))
    (script : List GraphStep) :
    (RunService.resume registry threadId approve approvedIds
        script).Recorded threadId (fun _ => True)
      fun _ _ => True := by
  have hDecide :
      (RunService.decide registry threadId approve
          approvedIds).Recorded threadId (fun _ => True)
        fun result db =>
          ∀ rs,
            result = .ok (some rs) → rs.within threadId db := by
    apply recorded_call stable_true rfl
    · intro active
      rcases active with _ | ⟨runId, status⟩
      · rintro db - rs ⟨⟩
      · refine
          Rely.triple_from
            (fun db => db.hasRun runId threadId)
            (fun _ hPre => hPre.2) ?_
        have hStable := stable_hasRun runId threadId
        cases status with
        | awaitingApproval =>
            refine
              Rely.triple_bind
                (recorded_approvedSet hStable approve
                  approvedIds)
                ?_ (by rintro exn db - rs ⟨⟩)
            intro approved
            split
            · refine
                Rely.triple_bind recorded_rejectRun ?_
                  (by rintro exn db - rs ⟨⟩)
              rintro value db - rs ⟨⟩
            · refine
                Rely.triple_bind (recorded_approveRun approved)
                  ?_ (by rintro exn db - rs ⟨⟩)
              rintro rs db ⟨hRun, hThread⟩ rs' hRs
              cases hRs
              rw [RunState.within, hRun]
              exact hThread
        | _ => rintro db - rs ⟨⟩
    · rintro exn db - rs ⟨⟩
  refine
    Rely.triple_bind hDecide ?_ fun _ _ _ => trivial
  intro decided
  cases decided with
  | none => exact fun _ _ => trivial
  | some rs =>
      exact
        Rely.triple_mono
          (recorded_drive (recorded_lastCall stable_within rfl)
            script)
          (fun _ hPre => hPre rs rfl) fun _ _ _ => trivial

end Generators

------------------------------------------------------------
-- Tasks
------------------------------------------------------------

section Tasks

variable {registry : Registry} {threadId : ThreadId}
variable {runId : RunId} {pre : Db → Prop}

/- The epilogue of a pump logs at most a synthetic error. -/
theorem tells_epilogue
    (sawTerminal : Bool)
    (lastName : Option EventName) :
    (RunManager.epilogue threadId runId sawTerminal
        lastName).Tells (fun _ => True) fun _ _ => True := by
  refine recorded_skip stable_true rfl ?_ fun _ _ _ => trivial
  intro value
  split
  · refine
      Rely.triple_bind
        (recorded_caught
          (recorded_lastCall stable_true rfl)
          fun _ _ hPre => hPre)
        ?_ fun _ _ _ => trivial
    intro run
    split
    · apply recorded_skip stable_true rfl
      · intro seq
        exact
          Rely.triple_mono
            (Rely.triple_perform fun _ _ => trivial)
            (fun _ hPre => hPre) fun _ _ _ => trivial
      · intro exn db _
        trivial
    · exact fun _ _ => trivial
  · exact fun _ _ => trivial

/- A pump logs what its generator has recorded. -/
theorem tells_consume
    {post : Except Exn Unit → Db → Prop}
    {generator : Driver Unit}
    (hStable : storeRely.Stable pre)
    (hGenerator : generator.Recorded threadId pre post)
    (sawTerminal : Bool)
    (lastName : Option EventName) :
    (RunManager.consume threadId runId sawTerminal lastName
        generator).Tells pre fun _ _ => True := by
  induction generator generalizing pre sawTerminal lastName with
  | ret result =>
      exact
        Rely.triple_mono
          (tells_epilogue sawTerminal lastName)
          (fun _ _ => trivial) fun _ _ _ => trivial
  | call op next ih =>
      refine ⟨hGenerator.1, ?_⟩
      intro reply
      exact
        ih reply Rely.stable_after (hGenerator.2 reply)
          sawTerminal lastName
  | yield event next ih =>
      refine ⟨hGenerator.1, ?_⟩
      intro reply
      cases reply with
      | ok value =>
          exact
            Rely.triple_mono
              (ih (.ok ()) hStable (hGenerator.2 (.ok ())) _ _)
              (fun _ => Rely.of_after hStable)
              fun _ _ _ => trivial
      | error exn =>
          refine
            Rely.triple_andThen
              (fun _ db => True ∧ pre db) ?_ ?_
          · exact
              Rely.triple_mono
                (Rely.triple_frame hStable
                  (@tells_epilogue threadId runId _ _))
                (fun _ hPre =>
                  ⟨trivial, Rely.of_after hStable hPre⟩)
                fun _ _ hPost => hPost
          · intro result
            exact
              Rely.triple_mono
                (Rely.triple_close
                  (hGenerator.2 (.error .generatorExit)))
                (fun _ hPre => hPre.2) fun _ _ _ => trivial

theorem tells_spawnPump
    {post : Except Exn Unit → Db → Prop}
    {generator : Driver Unit}
    (hStable : storeRely.Stable pre)
    (hGenerator : generator.Recorded threadId pre post) :
    (RunManager.spawnPump generator threadId runId).Tells pre
      fun _ _ => True := by
  refine recorded_skip hStable rfl ?_ fun _ _ _ => trivial
  intro value
  exact tells_consume hStable hGenerator false none

/- A task that goes on behind the first event of a generator. -/
theorem tells_firstEvent
    {post : Except Exn Unit → Db → Prop}
    {program : Driver Unit}
    {next :
      RunEvent → (Except Exn Unit → Driver Unit) → Driver Unit}
    (hStable : storeRely.Stable pre)
    (hProgram : program.Recorded threadId pre post)
    (hNext :
      ∀ pre event rest,
        storeRely.Stable pre →
          (∀ db, pre db → Records db threadId event) →
            (∀ reply,
              (rest reply).Recorded threadId pre post) →
              (next event rest).Tells pre fun _ _ => True) :
    (RunManager.firstEvent next program).Tells pre
      fun _ _ => True := by
  induction program generalizing pre with
  | ret result => exact fun _ _ => trivial
  | call op resume ih =>
      refine ⟨hProgram.1, ?_⟩
      intro reply
      exact ih reply Rely.stable_after (hProgram.2 reply)
  | yield event resume ih =>
      exact hNext pre event resume hStable hProgram.1 hProgram.2

theorem tells_start
    (message : Text)
    (model : Option Text)
    (script : List GraphStep) :
    (RunManager.start registry threadId message model
        script).Tells (fun _ => True) fun _ _ => True := by
  refine
    tells_firstEvent stable_true
      (recorded_run message model script) ?_
  intro pre event rest hStable hRecords hRest
  split
  · refine ⟨hRecords, ?_⟩
    intro reply
    cases reply with
    | ok value =>
        exact
          Rely.triple_mono
            (tells_spawnPump hStable (hRest (.ok ())))
            (fun _ => Rely.of_after hStable)
            fun _ _ hPost => hPost
    | error exn =>
        refine
          Rely.triple_andThen (fun _ _ => True) ?_ ?_
        · exact
            Rely.triple_mono
              (Rely.triple_close
                (hRest (.error .generatorExit)))
              (fun _ => Rely.of_after hStable)
              fun _ _ _ => trivial
        · exact fun _ _ _ => trivial
  · exact fun _ _ => trivial

theorem tells_resume
    (approve : Bool)
    (approvedIds : Option (List Text))
    (script : List GraphStep) :
    (RunManager.resume registry threadId approve approvedIds
        script).Tells (fun _ => True) fun _ _ => True := by
  refine recorded_skip stable_true rfl ?_ fun _ _ _ => trivial
  intro active
  rcases active with _ | ⟨runId, status⟩
  · exact fun _ _ => trivial
  · cases status with
    | awaitingApproval =>
        exact
          tells_spawnPump stable_true
            (recorded_resume approve approvedIds script)
    | _ => exact fun _ _ => trivial

/- The terminal event of a run that was ended from outside. -/
theorem tells_pushTerminal :
    (RunManager.pushTerminal runId threadId).Tells
      (fun db => db.hasRun runId threadId ∧ db.hasEnd runId)
      fun _ _ => True := by
  have hStable :
      storeRely.Stable fun db =>
        db.hasRun runId threadId ∧ db.hasEnd runId :=
    (stable_hasRun runId threadId).and
      fun _ _ => hasEnd_of_retains
  refine recorded_skip hStable rfl ?_ fun _ _ _ => trivial
  intro seq
  exact
    Rely.triple_mono
      (Rely.triple_perform fun db hPre => hPre)
      (fun _ hPre => hPre) fun _ _ _ => trivial

theorem tells_interruptPaused :
    (RunService.interruptPaused threadId runId).Tells
      (fun db => db.hasRun runId threadId)
      fun result db =>
        result = .ok true →
          db.hasRun runId threadId ∧ db.hasEnd runId := by
  have hStable := stable_hasRun runId threadId
  apply recorded_call hStable rfl
  · intro value
    cases value with
    | false => rintro db - ⟨⟩
    | true =>
        have hEnded :
            storeRely.Stable fun db =>
              db.hasRun runId threadId ∧ db.hasEnd runId :=
          hStable.and fun _ _ => hasEnd_of_retains
        change
          storeRely.Triple _
            (fun db =>
              db.hasRun runId threadId ∧ db.hasEnd runId) _ _
        apply recorded_skip hEnded rfl
        · intro value
          apply recorded_skip hEnded rfl
          · intro value
            apply recorded_skip hEnded rfl
            · intro value db hPre _
              exact hPre
            · rintro exn db - ⟨⟩
          · rintro exn db - ⟨⟩
        · rintro exn db - ⟨⟩
  · rintro exn db - ⟨⟩

theorem tells_interrupt :
    (RunManager.interrupt runId).Tells (fun _ => True)
      fun _ _ => True := by
  refine recorded_call stable_true rfl ?_ fun _ _ _ => trivial
  intro row
  rcases row with _ | ⟨threadId, status⟩
  · exact fun _ _ => trivial
  · have hStable := stable_hasRun runId threadId
    refine
      Rely.triple_from
        (fun db => db.hasRun runId threadId)
        (fun _ hPre => hPre.2) ?_
    cases status with
    | running =>
        have hCancel :
            (RunService.requestCancel runId).Tells
              (fun db => db.hasRun runId threadId)
              fun _ db => db.hasRun runId threadId := by
          refine recorded_skip hStable rfl ?_ fun _ _ hPre => hPre
          intro flag
          cases flag with
          | none => exact fun _ hPre => hPre
          | some flag =>
              refine
                recorded_skip hStable rfl ?_
                  fun _ _ hPre => hPre
              intro value db hPre
              exact hPre
        refine
          Rely.triple_bind hCancel ?_ fun _ _ _ => trivial
        intro heeded
        cases heeded with
        | true => exact fun _ _ => trivial
        | false =>
            refine recorded_call hStable rfl ?_ fun _ _ _ => trivial
            intro won
            cases won with
            | true => exact tells_pushTerminal
            | false => exact fun _ _ => trivial
    | awaitingApproval =>
        refine
          Rely.triple_bind tells_interruptPaused ?_
            fun _ _ _ => trivial
        intro won
        cases won with
        | true =>
            exact
              Rely.triple_mono tells_pushTerminal
                (fun _ hPre => hPre rfl)
                fun _ _ hPost => hPost
        | false => exact fun _ _ => trivial
    | _ => exact fun _ _ => trivial

theorem tells_sendPage
    (cursor : RunManager.StreamCursor)
    (events : List RunEvent) :
    (RunManager.sendPage cursor events).Tells (fun _ => True)
      fun _ _ => True := by
  induction events generalizing cursor with
  | nil => exact fun _ _ => trivial
  | cons event events ih =>
      apply Rely.triple_emit fun _ _ => trivial
      · split
        · exact fun _ _ => trivial
        · exact ih _
      · intro exn db _
        trivial

theorem tells_stream
    (polls : Nat)
    (cursor : Option Nat) :
    (RunManager.stream runId polls cursor).Tells
      (fun _ => True) fun _ _ => True := by
  induction polls generalizing cursor with
  | zero => exact fun _ _ => trivial
  | succ polls ih =>
      refine recorded_skip stable_true rfl ?_ fun _ _ _ => trivial
      intro rows
      refine
        Rely.triple_bind (tells_sendPage _ rows) ?_
          fun _ _ _ => trivial
      intro sent
      split
      · exact fun _ _ => trivial
      · split
        · apply recorded_skip stable_true rfl
          · intro run
            rcases run with _ | ⟨threadId, status⟩
            · exact ih _
            · dsimp only
              split
              · exact
                  ⟨fun _ _ => trivial,
                    fun _ _ _ => trivial⟩
              · exact ih _
          · intro exn db _
            trivial
        · exact ih _

theorem tells_fork
    (parentId : ThreadId)
    (forkPoint : MessageId) :
    (RunService.fork parentId forkPoint).Tells (fun _ => True)
      fun _ _ => True := by
  refine recorded_skip stable_true rfl ?_ fun _ _ _ => trivial
  intro threadId
  refine recorded_skip stable_true rfl ?_ fun _ _ _ => trivial
  intro messages
  refine recorded_skip stable_true rfl ?_ fun _ _ _ => trivial
  intro value
  dsimp only
  split
  · apply recorded_skip stable_true rfl
    · exact fun _ _ _ => trivial
    · exact fun _ _ _ => trivial
  · exact fun _ _ => trivial

/- Every request logs what it has recorded. -/
theorem tells_request (request : Request) :
    (request.program registry).Tells (fun _ => True)
      fun _ _ => True := by
  cases request with
  | createThread title =>
      refine recorded_skip stable_true rfl ?_ fun _ _ _ => trivial
      exact fun _ _ _ => trivial
  | fork parentId forkPoint => exact tells_fork _ _
  | start threadId message model script =>
      exact tells_start message model script
  | resume threadId approve approvedIds script =>
      exact tells_resume approve approvedIds script
  | interrupt runId => exact tells_interrupt
  | stream runId polls cursor => exact tells_stream polls cursor

end Tasks

end LegalAgent
