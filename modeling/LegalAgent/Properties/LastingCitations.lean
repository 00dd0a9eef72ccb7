import LegalAgent.Properties.AppendOnly
import LegalAgent.Properties.VersionNotice

/-
  Citations that last.

  An answer is linked with its citations in the transaction
  that stores it, and a citation is frozen when it is first
  announced.  From then on neither the links of a message nor
  the text of a citation change, in any thread that shows the
  message.

  Key definitions include:
    * `Db.Linked`
    * `Db.CitedFrom`

  Key theorems include:
    * `citedFrom_of_exec`
    * `keeps_citedFrom`
    * `citations_last`
-/

------------------------------------------------------------
-- Linked Citations
------------------------------------------------------------

namespace LegalAgent

open Library

/- Every linked citation is frozen. -/
def Db.Linked (db : Db) : Prop :=
  ∀ link ∈ db.messageCitations,
    (db.citations.get? link.2).isSome = true

/-
  A store behind a first one: the links of the messages that
  were there are the same, and so are the frozen citations.
-/
structure Db.CitedFrom (first db : Db) : Prop where
  linked : db.Linked
  nextId : first.nextId ≤ db.nextId
  links :
    ∀ link,
      link.1 < first.nextId →
        (link ∈ db.messageCitations ↔
          link ∈ first.messageCitations)
  frozen :
    ∀ id citation,
      first.citations.get? id = some citation →
        db.citations.get? id = some citation

section Calls

variable {first db db' : Db}

/- A store is behind itself. -/
theorem citedFrom_refl
    (hLinked : db.Linked) :
    db.CitedFrom db where
  linked := hLinked
  nextId := Nat.le_refl _
  links _ _ := Iff.rfl
  frozen _ _ hFrozen := hFrozen

/- A change of other tables leaves the citations. -/
theorem Db.CitedFrom.other
    (hCited : first.CitedFrom db)
    (hNext : db.nextId ≤ db'.nextId)
    (hLinks : db'.messageCitations = db.messageCitations)
    (hCitations : db'.citations = db.citations) :
    first.CitedFrom db' where
  linked := by
    unfold Db.Linked
    rw [hLinks, hCitations]
    exact hCited.linked
  nextId := Nat.le_trans hCited.nextId hNext
  links := by
    rw [hLinks]
    exact hCited.links
  frozen := by
    rw [hCitations]
    exact hCited.frozen

/- A citation that is frozen leaves those before it. -/
theorem Db.CitedFrom.freeze
    (hCited : first.CitedFrom db)
    (hNext : db.nextId ≤ db'.nextId)
    (hLinks : db'.messageCitations = db.messageCitations)
    {id : CitationId}
    {citation : Citation}
    (hCitations :
      db'.citations = db.citations.insert id citation) :
    first.CitedFrom db' where
  linked := by
    unfold Db.Linked
    rw [hLinks, hCitations]
    intro link hLink
    rcases
        Option.isSome_iff_exists.mp (hCited.linked link hLink)
      with ⟨old, hOld⟩
    rw [get?_of_inserted hOld, Option.isSome_some]
  nextId := Nat.le_trans hCited.nextId hNext
  links := by
    rw [hLinks]
    exact hCited.links
  frozen := by
    rw [hCitations]
    intro other old hOld
    exact get?_of_inserted (hCited.frozen other old hOld) _ _

/- The citations of a new answer are frozen. -/
theorem Db.CitedFrom.commit
    (hCited : first.CitedFrom db)
    {threadId : ThreadId}
    {runId : RunId}
    {contentMd : Text}
    {citationIds : List Text}
    {parentId : Option MessageId}
    {model : Option Text}
    {row : MessageId × Nat}
    (hCommit :
      commitAgentAnswer threadId runId contentMd citationIds
          parentId model db =
        .ok (some row, db'))
    (hCitations : db'.citations = db.citations) :
    first.CitedFrom db' := by
  rcases links_of_commit hCommit with ⟨hId, hNext, hLinks, -⟩
  constructor
  · intro link hLink
    rcases (hLinks link).mp hLink with hOld | ⟨-, hText⟩
    · rw [hCitations]
      exact hCited.linked link hOld
    · rcases cites_of_commit hCommit _ hText with
        ⟨id, hSame, -, hFrozen⟩
      rwa [CitationId.text_inj.mp hSame] at hFrozen
  · exact Nat.le_trans hCited.nextId (Nat.le_of_lt hNext)
  · intro link hOld
    rw [hLinks, ← hCited.links link hOld]
    constructor
    · rintro (hMem | ⟨hNew, -⟩)
      · exact hMem
      · rw [hNew, hId] at hOld
        exact absurd hOld (Nat.not_lt_of_le hCited.nextId)
    · exact Or.inl
  · rw [hCitations]
    exact hCited.frozen

/- Every call leaves the citations of a first store. -/
theorem citedFrom_of_exec
    {inst : InstanceId}
    {op : Op}
    {world world' : World}
    {value : op.Reply}
    (hExec : exec inst op world = (.ok value, world'))
    (hCited : first.CitedFrom world.db) :
    first.CitedFrom world'.db := by
  have hFrame := frames_of_exec hExec
  rcases citations_of_exec hExec with hSame | ⟨ref, rfl, hNew⟩
  · rcases links_of_exec hExec with
      hLinks | ⟨_, _, _, _, _, _, row, hCommit⟩
    · exact hCited.other hFrame.nextId hLinks hSame
    · exact hCited.commit hCommit hSame
  · exact hCited.freeze hFrame.nextId (hFrame.links rfl) hNew

end Calls

------------------------------------------------------------
-- Runs
------------------------------------------------------------

section Runs

variable {registry : Registry}
variable {allowed : System → Action → Prop}

/- Every step of the server leaves the citations. -/
theorem keeps_citedFrom (first : Db) :
    KeptInDb registry allowed first.CitedFrom where
  exec _ hExec hCited := citedFrom_of_exec hExec hCited
  advance _ _ hCited := hCited.other (Nat.le_refl _) rfl rfl
  heartbeat _ _ hCited := hCited.other (Nat.le_refl _) rfl rfl
  sweep _ _ hCited := hCited.other (Nat.le_refl _) rfl rfl
  collect _ _ hCited := hCited.other (Nat.le_refl _) rfl rfl

variable {system later : System}

/- The links of a reachable server are frozen. -/
theorem linked_of_reachable
    (hReachable : Reachable registry allowed system) :
    system.world.db.Linked := by
  have hEmpty : Db.empty.Linked := by
    intro link hLink
    cases hLink
  exact
    (preserved_of_reachable
      (preserves_of_kept (keeps_citedFrom .empty))
      (citedFrom_refl hEmpty) hReachable).linked

/-
  Whatever happens in a run, a message that a thread shows
  keeps its citations, and no other is added; each of them
  stays a citation of the thread, with the text that was
  frozen at first.
-/
theorem citations_last
    (hReachable : Reachable registry allowed system)
    (hLater :
      Execution (System.step registry) allowed system later)
    {threadId : ThreadId}
    {thread : Thread}
    (hThread :
      system.world.db.threads.get? threadId = some thread)
    {message : Message}
    (hShown : message ∈ system.world.db.threadMessages threadId)
    (id : CitationId) :
    ((message.id, id) ∈ later.world.db.messageCitations ↔
        (message.id, id) ∈ system.world.db.messageCitations) ∧
      ((message.id, id) ∈ system.world.db.messageCitations →
        id ∈ later.world.db.threadCitations threadId ∧
          ∃ citation,
            system.world.db.citations.get? id = some citation ∧
              later.world.db.citations.get? id =
                some citation) := by
  have hForked := forked_of_reachable hReachable
  have hLinked := linked_of_reachable hReachable
  have hCited :
      system.world.db.CitedFrom later.world.db :=
    preserved_of_execution
      (preserves_of_kept (keeps_citedFrom system.world.db))
      hReachable (citedFrom_refl hLinked) hLater
  have hMem : message ∈ system.world.db.messages :=
    (List.mem_filter.mp
      ((List.mem_insertionSort _).mp hShown)).1
  have hLinks :=
    hCited.links (message.id, id)
      (hForked.messageIds message hMem)
  refine ⟨hLinks, ?_⟩
  intro hLink
  rcases
      shown_of_grown hForked
        (grown_of_execution hReachable hLater) hThread hShown
    with ⟨message', hShown', hId⟩
  rcases Option.isSome_iff_exists.mp (hLinked _ hLink) with
    ⟨citation, hCitation⟩
  refine
    ⟨?_, citation, hCitation, hCited.frozen _ _ hCitation⟩
  rw [mem_threadCitations]
  refine ⟨message', hShown', ?_⟩
  rw [hId]
  exact hLinks.mpr hLink

end Runs

/- The article of `citedFinding` with another text. -/
def amendedArticle : LawRef :=
  { datedArticle with articleText := "개정".toList }

/- Another run finds it and cites it as well. -/
def citedAmended : List Action :=
  [.request 3 0
    (.start 0 "다음".toList none
      [.agent (.str []) (toolCalls ["b"]),
        .tools fun _ => ⟨.str [], .context [amendedArticle]⟩,
        .agent (.str "[[cite:x]]".toList) []])] ++
    turns 3 30

/- The first answer still cites the text of its article. -/
theorem citations_last_amended :
    ∃ system later,
      execute (System.step .single) citedFinding .initial =
          some system ∧
        execute (System.step .single) citedAmended system =
            some later ∧
          ∃ message ∈ system.world.db.threadMessages 0,
            (message.id, amendedArticle.id) ∈
                system.world.db.messageCitations ∧
              amendedArticle.id ∈
                  later.world.db.threadCitations 0 ∧
                ∃ citation,
                  later.world.db.citations.get?
                        amendedArticle.id =
                      some citation ∧
                    citation.articleText ≠
                      amendedArticle.articleText := by
  have hView :
      ((execute (System.step .single) citedFinding .initial).bind
          fun system =>
        (execute (System.step .single) citedAmended system).map
          fun later =>
            (system.world.db.threads.get? 0).isSome &&
              ((system.world.db.threadMessages 0).any
                  fun message =>
                    decide
                      ((message.id, amendedArticle.id) ∈
                        system.world.db.messageCitations)) &&
                decide
                  ((system.world.db.citations.get?
                        amendedArticle.id).map
                      Citation.articleText =
                    some datedArticle.articleText)) =
        some true := by
    decide +kernel
  simp only [Option.bind_eq_some_iff, Option.map_eq_some_iff,
    Bool.and_eq_true, decide_eq_true_eq] at hView
  rcases hView with
    ⟨system, hSystem, later, hLater, ⟨hSome, hAny⟩, citation,
      hCitation, hText⟩
  rcases Option.isSome_iff_exists.mp hSome with
    ⟨thread, hThread⟩
  rcases List.any_eq_true.mp hAny with ⟨message, hShown, hIs⟩
  have hLink := of_decide_eq_true hIs
  have hReachable :
      Reachable .single (fun _ _ => True) system :=
    execution_of_execute hSystem
  rcases
      (citations_last hReachable (execution_of_execute hLater)
        hThread hShown amendedArticle.id).2 hLink with
    ⟨hCited, frozen, hFrozen, hKept⟩
  refine
    ⟨system, later, hSystem, hLater, message, hShown, hLink,
      hCited, frozen, hKept, ?_⟩
  rw [hCitation, Option.some_inj] at hFrozen
  rw [← hFrozen, hText]
  decide

end LegalAgent
