import LegalAgent.Law.Overlap
import LegalAgent.Law.Search

/-
  What a search shows of the laws.

  The index is behind any history of writes.  An article that
  the search tool returns is one that some ingestion parsed,
  with its whole text, and no demotion of its law since then
  kept another version.

  Key definitions include:
    * `Shows`

  Key theorems include:
    * `exists_write`
    * `first_window_mem_ids`
    * `searched_in_force`
-/

------------------------------------------------------------
-- The Write Of A Current Point
------------------------------------------------------------

namespace LegalAgent

namespace Law

section Write

variable {Vector : Type} {uuid5 : Text → Text}

/-
  A current point was written by an ingestion, and the
  demotions of its law have kept its version since.
-/
theorem exists_write
    {history : List (IndexWrite Vector)}
    {id : Text}
    {payload : Payload}
    (hPoint : index uuid5 history id = some payload)
    (hCurrent : payload.isCurrent = true) :
    ∃ since ingestion older,
      history = since ++ .upsert ingestion :: older ∧
        ingestion.fits = true ∧
          ingestion.points uuid5 id = some payload ∧
            KeepsVersion ingestion.law since := by
  induction history with
  | nil => cases hPoint
  | cons write history ih =>
      -- a write that leaves the point adds to what came since
      have hLeft :
          index uuid5 history id = some payload →
            (∀ law,
                write = .supersede law →
                  payload.resourceId = law.lawId →
                    payload.effDate = iso law.effDate) →
              ∃ since ingestion older,
                write :: history =
                    since ++ .upsert ingestion :: older ∧
                  ingestion.fits = true ∧
                    ingestion.points uuid5 id = some payload ∧
                      KeepsVersion ingestion.law since := by
        intro hOld hKept
        rcases ih hOld with
          ⟨since, ingestion, older, rfl, hFits, hWritten,
            hKeeps⟩
        refine
          ⟨write :: since, ingestion, older, rfl, hFits,
            hWritten, ?_⟩
        rcases of_points hWritten with ⟨hLaw, hDate, -⟩
        intro other hMem hSame
        rcases List.mem_cons.mp hMem with hIs | hMem
        · rw [← hDate]
          exact
            (hKept other hIs.symm (hLaw.trans hSame.symm)).symm
        · exact hKeeps other hMem hSame
      cases write with
      | upsert other =>
          rw [index, upsert_apply] at hPoint
          have hOld :
              index uuid5 history id = some payload →
                ∃ since ingestion older,
                  .upsert other :: history =
                      since ++ .upsert ingestion :: older ∧
                    ingestion.fits = true ∧
                      ingestion.points uuid5 id =
                          some payload ∧
                        KeepsVersion ingestion.law since := by
            intro hOld
            apply hLeft hOld
            intro law hIs
            cases hIs
          split at hPoint
          · rename_i hFits
            rcases Option.or_eq_some_iff.mp hPoint with
              hNew | ⟨-, hBefore⟩
            · refine ⟨[], other, history, rfl, hFits, hNew, ?_⟩
              intro law hMem
              cases hMem
            · exact hOld hBefore
          · exact hOld hPoint
      | supersede law =>
          change
            (index uuid5 history id).map _ = some payload
              at hPoint
          rcases Option.map_eq_some_iff.mp hPoint with
            ⟨old, hOld, hEq⟩
          split at hEq
          · rw [← hEq] at hCurrent
            cases hCurrent
          · rename_i hKept
            subst hEq
            apply hLeft hOld
            intro other hIs hLaw
            cases hIs
            by_contra hNe
            exact hKept ⟨hLaw, hNe⟩

/- An ingestion's windows are those of its articles. -/
theorem of_written
    {ingestion : Ingestion Vector}
    {id : Text}
    {payload : Payload}
    (hPoint : ingestion.points uuid5 id = some payload) :
    ∃ article ∈ ingestion.articles,
      article.text.strip ≠ [] ∧
        ∃ seq window,
          payload =
            (article.chunk ingestion.law seq window).payload := by
  rcases of_putAll hPoint with ⟨chunk, hChunk, -, rfl⟩
  rcases List.mem_flatMap.mp hChunk with
    ⟨article, hArticle, hWindow⟩
  unfold ArticleRec.chunks at hWindow
  split at hWindow
  · cases hWindow
  · rename_i hText
    rcases List.mem_map.mp hWindow with ⟨window, -, rfl⟩
    refine
      ⟨article, hArticle, ?_, window.2, window.1, rfl⟩
    intro hNil
    rw [hNil] at hText
    exact hText rfl

/- An ingestion writes the first window of each article. -/
theorem first_window_mem_ids
    {ingestion : Ingestion Vector}
    {article : ArticleRec}
    (hArticle : article ∈ ingestion.articles)
    (hText : article.text.strip ≠ []) :
    pointId uuid5
        (articleIri ingestion.law.lawId ingestion.law.effDate
          article.articleNo article.branchNo)
        0 ∈
      ingestion.ids uuid5 := by
  cases hWindows :
      splitWindows article.text maxChars overlapChars with
  | nil => exact absurd (splitWindows_eq_nil_iff.mp hWindows) hText
  | cons window windows =>
      apply List.mem_map.mpr
      refine
        ⟨article.chunk ingestion.law 0 window,
          List.mem_flatMap.mpr ⟨article, hArticle, ?_⟩, rfl⟩
      unfold ArticleRec.chunks
      rw [if_neg, hWindows]
      · exact List.mem_cons_self
      · rw [List.isEmpty_iff]
        exact hText

end Write

------------------------------------------------------------
-- Articles Of A Search
------------------------------------------------------------

/- An article of a version of a law, as a search shows it. -/
structure Shows
    {S : Type}
    (uuid5 : Text → Text)
    (law : LawMeta)
    (article : ArticleRec)
    (shown : Retrieval.LawRef S) :
    Prop where
  uri :
    shown.uri =
      articleIri law.lawId law.effDate article.articleNo
        article.branchNo
  id : shown.id = pointId uuid5 shown.uri 0
  lawId : shown.resourceId = law.lawId
  title : shown.title = law.statute
  number :
    shown.ref =
      law.statute ++ [' '] ++
        articleSegment article.articleNo article.branchNo
  effDate : shown.effDate = iso law.effDate
  text : shown.articleText = article.text
  snippet : shown.snippet = article.text.take 200

section Searched

variable {Vector F S : Type} {uuid5 : Text → Text}

/- A hit on a window of an article shows the article. -/
theorem shows_toLawref
    {law : LawMeta}
    {article : ArticleRec}
    (hText : article.text.strip ≠ [])
    {seq : Nat}
    {window : Text}
    {hit : Retrieval.Hit S}
    (hHit :
      hit.payload = (article.chunk law seq window).payload.read) :
    Shows uuid5 law article (Retrieval.toLawref uuid5 hit) := by
  have hNonempty : article.text ≠ [] := by
    intro hNil
    rw [hNil] at hText
    exact hText rfl
  have hFull : hit.payload.full = article.text := by
    rw [hHit]
    cases hArticle : article.text with
    | nil => exact absurd hArticle hNonempty
    | cons c rest =>
        simp [Retrieval.Payload.full, Payload.read,
          Chunk.payload, ArticleRec.chunk, hArticle]
  refine ⟨?_, rfl, ?_, ?_, ?_, ?_, hFull, ?_⟩
  · change hit.payload.uri = _
    rw [hHit]
    rfl
  · change hit.payload.resourceId = _
    rw [hHit]
    rfl
  · change hit.payload.statute = _
    rw [hHit]
    rfl
  · change
      hit.payload.statute ++ [' '] ++ hit.payload.articleNo = _
    rw [hHit]
    rfl
  · change hit.payload.effDate = _
    rw [hHit]
    rfl
  · change hit.payload.full.take 200 = _
    rw [hFull]

/-
  Whatever ingestions have written, overlapping or cut short,
  the articles that a search hands to the model are different
  articles, at most eight.  Each was parsed by an ingestion
  and is shown with its whole text, no demotion of its law has
  kept another version since, and the id that it is cited by
  is that of a current point of its version.
-/
theorem searched_in_force
    [LinearOrder S]
    (hInjective : Function.Injective uuid5)
    {history : List (IndexWrite Vector)}
    (hWrites : PlainWrites history)
    {backends : Backends F S}
    (hAnswers :
      AnswersFrom (index uuid5 history) backends.queryPoints)
    {setOrder : List Text → List Text}
    {query content : Text}
    {ctx : Retrieval.AnswerContext S}
    (hTool :
      searchLegal (.ok (buildRetrievalService backends)) uuid5
          setOrder query =
        (content, some ctx)) :
    content = formatForLlm ctx ∧
      ctx.articles.length ≤ 8 ∧
        (ctx.articles.map Retrieval.LawRef.uri).Nodup ∧
          ∀ shown ∈ ctx.articles,
            ∃ since ingestion older,
              history = since ++ .upsert ingestion :: older ∧
                KeepsVersion ingestion.law since ∧
                  (∃ article ∈ ingestion.articles,
                    Shows uuid5 ingestion.law article shown) ∧
                    (index uuid5 history).HasCurrent
                      ingestion.law shown.id := by
  rcases of_searchLegal hTool with
    ⟨hContent, parts, vector, hits, scored, found, hService,
      hSearch, hScored, hTop, hArticles⟩
  cases hService
  refine ⟨hContent, ?_, ?_, ?_⟩
  · rw [hArticles, List.length_map, hTop.count]
    exact Nat.min_le_left _ _
  · rw [hArticles, List.map_map]
    exact hTop.distinct
  · intro shown hShown
    rw [hArticles] at hShown
    rcases List.mem_map.mp hShown with ⟨hit, hFound, rfl⟩
    have hHit : hit ∈ scored := by
      rcases hTop.best hit hFound with ⟨front, back, rfl, -⟩
      simp
    rcases of_mem_reranked hScored hHit with
      ⟨old, hOld, hSame⟩
    rcases of_mem_search hAnswers hSearch hOld with
      ⟨id, payload, hAt, hPasses, hRead⟩
    rcases exists_write hAt (isCurrent_of_passes hPasses) with
      ⟨since, ingestion, older, rfl, hFits, hWritten, hKeeps⟩
    rcases of_written hWritten with
      ⟨article, hArticle, hText, seq, window, rfl⟩
    have hShows :
        Shows uuid5 ingestion.law article
          (Retrieval.toLawref uuid5 hit) :=
      shows_toLawref hText (hSame.trans hRead)
    refine
      ⟨since, ingestion, older, rfl, hKeeps,
        ⟨article, hArticle, hShows⟩, ?_⟩
    rw [hShows.id, hShows.uri]
    apply
      current_until_demoted hInjective _ hFits
        (first_window_mem_ids hArticle hText) _ hKeeps
    · exact
        hWrites ingestion
          (List.mem_append_right _ List.mem_cons_self)
    · intro other hMem
      exact hWrites other (List.mem_append_left _ hMem)

end Searched

/- An index that returns all the points it is asked for. -/
def pointsOf
    {F : Type}
    (ids : List Text)
    (collection : Collection)
    (query : PointsQuery F) :
    Except Raised (List (ScoredPoint Nat)) :=
  .ok
    (((ids.filterMap collection).filter fun payload =>
        query.prefetches.any fun prefetch =>
          payload.passes prefetch.filter).map
      fun payload => ⟨payload.text.length, payload⟩)

/- Such an index answers from its collection. -/
theorem answersFrom_pointsOf
    {F : Type}
    (ids : List Text)
    (collection : Collection) :
    AnswersFrom collection
      (pointsOf ids collection : PointsQuery F → _) := by
  intro query points hQuery point hPoint
  cases hQuery
  rcases List.mem_map.mp hPoint with ⟨payload, hMem, rfl⟩
  rcases List.mem_filter.mp hMem with ⟨hId, hAny⟩
  rcases List.mem_filterMap.mp hId with ⟨id, -, hAt⟩
  exact ⟨id, hAt, List.any_eq_true.mp hAny⟩

/- The writes of a law while a later version is ingested. -/
def amending : List (IndexWrite Unit) :=
  [.upsert amended, .supersede (ingestion 1).law,
    .upsert (ingestion 1)]

/- A search of the points of both versions, without models. -/
def bothVersions : Backends Unit Nat where
  embed := fun texts =>
    .ok (texts.map fun _ => { dense := [()], sparse := [] })
  queryPoints :=
    pointsOf ((ingestion 1).ids id ++ amended.ids id)
      (index id amending)
  model := none
  expand := fun _ _ _ _ => .ok []

/-
  Until the later version is kept, a search shows articles of
  both versions.
-/
theorem searched_in_force_amended :
    ∃ content ctx,
      searchLegal (.ok (buildRetrievalService bothVersions)) id
            id "거실".toList =
          (content, some ctx) ∧
        ctx.articles.length = 2 ∧
          ∀ shown ∈ ctx.articles,
            ∃ since ingestion older,
              amending = since ++ .upsert ingestion :: older ∧
                KeepsVersion ingestion.law since ∧
                  (∃ article ∈ ingestion.articles,
                    Shows id ingestion.law article shown) ∧
                    (index id amending).HasCurrent
                      ingestion.law shown.id := by
  have hWrites : PlainWrites amending := by
    intro other hMem
    simp only [amending, List.mem_cons, List.not_mem_nil,
      or_false, reduceCtorEq, false_or,
      IndexWrite.upsert.injEq] at hMem
    rcases hMem with rfl | rfl
    · exact plain_amended
    · exact plain_ingestion
  have hSome :
      ((searchLegal (.ok (buildRetrievalService bothVersions))
            id id "거실".toList).2.map fun ctx =>
          ctx.articles.length) =
        some 2 := by
    decide +kernel
  cases hTool :
      searchLegal (.ok (buildRetrievalService bothVersions)) id
        id "거실".toList with
  | mk content found =>
      rw [hTool] at hSome
      cases found with
      | none => cases hSome
      | some ctx =>
          refine ⟨content, ctx, rfl, Option.some.inj hSome, ?_⟩
          exact
            (searched_in_force Function.injective_id hWrites
              (answersFrom_pointsOf _ _) hTool).2.2.2

end Law

end LegalAgent
