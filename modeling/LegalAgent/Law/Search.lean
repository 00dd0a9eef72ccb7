import LegalAgent.Law.Embedding
import LegalAgent.Law.Ingest
import LegalAgent.Law.Retrieval

/-
  The search of the tool for laws, down to the vector index
  (`vector_qdrant.py`, `reranker_flag.py`, `provider.py`,
  `tools/legal.py`).

  The index is asked for the nearest points that pass a filter.
  Its points become hits, the cross-encoder scores their texts
  anew, and the tool writes the articles down for the language
  model.  The models, the index and the graph are parameters.

  Key definitions include:
    * `pointsQuery`
    * `QdrantVector.search`
    * `LocalFlagReranker.rerank`
    * `searchLegal`
    * `AnswersFrom`

  Key theorems include:
    * `of_mem_search`
    * `of_mem_rerank`
    * `of_searchLegal`
-/

------------------------------------------------------------
-- Filters
------------------------------------------------------------

namespace LegalAgent

namespace Law

open Retrieval (Hit Parts AnswerContext Relation)

/- The fields that have to have a value. -/
abbrev PointFilter : Type := List (Text × Bool)

/- `_build_filter`: comparisons have no part in it. -/
def buildFilter (flt : Option PointFilter) : Option PointFilter :=
  let must :=
    (flt.getD []).filter fun condition =>
      !"<=".toList.isSuffixOf condition.1
  if must.isEmpty then none else some must

/- A field of a payload that holds a truth value. -/
def Payload.flag
    (payload : Payload)
    (key : Text) :
    Option Bool :=
  if key = "is_current".toList then
    some payload.isCurrent
  else
    none

/- The field that tells current points. -/
theorem flag_current (payload : Payload) :
    payload.flag "is_current".toList =
      some payload.isCurrent := by
  unfold Payload.flag
  generalize "is_current".toList = key
  exact if_pos rfl

/- A payload has the values that a filter asks for. -/
def Payload.passes
    (payload : Payload)
    (filter : Option PointFilter) :
    Bool :=
  (filter.getD []).all fun condition =>
    payload.flag condition.1 == some condition.2

/- What passes the filter of the retrieval is current. -/
theorem isCurrent_of_passes
    {payload : Payload}
    (hPasses :
      payload.passes
          (buildFilter (some [("is_current".toList, true)])) =
        true) :
    payload.isCurrent = true := by
  have hFilter :
      buildFilter (some [("is_current".toList, true)]) =
        some [("is_current".toList, true)] := by
    decide +kernel
  rw [hFilter] at hPasses
  unfold Payload.passes at hPasses
  rw [Option.getD_some, List.all_cons, List.all_nil,
    Bool.and_true, beq_iff_eq, flag_current] at hPasses
  exact Option.some.inj hPasses

------------------------------------------------------------
-- Queries
------------------------------------------------------------

section Search

variable {F S : Type}

/- A vector under its name (`DENSE`, `SPARSE`). -/
inductive NamedVector (F : Type) where
  | dense (values : List F)
  | sparse (indices : List Int) (values : List F)

/- `Prefetch`. -/
structure Prefetch (F : Type) where
  query : NamedVector F
  limit : Nat
  filter : Option PointFilter

/- What `query_points` is asked. -/
inductive PointsQuery (F : Type) where
  | nearest (prefetch : Prefetch F)
  | fusion (prefetch : List (Prefetch F)) (limit : Nat)

/- The lists of points that the answer is made of. -/
def PointsQuery.prefetches :
    PointsQuery F → List (Prefetch F)
| .nearest prefetch => [prefetch]
| .fusion prefetch _ => prefetch

/- The query of a search; hybrid with a sparse vector. -/
def pointsQuery
    (q : Embedding.DenseSparse F)
    (k : Nat)
    (flt : Option PointFilter) :
    PointsQuery F :=
  let qf := buildFilter flt
  if q.sparse.isEmpty then
    .nearest ⟨.dense q.dense, k, qf⟩
  else
    let pre := max (k * 4) 50
    .fusion
      [⟨.dense q.dense, pre, qf⟩,
        ⟨.sparse (q.sparse.map Prod.fst)
            (q.sparse.map Prod.snd), pre, qf⟩]
      k

/- Every list of a search is filtered. -/
theorem filter_of_mem_prefetches
    {q : Embedding.DenseSparse F}
    {k : Nat}
    {flt : Option PointFilter}
    {prefetch : Prefetch F}
    (hMem : prefetch ∈ (pointsQuery q k flt).prefetches) :
    prefetch.filter = buildFilter flt := by
  unfold pointsQuery at hMem
  split at hMem
  · rw [List.mem_singleton.mp hMem]
  · rcases List.mem_cons.mp hMem with rfl | hMem
    · rfl
    · rw [List.mem_singleton.mp hMem]

/- A point of an answer. -/
structure ScoredPoint (S : Type) where
  score : S
  payload : Payload

/- What the retrieval reads of a payload. -/
def Payload.read (payload : Payload) : Retrieval.Payload where
  uri := payload.uri
  resourceId := payload.resourceId
  statute := payload.statute
  articleNo := payload.articleNo
  effDate := payload.effDate
  text := some payload.text
  articleText := some payload.articleText

/- `QdrantVector.search`. -/
def QdrantVector.search
    (queryPoints :
      PointsQuery F → Except Raised (List (ScoredPoint S)))
    (q : Embedding.DenseSparse F)
    (k : Nat)
    (flt : Option PointFilter) :
    Except Raised (List (Hit S)) := do
  let points ← queryPoints (pointsQuery q k flt)
  pure
    (points.map fun point =>
      ⟨point.payload.uri, point.score, point.payload.read⟩)

/-
  The index answers with points of a collection, each of one
  of the lists that it was asked for.
-/
def AnswersFrom
    (collection : Collection)
    (queryPoints :
      PointsQuery F → Except Raised (List (ScoredPoint S))) :
    Prop :=
  ∀ query points,
    queryPoints query = .ok points →
      ∀ point ∈ points,
        ∃ id,
          collection id = some point.payload ∧
            ∃ prefetch ∈ query.prefetches,
              point.payload.passes prefetch.filter = true

/- The hits of a search are points that pass its filter. -/
theorem of_mem_search
    {collection : Collection}
    {queryPoints :
      PointsQuery F → Except Raised (List (ScoredPoint S))}
    (hAnswers : AnswersFrom collection queryPoints)
    {q : Embedding.DenseSparse F}
    {k : Nat}
    {flt : Option PointFilter}
    {hits : List (Hit S)}
    (hSearch : QdrantVector.search queryPoints q k flt = .ok hits)
    {hit : Hit S}
    (hMem : hit ∈ hits) :
    ∃ id payload,
      collection id = some payload ∧
        payload.passes (buildFilter flt) = true ∧
          hit.payload = payload.read := by
  unfold QdrantVector.search at hSearch
  cases hQuery : queryPoints (pointsQuery q k flt) with
  | error exn =>
      rw [hQuery] at hSearch
      cases hSearch
  | ok points =>
      rw [hQuery] at hSearch
      cases hSearch
      rcases List.mem_map.mp hMem with ⟨point, hPoint, rfl⟩
      rcases hAnswers _ _ hQuery point hPoint with
        ⟨id, hAt, prefetch, hPrefetch, hPasses⟩
      rw [filter_of_mem_prefetches hPrefetch] at hPasses
      exact ⟨id, point.payload, hAt, hPasses, rfl⟩

------------------------------------------------------------
-- Reranking
------------------------------------------------------------

/-
  `LocalFlagReranker.rerank`.  The model scores pairs of texts,
  or it cannot be loaded.
-/
def LocalFlagReranker.rerank
    [LinearOrder S]
    (model : List (Text × Text) → Except Raised (List S))
    (query : Text)
    (hits : List (Hit S))
    (k : Nat) :
    Except Raised (List (Hit S)) :=
  if hits.isEmpty then
    .ok []
  else do
    let texts := hits.map fun hit => hit.payload.text.getD []
    let scores ← model (texts.map fun text => (query, text))
    let ranked :=
      (hits.zip scores).insertionSort fun pair other =>
        other.2 ≤ pair.2
    pure
      ((ranked.take k).map fun pair =>
        { pair.1 with score := pair.2 })

/- A reranker changes no more than the scores. -/
theorem of_mem_rerank
    [LinearOrder S]
    {model : List (Text × Text) → Except Raised (List S)}
    {query : Text}
    {hits ranked : List (Hit S)}
    {k : Nat}
    (hRerank :
      LocalFlagReranker.rerank model query hits k = .ok ranked)
    {hit : Hit S}
    (hMem : hit ∈ ranked) :
    ∃ old ∈ hits, hit.payload = old.payload := by
  unfold LocalFlagReranker.rerank at hRerank
  split at hRerank
  · cases hRerank
    cases hMem
  · dsimp only at hRerank
    generalize model _ = scored at hRerank
    cases scored with
    | error exn => cases hRerank
    | ok scores =>
        cases hRerank
        rcases List.mem_map.mp hMem with ⟨pair, hPair, rfl⟩
        have hZip :=
          (List.mem_insertionSort _).mp
            (List.mem_of_mem_take hPair)
        exact ⟨pair.1, (List.of_mem_zip hZip).1, rfl⟩

------------------------------------------------------------
-- Assembly
------------------------------------------------------------

/- What the environment chooses (`provider.py`). -/
structure Backends (F S : Type) where
  embed : List Text → Except Raised (List (Embedding.DenseSparse F))
  queryPoints :
    PointsQuery F → Except Raised (List (ScoredPoint S))
  model : Option (List (Text × Text) → Except Raised (List S))
  expand :
    List Text → List Text → Nat → Nat →
      Except Raised (List Relation)

/- `build_retrieval_service`; without a model none reranks. -/
def buildRetrievalService
    [LinearOrder S]
    (backends : Backends F S) :
    Parts (Embedding.DenseSparse F) S where
  embed := backends.embed
  search := fun q k flt =>
    QdrantVector.search backends.queryPoints q k (some flt)
  rerank := backends.model.map LocalFlagReranker.rerank
  expand := backends.expand

/- What is reranked are points of the index. -/
theorem of_mem_reranked
    [LinearOrder S]
    {backends : Backends F S}
    {query : Text}
    {hits scored : List (Hit S)}
    (hScored :
      Retrieval.reranked (buildRetrievalService backends) query
          hits =
        .ok scored)
    {hit : Hit S}
    (hMem : hit ∈ scored) :
    ∃ old ∈ hits, hit.payload = old.payload := by
  unfold Retrieval.reranked buildRetrievalService at hScored
  cases hModel : backends.model with
  | none =>
      rw [hModel] at hScored
      cases hScored
      exact ⟨hit, hMem, rfl⟩
  | some model =>
      rw [hModel] at hScored
      exact of_mem_rerank hScored hMem

end Search

------------------------------------------------------------
-- The Tool
------------------------------------------------------------

section Tool

variable {V S : Type}

/- An article with the label that a citation repeats. -/
def block (ref : Retrieval.LawRef S) : Text :=
  "\n[id: ".toList ++ ref.id ++ "] 《".toList ++ ref.title ++
    "》 ".toList ++ ref.ref ++ " (시행 ".toList ++
      ref.effDate ++ ")\n".toList ++
        if ref.articleText.isEmpty then ref.snippet
        else ref.articleText

/- `format_for_llm`. -/
def formatForLlm (ctx : AnswerContext S) : Text :=
  if ctx.articles.isEmpty then
    "검색 결과: 근거 조문 없음. 데이터베이스에서 관련 조문을 찾지 못했습니다.".toList
  else
    List.intercalate ['\n']
      (("질의: ".toList ++ ctx.query) ::
        ("근거 조문 ".toList ++ intText ctx.articles.length ++
          "건:".toList) ::
          ctx.articles.map block)

/- `search_legal`: the text for the model, and the articles. -/
def searchLegal
    [LinearOrder S]
    (service : Except Raised (Parts V S))
    (uuid5 : Text → Text)
    (setOrder : List Text → List Text)
    (query : Text) :
    Text × Option (AnswerContext S) :=
  let q := query.strip
  if q.isEmpty then
    ("검색어가 비어 있습니다. 찾고 싶은 법령 내용을 입력하세요.".toList,
      none)
  else if 2000 < q.length then
    ("질의가 너무 깁니다. 핵심 키워드로 줄여서 다시 검색하세요.".toList,
      none)
  else
    match
      service >>= fun parts =>
        Retrieval.RetrievalService.retrieve parts uuid5 setOrder
          q none 8 with
    | .ok ctx => (formatForLlm ctx, some ctx)
    | .error exn =>
        if exn.cls = .notImplementedError then
          ("법령 검색 미지원: ".toList ++ exn.message ++
              exn.shown.getD [],
            none)
        else
          ("법령 검색 중 일시적 오류가 발생했습니다. 잠시 후 다시 시도하세요.".toList,
            none)

/- What a retrieval that returns was made of. -/
theorem of_retrieve
    [LinearOrder S]
    {parts : Parts V S}
    {uuid5 : Text → Text}
    {setOrder : List Text → List Text}
    {query : Text}
    {k : Nat}
    {ctx : AnswerContext S}
    (hRetrieve :
      Retrieval.RetrievalService.retrieve parts uuid5 setOrder
          query none k =
        .ok ctx) :
    ∃ vector hits scored found,
      parts.search vector 30 [("is_current".toList, true)] =
          .ok hits ∧
        Retrieval.reranked parts query hits = .ok scored ∧
          Library.IsTop Hit.article Hit.score scored k found ∧
            ctx.articles =
              found.map (Retrieval.toLawref uuid5) := by
  have hWhole := hRetrieve
  unfold Retrieval.RetrievalService.retrieve at hRetrieve
  rw [Option.isSome_none, if_neg Bool.false_ne_true]
    at hRetrieve
  cases hEmbed : parts.embed [query] with
  | error exn =>
      rw [hEmbed] at hRetrieve
      cases hRetrieve
  | ok vectors =>
      rw [hEmbed] at hRetrieve
      cases vectors with
      | nil => cases hRetrieve
      | cons vector more =>
          simp only [Retrieval.firstVector, ok_bind] at hRetrieve
          cases hSearch :
              parts.search vector 30
                [("is_current".toList, true)] with
          | error exn =>
              rw [hSearch] at hRetrieve
              cases hRetrieve
          | ok hits =>
              rw [hSearch, ok_bind] at hRetrieve
              cases hScored :
                  Retrieval.reranked parts query hits with
              | error exn =>
                  rw [hScored] at hRetrieve
                  cases hRetrieve
              | ok scored =>
                  rcases
                      Retrieval.retrieve_found setOrder k hEmbed
                        hSearch hScored with
                    ⟨found, relations, hTop, hIs⟩
                  rw [hWhole] at hIs
                  cases hIs
                  exact
                    ⟨vector, hits, scored, found, hSearch,
                      hScored, hTop, rfl⟩

/-
  The articles of a search are the top of its hits, and the
  model reads them as they are.
-/
theorem of_searchLegal
    [LinearOrder S]
    {service : Except Raised (Parts V S)}
    {uuid5 : Text → Text}
    {setOrder : List Text → List Text}
    {query content : Text}
    {ctx : AnswerContext S}
    (hTool :
      searchLegal service uuid5 setOrder query =
        (content, some ctx)) :
    content = formatForLlm ctx ∧
      ∃ parts vector hits scored found,
        service = .ok parts ∧
          parts.search vector 30 [("is_current".toList, true)] =
              .ok hits ∧
            Retrieval.reranked parts query.strip hits =
                .ok scored ∧
              Library.IsTop Hit.article Hit.score scored 8
                  found ∧
                ctx.articles =
                  found.map (Retrieval.toLawref uuid5) := by
  unfold searchLegal at hTool
  dsimp only at hTool
  split at hTool
  · cases hTool
  split at hTool
  · cases hTool
  cases service with
  | error exn =>
      rw [error_bind] at hTool
      dsimp only at hTool
      split at hTool
      · cases hTool
      · cases hTool
  | ok parts =>
      rw [ok_bind] at hTool
      split at hTool
      · rename_i found hRetrieve
        cases hTool
        rcases of_retrieve hRetrieve with
          ⟨vector, hits, scored, found, hRest⟩
        exact
          ⟨rfl, parts, vector, hits, scored, found, rfl, hRest⟩
      · split at hTool
        · cases hTool
        · cases hTool

end Tool

end Law

end LegalAgent
