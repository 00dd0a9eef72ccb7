import LegalAgent.Law.InForce

/-
  The graph behind the index.

  An ingestion puts the graph of a version before it writes the
  points of the version, and the IRI of an article joins both.
  So whatever calls overlap or stop half way, the graph says of
  the IRI of a current point what the point says.

  Key definitions include:
    * `buildGraph`
    * `Source.writes`
    * `Ingesting.Step`

  Key theorems include:
    * `ready_of_reached`
    * `graphs_of_mem`
    * `points_joined`
-/

------------------------------------------------------------
-- Graphs Of Versions
------------------------------------------------------------

namespace LegalAgent

namespace Law

open Library

/- The object of a triple: an IRI, a text or a date. -/
inductive Node where
  | iri (iri : Text)
  | literal (text : Text)
  | date (text : Text)
deriving DecidableEq

/- A triple whose object may be a literal. -/
abbrev GraphTriple := Text × Text × Node

namespace Vocabulary

def rdfType : Text :=
  "http://www.w3.org/1999/02/22-rdf-syntax-ns#type".toList

def dctermsTitle : Text := "http://purl.org/dc/terms/title".toList

/- `ELI`. -/
def eli (name : String) : Text :=
  "http://data.europa.eu/eli/ontology#".toList ++ name.toList

/- `LO`. -/
def lo (name : String) : Text :=
  "https://2026agent.kr/ontology#".toList ++ name.toList

/- `LAW`. -/
def law (name : String) : Text :=
  "http://www.aihub.or.kr/kb/law/".toList ++ name.toList

end Vocabulary

open Vocabulary

/- An article with its title. -/
structure TitledArticle extends ArticleRec where
  title : Text

/- What the graph says of an article. -/
def articleTriples
    (version : LawMeta)
    (article : TitledArticle) :
    List GraphTriple :=
  let expr := expressionIri version.lawId version.effDate
  let art :=
    articleIri version.lawId version.effDate article.articleNo
      article.branchNo
  [(expr, lo "hasArticle", .iri art),
    (art, rdfType, .iri (law "Article")),
    (art, law "articleName",
      .literal
        (articleSegment article.articleNo article.branchNo))] ++
    (if article.title.isEmpty then []
      else [(art, law "articleTitle", .literal article.title)]) ++
    [(art, law "fullText", .literal article.text)]

/- The graph of a version (`_build_graph`). -/
def buildGraph
    (version : LawMeta)
    (articles : List TitledArticle) :
    List GraphTriple :=
  let res := resourceIri version.lawId
  let expr := expressionIri version.lawId version.effDate
  [(res, rdfType, .iri (eli "LegalResource")),
    (res, dctermsTitle, .literal version.statute),
    (res, lo "lawId", .literal version.lawId),
    (expr, rdfType, .iri (eli "LegalExpression")),
    (expr, eli "realizes", .iri res),
    (expr, eli "date_publication",
      .date (iso version.effDate)),
    (expr, law "statuteName", .literal version.statute)] ++
    articles.flatMap (articleTriples version)

/- The name of the graph of a version. -/
def graphUri (version : LawMeta) : Text :=
  "https://2026agent.kr/law/graph/".toList ++ version.lawId ++
    '/' :: version.effDate

------------------------------------------------------------
-- Calls That Overlap
------------------------------------------------------------

/-
  A call of `ingest_law` whose law was resolved, fetched and
  parsed, with the vectors that the embedding returns.
-/
structure Source (Vector : Type) where
  law : LawMeta
  articles : List TitledArticle
  vectors : List Vector

/- What a call writes to the graph or to the index. -/
inductive StoreWrite (Vector : Type) where
  | graph (source : Source Vector)
  | points (write : IndexWrite Vector)

variable {Vector : Type}

/- The points that a call writes. -/
def Source.ingestion
    (source : Source Vector) :
    Ingestion Vector where
  law := source.law
  articles := source.articles.map TitledArticle.toArticleRec
  vectors := source.vectors

/- The writes of a call, one after the other. -/
def Source.writes
    (source : Source Vector) :
    List (StoreWrite Vector) :=
  [.graph source, .points (.upsert source.ingestion),
    .points (.supersede source.law)]

/- The write to the index, if it is one. -/
def StoreWrite.index? :
    StoreWrite Vector → Option (IndexWrite Vector)
| .graph _ => none
| .points write => some write

/- The graphs behind a history; the last write comes first. -/
def graphs : List (StoreWrite Vector) → Text → List GraphTriple
| [], _ => []
| .graph source :: older, uri =>
    if uri = graphUri source.law then
      buildGraph source.law source.articles
    else
      graphs older uri
| .points _ :: older, uri => graphs older uri

/- What was written, and what each call has still to write. -/
structure Ingesting (Vector : Type) where
  history : List (StoreWrite Vector)
  calls : List (List (StoreWrite Vector))

/-
  A call begins, or one of them makes its next write.  A call
  that stops makes no more.
-/
inductive Ingesting.Step :
    Ingesting Vector → Ingesting Vector → Prop where
  | begin {state} (source : Source Vector) :
      Step state
        { state with calls := source.writes :: state.calls }
  | write {history write rest front back} :
      Step ⟨history, front ++ (write :: rest) :: back⟩
        ⟨write :: history, front ++ rest :: back⟩

/- What calls reach from empty stores. -/
def Ingesting.Reached (state : Ingesting Vector) : Prop :=
  Relation.ReflTransGen Ingesting.Step ⟨[], []⟩ state

/- A call that has put its graph, if it wrote at all. -/
def Ready
    (history call : List (StoreWrite Vector)) :
    Prop :=
  ∃ source : Source Vector, ∃ made,
    call = source.writes.drop made ∧
      (0 < made → .graph source ∈ history)

/- No points are written before the graph is put. -/
structure Ingesting.Prepared
    (state : Ingesting Vector) :
    Prop where
  put :
    ∀ ingestion,
      .points (.upsert ingestion) ∈ state.history →
        ∃ source,
          .graph source ∈ state.history ∧
            source.ingestion = ingestion
  ready : ∀ call ∈ state.calls, Ready state.history call

section Reached

variable {state next : Ingesting Vector}

/- A call stays ready when more is written. -/
theorem Ready.mono
    {history call : List (StoreWrite Vector)}
    (hReady : Ready history call)
    (write : StoreWrite Vector) :
    Ready (write :: history) call := by
  rcases hReady with ⟨source, made, hCall, hPut⟩
  exact
    ⟨source, made, hCall,
      fun hMade => List.mem_cons_of_mem _ (hPut hMade)⟩

/- The next write of a call that is ready. -/
theorem Ready.write
    {history rest : List (StoreWrite Vector)}
    {write : StoreWrite Vector}
    (hReady : Ready history (write :: rest)) :
    Ready (write :: history) rest ∧
      ∀ ingestion,
        write = .points (.upsert ingestion) →
          ∃ source,
            .graph source ∈ history ∧
              source.ingestion = ingestion := by
  rcases hReady with ⟨source, made, hCall, hPut⟩
  have hRest : rest = source.writes.drop (made + 1) := by
    rw [← List.tail_drop, ← hCall, List.tail_cons]
  rcases made with _ | _ | _ | made
  · cases hCall
    exact
      ⟨⟨source, 1, rfl, fun _ => List.mem_cons_self⟩,
        fun _ hWrite => by cases hWrite⟩
  · cases hCall
    have hGraph := hPut (Nat.zero_lt_succ _)
    refine
      ⟨⟨source, 2, rfl, fun _ => List.mem_cons_of_mem _ hGraph⟩,
        ?_⟩
    rintro ingestion ⟨⟩
    exact ⟨source, hGraph, rfl⟩
  · cases hCall
    have hGraph := hPut (Nat.zero_lt_succ _)
    exact
      ⟨⟨source, 3, rfl, fun _ => List.mem_cons_of_mem _ hGraph⟩,
        fun _ hWrite => by cases hWrite⟩
  · simp [Source.writes] at hCall

/- A step of a call leaves the calls prepared. -/
theorem prepared_step
    (hPrepared : state.Prepared)
    (hStep : Ingesting.Step state next) :
    next.Prepared := by
  cases hStep with
  | begin source =>
      refine ⟨hPrepared.put, ?_⟩
      intro call hCall
      rcases List.mem_cons.mp hCall with rfl | hOld
      · exact ⟨source, 0, rfl, fun hMade => absurd hMade (by simp)⟩
      · exact hPrepared.ready call hOld
  | @write history write rest front back =>
      rcases
          (hPrepared.ready (write :: rest) (by simp)).write with
        ⟨hRest, hUpsert⟩
      constructor
      · intro ingestion hMem
        rcases List.mem_cons.mp hMem with hWrite | hOld
        · rcases hUpsert ingestion hWrite.symm with
            ⟨source, hGraph, hSame⟩
          exact ⟨source, List.mem_cons_of_mem _ hGraph, hSame⟩
        · rcases hPrepared.put ingestion hOld with
            ⟨source, hGraph, hSame⟩
          exact ⟨source, List.mem_cons_of_mem _ hGraph, hSame⟩
      · intro call hCall
        rcases List.mem_append.mp hCall with hFront | hCall
        · exact
            (hPrepared.ready call (by simp [hFront])).mono write
        · rcases List.mem_cons.mp hCall with rfl | hBack
          · exact hRest
          · exact
              (hPrepared.ready call (by simp [hBack])).mono
                write

/- Reached calls are prepared. -/
theorem prepared_of_reached
    (hReached : state.Reached) :
    state.Prepared := by
  induction hReached with
  | refl =>
      exact
        ⟨fun _ hMem => absurd hMem List.not_mem_nil,
          fun _ hMem => absurd hMem List.not_mem_nil⟩
  | tail _ hStep ih => exact prepared_step ih hStep

/- A graph that was put is there, or one of its name is. -/
theorem graphs_of_mem
    {history : List (StoreWrite Vector)}
    {source : Source Vector}
    (hMem : .graph source ∈ history) :
    ∃ last,
      .graph last ∈ history ∧
        graphUri last.law = graphUri source.law ∧
          graphs history (graphUri source.law) =
            buildGraph last.law last.articles := by
  induction history with
  | nil => cases hMem
  | cons write older ih =>
      have hOlder :
          .graph source ∈ older →
            graphs (write :: older) (graphUri source.law) =
                graphs older (graphUri source.law) →
              ∃ last,
                .graph last ∈ write :: older ∧
                  graphUri last.law = graphUri source.law ∧
                    graphs (write :: older)
                        (graphUri source.law) =
                      buildGraph last.law last.articles := by
        intro hOld hSame
        rcases ih hOld with ⟨last, hLast, hUri, hGraph⟩
        exact
          ⟨last, List.mem_cons_of_mem _ hLast, hUri,
            hSame.trans hGraph⟩
      cases write with
      | points write =>
          refine hOlder ?_ rfl
          rcases List.mem_cons.mp hMem with hIs | hOld
          · cases hIs
          · exact hOld
      | graph other =>
          by_cases hUri : graphUri source.law = graphUri other.law
          · exact
              ⟨other, List.mem_cons_self, hUri.symm,
                if_pos hUri⟩
          · refine hOlder ?_ (if_neg hUri)
            rcases List.mem_cons.mp hMem with hIs | hOld
            · cases hIs
              exact absurd rfl hUri
            · exact hOld

/- Versions of plain laws have graphs of their own. -/
theorem graphUri_inj
    {version other : LawMeta}
    (hVersion : version.Plain)
    (hOther : other.Plain)
    (hEq : graphUri version = graphUri other) :
    version.lawId = other.lawId ∧
      version.effDate = other.effDate := by
  unfold graphUri at hEq
  rw [List.append_assoc, List.append_assoc,
    List.append_cancel_left_eq] at hEq
  exact append_mark_inj hVersion.lawId.1 hOther.lawId.1 hEq

end Reached

------------------------------------------------------------
-- Joined Points
------------------------------------------------------------

/- What a point says, as triples about its IRI. -/
def Payload.triples
    (payload : Payload)
    (expr : Text) :
    List GraphTriple :=
  [(resourceIri payload.resourceId, dctermsTitle,
      .literal payload.statute),
    (expr, eli "realizes",
      .iri (resourceIri payload.resourceId)),
    (expr, eli "date_publication", .date payload.effDate),
    (expr, lo "hasArticle", .iri payload.uri),
    (payload.uri, rdfType, .iri (law "Article")),
    (payload.uri, law "articleName", .literal payload.articleNo),
    (payload.uri, law "fullText", .literal payload.articleText)]

/- The graph of a version says what its points say. -/
theorem triples_of_chunk
    {version : LawMeta}
    {articles : List TitledArticle}
    {article : TitledArticle}
    (hArticle : article ∈ articles)
    (hText : article.text ≠ [])
    (seq : Nat)
    (window : Text) :
    ∀ triple ∈
        (article.toArticleRec.chunk version seq
            window).payload.triples
          (expressionIri version.lawId version.effDate),
      triple ∈ buildGraph version articles := by
  have hWhole :
      (article.toArticleRec.chunk version seq
          window).payload.articleText =
        article.text := by
    have hEmpty : article.text.isEmpty = false := by
      simpa using hText
    simp [ArticleRec.chunk, Chunk.payload, hEmpty]
  have hOwn :
      ∀ triple ∈ articleTriples version article,
        triple ∈ buildGraph version articles := by
    intro triple hTriple
    exact
      List.mem_append_right _
        (List.mem_flatMap.mpr ⟨article, hArticle, hTriple⟩)
  intro triple hTriple
  simp only [Payload.triples, hWhole, List.mem_cons,
    List.not_mem_nil, or_false] at hTriple
  rcases hTriple with
    rfl | rfl | rfl | rfl | rfl | rfl | rfl
  · simp [buildGraph, ArticleRec.chunk, Chunk.payload]
  · simp [buildGraph, ArticleRec.chunk, Chunk.payload]
  · simp [buildGraph, ArticleRec.chunk, Chunk.payload]
  · apply hOwn
    simp [articleTriples, ArticleRec.chunk, Chunk.payload]
  · apply hOwn
    simp [articleTriples, ArticleRec.chunk, Chunk.payload]
  · apply hOwn
    simp [articleTriples, ArticleRec.chunk, Chunk.payload]
  · apply hOwn
    simp [articleTriples, ArticleRec.chunk, Chunk.payload]

section Joined

variable {uuid5 : Text → Text} {state : Ingesting Vector}

/-
  Whatever calls overlap or stop, the graph of the version of a
  current point says of its IRI what the point says, provided
  that a version is parsed in one way.
-/
theorem points_joined
    (hReached : state.Reached)
    (hPlain :
      ∀ source, .graph source ∈ state.history → source.law.Plain)
    (hSame :
      ∀ source other,
        .graph source ∈ state.history →
          .graph other ∈ state.history →
            source.law.lawId = other.law.lawId →
              source.law.effDate = other.law.effDate →
                source.law = other.law ∧
                  source.articles = other.articles)
    {id : Text}
    {payload : Payload}
    (hPoint :
      index uuid5 (state.history.filterMap StoreWrite.index?)
          id =
        some payload)
    (hCurrent : payload.isCurrent = true) :
    ∃ source,
      .graph source ∈ state.history ∧
        ∀ triple ∈
            payload.triples
              (expressionIri source.law.lawId
                source.law.effDate),
          triple ∈ graphs state.history (graphUri source.law) := by
  rcases exists_write hPoint hCurrent with
    ⟨since, ingestion, older, hHistory, -, hWritten, -⟩
  have hUpsert :
      .points (.upsert ingestion) ∈ state.history := by
    have hMem :
        IndexWrite.upsert ingestion ∈
          state.history.filterMap StoreWrite.index? := by
      rw [hHistory]
      exact List.mem_append_right _ List.mem_cons_self
    rcases List.mem_filterMap.mp hMem with ⟨write, hIn, hIs⟩
    cases write with
    | graph source => cases hIs
    | points write =>
        cases hIs
        exact hIn
  rcases (prepared_of_reached hReached).put ingestion hUpsert with
    ⟨source, hGraph, rfl⟩
  rcases of_written hWritten with
    ⟨article, hArticle, hText, seq, window, rfl⟩
  rcases List.mem_map.mp hArticle with ⟨titled, hTitled, rfl⟩
  rcases graphs_of_mem hGraph with ⟨last, hLast, hUri, hIs⟩
  -- the last graph of this name is that of the same version
  rcases graphUri_inj (hPlain last hLast) (hPlain source hGraph)
      hUri with
    ⟨hLaw, hDate⟩
  rcases hSame last source hLast hGraph hLaw hDate with
    ⟨hMeta, hArticles⟩
  rw [hMeta, hArticles] at hIs
  refine ⟨source, hGraph, ?_⟩
  rw [hIs]
  apply triples_of_chunk hTitled
  intro hNil
  apply hText
  rw [hNil]
  rfl

end Joined

/- A call that ingests a version of the law of `ingestion`. -/
def sourceOf (version : LawMeta) : Source Unit where
  law := version
  articles :=
    (ingestion 1).articles.map fun article =>
      { article with title := "목적".toList }
  vectors := (ingestion 1).vectors

/- The first version of a law, and a later one. -/
def firstSource : Source Unit := sourceOf (ingestion 1).law

def laterSource : Source Unit := sourceOf amended.law

/-
  The later version is put while the ingestion of the first
  one has still to demote the others.
-/
def overlapping : Ingesting Unit where
  history :=
    [.graph laterSource,
      .points (.upsert firstSource.ingestion),
      .graph firstSource]
  calls := [laterSource.writes.drop 1, firstSource.writes.drop 2]

/- The two calls come that far. -/
theorem reached_overlapping : overlapping.Reached := by
  have hBegin :
      Ingesting.Reached ⟨[], [firstSource.writes]⟩ :=
    Relation.ReflTransGen.refl.tail (.begin firstSource)
  have hGraph :
      Ingesting.Reached
        ⟨[.graph firstSource], [firstSource.writes.drop 1]⟩ :=
    hBegin.tail (@Ingesting.Step.write _ _ _ _ [] [])
  have hPoints :
      Ingesting.Reached
        ⟨[.points (.upsert firstSource.ingestion),
            .graph firstSource],
          [firstSource.writes.drop 2]⟩ :=
    hGraph.tail (@Ingesting.Step.write _ _ _ _ [] [])
  exact
    (hPoints.tail (.begin laterSource)).tail
      (@Ingesting.Step.write _ _ _ _ [] _)

/- The points of the first version are joined meanwhile. -/
theorem points_joined_overlapping :
    ∃ (payload : Payload) (source : Source Unit),
      index id
            (overlapping.history.filterMap StoreWrite.index?)
            (pointId id
              (articleIri "001823".toList "20240101".toList 1
                none)
              0) =
          some payload ∧
        ∀ triple ∈
            payload.triples
              (expressionIri source.law.lawId
                source.law.effDate),
          triple ∈
            graphs overlapping.history (graphUri source.law) := by
  have hSources :
      ∀ source,
        .graph source ∈ overlapping.history →
          source = laterSource ∨ source = firstSource := by
    intro source hMem
    simpa [overlapping] using hMem
  have hFound :
      (index id
            (overlapping.history.filterMap StoreWrite.index?)
            (pointId id
              (articleIri "001823".toList "20240101".toList 1
                none)
              0)).map
          Payload.isCurrent =
        some true := by
    decide +kernel
  rcases Option.map_eq_some_iff.mp hFound with
    ⟨payload, hPoint, hCurrent⟩
  have hDates :
      laterSource.law.effDate ≠ firstSource.law.effDate := by
    decide +kernel
  have hPlain :
      ∀ source,
        .graph source ∈ overlapping.history →
          source.law.Plain := by
    intro source hMem
    rcases hSources source hMem with rfl | rfl
    · exact plain_amended
    · exact plain_ingestion
  have hSame :
      ∀ source other,
        .graph source ∈ overlapping.history →
          .graph other ∈ overlapping.history →
            source.law.lawId = other.law.lawId →
              source.law.effDate = other.law.effDate →
                source.law = other.law ∧
                  source.articles = other.articles := by
    intro source other hMem hOther _ hDate
    rcases hSources source hMem with rfl | rfl <;>
      rcases hSources other hOther with rfl | rfl
    · exact ⟨rfl, rfl⟩
    · exact absurd hDate hDates
    · exact absurd hDate.symm hDates
    · exact ⟨rfl, rfl⟩
  rcases
      points_joined reached_overlapping hPlain hSame hPoint
        hCurrent with
    ⟨source, -, hJoined⟩
  exact ⟨payload, source, hPoint, hJoined⟩

end Law

end LegalAgent
