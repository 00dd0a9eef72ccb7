import LegalAgent.Law.Ids
import LegalAgent.Library.Ranking
import LegalAgent.Text.Errors
import LegalAgent.Text.Json

/-
  The retrieval of `legal_core/retrieval.py`.

  A query is embedded, the vector index returns hits, a
  reranker may score them anew, and the best window of each
  article is kept.  The graph adds relations; when it fails
  the articles are returned without any.

  Key definitions include:
    * `toLawref`
    * `dedupByArticle`
    * `RetrievalService.retrieve`
    * `Cites`
    * `TopArticles`

  Key theorems include:
    * `dedupByArticle_eq`
    * `retrieve_found`
    * `topArticles_of_isTop`
    * `retrieve_top`
-/

------------------------------------------------------------
-- Hits And Articles
------------------------------------------------------------

namespace LegalAgent

namespace Law

namespace Retrieval

open Library

/- The payload of a point of the vector index. -/
structure Payload where
  uri : Text
  resourceId : Text
  statute : Text
  articleNo : Text
  effDate : Text
  text : Option Text
  articleText : Option Text
deriving DecidableEq

/- A result of the vector search. -/
structure Hit (S : Type) where
  uri : Text
  score : S
  payload : Payload
deriving DecidableEq

/- An article that supports an answer. -/
structure LawRef (S : Type) where
  id : Text
  kind : Text
  title : Text
  ref : Text
  snippet : Text
  url : Text
  uri : Text
  resourceId : Text
  effDate : Text
  score : S
  articleText : Text
deriving DecidableEq

/- A triple of the graph. -/
abbrev Relation : Type :=
  Text × Text × Text

/- What the retrieval returns. -/
structure AnswerContext (S : Type) where
  articles : List (LawRef S)
  relations : List Relation
  query : Text
deriving DecidableEq

/- A character that `quote` leaves as it is. -/
def isUnreserved (c : Char) : Bool :=
  c.isAlphanum || c ∈ ['_', '.', '-', '~', '/']

/- A digit of a hexadecimal number, as `%02X` prints it. -/
def hexDigit (n : Nat) : Char :=
  if n < 10 then Char.ofNat (48 + n) else Char.ofNat (55 + n)

/- `urllib.parse.quote`: other bytes of UTF-8 are escaped. -/
def quote (text : Text) : Text :=
  text.flatMap fun c =>
    if isUnreserved c then [c]
    else
      (String.utf8EncodeChar c).flatMap fun byte =>
        ['%', hexDigit (byte.toNat / 16),
          hexDigit (byte.toNat % 16)]

/- `_law_url`. -/
def lawUrl (statute articleNo : Text) : Text :=
  "https://www.law.go.kr/법령/".toList ++ quote statute ++
    ['/'] ++ quote articleNo

/- The text of an article, or that of the window. -/
def Payload.full (payload : Payload) : Text :=
  match payload.articleText with
  | some (c :: rest) => c :: rest
  | _ => payload.text.getD []

/- `_to_lawref`. -/
def toLawref
    {S : Type}
    (uuid5 : Text → Text)
    (hit : Hit S) :
    LawRef S where
  id := pointId uuid5 hit.payload.uri 0
  kind := "law".toList
  title := hit.payload.statute
  ref := hit.payload.statute ++ [' '] ++ hit.payload.articleNo
  snippet := hit.payload.full.take 200
  url := lawUrl hit.payload.statute hit.payload.articleNo
  uri := hit.payload.uri
  resourceId := hit.payload.resourceId
  effDate := hit.payload.effDate
  score := hit.score
  articleText := hit.payload.full

------------------------------------------------------------
-- One Hit For Each Article
------------------------------------------------------------

section Dedup

variable {S : Type} [LinearOrder S]

/- One round of the loop of `_dedup_by_article`. -/
def keepHit
    (best : List (Text × Hit S))
    (hit : Hit S) :
    List (Text × Hit S) :=
  match best.lookup hit.payload.uri with
  | none => setItem hit.payload.uri hit best
  | some old =>
      if old.score < hit.score then
        setItem hit.payload.uri hit best
      else
        best

/- `_dedup_by_article`. -/
def dedupByArticle (hits : List (Hit S)) : List (Hit S) :=
  ((hits.foldl keepHit []).map Prod.snd).insertionSort
    fun hit other => other.score ≤ hit.score

end Dedup

------------------------------------------------------------
-- Service
------------------------------------------------------------

/- What the service is built from. -/
structure Parts (V S : Type) where
  embed : List Text → Except Raised (List V)
  search :
    V → Nat → List (Text × Bool) → Except Raised (List (Hit S))
  rerank :
    Option
      (Text → List (Hit S) → Nat →
        Except Raised (List (Hit S)))
  expand :
    List Text → List Text → Nat → Nat →
      Except Raised (List Relation)

/- `EXPAND_PREDICATES_V1`. -/
def expandPredicates : List Text :=
  ["lo:delegatesTo".toList]

/- The first vector of a list. -/
def firstVector {V : Type} : List V → Except Raised V
| [] =>
    .error (.plain .indexError "list index out of range".toList)
| vector :: _ => .ok vector

/- The hits as the reranker scores them, if there is one. -/
def reranked
    {V S : Type}
    (parts : Parts V S)
    (query : Text)
    (hits : List (Hit S)) :
    Except Raised (List (Hit S)) :=
  match parts.rerank with
  | none => .ok hits
  | some rerank => rerank query hits 30

/- The relations of the graph; without any when it fails. -/
def related
    {V S : Type}
    (parts : Parts V S)
    (iris : List Text) :
    List Relation :=
  match parts.expand iris expandPredicates 1 20 with
  | .ok relations => relations
  | .error _ => []

/-
  `RetrievalService.retrieve`.  The order of the set of laws
  is that of its hashes, so it is a parameter.
-/
def RetrievalService.retrieve
    {V S : Type}
    [LinearOrder S]
    (parts : Parts V S)
    (uuid5 : Text → Text)
    (setOrder : List Text → List Text)
    (query : Text)
    (asOf : Option Text)
    (k : Nat) :
    Except Raised (AnswerContext S) := do
  if asOf.isSome then
    throw
      (.plain .notImplementedError
        "as_of(시점 질의)는 슬라이스6 — v1은 현행(is_current)만 지원".toList)
  let vectors ← parts.embed [query]
  let vector ← firstVector vectors
  let hits ← parts.search vector 30 [("is_current".toList, true)]
  let hits ← reranked parts query hits
  let hits := (dedupByArticle hits).take k
  let iris :=
    setOrder (hits.map fun hit =>
      resourceIri hit.payload.resourceId).dedup
  pure
    ⟨hits.map (toLawref uuid5), related parts iris, query⟩

------------------------------------------------------------
-- The Best Articles
------------------------------------------------------------

/- The article of a hit. -/
def Hit.article {S : Type} (hit : Hit S) : Text :=
  hit.payload.uri

section Best

variable {S : Type}

/- Hits as the items of a dictionary of articles. -/
def entries (hits : List (Hit S)) : List (Text × Hit S) :=
  hits.map fun hit => (hit.article, hit)

@[simp] theorem keys_entries (hits : List (Hit S)) :
    (entries hits).map Prod.fst = hits.map Hit.article := by
  simp [entries]

/- A hit that is set takes the place of its article. -/
theorem setItem_entries
    (hit : Hit S)
    (hits : List (Hit S)) :
    setItem hit.article hit (entries hits) =
      entries
        (if hit.article ∈ hits.map Hit.article then
          hits.map fun other =>
            if other.article = hit.article then hit else other
        else
          hits ++ [hit]) := by
  rw [setItem, keys_entries]
  split
  · rw [entries, entries, List.map_map, List.map_map]
    apply List.map_congr_left
    intro other _
    simp only [Function.comp_apply]
    split <;> rfl
  · simp [entries]

/- An article that is found is one of the dictionary. -/
theorem of_lookup_entries
    {hits : List (Hit S)}
    {article : Text}
    {hit : Hit S}
    (hLookup : (entries hits).lookup article = some hit) :
    hit ∈ hits ∧ hit.article = article := by
  rcases List.lookup_eq_some_iff.mp hLookup with
    ⟨front, back, hSplit, -⟩
  have hMem : (article, hit) ∈ entries hits := by
    rw [hSplit]
    simp
  rcases List.mem_map.mp hMem with ⟨other, hOther, hEq⟩
  cases hEq
  exact ⟨hOther, rfl⟩

variable [LinearOrder S]

/- A round of the loop keeps a hit as the ranking does. -/
theorem keepHit_eq
    {kept : List (Hit S)}
    (hKept : (kept.map Hit.article).Nodup)
    (hit : Hit S) :
    keepHit (entries kept) hit =
      entries (keep Hit.article Hit.score kept hit) := by
  unfold keepHit keep
  change
    (match (entries kept).lookup hit.article with
      | none => setItem hit.article hit (entries kept)
      | some old =>
          if old.score < hit.score then
            setItem hit.article hit (entries kept)
          else entries kept) = _
  cases hLookup : (entries kept).lookup hit.article with
  | none =>
      have hNew : hit.article ∉ kept.map Hit.article := by
        intro hMem
        rcases List.mem_map.mp hMem with ⟨other, hOther, hSame⟩
        have hNone := List.lookup_eq_none_iff.mp hLookup
          (other.article, other)
          (List.mem_map_of_mem hOther)
        simp [hSame] at hNone
      dsimp only
      rw [setItem_entries, if_neg hNew, if_neg hNew]
  | some old =>
      rcases of_lookup_entries hLookup with ⟨hMem, hSame⟩
      have hOld : hit.article ∈ kept.map Hit.article := by
        rw [← hSame]
        exact List.mem_map_of_mem hMem
      -- the dictionary has one hit for the article
      have hOnly :
          ∀ other ∈ kept,
            other.article = hit.article → other = old := by
        intro other hOther hArticle
        exact
          List.inj_on_of_nodup_map hKept hOther hMem
            (hArticle.trans hSame.symm)
      dsimp only
      rw [if_pos hOld]
      by_cases hBeats : old.score < hit.score
      · rw [if_pos hBeats, setItem_entries, if_pos hOld]
        refine congrArg entries (List.map_congr_left ?_)
        intro other hOther
        by_cases hArticle : other.article = hit.article
        · rw [hOnly other hOther hArticle, if_pos hSame,
            if_pos ⟨hSame, hBeats⟩]
        · rw [if_neg hArticle, if_neg fun hBoth =>
            hArticle hBoth.1]
      · rw [if_neg hBeats]
        refine congrArg entries (Eq.symm ?_)
        refine (List.map_congr_left ?_).trans (List.map_id kept)
        intro other hOther
        apply if_neg
        rintro ⟨hArticle, hLt⟩
        rw [hOnly other hOther hArticle] at hLt
        exact hBeats hLt

/- The loop keeps the best hits of the articles. -/
theorem foldl_keepHit (hits : List (Hit S)) :
    hits.foldl keepHit [] =
      entries (bestItems Hit.article Hit.score hits) := by
  induction hits using List.reverseRecOn with
  | nil => rfl
  | append_singleton hits hit ih =>
      have hKept :
          Kept Hit.article Hit.score hits
            (bestItems Hit.article Hit.score hits) :=
        kept_bestItems hits
      rw [List.foldl_append, List.foldl_cons, List.foldl_nil,
        ih, keepHit_eq hKept.nodup, bestItems, bestItems,
        List.foldl_append]
      rfl

/- The hits that are left are the best, in descending order. -/
theorem dedupByArticle_eq (hits : List (Hit S)) :
    dedupByArticle hits =
      descending Hit.score
        (bestItems Hit.article Hit.score hits) := by
  have hValues :
      ∀ best : List (Hit S),
        (entries best).map Prod.snd = best := by
    intro best
    rw [entries, List.map_map]
    exact List.map_id best
  rw [dedupByArticle, foldl_keepHit, hValues]
  rfl

end Best

section Retrieve

variable {S : Type}

/- An article that has the score and the payload of a hit. -/
structure Cites
    (uuid5 : Text → Text)
    (hit : Hit S)
    (article : LawRef S) :
    Prop where
  score : article.score = hit.score
  uri : article.uri = hit.payload.uri
  resourceId : article.resourceId = hit.payload.resourceId
  effDate : article.effDate = hit.payload.effDate
  title : article.title = hit.payload.statute
  ref :
    article.ref =
      hit.payload.statute ++ [' '] ++ hit.payload.articleNo
  url :
    article.url =
      lawUrl hit.payload.statute hit.payload.articleNo
  articleText : article.articleText = hit.payload.full
  snippet : article.snippet = hit.payload.full.take 200
  kind : article.kind = "law".toList
  id : article.id = pointId uuid5 hit.payload.uri 0

theorem cites_toLawref
    (uuid5 : Text → Text)
    (hit : Hit S) :
    Cites uuid5 hit (toLawref uuid5 hit) := by
  constructor <;> rfl

variable [LinearOrder S]

/-
  The top articles of some hits: as many as the hits have
  articles, but no more than the number, with different uris
  and in descending order.  Each has the score and the
  payload of the first best hit of its article, and no hit of
  an article that is left out beats one of them.
-/
structure TopArticles
    (uuid5 : Text → Text)
    (hits : List (Hit S))
    (k : Nat)
    (articles : List (LawRef S)) :
    Prop where
  count :
    articles.length =
      min k (hits.map Hit.article).toFinset.card
  distinct : (articles.map LawRef.uri).Nodup
  descends :
    articles.Pairwise fun article other =>
      other.score ≤ article.score
  best :
    ∀ article ∈ articles,
      ∃ hit,
        FirstBest Hit.article Hit.score hits hit ∧
          Cites uuid5 hit article
  optimal :
    ∀ hit ∈ hits,
      hit.payload.uri ∉ articles.map LawRef.uri →
        ∀ article ∈ articles, hit.score ≤ article.score

variable {V : Type}
variable {parts : Parts V S} {uuid5 : Text → Text}

/- The articles of the top hits are the top articles. -/
theorem topArticles_of_isTop
    {hits found : List (Hit S)}
    {k : Nat}
    (hTop : IsTop Hit.article Hit.score hits k found) :
    TopArticles uuid5 hits k (found.map (toLawref uuid5)) := by
  have hUris :
      (found.map (toLawref uuid5)).map LawRef.uri =
        found.map Hit.article := by
    rw [List.map_map]
    rfl
  constructor
  · rw [List.length_map]
    exact hTop.count
  · rw [hUris]
    exact hTop.distinct
  · rw [List.pairwise_map]
    exact hTop.descends
  · intro article hArticle
    rcases List.mem_map.mp hArticle with ⟨hit, hHit, rfl⟩
    exact ⟨hit, hTop.best hit hHit, cites_toLawref uuid5 hit⟩
  · intro other hOther hOmitted article hArticle
    rw [hUris] at hOmitted
    rcases List.mem_map.mp hArticle with ⟨hit, hHit, rfl⟩
    exact hTop.optimal other hOther hOmitted hit hHit

/- Whatever the graph does, the top hits are returned. -/
theorem retrieve_found
    {query : Text}
    {vector : V}
    {more : List V}
    {hits scored : List (Hit S)}
    (setOrder : List Text → List Text)
    (k : Nat)
    (hEmbed : parts.embed [query] = .ok (vector :: more))
    (hSearch :
      parts.search vector 30 [("is_current".toList, true)] =
        .ok hits)
    (hScored : reranked parts query hits = .ok scored) :
    ∃ found relations,
      IsTop Hit.article Hit.score scored k found ∧
        RetrievalService.retrieve parts uuid5 setOrder query
            none k =
          .ok ⟨found.map (toLawref uuid5), relations, query⟩ := by
  refine
    ⟨topItems Hit.article Hit.score k scored,
      related parts
        (setOrder
          ((topItems Hit.article Hit.score k scored).map
            fun hit =>
              resourceIri hit.payload.resourceId).dedup),
      isTop_topItems k scored, ?_⟩
  have hCut :
      (dedupByArticle scored).take k =
        topItems Hit.article Hit.score k scored := by
    rw [dedupByArticle_eq, topItems]
  simp only [RetrievalService.retrieve, Option.isSome_none,
    Bool.false_eq_true, if_false, hEmbed, hSearch,
    firstVector, hScored, ok_bind, ← hCut]
  rfl

/-
  Whatever the graph does, the retrieval returns the top
  articles of the hits as they were scored last.
-/
theorem retrieve_top
    {query : Text}
    {vector : V}
    {more : List V}
    {hits scored : List (Hit S)}
    (setOrder : List Text → List Text)
    (k : Nat)
    (hEmbed : parts.embed [query] = .ok (vector :: more))
    (hSearch :
      parts.search vector 30 [("is_current".toList, true)] =
        .ok hits)
    (hScored : reranked parts query hits = .ok scored) :
    ∃ articles relations,
      RetrievalService.retrieve parts uuid5 setOrder query
            none k =
          .ok ⟨articles, relations, query⟩ ∧
        TopArticles uuid5 scored k articles := by
  rcases retrieve_found setOrder k hEmbed hSearch hScored with
    ⟨found, relations, hTop, hRetrieve⟩
  exact
    ⟨found.map (toLawref uuid5), relations, hRetrieve,
      topArticles_of_isTop hTop⟩

end Retrieve

/- A hit of an article. -/
def hitOf (article : String) (score : Nat) : Hit Nat where
  uri := article.toList
  score := score
  payload :=
    { uri := article.toList
      resourceId := "001823".toList
      statute := "건축법".toList
      articleNo := "제2조".toList
      effDate := "2026-02-27".toList
      text := some "거실".toList
      articleText := none }

/- Three hits of two articles, and a graph that fails. -/
def brokenGraph : Parts Unit Nat where
  embed := fun texts => .ok (texts.map fun _ => ())
  search := fun _ _ _ =>
    .ok [hitOf "a" 3, hitOf "b" 5, hitOf "b" 7]
  rerank := none
  expand := fun _ _ _ _ =>
    .error (.plain .runtimeError "fuseki down".toList)

/- The search is returned although the graph fails. -/
theorem retrieve_top_brokenGraph :
    ∃ articles relations,
      RetrievalService.retrieve brokenGraph id id
            "거실".toList none 1 =
          .ok ⟨articles, relations, "거실".toList⟩ ∧
        TopArticles id
          [hitOf "a" 3, hitOf "b" 5, hitOf "b" 7] 1 articles :=
  retrieve_top id 1 rfl rfl rfl

end Retrieval

end Law

end LegalAgent
