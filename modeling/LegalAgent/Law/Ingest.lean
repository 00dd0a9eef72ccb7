import LegalAgent.Law.Ids
import LegalAgent.Store.Schema

/-
  The ingestion of laws into the vector index
  (`lawgo_ingest.py`, `vector_qdrant.py`, `text.py`).

  A law is ingested from its parsed articles: long articles
  are split into windows, each window becomes a point of the
  collection, and the points of other versions of the law are
  demoted.  A collection maps the ids of points to payloads.

  Key definitions include:
    * `splitWindows`
    * `buildChunks`
    * `Collection.upsert`
    * `Collection.supersede`
    * `ingestLaw`
-/

------------------------------------------------------------
-- Windows
------------------------------------------------------------

namespace LegalAgent

namespace Law

/- `MAX_CHARS`. -/
def maxChars : Nat := 450

/- `OVERLAP`. -/
def overlapChars : Nat := 64

/-
  The windows from an offset on.  Each step goes forward, so
  the length of the text bounds their number.
-/
def windowsFrom
    (text : Text)
    (size step : Nat) :
    Nat → Nat → List Text
| 0, _ => []
| fuel + 1, start =>
    if start < text.length then
      (text.drop start).take size ::
        if text.length ≤ start + size then []
        else windowsFrom text size step fuel (start + step)
    else
      []

/- Split a text into windows that overlap. -/
def splitWindows
    (text : Text)
    (size shared : Nat) :
    List Text :=
  let text := text.strip
  if text.length ≤ size then
    if text.isEmpty then [] else [text]
  else
    windowsFrom text size (max 1 (size - shared)) text.length 0

------------------------------------------------------------
-- Chunks
------------------------------------------------------------

/- What a law service says of a law. -/
structure LawMeta where
  lawId : Text
  statute : Text
  effDate : Text
  ministry : Text

/- An article of a law. -/
structure ArticleRec where
  articleNo : Int
  branchNo : Option Int
  articleKey : Text
  text : Text

/- A window of an article, as it is embedded. -/
structure Chunk where
  uri : Text
  resourceId : Text
  statute : Text
  articleNo : Text
  articleKey : Text
  effDate : Text
  ministry : Text
  text : Text
  isCurrent : Bool
  seq : Nat
  articleText : Text

/- A date of eight characters with dashes (`_iso`). -/
def iso (date : Text) : Text :=
  let date := date.strip
  if date.length = 8 then
    date.take 4 ++ ['-'] ++ (date.drop 4).take 2 ++ ['-'] ++
      (date.drop 6).take 2
  else
    date

/- The chunk of one window of an article. -/
def ArticleRec.chunk
    (law : LawMeta)
    (article : ArticleRec)
    (seq : Nat)
    (window : Text) :
    Chunk where
  uri :=
    articleIri law.lawId law.effDate article.articleNo
      article.branchNo
  resourceId := law.lawId
  statute := law.statute
  articleNo := articleSegment article.articleNo article.branchNo
  articleKey := article.articleKey
  effDate := iso law.effDate
  ministry := law.ministry
  text := window
  isCurrent := true
  seq := seq
  articleText := article.text

/- The chunks of an article; one without text has none. -/
def ArticleRec.chunks
    (law : LawMeta)
    (article : ArticleRec) :
    List Chunk :=
  if article.text.strip.isEmpty then
    []
  else
    (splitWindows article.text maxChars overlapChars).zipIdx.map
      fun window => article.chunk law window.2 window.1

/- The chunks of a law (`_build_chunks`). -/
def buildChunks
    (law : LawMeta)
    (articles : List ArticleRec) :
    List Chunk :=
  articles.flatMap (ArticleRec.chunks law)

/- A chunk shows its law, its date, and that it is current. -/
theorem of_mem_buildChunks
    {law : LawMeta}
    {articles : List ArticleRec}
    {chunk : Chunk}
    (hMem : chunk ∈ buildChunks law articles) :
    chunk.resourceId = law.lawId ∧
      chunk.effDate = iso law.effDate ∧
        chunk.isCurrent = true := by
  rcases List.mem_flatMap.mp hMem with ⟨article, -, hChunk⟩
  unfold ArticleRec.chunks at hChunk
  split at hChunk
  · cases hChunk
  · rcases List.mem_map.mp hChunk with ⟨window, -, rfl⟩
    exact ⟨rfl, rfl, rfl⟩

------------------------------------------------------------
-- Collections
------------------------------------------------------------

/- The payload of a point. -/
structure Payload where
  uri : Text
  resourceId : Text
  statute : Text
  articleNo : Text
  articleKey : Text
  effDate : Text
  ministry : Text
  text : Text
  isCurrent : Bool
  seq : Nat
  articleText : Text

/- The payload of a chunk; a missing article text is its own. -/
def Chunk.payload (chunk : Chunk) : Payload where
  uri := chunk.uri
  resourceId := chunk.resourceId
  statute := chunk.statute
  articleNo := chunk.articleNo
  articleKey := chunk.articleKey
  effDate := chunk.effDate
  ministry := chunk.ministry
  text := chunk.text
  isCurrent := chunk.isCurrent
  seq := chunk.seq
  articleText :=
    if chunk.articleText.isEmpty then chunk.text
    else chunk.articleText

/- The points of the index with their payloads. -/
def Collection : Type := Text → Option Payload

namespace Collection

/- The collection without points. -/
def empty : Collection := fun _ => none

/- Write a point, in place of a point with its id. -/
def put
    (collection : Collection)
    (id : Text)
    (payload : Payload) :
    Collection :=
  fun other => if other = id then some payload else collection other

/- Write points, the last of those with one id. -/
def putAll
    (uuid5 : Text → Text)
    (chunks : List Chunk)
    (collection : Collection) :
    Collection :=
  chunks.foldl
    (fun collection chunk =>
      collection.put (pointId uuid5 chunk.uri chunk.seq)
        chunk.payload)
    collection

/-
  Write the points of chunks with their vectors.  There has to
  be one vector for each chunk.
-/
def upsert
    {Vector : Type}
    (uuid5 : Text → Text)
    (chunks : List Chunk)
    (vectors : List Vector)
    (collection : Collection) :
    Except Exn Collection :=
  if chunks.length ≠ vectors.length then
    .error .valueError
  else
    .ok
      (collection.putAll uuid5
        ((chunks.zip vectors).map Prod.fst))

/- Demote the other versions of a law. -/
def supersede
    (resourceId keepEffDate : Text)
    (collection : Collection) :
    Collection :=
  fun id =>
    (collection id).map fun payload =>
      if payload.resourceId = resourceId ∧
          payload.effDate ≠ keepEffDate then
        { payload with isCurrent := false }
      else
        payload

end Collection

/-
  One call of `ingest_law` whose law was resolved, fetched and
  parsed, with the vectors that the embedding returned.
-/
structure Ingestion (Vector : Type) where
  law : LawMeta
  articles : List ArticleRec
  vectors : List Vector

/- The chunks that an ingestion builds. -/
def Ingestion.chunks
    {Vector : Type}
    (ingestion : Ingestion Vector) :
    List Chunk :=
  buildChunks ingestion.law ingestion.articles

/- Write the current points of a law (`ingest_law`). -/
def ingestLaw
    {Vector : Type}
    (uuid5 : Text → Text)
    (ingestion : Ingestion Vector)
    (collection : Collection) :
    Except Exn Collection := do
  let collection ←
    collection.upsert uuid5 ingestion.chunks ingestion.vectors
  pure
    (collection.supersede ingestion.law.lawId
      (iso ingestion.law.effDate))

end Law

end LegalAgent
