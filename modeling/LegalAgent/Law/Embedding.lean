import Mathlib.Data.List.Sort
import LegalAgent.Library.Batching
import LegalAgent.Library.Generator
import LegalAgent.Text.Errors
import LegalAgent.Text.Json

/-
  The embedding client of `legal_infra/embedding_remote.py`.

  Texts are posted in batches within a budget of characters.
  A reply is put in the order of the indices it carries, and
  one with another number of items is refused, so that the
  vectors stay aligned with the texts.

  Key definitions include:
    * `RemoteEmbedding.embedBatch`
    * `RemoteEmbedding.embed`
    * `Serves`

  Key theorems include:
    * `embed_eq`
    * `embed_aligned`
-/

------------------------------------------------------------
-- Client
------------------------------------------------------------

namespace LegalAgent

namespace Law

namespace Embedding

open Library

variable {F : Type}

/- `RemoteEmbedding`; its time limit is left out. -/
structure RemoteEmbedding where
  url : Text
  model : Text
  charBudget : Int

/- `RemoteEmbedding.__init__`. -/
def RemoteEmbedding.init
    (baseUrl model : Text)
    (charBudget : Int) :
    RemoteEmbedding where
  url :=
    (baseUrl.reverse.dropWhile (· = '/')).reverse ++
      "/embeddings".toList
  model := model
  charBudget := charBudget

/- What is posted for a batch. -/
structure Request where
  url : Text
  input : List Text
  model : Text
deriving DecidableEq

/- An item of the data of a reply. -/
structure Item (F : Type) where
  index : Option Int
  embedding : Option (List F)
deriving DecidableEq

/- `DenseSparse`. -/
structure DenseSparse (F : Type) where
  dense : List F
  sparse : List (Int × F)
deriving DecidableEq

/- A program that posts batches. -/
abbrev Program (F α : Type) : Type :=
  Gen Request (fun _ => List (Item F)) Raised Empty α

/- The request of a batch. -/
def RemoteEmbedding.request
    (client : RemoteEmbedding)
    (batch : List Text) :
    Request where
  url := client.url
  input := batch
  model := client.model

/- The place that an item is sorted by. -/
def Item.place (item : Item F) : Int :=
  item.index.getD 0

/- The vector of an item. -/
def Item.vector (item : Item F) :
    Except Raised (DenseSparse F) :=
  match item.embedding with
  | some dense => .ok { dense := dense, sparse := [] }
  | none => .error (.about .keyError [] "embedding".toList)

/- The refusal of a reply with another number of items. -/
def mismatch (sent received : Nat) : Raised :=
  .plain .runtimeError
    ("임베딩 개수 불일치: in=".toList ++ intText sent ++
      " out=".toList ++ intText received)

/- The data of a reply, sorted by the indices. -/
def sorted (data : List (Item F)) : List (Item F) :=
  data.insertionSort fun item other => item.place ≤ other.place

/- The vectors of a reply to a batch, in the batch's order. -/
def aligned
    (batch : List Text)
    (data : List (Item F)) :
    Except Raised (List (DenseSparse F)) :=
  if (sorted data).length ≠ batch.length then
    .error (mismatch batch.length (sorted data).length)
  else
    (sorted data).mapM Item.vector

/- `RemoteEmbedding._embed_batch`. -/
def RemoteEmbedding.embedBatch
    (client : RemoteEmbedding)
    (batch : List Text) :
    Program F (List (DenseSparse F)) :=
  if batch = [] then
    pure []
  else do
    let reply ← Gen.perform (client.request batch)
    .ret (aligned batch reply)

/-
  The loop of `embed`: the vectors so far, the pending batch
  and its number of characters.
-/
def RemoteEmbedding.embedFrom
    (client : RemoteEmbedding)
    (out : List (DenseSparse F))
    (batch : List Text)
    (acc : Nat) :
    List Text → Program F (List (DenseSparse F))
| [] =>
    if batch = [] then
      pure out
    else do
      let more ← client.embedBatch batch
      pure (out ++ more)
| text :: texts =>
    if batch ≠ [] ∧ client.charBudget < (acc + text.length : Nat)
    then do
      let more ← client.embedBatch batch
      client.embedFrom (out ++ more) [text] text.length texts
    else
      client.embedFrom out (batch ++ [text])
        (acc + text.length) texts

/- `RemoteEmbedding.embed`. -/
def RemoteEmbedding.embed
    (client : RemoteEmbedding)
    (texts : List Text) :
    Program F (List (DenseSparse F)) :=
  client.embedFrom [] [] 0 texts

/- The batches of the texts. -/
def RemoteEmbedding.batchesOf
    (client : RemoteEmbedding)
    (texts : List Text) :
    List (List Text) :=
  batches List.length client.charBudget texts

------------------------------------------------------------
-- Batch After Batch
------------------------------------------------------------

/- The vectors of batches, one batch after another. -/
def RemoteEmbedding.collect
    (client : RemoteEmbedding) :
    List (List Text) → Program F (List (DenseSparse F))
| [] => pure []
| batch :: rest => do
    let more ← client.embedBatch batch
    let later ← client.collect rest
    pure (more ++ later)

/- The loop collects the batches of the pending one and more. -/
theorem embedFrom_eq
    (client : RemoteEmbedding)
    (out : List (DenseSparse F))
    (batch : List Text)
    (acc : Nat)
    (texts : List Text) :
    client.embedFrom out batch acc texts =
      client.collect
          (batchesFrom List.length client.charBudget batch acc
            texts) >>=
        fun later => pure (out ++ later) := by
  induction texts generalizing out batch acc with
  | nil =>
      cases batch with
      | nil =>
          simp [RemoteEmbedding.embedFrom, batchesFrom,
            RemoteEmbedding.collect, Gen.pure_bind]
      | cons first batch =>
          simp [RemoteEmbedding.embedFrom, batchesFrom,
            RemoteEmbedding.collect, Gen.pure_bind,
            Gen.bind_assoc]
  | cons text texts ih =>
      cases batch with
      | nil =>
          simp [RemoteEmbedding.embedFrom, batchesFrom, ih]
      | cons first batch =>
          rw [RemoteEmbedding.embedFrom, batchesFrom]
          by_cases hOver :
            client.charBudget < (acc + text.length : Nat)
          · rw [if_pos ⟨List.cons_ne_nil _ _, hOver⟩,
              if_pos hOver, RemoteEmbedding.collect]
            simp only [Gen.bind_assoc, Gen.pure_bind, ih,
              List.append_assoc]
          · rw [if_neg (fun hBoth => hOver hBoth.2),
              if_neg hOver, ih]
            rfl

/- The client collects the batches of the texts. -/
theorem embed_eq
    (client : RemoteEmbedding)
    (texts : List Text) :
    (client.embed texts : Program F (List (DenseSparse F))) =
      client.collect (client.batchesOf texts) := by
  rw [RemoteEmbedding.embed, embedFrom_eq]
  exact Gen.bind_pure _

------------------------------------------------------------
-- One Reply
------------------------------------------------------------

/- A vector without a sparse part. -/
def denseOnly (dense : List F) : DenseSparse F where
  dense := dense
  sparse := []

/- Vectors as items that carry their indices. -/
def taggedFrom (place : Nat) : List (List F) → List (Item F)
| [] => []
| dense :: rest =>
    { index := some place, embedding := some dense } ::
      taggedFrom (place + 1) rest

theorem place_of_mem_taggedFrom
    {place : Nat}
    {vectors : List (List F)}
    {item : Item F}
    (hMem : item ∈ taggedFrom place vectors) :
    (place : Int) ≤ item.place := by
  induction vectors generalizing place with
  | nil => cases hMem
  | cons dense rest ih =>
      rcases List.mem_cons.mp hMem with rfl | hMem
      · exact Int.le_refl _
      · have hLater := ih hMem
        omega

/- Tagged items stand in strict order. -/
theorem taggedFrom_sorted
    (place : Nat)
    (vectors : List (List F)) :
    (taggedFrom place vectors).Pairwise fun item other =>
      item.place < other.place := by
  induction vectors generalizing place with
  | nil => exact List.Pairwise.nil
  | cons dense rest ih =>
      apply List.Pairwise.cons
      · intro item hMem
        have hLater := place_of_mem_taggedFrom hMem
        change (place : Int) < item.place
        omega
      · exact ih (place + 1)

theorem length_taggedFrom
    (place : Nat)
    (vectors : List (List F)) :
    (taggedFrom place vectors).length = vectors.length := by
  induction vectors generalizing place with
  | nil => rfl
  | cons dense rest ih =>
      simp only [taggedFrom, List.length_cons, ih]

/- The vectors of tagged items. -/
theorem vectors_taggedFrom
    (place : Nat)
    (vectors : List (List F)) :
    (taggedFrom place vectors).mapM Item.vector =
      .ok (vectors.map denseOnly) := by
  induction vectors generalizing place with
  | nil => rfl
  | cons dense rest ih =>
      rw [taggedFrom, List.mapM_cons, ih]
      rfl

/- Items in any order are put in the order of their tags. -/
theorem sorted_tagged
    {data : List (Item F)}
    {vectors : List (List F)}
    (hPerm : data.Perm (taggedFrom 0 vectors)) :
    sorted data = taggedFrom 0 vectors := by
  have hSorted := taggedFrom_sorted 0 vectors
  have hKeys : ((taggedFrom 0 vectors).map Item.place).Nodup := by
    rw [List.Nodup, List.pairwise_map]
    exact hSorted.imp fun hLt => Int.ne_of_lt hLt
  have hTotal :
      Std.Total fun item other : Item F =>
        item.place ≤ other.place :=
    ⟨fun item other => Int.le_total item.place other.place⟩
  have hTrans :
      IsTrans (Item F) fun item other =>
        item.place ≤ other.place :=
    ⟨fun _ _ _ hFirst hSecond => Int.le_trans hFirst hSecond⟩
  have hAll : (sorted data).Perm (taggedFrom 0 vectors) :=
    (List.perm_insertionSort _ data).trans hPerm
  have hOrder :
      (sorted data).Pairwise fun item other =>
        item.place ≤ other.place :=
    List.pairwise_insertionSort _ data
  -- two items with one place are one item
  have hUnique :
      ∀ item other : Item F,
        item ∈ sorted data →
          other ∈ taggedFrom 0 vectors →
            item.place ≤ other.place →
              other.place ≤ item.place → item = other := by
    intro item other hMem hOther hLe hGe
    exact
      List.inj_on_of_nodup_map hKeys (hAll.mem_iff.mp hMem)
        hOther (Int.le_antisymm hLe hGe)
  exact
    List.Perm.eq_of_pairwise hUnique hOrder
      (hSorted.imp fun hLt => Int.le_of_lt hLt) hAll

/- A reply in any order gives the vectors in the texts' order. -/
theorem aligned_tagged
    {batch : List Text}
    {data : List (Item F)}
    {vectors : List (List F)}
    (hPerm : data.Perm (taggedFrom 0 vectors))
    (hLength : vectors.length = batch.length) :
    aligned batch data = .ok (vectors.map denseOnly) := by
  unfold aligned
  rw [sorted_tagged hPerm, length_taggedFrom,
    if_neg (fun hNe => hNe hLength)]
  exact vectors_taggedFrom 0 vectors

/- A reply with another number of items is refused. -/
theorem aligned_mismatch
    {batch : List Text}
    {data : List (Item F)}
    (hLength : data.length ≠ batch.length) :
    aligned batch data =
      .error (mismatch batch.length data.length) := by
  have hSorted : (sorted data).length = data.length :=
    List.length_insertionSort _ data
  rw [aligned, hSorted, if_pos hLength]

/- A reply that is not refused has an item for each text. -/
theorem length_of_aligned
    {batch : List Text}
    {data : List (Item F)}
    {found : List (DenseSparse F)}
    (hAligned : aligned batch data = .ok found) :
    data.length = batch.length := by
  by_contra hLength
  rw [aligned_mismatch hLength] at hAligned
  cases hAligned

------------------------------------------------------------
-- Runs
------------------------------------------------------------

/- A server that has seen all the requests so far. -/
abbrev Server (F : Type) : Type :=
  List Request → Except Raised (List (Item F))

/- A request is added to those sent, and answered. -/
def post
    (server : Server F)
    (request : Request)
    (sent : List Request) :
    Except Raised (List (Item F)) × List Request :=
  (server (sent ++ [request]), sent ++ [request])

/- What the answer to a batch gives. -/
def answer
    (server : Server F)
    (client : RemoteEmbedding)
    (sent : List Request)
    (batch : List Text) :
    Except Raised (List (DenseSparse F)) :=
  server (sent ++ [client.request batch]) >>= aligned batch

variable {server : Server F} {client : RemoteEmbedding}

/- A batch is sent and answered once. -/
theorem embedBatch_run
    {sent : List Request}
    {batch : List Text}
    (hBatch : batch ≠ []) :
    (client.embedBatch batch).run (post server) sent =
      (answer server client sent batch,
        sent ++ [client.request batch], []) := by
  rw [RemoteEmbedding.embedBatch, if_neg hBatch, answer]
  change
    (Gen.call (client.request batch) _).run (post server) sent = _
  rw [Gen.run, post]
  cases server (sent ++ [client.request batch]) with
  | ok reply => rfl
  | error raised => rfl

/-
  A batch is sent first; an answer is followed by the other
  batches, and an error is the result.
-/
theorem collect_run_cons
    {sent : List Request}
    {batch : List Text}
    (rest : List (List Text))
    (hBatch : batch ≠ []) :
    (client.collect (batch :: rest)).run (post server) sent =
      match answer server client sent batch with
      | .error raised =>
          (.error raised, sent ++ [client.request batch], [])
      | .ok more =>
          let (later, final, events) :=
            (client.collect rest).run (post server)
              (sent ++ [client.request batch])
          (later.map fun vectors => more ++ vectors, final,
            events) := by
  have hFirst :
      (client.embedBatch batch).run (post server) sent =
        (answer server client sent batch,
          sent ++ [client.request batch], []) :=
    embedBatch_run hBatch
  cases hAnswer : answer server client sent batch with
  | error raised =>
      rw [hAnswer] at hFirst
      exact Gen.run_bind_error hFirst _
  | ok more =>
      rw [hAnswer] at hFirst
      rcases hRest :
          (client.collect rest).run (post server)
            (sent ++ [client.request batch]) with
        ⟨result, final, events⟩
      cases result with
      | error raised =>
          exact
            Gen.run_bind_ok hFirst (Gen.run_bind_error hRest _)
      | ok later =>
          exact
            Gen.run_bind_ok hFirst
              (Gen.run_bind_pure hRest fun later =>
                more ++ later)

/- The first batch that is not answered is the last one sent. -/
theorem collect_refused
    {sent : List Request}
    {front : List (List Text)}
    {batch : List Text}
    {rest : List (List Text)}
    {raised : Raised}
    (hBatches : ∀ other ∈ front ++ batch :: rest, other ≠ [])
    (hFront :
      ∀ before other after,
        front = before ++ other :: after →
          ∃ found,
            answer server client
                (sent ++ before.map client.request) other =
              .ok found)
    (hAnswer :
      answer server client (sent ++ front.map client.request)
          batch =
        .error raised) :
    (client.collect (front ++ batch :: rest)).run (post server)
        sent =
      (.error raised,
        sent ++ (front ++ [batch]).map client.request, []) := by
  induction front generalizing sent with
  | nil =>
      rw [List.map_nil, List.append_nil] at hAnswer
      rw [List.nil_append,
        collect_run_cons rest (hBatches batch List.mem_cons_self),
        hAnswer]
      rfl
  | cons first front ih =>
      rcases hFront [] first front rfl with ⟨found, hFirst⟩
      rw [List.map_nil, List.append_nil] at hFirst
      have hLater :
          (client.collect (front ++ batch :: rest)).run
              (post server) (sent ++ [client.request first]) =
            (.error raised,
              (sent ++ [client.request first]) ++
                (front ++ [batch]).map client.request,
              []) := by
        apply ih
        · intro other hMem
          exact hBatches other (List.mem_cons_of_mem _ hMem)
        · intro before other after hSplit
          have hEarlier :=
            hFront (first :: before) other after
              (by rw [hSplit, List.cons_append])
          simpa using hEarlier
        · simpa using hAnswer
      rw [List.cons_append,
        collect_run_cons _ (hBatches first List.mem_cons_self),
        hFirst]
      dsimp only
      rw [hLater, List.append_assoc]
      rfl

/- A run with a result has an answer to each batch. -/
theorem collect_answered
    {sent final : List Request}
    {found : List (List Text)}
    {out : List (DenseSparse F)}
    {events : List Empty}
    (hBatches : ∀ other ∈ found, other ≠ [])
    (hRun :
      (client.collect found).run (post server) sent =
        (.ok out, final, events))
    (front : List (List Text))
    (batch : List Text)
    (rest : List (List Text))
    (hSplit : found = front ++ batch :: rest) :
    ∃ vectors,
      answer server client (sent ++ front.map client.request)
          batch =
        .ok vectors := by
  induction found generalizing sent final out events front with
  | nil => exact absurd hSplit (by simp)
  | cons first found ih =>
      have hFirst := hBatches first List.mem_cons_self
      rw [collect_run_cons found hFirst] at hRun
      cases hAnswer : answer server client sent first with
      | error raised =>
          rw [hAnswer] at hRun
          cases hRun
      | ok more =>
          rw [hAnswer] at hRun
          rcases hRest :
              (client.collect found).run (post server)
                (sent ++ [client.request first]) with
            ⟨result, last, others⟩
          rw [hRest] at hRun
          cases result with
          | error raised => cases hRun
          | ok later =>
              cases front with
              | nil =>
                  cases hSplit
                  refine ⟨more, ?_⟩
                  rw [List.map_nil, List.append_nil]
                  exact hAnswer
              | cons other front =>
                  cases hSplit
                  have hLater :=
                    ih
                      (fun other hMem =>
                        hBatches other
                          (List.mem_cons_of_mem _ hMem))
                      hRest front rfl
                  simpa using hLater

------------------------------------------------------------
-- Alignment
------------------------------------------------------------

/-
  A server answers each request that has texts with one item
  for each of them, in any order, tagged with its index.
-/
def Serves
    (server : Server F)
    (vectors : List Request → List (List F)) :
    Prop :=
  ∀ sent request,
    request.input ≠ [] →
      (vectors (sent ++ [request])).length =
          request.input.length ∧
        ∃ data,
          server (sent ++ [request]) = .ok data ∧
            data.Perm (taggedFrom 0 (vectors (sent ++ [request])))

/- The vectors of batches, as the server gives them. -/
def RemoteEmbedding.served
    (client : RemoteEmbedding)
    (vectors : List Request → List (List F))
    (sent : List Request) :
    List (List Text) → List (List F)
| [] => []
| batch :: rest =>
    vectors (sent ++ [client.request batch]) ++
      client.served vectors (sent ++ [client.request batch]) rest

/- The texts of the last request. -/
def lastInput (sent : List Request) : List Text :=
  (sent.getLast?.map Request.input).getD []

/- A server that has one vector for each text. -/
theorem served_map
    (vector : Text → List F)
    (sent : List Request)
    (found : List (List Text)) :
    client.served
        (fun history => (lastInput history).map vector) sent
        found =
      found.flatten.map vector := by
  induction found generalizing sent with
  | nil => rfl
  | cons batch rest ih =>
      have hLast :
          lastInput (sent ++ [client.request batch]) = batch := by
        simp [lastInput, RemoteEmbedding.request]
      simp only [RemoteEmbedding.served, ih, hLast,
        List.flatten_cons, List.map_append]

/- Each batch is answered with its vectors, in its order. -/
theorem collect_served
    {vectors : List Request → List (List F)}
    (hServes : Serves server vectors)
    (sent : List Request)
    {found : List (List Text)}
    (hBatches : ∀ batch ∈ found, batch ≠ []) :
    (client.collect found).run (post server) sent =
      (.ok ((client.served vectors sent found).map denseOnly),
        sent ++ found.map client.request, []) := by
  induction found generalizing sent with
  | nil =>
      rw [List.map_nil, List.append_nil]
      rfl
  | cons batch rest ih =>
      have hBatch := hBatches batch List.mem_cons_self
      rcases hServes sent (client.request batch) hBatch with
        ⟨hLength, data, hData, hPerm⟩
      have hAnswer :
          answer server client sent batch =
            .ok
              ((vectors (sent ++ [client.request batch])).map
                denseOnly) := by
        rw [answer, hData, ok_bind]
        exact aligned_tagged hPerm hLength
      have hRest :=
        ih (sent ++ [client.request batch])
          fun other hMem =>
            hBatches other (List.mem_cons_of_mem _ hMem)
      rw [collect_run_cons rest hBatch, hAnswer]
      dsimp only
      rw [hRest]
      simp [RemoteEmbedding.served, Except.map]

/- A reply with another number of items is an error. -/
theorem answer_mismatch
    {sent : List Request}
    {batch : List Text}
    {data : List (Item F)}
    (hData : server (sent ++ [client.request batch]) = .ok data)
    (hLength : data.length ≠ batch.length) :
    answer server client sent batch =
      .error (mismatch batch.length data.length) := by
  rw [answer, hData, ok_bind]
  exact aligned_mismatch hLength

/- A reply that gives vectors has an item for each text. -/
theorem length_of_answer
    {sent : List Request}
    {batch : List Text}
    {found : List (DenseSparse F)}
    (hAnswer : answer server client sent batch = .ok found) :
    ∃ data,
      server (sent ++ [client.request batch]) = .ok data ∧
        data.length = batch.length := by
  unfold answer at hAnswer
  cases hData : server (sent ++ [client.request batch]) with
  | error raised =>
      rw [hData, error_bind] at hAnswer
      cases hAnswer
  | ok data =>
      rw [hData, ok_bind] at hAnswer
      exact ⟨data, rfl, length_of_aligned hAnswer⟩

/-
  The batches that are sent fit the budget and are the texts
  in their order.  With a server that answers each batch in
  full the result has the vector of each text at its place;
  the first reply of another length ends the run, and there
  is no result unless each reply has its length.
-/
theorem embed_aligned
    (client : RemoteEmbedding)
    (texts : List Text) :
    Batched List.length client.charBudget texts
        (client.batchesOf texts) ∧
      (∀ (server : Server F) vectors,
        Serves server vectors →
          (client.embed texts).run (post server) [] =
            (.ok
                ((client.served vectors []
                      (client.batchesOf texts)).map
                  denseOnly),
              (client.batchesOf texts).map client.request,
              [])) ∧
      (∀ (server : Server F) (vector : Text → List F),
        Serves server
            (fun sent => (lastInput sent).map vector) →
          (client.embed texts).run (post server) [] =
            (.ok (texts.map fun text => denseOnly (vector text)),
              (client.batchesOf texts).map client.request,
              [])) ∧
      (∀ (server : Server F) front batch rest data,
        client.batchesOf texts = front ++ batch :: rest →
          (∀ before other after,
            front = before ++ other :: after →
              ∃ found,
                answer server client
                    (before.map client.request) other =
                  .ok found) →
            server ((front ++ [batch]).map client.request) =
                .ok data →
              data.length ≠ batch.length →
                (client.embed texts).run (post server) [] =
                  (.error (mismatch batch.length data.length),
                    (front ++ [batch]).map client.request,
                    [])) ∧
      (∀ (server : Server F) out sent events,
        (client.embed texts).run (post server) [] =
            (.ok out, sent, events) →
          ∀ front batch rest,
            client.batchesOf texts = front ++ batch :: rest →
              ∃ data,
                server ((front ++ [batch]).map client.request) =
                    .ok data ∧
                  data.length = batch.length) := by
  have hBatched :
      Batched List.length client.charBudget texts
        (client.batchesOf texts) :=
    batched_batches texts
  refine ⟨hBatched, ?_, ?_, ?_, ?_⟩
  · intro server vectors hServes
    rw [embed_eq, collect_served hServes [] hBatched.nonempty]
    rfl
  · intro server vector hServes
    rw [embed_eq, collect_served hServes [] hBatched.nonempty,
      served_map, hBatched.flatten, List.map_map]
    rfl
  · intro server front batch rest data hSplit hFront hData hLength
    have hNonempty := hBatched.nonempty
    rw [hSplit] at hNonempty
    rw [embed_eq, hSplit]
    rw [List.map_append] at hData
    apply collect_refused hNonempty
    · exact hFront
    · exact answer_mismatch hData hLength
  · intro server out sent events hRun front batch rest hSplit
    rw [embed_eq] at hRun
    rcases
        collect_answered hBatched.nonempty hRun front batch rest
          hSplit with
      ⟨vectors, hAnswer⟩
    rw [List.map_append]
    exact length_of_answer hAnswer

/- A server that gives lengths, in the reverse order. -/
def reversed (sent : List Request) :
    Except Raised (List (Item Nat)) :=
  .ok
    (taggedFrom 0
      ((lastInput sent).map fun text => [text.length])).reverse

/- Three texts in two batches, each answered in reverse. -/
theorem embed_aligned_reversed :
    let client :=
      RemoteEmbedding.init "http://x/v1".toList "bge-m3".toList 10
    let texts := ["aaaa".toList, "bb".toList, "cccccc".toList]
    (client.embed texts).run (post reversed) [] =
      (.ok (texts.map fun text => denseOnly [text.length]),
        [client.request ["aaaa".toList, "bb".toList],
          client.request ["cccccc".toList]],
        []) := by
  intro client texts
  have hServes :
      Serves reversed fun sent =>
        (lastInput sent).map fun text => [text.length] := by
    intro sent request hInput
    have hLast : lastInput (sent ++ [request]) = request.input := by
      simp [lastInput]
    constructor
    · simp [hLast]
    · exact ⟨_, rfl, List.reverse_perm _⟩
  exact (embed_aligned client texts).2.2.1 reversed _ hServes

end Embedding

end Law

end LegalAgent
