import LegalAgent.Law.Ingest

/-
  Which points of a law are current.

  A point stops being current when a point with its id is
  written or when another version of its law is ingested.  A
  second ingestion of one version therefore has to write every
  point of the first again.

  Key definitions include:
    * `Ingestion.points`
    * `ingestAll`
    * `LatestCurrent`
    * `Unaffected`
    * `Covers`
    * `Apart`

  Key theorems include:
    * `latest_ingestion_current`
-/

------------------------------------------------------------
-- Histories
------------------------------------------------------------

namespace LegalAgent

namespace Law

variable {Vector : Type}

/- The points that an ingestion writes. -/
def Ingestion.points
    (uuid5 : Text → Text)
    (ingestion : Ingestion Vector) :
    Collection :=
  Collection.putAll uuid5 ingestion.chunks .empty

/- Ingest laws one after the other; the last comes first. -/
def ingestAll
    (uuid5 : Text → Text) :
    List (Ingestion Vector) → Except Exn Collection
| [] => .ok .empty
| ingestion :: history => do
    let collection ← ingestAll uuid5 history
    ingestLaw uuid5 ingestion collection

/- The last ingestion of a law. -/
def lastOf
    (history : List (Ingestion Vector))
    (lawId : Text) :
    Option (Ingestion Vector) :=
  history.find? fun ingestion => ingestion.law.lawId == lawId

/- The current points of a law. -/
def Collection.currentOf
    (collection : Collection)
    (lawId : Text) :
    Collection :=
  fun id =>
    (collection id).filter fun payload =>
      payload.resourceId == lawId && payload.isCurrent

/- The points of the other laws. -/
def Collection.without
    (collection : Collection)
    (lawId : Text) :
    Collection :=
  fun id =>
    (collection id).filter fun payload =>
      payload.resourceId != lawId

/-
  The current points of every law are those that its last
  ingestion wrote.
-/
def LatestCurrent
    (uuid5 : Text → Text)
    (history : List (Ingestion Vector))
    (collection : Collection) :
    Prop :=
  ∀ lawId,
    collection.currentOf lawId =
      (lastOf history lawId).elim .empty
        (Ingestion.points uuid5)

/- An ingestion leaves the points of other laws alone. -/
def Unaffected
    (ingestion : Ingestion Vector)
    (collection collection' : Collection) :
    Prop :=
  collection'.without ingestion.law.lawId =
    collection.without ingestion.law.lawId

/-
  After every ingestion of a history the current points are
  those of the last ingestions, and the points of other laws
  are as they were.
-/
def AlwaysCurrent
    (uuid5 : Text → Text) :
    List (Ingestion Vector) → Prop
| [] => True
| ingestion :: history =>
    AlwaysCurrent uuid5 history ∧
      ∀ collection collection',
        ingestAll uuid5 history = .ok collection →
          ingestLaw uuid5 ingestion collection =
              .ok collection' →
            LatestCurrent uuid5 (ingestion :: history)
                collection' ∧
              Unaffected ingestion collection collection'

/- The ids of the points that an ingestion writes. -/
def Ingestion.ids
    (uuid5 : Text → Text)
    (ingestion : Ingestion Vector) :
    List Text :=
  ingestion.chunks.map fun chunk =>
    pointId uuid5 chunk.uri chunk.seq

/-
  An ingestion of the version that is current writes all of
  its points again.
-/
def Covers
    (uuid5 : Text → Text)
    (history : List (Ingestion Vector))
    (ingestion : Ingestion Vector) :
    Prop :=
  ∀ last ∈ lastOf history ingestion.law.lawId,
    iso last.law.effDate = iso ingestion.law.effDate →
      last.ids uuid5 ⊆ ingestion.ids uuid5

/- An ingestion writes no point of another law. -/
def Apart
    (uuid5 : Text → Text)
    (history : List (Ingestion Vector))
    (ingestion : Ingestion Vector) :
    Prop :=
  ∀ other ∈ history,
    other.law.lawId ≠ ingestion.law.lawId →
      (other.ids uuid5).Disjoint (ingestion.ids uuid5)

/- Every ingestion of a history covers and keeps apart. -/
def AlwaysCovers
    (uuid5 : Text → Text) :
    List (Ingestion Vector) → Prop
| [] => True
| ingestion :: history =>
    AlwaysCovers uuid5 history ∧
      Covers uuid5 history ingestion ∧
        Apart uuid5 history ingestion

------------------------------------------------------------
-- Points
------------------------------------------------------------

variable {uuid5 : Text → Text}

/- A point is the last written one, or it is an old one. -/
theorem putAll_apply
    (chunks : List Chunk)
    (collection : Collection)
    (id : Text) :
    Collection.putAll uuid5 chunks collection id =
      (Collection.putAll uuid5 chunks .empty id).or
        (collection id) := by
  induction chunks generalizing collection with
  | nil => rfl
  | cons chunk chunks ih =>
      have hPut :
          ∀ collection : Collection,
            Collection.putAll uuid5 (chunk :: chunks)
                collection =
              Collection.putAll uuid5 chunks
                (collection.put
                  (pointId uuid5 chunk.uri chunk.seq)
                  chunk.payload) :=
        fun _ => rfl
      rw [hPut, hPut, ih, ih (Collection.put .empty _ _),
        Option.or_assoc]
      congr 1
      unfold Collection.put
      split
      · rfl
      · rfl

/- A written point is the payload of a chunk with its id. -/
theorem of_putAll
    {chunks : List Chunk}
    {id : Text}
    {payload : Payload}
    (hPoint :
      Collection.putAll uuid5 chunks .empty id = some payload) :
    ∃ chunk ∈ chunks,
      pointId uuid5 chunk.uri chunk.seq = id ∧
        chunk.payload = payload := by
  induction chunks with
  | nil => cases hPoint
  | cons chunk chunks ih =>
      change
        Collection.putAll uuid5 chunks
          (Collection.put .empty _ _) id = _ at hPoint
      rw [putAll_apply, Option.or_eq_some_iff] at hPoint
      rcases hPoint with hLater | ⟨-, hFirst⟩
      · rcases ih hLater with ⟨other, hMem, hOther⟩
        exact ⟨other, List.mem_cons_of_mem _ hMem, hOther⟩
      · simp only [Collection.put] at hFirst
        split at hFirst
        · rename_i hId
          cases hFirst
          exact ⟨chunk, List.mem_cons_self, hId.symm, rfl⟩
        · cases hFirst

/- The point of every chunk is written. -/
theorem putAll_ne_none
    {chunks : List Chunk}
    {chunk : Chunk}
    (hMem : chunk ∈ chunks) :
    Collection.putAll uuid5 chunks .empty
        (pointId uuid5 chunk.uri chunk.seq) ≠ none := by
  induction chunks with
  | nil => cases hMem
  | cons other chunks ih =>
      change
        Collection.putAll uuid5 chunks
          (Collection.put .empty _ _) _ ≠ _
      rw [putAll_apply, Ne, Option.or_eq_none_iff]
      rintro ⟨hLater, hFirst⟩
      rcases List.mem_cons.mp hMem with rfl | hRest
      · simp [Collection.put] at hFirst
      · exact ih hRest hLater

section Points

variable {ingestion : Ingestion Vector} {id : Text}

/- An ingestion writes current points of its version. -/
theorem of_points
    {payload : Payload}
    (hPoint : ingestion.points uuid5 id = some payload) :
    payload.resourceId = ingestion.law.lawId ∧
      payload.effDate = iso ingestion.law.effDate ∧
        payload.isCurrent = true := by
  rcases of_putAll hPoint with ⟨chunk, hMem, -, rfl⟩
  exact of_mem_buildChunks hMem

/- An ingestion writes the points with its ids. -/
theorem points_eq_none_iff :
    ingestion.points uuid5 id = none ↔
      id ∉ ingestion.ids uuid5 := by
  constructor
  · intro hNone hMem
    rcases List.mem_map.mp hMem with ⟨chunk, hChunk, rfl⟩
    exact putAll_ne_none hChunk hNone
  · intro hMem
    by_contra hSome
    rcases Option.ne_none_iff_exists'.mp hSome with
      ⟨payload, hPoint⟩
    rcases of_putAll hPoint with ⟨chunk, hChunk, hId, -⟩
    exact hMem (List.mem_map.mpr ⟨chunk, hChunk, hId⟩)

/- A point with an id of an ingestion is written by it. -/
theorem exists_of_mem_ids
    (hMem : id ∈ ingestion.ids uuid5) :
    ∃ payload, ingestion.points uuid5 id = some payload := by
  apply Option.ne_none_iff_exists'.mp
  intro hNone
  exact points_eq_none_iff.mp hNone hMem

/- The payload of an old point after an ingestion. -/
def Ingestion.demote
    (ingestion : Ingestion Vector)
    (payload : Payload) :
    Payload :=
  if payload.resourceId = ingestion.law.lawId ∧
      payload.effDate ≠ iso ingestion.law.effDate then
    { payload with isCurrent := false }
  else
    payload

@[simp] theorem resourceId_demote
    (payload : Payload) :
    (ingestion.demote payload).resourceId =
      payload.resourceId := by
  unfold Ingestion.demote
  split <;> rfl

/- Points of other laws are not demoted. -/
theorem demote_of_ne
    {payload : Payload}
    (hNe : payload.resourceId ≠ ingestion.law.lawId) :
    ingestion.demote payload = payload := by
  unfold Ingestion.demote
  rw [if_neg fun hBoth => hNe hBoth.1]

/- The points after an ingestion. -/
theorem ingestLaw_apply
    {collection collection' : Collection}
    (hIngest :
      ingestLaw uuid5 ingestion collection = .ok collection')
    (id : Text) :
    collection' id =
      (ingestion.points uuid5 id).or
        ((collection id).map ingestion.demote) := by
  unfold ingestLaw Collection.upsert at hIngest
  split at hIngest
  · cases hIngest
  · rename_i hLength
    rw [not_not] at hLength
    cases hIngest
    change
      (Collection.putAll uuid5 _ collection id).map
        ingestion.demote = _
    rw [List.map_fst_zip (Nat.le_of_eq hLength), putAll_apply,
      Option.map_or]
    have hKept :
        (ingestion.points uuid5 id).map ingestion.demote =
          ingestion.points uuid5 id := by
      cases hPoint : ingestion.points uuid5 id with
      | none => rfl
      | some payload =>
          rcases of_points hPoint with ⟨-, hDate, -⟩
          rw [Option.map_some, Ingestion.demote,
            if_neg fun hBoth => hBoth.2 hDate]
    exact congrArg (Option.or · _) hKept

end Points

------------------------------------------------------------
-- Steps
------------------------------------------------------------

/- Every point belongs to the law of the ingestions with its id. -/
structure Owned
    (uuid5 : Text → Text)
    (history : List (Ingestion Vector))
    (collection : Collection) :
    Prop where
  written :
    ∀ ingestion ∈ history,
      ∀ id ∈ ingestion.ids uuid5,
        ∃ payload,
          collection id = some payload ∧
            payload.resourceId = ingestion.law.lawId
  writer :
    ∀ id payload,
      collection id = some payload →
        ∃ ingestion ∈ history,
          id ∈ ingestion.ids uuid5 ∧
            payload.resourceId = ingestion.law.lawId

section Steps

variable {history : List (Ingestion Vector)}
variable {ingestion : Ingestion Vector}
variable {collection collection' : Collection}

/- An ingestion that keeps apart keeps the owners. -/
theorem owned_ingestLaw
    (hOwned : Owned uuid5 history collection)
    (hApart : Apart uuid5 history ingestion)
    (hIngest :
      ingestLaw uuid5 ingestion collection = .ok collection') :
    Owned uuid5 (ingestion :: history) collection' := by
  constructor
  · intro other hMem id hId
    rw [ingestLaw_apply hIngest]
    cases hPoint : ingestion.points uuid5 id with
    | some payload =>
        refine ⟨payload, rfl, ?_⟩
        rw [(of_points hPoint).1]
        rcases List.mem_cons.mp hMem with rfl | hOld
        · rfl
        · by_contra hNe
          have hIds : id ∈ ingestion.ids uuid5 := by
            by_contra hNot
            rw [points_eq_none_iff.mpr hNot] at hPoint
            cases hPoint
          exact hApart other hOld (Ne.symm hNe) hId hIds
    | none =>
        have hNot := points_eq_none_iff.mp hPoint
        rcases List.mem_cons.mp hMem with rfl | hOld
        · exact absurd hId hNot
        · rcases hOwned.written other hOld id hId with
            ⟨payload, hSome, hLaw⟩
          refine ⟨ingestion.demote payload, ?_, ?_⟩
          · rw [hSome, Option.none_or, Option.map_some]
          · rw [resourceId_demote, hLaw]
  · intro id payload hSome
    rw [ingestLaw_apply hIngest, Option.or_eq_some_iff] at hSome
    rcases hSome with hPoint | ⟨-, hOld⟩
    · refine ⟨ingestion, List.mem_cons_self, ?_, ?_⟩
      · by_contra hNot
        rw [points_eq_none_iff.mpr hNot] at hPoint
        cases hPoint
      · exact (of_points hPoint).1
    · rcases Option.map_eq_some_iff.mp hOld with
        ⟨old, hSome, rfl⟩
      rcases hOwned.writer id old hSome with
        ⟨other, hMem, hId, hLaw⟩
      exact
        ⟨other, List.mem_cons_of_mem _ hMem, hId,
          by rw [resourceId_demote, hLaw]⟩

/-
  The points of other laws stay exactly when none of them has
  an id of the ingestion.
-/
theorem unaffected_iff
    (hOwned : Owned uuid5 history collection)
    (hIngest :
      ingestLaw uuid5 ingestion collection = .ok collection') :
    Unaffected ingestion collection collection' ↔
      Apart uuid5 history ingestion := by
  constructor
  · intro hUnaffected other hMem hNe id hId hIds
    rcases hOwned.written other hMem id hId with
      ⟨payload, hSome, hLaw⟩
    rcases exists_of_mem_ids hIds with ⟨point, hPoint⟩
    have hEq := congrFun hUnaffected id
    simp only [Collection.without, ingestLaw_apply hIngest,
      hPoint, hSome, Option.some_or, Option.filter_some,
      (of_points hPoint).1, hLaw, bne_self_eq_false,
      bne_iff_ne.mpr hNe] at hEq
    cases hEq
  · intro hApart
    funext id
    simp only [Collection.without, ingestLaw_apply hIngest]
    cases hPoint : ingestion.points uuid5 id with
    | some point =>
        rw [Option.some_or, Option.filter_some,
          (of_points hPoint).1, bne_self_eq_false,
          if_neg Bool.false_ne_true]
        symm
        rw [Option.filter_eq_none_iff]
        intro payload hSome
        rcases hOwned.writer id payload hSome with
          ⟨other, hMem, hId, hLaw⟩
        rw [bne_iff_ne, not_not, hLaw]
        by_contra hNe
        have hIds : id ∈ ingestion.ids uuid5 := by
          by_contra hNot
          rw [points_eq_none_iff.mpr hNot] at hPoint
          cases hPoint
        exact hApart other hMem hNe hId hIds
    | none =>
        rw [Option.none_or]
        cases hSome : collection id with
        | none => rfl
        | some payload =>
            by_cases hLaw :
                payload.resourceId = ingestion.law.lawId
            · simp [Option.filter_some, hLaw]
            · rw [Option.map_some, demote_of_ne hLaw]

/- The current points of another law stay. -/
theorem currentOf_other
    (hUnaffected : Unaffected ingestion collection collection')
    {lawId : Text}
    (hNe : lawId ≠ ingestion.law.lawId) :
    collection'.currentOf lawId = collection.currentOf lawId := by
  have hWithout :
      ∀ collection : Collection,
        collection.currentOf lawId =
          (collection.without
            ingestion.law.lawId).currentOf lawId := by
    intro collection
    funext id
    simp only [Collection.currentOf, Collection.without,
      Option.filter_filter]
    congr 1
    funext payload
    by_cases hLaw : payload.resourceId = lawId
    · simp [hLaw, hNe]
    · simp [hLaw]
  rw [hWithout, hUnaffected, ← hWithout]

/- The current points of the law of an ingestion. -/
theorem currentOf_same
    (hIngest :
      ingestLaw uuid5 ingestion collection = .ok collection')
    (id : Text) :
    collection'.currentOf ingestion.law.lawId id =
      (ingestion.points uuid5 id).or
        ((collection.currentOf ingestion.law.lawId id).filter
          fun payload =>
            payload.effDate == iso ingestion.law.effDate) := by
  simp only [Collection.currentOf, ingestLaw_apply hIngest]
  cases hPoint : ingestion.points uuid5 id with
  | some point =>
      rcases of_points hPoint with ⟨hLaw, -, hCurrent⟩
      simp [hLaw, hCurrent]
  | none =>
      rw [Option.none_or, Option.none_or]
      cases hSome : collection id with
      | none => rfl
      | some payload =>
          unfold Ingestion.demote
          by_cases hLaw :
              payload.resourceId = ingestion.law.lawId
          · by_cases hDate :
                payload.effDate = iso ingestion.law.effDate
            · cases hCurrent : payload.isCurrent <;>
                simp [Option.filter_some, hLaw, hDate, hCurrent]
            · cases hCurrent : payload.isCurrent <;>
                simp [Option.filter_some, hLaw, hDate, hCurrent]
          · simp [Option.filter_some, hLaw]

/-
  The points of the last ingestion are the current ones
  exactly when it writes all points of its version again.
-/
theorem latestCurrent_iff
    (hLatest : LatestCurrent uuid5 history collection)
    (hIngest :
      ingestLaw uuid5 ingestion collection = .ok collection')
    (hUnaffected : Unaffected ingestion collection collection') :
    LatestCurrent uuid5 (ingestion :: history) collection' ↔
      Covers uuid5 history ingestion := by
  have hLast :
      lastOf (ingestion :: history) ingestion.law.lawId =
        some ingestion := by
    simp [lastOf]
  have hOthers :
      ∀ lawId, lawId ≠ ingestion.law.lawId →
        lastOf (ingestion :: history) lawId =
          lastOf history lawId := by
    intro lawId hNe
    simp [lastOf, Ne.symm hNe]
  constructor
  · intro hNew last hMem hDate id hId
    by_contra hNot
    have hSame := congrFun (hNew ingestion.law.lawId) id
    rcases exists_of_mem_ids hId with ⟨point, hPoint⟩
    have hOld := congrFun (hLatest ingestion.law.lawId) id
    rw [Option.mem_def] at hMem
    rw [hMem, Option.elim_some, hPoint] at hOld
    rw [currentOf_same hIngest, hLast, Option.elim_some,
      points_eq_none_iff.mpr hNot, Option.none_or, hOld,
      Option.filter_some, (of_points hPoint).2.1, hDate,
      beq_self_eq_true, if_pos rfl] at hSame
    cases hSame
  · intro hCovers lawId
    by_cases hLaw : lawId = ingestion.law.lawId
    · subst hLaw
      rw [hLast, Option.elim_some]
      funext id
      rw [currentOf_same hIngest]
      cases hPoint : ingestion.points uuid5 id with
      | some point => rfl
      | none =>
          have hNot := points_eq_none_iff.mp hPoint
          rw [Option.none_or, Option.filter_eq_none_iff,
            hLatest]
          intro payload hSome
          cases hMem : lastOf history ingestion.law.lawId with
          | none =>
              rw [hMem] at hSome
              cases hSome
          | some last =>
              rw [hMem, Option.elim_some] at hSome
              rw [beq_iff_eq, (of_points hSome).2.1]
              intro hDate
              refine hNot (hCovers last hMem hDate ?_)
              by_contra hNotId
              rw [points_eq_none_iff.mpr hNotId] at hSome
              cases hSome
    · rw [hOthers lawId hLaw,
        currentOf_other hUnaffected hLaw, hLatest]

end Steps

------------------------------------------------------------
-- Runs
------------------------------------------------------------

/- The first step of a successful history was successful. -/
theorem of_ingestAll
    {history : List (Ingestion Vector)}
    {ingestion : Ingestion Vector}
    {collection' : Collection}
    (hAll :
      ingestAll uuid5 (ingestion :: history) =
        .ok collection') :
    ∃ collection,
      ingestAll uuid5 history = .ok collection ∧
        ingestLaw uuid5 ingestion collection =
          .ok collection' := by
  rw [ingestAll] at hAll
  cases hHistory : ingestAll uuid5 history with
  | error exn =>
      rw [hHistory] at hAll
      cases hAll
  | ok collection =>
      rw [hHistory] at hAll
      exact ⟨collection, rfl, hAll⟩

/- Histories that cover and keep apart are current. -/
theorem latestCurrent_of_alwaysCovers
    {history : List (Ingestion Vector)}
    {collection : Collection}
    (hAll : ingestAll uuid5 history = .ok collection)
    (hCovers : AlwaysCovers uuid5 history) :
    LatestCurrent uuid5 history collection ∧
      Owned uuid5 history collection := by
  induction history generalizing collection with
  | nil =>
      cases hAll
      exact ⟨fun _ => rfl, by constructor <;> simp [Collection.empty]⟩
  | cons ingestion history ih =>
      rcases of_ingestAll hAll with ⟨old, hOld, hIngest⟩
      rcases hCovers with ⟨hRest, hCover, hApart⟩
      rcases ih hOld hRest with ⟨hLatest, hOwned⟩
      have hUnaffected := (unaffected_iff hOwned hIngest).mpr hApart
      exact
        ⟨(latestCurrent_iff hLatest hIngest hUnaffected).mpr
            hCover,
          owned_ingestLaw hOwned hApart hIngest⟩

/-
  After every ingestion of a history the current points of
  every law are those of its last ingestion, with the points
  of other laws as they were, exactly when every ingestion of
  the version that is current writes all its points again and
  no ingestion writes a point of another law.
-/
theorem latest_ingestion_current
    {history : List (Ingestion Vector)}
    {collection : Collection}
    (hAll : ingestAll uuid5 history = .ok collection) :
    AlwaysCurrent uuid5 history ↔ AlwaysCovers uuid5 history := by
  induction history generalizing collection with
  | nil => exact Iff.rfl
  | cons ingestion history ih =>
      rcases of_ingestAll hAll with ⟨old, hOld, hIngest⟩
      unfold AlwaysCurrent AlwaysCovers
      rw [ih hOld]
      apply and_congr_right
      intro hRest
      rcases latestCurrent_of_alwaysCovers hOld hRest with
        ⟨hLatest, hOwned⟩
      constructor
      · intro hStep
        rcases hStep old collection hOld hIngest with
          ⟨hNew, hUnaffected⟩
        exact
          ⟨(latestCurrent_iff hLatest hIngest hUnaffected).mp
              hNew,
            (unaffected_iff hOwned hIngest).mp hUnaffected⟩
      · rintro ⟨hCover, hApart⟩ collection₁ collection₂ hOld₁
          hIngest₁
        rw [hOld] at hOld₁
        cases hOld₁
        have hUnaffected :=
          (unaffected_iff hOwned hIngest₁).mpr hApart
        exact
          ⟨(latestCurrent_iff hLatest hIngest₁ hUnaffected).mpr
              hCover,
            hUnaffected⟩

/- The ingestion of the first articles of a law. -/
def ingestion (number : Nat) : Ingestion Unit where
  law :=
    { lawId := "001823".toList
      statute := []
      effDate := "20240101".toList
      ministry := [] }
  articles :=
    (List.range number).map fun index =>
      { articleNo := index + 1
        branchNo := none
        articleKey := []
        text := ['a'] }
  vectors := List.replicate number ()

/- A law whose version is ingested again with one more article. -/
theorem latest_ingestion_current_again :
    AlwaysCurrent id [ingestion 2, ingestion 1] := by
  obtain ⟨collection, hAll⟩ :
      ∃ collection,
        ingestAll id [ingestion 2, ingestion 1] =
          .ok collection :=
    ⟨_, rfl⟩
  apply (latest_ingestion_current hAll).mpr
  refine ⟨⟨trivial, ?_, ?_⟩, ?_, ?_⟩
  · intro last hMem
    cases hMem
  · intro other hMem
    cases hMem
  · intro last hMem _
    cases hMem
    decide +kernel
  · intro other hMem hNe
    rw [List.mem_singleton] at hMem
    subst hMem
    exact absurd rfl hNe

/- A law whose version loses an article keeps its point. -/
theorem stale_points :
    ¬ ∀ (Vector : Type) (uuid5 : Text → Text)
        (history : List (Ingestion Vector))
        (collection : Collection),
      Function.Injective uuid5 →
        ingestAll uuid5 history = .ok collection →
          LatestCurrent uuid5 history collection := by
  intro hAll
  have hLatest :=
    hAll Unit id [ingestion 1, ingestion 2] _
      Function.injective_id rfl
  have hStale :=
    congrFun (hLatest "001823".toList)
      (pointKey
        (articleIri "001823".toList "20240101".toList 2 none) 0)
  have hSome :=
    congrArg Option.isSome hStale
  revert hSome
  decide +kernel

end Law

end LegalAgent
