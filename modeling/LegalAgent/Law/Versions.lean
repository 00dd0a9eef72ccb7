import LegalAgent.Law.Overlap

/-
  What the index keeps of the versions of a law.

  Behind the last ingestion of a version, no write of another
  version or of another law touches its points but for the
  mark of current points, and this mark tells exactly whether
  a demotion has kept another version.

  Key definitions include:
    * `LastWritten`
    * `Payload.Stores`

  Key theorems include:
    * `points_of_mem`
    * `stores_supersede`
    * `versions_preserved`
-/

------------------------------------------------------------
-- Windows Of A Version
------------------------------------------------------------

namespace LegalAgent

namespace Law

section Versions

variable {Vector : Type} {uuid5 : Text → Text}

/- A version is not written again in a history. -/
def LastWritten
    (law : LawMeta)
    (history : List (IndexWrite Vector)) :
    Prop :=
  ∀ other,
    .upsert other ∈ history →
      other.fits = true →
        other.law.lawId = law.lawId →
          other.law.effDate ≠ law.effDate

/- A point has all of a chunk but its mark. -/
def Payload.Stores (payload : Payload) (chunk : Chunk) : Prop :=
  { payload with isCurrent := true } = chunk.payload

/- Chunks with distinct points are written as they are. -/
theorem points_of_mem
    {ingestion : Ingestion Vector}
    (hDistinct : (ingestion.ids uuid5).Nodup)
    {chunk : Chunk}
    (hChunk : chunk ∈ ingestion.chunks) :
    ingestion.points uuid5
        (pointId uuid5 chunk.uri chunk.seq) =
      some chunk.payload := by
  rcases exists_of_mem_ids (List.mem_map_of_mem hChunk) with
    ⟨payload, hPoint⟩
  rcases of_putAll hPoint with ⟨other, hOther, hId, rfl⟩
  have hSame : other = chunk :=
    List.inj_on_of_nodup_map hDistinct hOther hChunk hId
  rw [hSame] at hPoint
  exact hPoint

/- A chunk of an ingestion is current when it is written. -/
theorem stores_payload
    {ingestion : Ingestion Vector}
    {chunk : Chunk}
    (hChunk : chunk ∈ ingestion.chunks) :
    chunk.payload.isCurrent = true ∧
      chunk.payload.Stores chunk := by
  rcases of_mem_buildChunks hChunk with ⟨-, -, hCurrent⟩
  refine ⟨hCurrent, ?_⟩
  unfold Payload.Stores Chunk.payload
  rw [hCurrent]

/- Demotions that keep a version, one more in front. -/
theorem keepsVersion_supersede
    {law other : LawMeta}
    {history : List (IndexWrite Vector)} :
    KeepsVersion law (.supersede other :: history) ↔
      (other.lawId = law.lawId →
          iso other.effDate = iso law.effDate) ∧
        KeepsVersion law history := by
  constructor
  · intro hKeeps
    exact
      ⟨hKeeps other List.mem_cons_self,
        fun law' hMem =>
          hKeeps law' (List.mem_cons_of_mem _ hMem)⟩
  · rintro ⟨hFirst, hRest⟩ law' hMem
    rcases List.mem_cons.mp hMem with hEq | hMem
    · cases hEq
      exact hFirst
    · exact hRest law' hMem

/- An upsert demotes nothing. -/
theorem keepsVersion_upsert
    {law : LawMeta}
    {ingestion : Ingestion Vector}
    {history : List (IndexWrite Vector)} :
    KeepsVersion law (.upsert ingestion :: history) ↔
      KeepsVersion law history := by
  constructor
  · intro hKeeps other hMem
    exact hKeeps other (List.mem_cons_of_mem _ hMem)
  · intro hKeeps other hMem
    rcases List.mem_cons.mp hMem with hEq | hMem
    · cases hEq
    · exact hKeeps other hMem

/- The point behind a demotion. -/
theorem supersede_apply
    {law : LawMeta}
    {collection : Collection}
    {id : Text}
    {payload : Payload}
    (hPayload : collection id = some payload) :
    (.supersede law : IndexWrite Vector).run uuid5 collection
        id =
      some
        (if payload.resourceId = law.lawId ∧
            payload.effDate ≠ iso law.effDate then
          { payload with isCurrent := false }
        else
          payload) := by
  change (collection id).map _ = _
  rw [hPayload]
  rfl

/-
  A demotion leaves a window but for its mark, which falls
  when another version is kept.
-/
theorem stores_supersede
    {ingestion : Ingestion Vector}
    {chunk : Chunk}
    (hChunk : chunk ∈ ingestion.chunks)
    (law : LawMeta)
    {history : List (IndexWrite Vector)}
    {payload : Payload}
    (hStores : payload.Stores chunk)
    (hCurrent :
      payload.isCurrent = true ↔
        KeepsVersion ingestion.law history) :
    (if payload.resourceId = law.lawId ∧
          payload.effDate ≠ iso law.effDate then
        { payload with isCurrent := false }
      else
        payload).Stores chunk ∧
      ((if payload.resourceId = law.lawId ∧
            payload.effDate ≠ iso law.effDate then
          { payload with isCurrent := false }
        else
          payload).isCurrent = true ↔
        KeepsVersion ingestion.law
          (.supersede law :: history)) := by
  rcases of_mem_buildChunks hChunk with ⟨hLaw, hDate, -⟩
  have hPayloadLaw : payload.resourceId = ingestion.law.lawId := by
    rw [← hLaw]
    exact congrArg Payload.resourceId hStores
  have hPayloadDate :
      payload.effDate = iso ingestion.law.effDate := by
    rw [← hDate]
    exact congrArg Payload.effDate hStores
  rw [keepsVersion_supersede]
  by_cases hDemoted :
      payload.resourceId = law.lawId ∧
        payload.effDate ≠ iso law.effDate
  · rw [if_pos hDemoted]
    rw [hPayloadLaw, hPayloadDate] at hDemoted
    refine ⟨hStores, iff_of_false Bool.false_ne_true ?_⟩
    intro hKeeps
    exact hDemoted.2 (hKeeps.1 hDemoted.1.symm).symm
  · rw [if_neg hDemoted, hCurrent]
    rw [hPayloadLaw, hPayloadDate] at hDemoted
    refine ⟨hStores, fun hKeeps => ⟨?_, hKeeps⟩, And.right⟩
    intro hSame
    by_contra hNe
    exact hDemoted ⟨hSame.symm, Ne.symm hNe⟩

/-
  Whatever is ingested, demoted or cut short since the last
  ingestion of a version, every window of its articles can be
  read back with the whole article, the law and the date; and
  it is current exactly if no demotion of the law since then
  has kept another version.
-/
theorem versions_preserved
    (hInjective : Function.Injective uuid5)
    {ingestion : Ingestion Vector}
    (hPlain : ingestion.law.Plain)
    (hFits : ingestion.fits = true)
    (hDistinct : (ingestion.ids uuid5).Nodup)
    {since older : List (IndexWrite Vector)}
    (hSince : PlainWrites since)
    (hLast : LastWritten ingestion.law since)
    {chunk : Chunk}
    (hChunk : chunk ∈ ingestion.chunks) :
    ∃ payload,
      index uuid5 (since ++ .upsert ingestion :: older)
            (pointId uuid5 chunk.uri chunk.seq) =
          some payload ∧
        payload.Stores chunk ∧
          (payload.isCurrent = true ↔
            KeepsVersion ingestion.law since) := by
  have hId :
      pointId uuid5 chunk.uri chunk.seq ∈ ingestion.ids uuid5 :=
    List.mem_map_of_mem hChunk
  induction since with
  | nil =>
      rcases stores_payload hChunk with ⟨hCurrent, hStores⟩
      refine ⟨chunk.payload, ?_, hStores, ?_⟩
      · rw [List.nil_append, index, upsert_apply, if_pos hFits,
          points_of_mem hDistinct hChunk, Option.some_or]
      · refine iff_of_true hCurrent ?_
        intro other hMem
        cases hMem
  | cons write since ih =>
      rcases
          ih
            (fun other hMem =>
              hSince other (List.mem_cons_of_mem _ hMem))
            (fun other hMem =>
              hLast other (List.mem_cons_of_mem _ hMem)) with
        ⟨payload, hPayload, hStores, hCurrent⟩
      rw [List.cons_append, index]
      cases write with
      | upsert other =>
          refine ⟨payload, ?_, hStores, ?_⟩
          · rw [upsert_apply, hPayload]
            split
            · rename_i hOtherFits
              rw [points_eq_none_iff.mpr, Option.none_or]
              intro hOther
              rcases
                  version_of_shared_id hInjective
                    (hSince other List.mem_cons_self) hPlain
                    hOther hId with
                ⟨hSameLaw, hSameDate⟩
              exact
                hLast other List.mem_cons_self hOtherFits
                  hSameLaw hSameDate
            · rfl
          · rw [keepsVersion_upsert]
            exact hCurrent
      | supersede law =>
          exact
            ⟨_, supersede_apply hPayload,
              stores_supersede hChunk law hStores hCurrent⟩

end Versions

/-
  The first version of a law, behind a later one that was kept
  and one that was only written.
-/
theorem versions_preserved_amended :
    ∃ chunk ∈ (ingestion 1).chunks,
      ∃ payload,
        index id
              [.supersede amended.law, .upsert amended,
                .upsert (ingestion 1)]
              (pointId id chunk.uri chunk.seq) =
            some payload ∧
          payload.Stores chunk ∧
            payload.isCurrent = false := by
  have hWrites :
      PlainWrites
        ([.supersede amended.law, .upsert amended] :
          List (IndexWrite Unit)) := by
    intro other hMem
    simp only [List.mem_cons, List.not_mem_nil, or_false,
      reduceCtorEq, false_or, IndexWrite.upsert.injEq] at hMem
    subst hMem
    exact plain_amended
  have hLast :
      LastWritten (ingestion 1).law
        ([.supersede amended.law, .upsert amended] :
          List (IndexWrite Unit)) := by
    intro other hMem _ _
    simp only [List.mem_cons, List.not_mem_nil, or_false,
      reduceCtorEq, false_or, IndexWrite.upsert.injEq] at hMem
    subst hMem
    decide +kernel
  have hAny : (ingestion 1).chunks ≠ [] := by
    intro hNil
    have hIds : (ingestion 1).ids id ≠ [] := by
      decide +kernel
    exact hIds (by rw [Ingestion.ids, hNil, List.map_nil])
  rcases List.exists_mem_of_ne_nil _ hAny with ⟨chunk, hChunk⟩
  rcases
      @versions_preserved Unit id Function.injective_id
        (ingestion 1) plain_ingestion (by decide +kernel)
        (by decide +kernel)
        [.supersede amended.law, .upsert amended] [] hWrites
        hLast chunk hChunk with
    ⟨payload, hPoint, hStores, hCurrent⟩
  refine ⟨chunk, hChunk, payload, hPoint, hStores, ?_⟩
  rw [← Bool.not_eq_true, hCurrent]
  intro hKeeps
  exact
    absurd (hKeeps amended.law List.mem_cons_self (by decide +kernel))
      (by decide +kernel)

end Law

end LegalAgent
