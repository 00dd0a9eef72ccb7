import LegalAgent.Law.Currency
import LegalAgent.Law.Identity

/-
  Ingestions that overlap, or that stop half way.

  An ingestion first writes the points of a law and then
  demotes the points of its other versions.  Between the two
  and behind them other ingestions can do the same, and each
  can stop anywhere.  The index is therefore a history of both
  kinds of writes in any order.

  Key definitions include:
    * `IndexWrite`
    * `index`
    * `LawMeta.Plain`

  Key theorems include:
    * `ingestLaw_index`
    * `apart_of_plain`
    * `currentOf_write`
    * `current_until_demoted`
    * `dated_since_demoted`
    * `ingestions_overlap`
-/

------------------------------------------------------------
-- Histories Of Writes
------------------------------------------------------------

namespace LegalAgent

namespace Law

variable {Vector : Type}

/- What an ingestion writes to the index, one after the other. -/
inductive IndexWrite (Vector : Type) where
  | upsert (ingestion : Ingestion Vector)
  | supersede (law : LawMeta)

/- A write that raises leaves the index. -/
def IndexWrite.run
    (uuid5 : Text → Text)
    (collection : Collection) :
    IndexWrite Vector → Collection
| .upsert ingestion =>
    (collection.upsert uuid5 ingestion.chunks
      ingestion.vectors).toOption.getD collection
| .supersede law =>
    collection.supersede law.lawId (iso law.effDate)

/- The index behind a history; the last write comes first. -/
def index
    (uuid5 : Text → Text) :
    List (IndexWrite Vector) → Collection
| [] => .empty
| write :: history => write.run uuid5 (index uuid5 history)

/- There is a vector for each chunk. -/
def Ingestion.fits (ingestion : Ingestion Vector) : Bool :=
  ingestion.chunks.length == ingestion.vectors.length

variable {uuid5 : Text → Text}

/- A whole ingestion makes both writes. -/
theorem ingestLaw_index
    {ingestion : Ingestion Vector}
    {history : List (IndexWrite Vector)}
    {collection : Collection}
    (hIngest :
      ingestLaw uuid5 ingestion (index uuid5 history) =
        .ok collection) :
    collection =
      index uuid5
        (.supersede ingestion.law :: .upsert ingestion ::
          history) := by
  unfold ingestLaw at hIngest
  cases hUpsert :
      (index uuid5 history).upsert uuid5 ingestion.chunks
        ingestion.vectors with
  | error exn =>
      rw [hUpsert] at hIngest
      cases hIngest
  | ok written =>
      rw [hUpsert] at hIngest
      cases hIngest
      simp only [index, IndexWrite.run, hUpsert,
        Except.toOption, Option.getD_some]

/- The points behind an upsert. -/
theorem upsert_apply
    {ingestion : Ingestion Vector}
    (collection : Collection)
    (id : Text) :
    (IndexWrite.upsert ingestion).run uuid5 collection id =
      if ingestion.fits then
        (ingestion.points uuid5 id).or (collection id)
      else
        collection id := by
  change
    (collection.upsert uuid5 ingestion.chunks
        ingestion.vectors).toOption.getD collection id =
      _
  unfold Collection.upsert Ingestion.fits
  by_cases hLength :
      ingestion.chunks.length = ingestion.vectors.length
  · rw [if_neg (not_not.mpr hLength),
      if_pos (beq_iff_eq.mpr hLength)]
    change
      Collection.putAll uuid5
          ((ingestion.chunks.zip ingestion.vectors).map Prod.fst)
          collection id =
        _
    rw [List.map_fst_zip (Nat.le_of_eq hLength), putAll_apply]
    rfl
  · rw [if_pos hLength,
      if_neg fun hFits => hLength (beq_iff_eq.mp hFits)]
    rfl

------------------------------------------------------------
-- Plain Laws
------------------------------------------------------------

/-
  The id and the date of a law as the law service gives them:
  no marks of an IRI, and a date without dashes.
-/
structure LawMeta.Plain (law : LawMeta) : Prop where
  lawId : '/' ∉ law.lawId ∧ '#' ∉ law.lawId
  effDate : '/' ∉ law.effDate ∧ '#' ∉ law.effDate
  undashed : '-' ∉ law.effDate

/- The name of a window of an article of a plain law. -/
def ArticleRec.window
    {law : LawMeta}
    (hPlain : law.Plain)
    (article : ArticleRec)
    (seq : Nat) :
    WindowName where
  lawId := law.lawId
  effDate := law.effDate
  articleNo := article.articleNo
  branchNo := article.branchNo.map IntOrStr.int
  seq := seq
  law_plain := hPlain.lawId
  date_plain := hPlain.effDate
  number := by
    cases article.branchNo with
    | none => trivial
    | some number => trivial

/- The ids of an ingestion hash the keys of windows. -/
theorem window_of_mem_ids
    {ingestion : Ingestion Vector}
    (hPlain : ingestion.law.Plain)
    {id : Text}
    (hId : id ∈ ingestion.ids uuid5) :
    ∃ article seq,
      id = uuid5 (ArticleRec.window hPlain article seq).key := by
  rcases List.mem_map.mp hId with ⟨chunk, hChunk, rfl⟩
  rcases List.mem_flatMap.mp hChunk with ⟨article, -, hWindow⟩
  unfold ArticleRec.chunks at hWindow
  split at hWindow
  · cases hWindow
  · rcases List.mem_map.mp hWindow with ⟨window, -, rfl⟩
    refine ⟨article, window.2, ?_⟩
    change
      uuid5
          (pointKey
            (articleIri ingestion.law.lawId
              ingestion.law.effDate article.articleNo
              article.branchNo)
            window.2) =
        uuid5
          (pointKey
            (articleIriOf ingestion.law.lawId
              ingestion.law.effDate (.int article.articleNo)
              (article.branchNo.map IntOrStr.int))
            window.2)
    rw [articleIriOf, segmentOf_int, articleIri]

/- Only ingestions of one version share the id of a point. -/
theorem version_of_shared_id
    (hInjective : Function.Injective uuid5)
    {ingestion other : Ingestion Vector}
    (hPlain : ingestion.law.Plain)
    (hPlain' : other.law.Plain)
    {id : Text}
    (hId : id ∈ ingestion.ids uuid5)
    (hId' : id ∈ other.ids uuid5) :
    ingestion.law.lawId = other.law.lawId ∧
      ingestion.law.effDate = other.law.effDate := by
  rcases window_of_mem_ids hPlain hId with ⟨article, seq, hKey⟩
  rcases window_of_mem_ids hPlain' hId' with
    ⟨article', seq', hKey'⟩
  have hSame :=
    (WindowName.key_eq_iff _ _).mp
      (hInjective (hKey.symm.trans hKey'))
  rcases hSame with ⟨hLaw, hDate, -⟩
  refine ⟨hLaw, ?_⟩
  have hFilter :
      ∀ date : Text,
        '-' ∉ date → date.filter (· != '-') = date := by
    intro date hNone
    rw [List.filter_eq_self]
    intro c hMem
    rw [bne_iff_ne]
    rintro rfl
    exact hNone hMem
  change
    ingestion.law.effDate.filter (· != '-') =
      other.law.effDate.filter (· != '-') at hDate
  rwa [hFilter _ hPlain.undashed, hFilter _ hPlain'.undashed]
    at hDate

/- Plain laws with different ids do not share points. -/
theorem apart_of_plain
    (hInjective : Function.Injective uuid5)
    {history : List (Ingestion Vector)}
    {ingestion : Ingestion Vector}
    (hPlain :
      ∀ other ∈ ingestion :: history, other.law.Plain) :
    Apart uuid5 history ingestion := by
  intro other hOther hNe id hId hId'
  have hSame :=
    version_of_shared_id hInjective
      (hPlain other (List.mem_cons_of_mem _ hOther))
      (hPlain ingestion List.mem_cons_self) hId hId'
  exact hNe hSame.1

------------------------------------------------------------
-- Current Points
------------------------------------------------------------

/- A current point of a version of a law. -/
def Collection.HasCurrent
    (collection : Collection)
    (law : LawMeta)
    (id : Text) :
    Prop :=
  ∃ payload,
    collection id = some payload ∧
      payload.resourceId = law.lawId ∧
        payload.effDate = iso law.effDate ∧
          payload.isCurrent = true

/- The demotions of a law keep a version. -/
def KeepsVersion
    (law : LawMeta)
    (history : List (IndexWrite Vector)) :
    Prop :=
  ∀ other,
    .supersede other ∈ history →
      other.lawId = law.lawId →
        iso other.effDate = iso law.effDate

/- The laws that a history writes are plain. -/
def PlainWrites (history : List (IndexWrite Vector)) : Prop :=
  ∀ ingestion,
    .upsert ingestion ∈ history → ingestion.law.Plain

section Current

variable {ingestion : Ingestion Vector} {id : Text}

/-
  A point that was written is current as long as no demotion
  of its law keeps another version.
-/
theorem current_until_demoted
    (hInjective : Function.Injective uuid5)
    (hPlain : ingestion.law.Plain)
    (hFits : ingestion.fits = true)
    (hId : id ∈ ingestion.ids uuid5)
    {since older : List (IndexWrite Vector)}
    (hSince : PlainWrites since)
    (hKeeps : KeepsVersion ingestion.law since) :
    (index uuid5 (since ++ .upsert ingestion :: older)).HasCurrent
      ingestion.law id := by
  induction since with
  | nil =>
      rcases exists_of_mem_ids hId with ⟨payload, hPoint⟩
      refine ⟨payload, ?_, of_points hPoint⟩
      rw [List.nil_append, index, upsert_apply, if_pos hFits,
        hPoint, Option.some_or]
  | cons write since ih =>
      rcases
          ih
            (fun other hMem =>
              hSince other (List.mem_cons_of_mem _ hMem))
            (fun other hMem =>
              hKeeps other (List.mem_cons_of_mem _ hMem)) with
        ⟨payload, hPayload, hLaw, hDate, hCurrent⟩
      rw [List.cons_append, index]
      cases write with
      | upsert other =>
          cases hPoint : other.points uuid5 id with
          | none =>
              refine ⟨payload, ?_, hLaw, hDate, hCurrent⟩
              rw [upsert_apply, hPoint, Option.none_or, ite_self,
                hPayload]
          | some point =>
              have hOther : id ∈ other.ids uuid5 := by
                by_contra hNot
                rw [points_eq_none_iff.mpr hNot] at hPoint
                cases hPoint
              have hSame :=
                version_of_shared_id hInjective
                  (hSince other List.mem_cons_self) hPlain hOther
                  hId
              cases hOtherFits : other.fits with
              | false =>
                  refine ⟨payload, ?_, hLaw, hDate, hCurrent⟩
                  rw [upsert_apply, hOtherFits,
                    if_neg Bool.false_ne_true, hPayload]
              | true =>
                  rcases of_points hPoint with
                    ⟨hPointLaw, hPointDate, hPointCurrent⟩
                  refine
                    ⟨point, ?_, hPointLaw.trans hSame.1, ?_,
                      hPointCurrent⟩
                  · rw [upsert_apply, hOtherFits, if_pos rfl,
                      hPoint, Option.some_or]
                  · rw [hPointDate, hSame.2]
      | supersede law =>
          refine ⟨payload, ?_, hLaw, hDate, hCurrent⟩
          change
            (index uuid5
                  (since ++ .upsert ingestion :: older) id).map
                _ =
              _
          rw [hPayload, Option.map_some, if_neg]
          rintro ⟨hIs, hNe⟩
          apply hNe
          rw [hDate]
          exact
            (hKeeps law List.mem_cons_self
              (hIs.symm.trans hLaw)).symm

/-
  The current points of a law are of the version that its last
  demotion kept, or they were written since.
-/
theorem dated_since_demoted
    {law : LawMeta}
    {since older : List (IndexWrite Vector)}
    {payload : Payload}
    (hPoint :
      (index uuid5
            (since ++ .supersede law :: older)).currentOf
          law.lawId id =
        some payload) :
    payload.effDate = iso law.effDate ∨
      ∃ ingestion,
        .upsert ingestion ∈ since ∧
          ingestion.law.lawId = law.lawId ∧
            ingestion.points uuid5 id = some payload := by
  rw [Collection.currentOf, Option.filter_eq_some_iff,
    Bool.and_eq_true, beq_iff_eq] at hPoint
  rcases hPoint with ⟨hSome, hLaw, hCurrent⟩
  induction since with
  | nil =>
      left
      change
        (index uuid5 older id).map _ = some payload at hSome
      rcases Option.map_eq_some_iff.mp hSome with
        ⟨old, -, rfl⟩
      by_contra hNe
      by_cases hDemoted :
          old.resourceId = law.lawId ∧
            old.effDate ≠ iso law.effDate
      · rw [if_pos hDemoted] at hCurrent
        cases hCurrent
      · rw [if_neg hDemoted] at hNe hLaw
        exact hDemoted ⟨hLaw, hNe⟩
  | cons write since ih =>
      have hBehind :
          index uuid5 (since ++ .supersede law :: older) id =
              some payload →
            payload.effDate = iso law.effDate ∨
              ∃ ingestion,
                .upsert ingestion ∈ write :: since ∧
                  ingestion.law.lawId = law.lawId ∧
                    ingestion.points uuid5 id =
                      some payload := by
        intro hOld
        rcases ih hOld with hDate | ⟨other, hMem, hIs⟩
        · exact Or.inl hDate
        · exact
            Or.inr ⟨other, List.mem_cons_of_mem _ hMem, hIs⟩
      rw [List.cons_append, index] at hSome
      cases write with
      | upsert other =>
          rw [upsert_apply] at hSome
          split at hSome
          · rcases Option.or_eq_some_iff.mp hSome with
              hNew | ⟨-, hOld⟩
            · right
              refine ⟨other, List.mem_cons_self, ?_, hNew⟩
              rw [← (of_points hNew).1, hLaw]
            · exact hBehind hOld
          · exact hBehind hSome
      | supersede other =>
          change
            (index uuid5 (since ++ .supersede law :: older)
                  id).map _ =
              some payload at hSome
          rcases Option.map_eq_some_iff.mp hSome with
            ⟨old, hOld, hEq⟩
          split at hEq
          · rw [← hEq] at hCurrent
            cases hCurrent
          · rw [hEq] at hOld
            exact hBehind hOld

end Current

/-
  Whatever ingestions of any laws do between the two writes of
  an ingestion and after them, all of its points are current
  until a demotion of its law keeps another version; and what
  else is current of the law is of its version as well, or it
  was written since.
-/
theorem ingestions_overlap
    (hInjective : Function.Injective uuid5)
    {ingestion : Ingestion Vector}
    (hPlain : ingestion.law.Plain)
    (hFits : ingestion.fits = true)
    {since between older : List (IndexWrite Vector)}
    (hWrites : PlainWrites (since ++ between))
    (hKeeps : KeepsVersion ingestion.law (since ++ between))
    {history : List (IndexWrite Vector)}
    (hHistory :
      history =
        since ++
          .supersede ingestion.law ::
            (between ++ .upsert ingestion :: older))
    (id : Text) :
    (id ∈ ingestion.ids uuid5 →
        (index uuid5 history).HasCurrent ingestion.law id) ∧
      ∀ payload,
        (index uuid5 history).currentOf ingestion.law.lawId id =
            some payload →
          payload.effDate = iso ingestion.law.effDate ∨
            ∃ other,
              .upsert other ∈ since ∧
                other.law.lawId = ingestion.law.lawId ∧
                  other.points uuid5 id = some payload := by
  subst hHistory
  constructor
  · intro hId
    have hSplit :
        since ++
            .supersede ingestion.law ::
              (between ++ .upsert ingestion :: older) =
          (since ++ .supersede ingestion.law :: between) ++
            .upsert ingestion :: older := by
      rw [List.append_assoc, List.cons_append]
    rw [hSplit]
    apply current_until_demoted hInjective hPlain hFits hId
    · intro other hMem
      apply hWrites
      rcases List.mem_append.mp hMem with hMem | hMem
      · exact List.mem_append_left _ hMem
      · rcases List.mem_cons.mp hMem with hEq | hMem
        · cases hEq
        · exact List.mem_append_right _ hMem
    · intro other hMem hLaw
      rcases List.mem_append.mp hMem with hMem | hMem
      · exact hKeeps other (List.mem_append_left _ hMem) hLaw
      · rcases List.mem_cons.mp hMem with hEq | hMem
        · cases hEq
          rfl
        · exact hKeeps other (List.mem_append_right _ hMem) hLaw
  · intro payload hPoint
    exact dated_since_demoted hPoint

/- The law of `ingestion` in a later version. -/
def amended : Ingestion Unit where
  law := { (ingestion 1).law with effDate := "20250101".toList }
  articles := (ingestion 1).articles
  vectors := (ingestion 1).vectors

/- The law of `ingestion` is plain. -/
theorem plain_ingestion : (ingestion 1).law.Plain :=
  ⟨by decide +kernel, by decide +kernel, by decide +kernel⟩

/- Its later version is plain as well. -/
theorem plain_amended : amended.law.Plain :=
  ⟨by decide +kernel, by decide +kernel, by decide +kernel⟩

/-
  Two versions are written at once, the earlier one is kept,
  and the later one is written again but not yet kept.
-/
theorem ingestions_overlap_amended :
    ∃ point ∈ (ingestion 1).ids id,
      (index id
            [.upsert amended, .supersede (ingestion 1).law,
              .upsert amended,
              .upsert (ingestion 1)]).HasCurrent
          (ingestion 1).law point ∧
        ∀ payload,
          (index id
                [.upsert amended, .supersede (ingestion 1).law,
                  .upsert amended,
                  .upsert (ingestion 1)]).currentOf
              (ingestion 1).law.lawId point =
              some payload →
            payload.effDate = iso (ingestion 1).law.effDate ∨
              amended.points id point = some payload := by
  have hWrites :
      PlainWrites
        ([.upsert amended] ++
          [.upsert amended] : List (IndexWrite Unit)) := by
    intro other hMem
    simp only [List.cons_append, List.nil_append,
      List.mem_cons, List.not_mem_nil, or_false, or_self,
      IndexWrite.upsert.injEq] at hMem
    subst hMem
    exact plain_amended
  have hKeeps :
      KeepsVersion (ingestion 1).law
        ([.upsert amended] ++
          [.upsert amended] : List (IndexWrite Unit)) := by
    intro other hMem
    simp at hMem
  have hAny : (ingestion 1).ids id ≠ [] := by
    decide +kernel
  rcases List.exists_mem_of_ne_nil _ hAny with ⟨point, hPoint⟩
  rcases
      @ingestions_overlap Unit id Function.injective_id
        (ingestion 1) plain_ingestion (by decide +kernel)
        [.upsert amended] [.upsert amended] [] hWrites hKeeps _
        rfl point
    with ⟨hKept, hDated⟩
  refine ⟨point, hPoint, hKept hPoint, ?_⟩
  intro payload hCurrent
  rcases hDated payload hCurrent with
    hDate | ⟨other, hMem, -, hIs⟩
  · exact Or.inl hDate
  · cases List.mem_singleton.mp hMem
    exact Or.inr hIs

end Law

end LegalAgent
