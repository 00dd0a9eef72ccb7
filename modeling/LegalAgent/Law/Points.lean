import LegalAgent.Law.Currency
import LegalAgent.Law.Parse

/-
  The points of the windows of a law.

  A point is named by the number of its article, the number of
  the branch and the window.  The key of the article, which is
  what tells articles apart, has no part in the name.

  Key definitions include:
    * `numbered?`
    * `StoresWindows`

  Key theorems include:
    * `pointKey_inj`
    * `nodup_ids_iff`
    * `stores_windows_iff`
-/

------------------------------------------------------------
-- Numerals
------------------------------------------------------------

namespace LegalAgent

namespace Law

/- The numbers of articles are printed by `str`. -/
theorem str_eq_intText (number : Int) :
    str number = intText number := by
  unfold str
  cases number with
  | ofNat n =>
      simp [toString, Int.repr, intText, Nat.toList_repr]
  | negSucc n =>
      simp [toString, Int.repr, intText, Nat.toList_repr]

/- The characters of a numeral. -/
def isNumeral (c : Char) : Bool :=
  c.isDigit || c == '-'

/- A numeral is made of these. -/
theorem isNumeral_of_mem_str
    {number : Int}
    {c : Char}
    (hMem : c ∈ str number) :
    isNumeral c = true := by
  rw [str_eq_intText] at hMem
  unfold isNumeral
  rcases isDigit_of_mem_intText hMem with hDigit | rfl
  · rw [hDigit, Bool.true_or]
  · rfl

/- A number is known from its digits. -/
theorem toDigits_inj
    {n m : Nat}
    (hDigits : Nat.toDigits 10 n = Nat.toDigits 10 m) :
    n = m := by
  rw [← @Nat.ofDigitChars_ten_toDigits n, hDigits,
    Nat.ofDigitChars_ten_toDigits]

/- No digits start with a sign. -/
theorem toDigits_ne_sign (n : Nat) (rest : Text) :
    Nat.toDigits 10 n ≠ '-' :: rest := by
  intro hEq
  have hSign : '-' ∈ Nat.toDigits 10 n := by
    rw [hEq]
    exact List.mem_cons_self
  exact absurd
    (Nat.isDigit_of_mem_toDigits (by decide) (by decide) hSign)
    (by decide)

/- A number is known from its numeral. -/
theorem str_inj
    {n m : Int}
    (hStr : str n = str m) :
    n = m := by
  rw [str_eq_intText, str_eq_intText] at hStr
  cases n with
  | ofNat n =>
      cases m with
      | ofNat m => rw [toDigits_inj hStr]
      | negSucc m => exact absurd hStr (toDigits_ne_sign n _)
  | negSucc n =>
      cases m with
      | ofNat m => exact absurd hStr.symm (toDigits_ne_sign m _)
      | negSucc m =>
          have hDigits := toDigits_inj (List.cons.inj hStr).2
          rw [Nat.add_right_cancel hDigits]

/- A text that does not continue a numeral. -/
def EndsNumeral (text : Text) : Prop :=
  ∀ c rest, text = c :: rest → isNumeral c = false

/- A numeral in front of a text is read back. -/
theorem str_append_inj
    {n m : Int}
    {first second : Text}
    (hFirst : EndsNumeral first)
    (hSecond : EndsNumeral second)
    (hEq : str n ++ first = str m ++ second) :
    n = m ∧ first = second := by
  have hTake : ∀ (k : Int) (rest : Text), EndsNumeral rest →
      (str k ++ rest).takeWhile isNumeral = str k := by
    intro k rest hRest
    rw [List.takeWhile_append_of_pos fun _ hMem =>
      isNumeral_of_mem_str hMem]
    cases rest with
    | nil => rw [List.takeWhile_nil, List.append_nil]
    | cons c rest =>
        rw [List.takeWhile_cons_of_neg
          (by rw [hRest c rest rfl]; exact Bool.false_ne_true),
          List.append_nil]
  have hStr : str n = str m := by
    rw [← hTake n first hFirst, hEq, hTake m second hSecond]
  rw [hStr] at hEq
  exact ⟨str_inj hStr, List.append_cancel_left hEq⟩

------------------------------------------------------------
-- Keys Of Points
------------------------------------------------------------

/- The branch that a segment shows: zero is none. -/
def plainBranch (branchNo : Option Int) : Option Int :=
  branchNo.filter fun branch => decide (branch ≠ 0)

/- What a segment shows of a branch. -/
def branchText : Option Int → Text
| none => []
| some branch => '의' :: str branch

/- What a key shows of a window. -/
def windowText (seq : Nat) : Text :=
  if seq = 0 then [] else '#' :: 'p' :: str seq

/- The key of a window of the article with a number. -/
def keyText
    (lawId effDate : Text)
    (number : Int × Option Int)
    (seq : Nat) :
    Text :=
  (expressionIri lawId effDate ++ ['/', '제']) ++
    (str number.1 ++
      '조' :: (branchText number.2 ++ windowText seq))

/- The parts of the key of a point. -/
theorem pointKey_eq
    (lawId effDate : Text)
    (articleNo : Int)
    (branchNo : Option Int)
    (seq : Nat) :
    pointKey (articleIri lawId effDate articleNo branchNo)
        seq =
      keyText lawId effDate (articleNo, plainBranch branchNo)
        seq := by
  have hSegment :
      articleSegment articleNo branchNo =
        '제' :: (str articleNo ++
          '조' :: branchText (plainBranch branchNo)) := by
    unfold articleSegment
    cases branchNo with
    | none => rfl
    | some branch =>
        by_cases hZero : branch = 0
        · subst hZero
          rfl
        · have hPlain :
              plainBranch (some branch) = some branch := by
            simp [plainBranch, hZero]
          rw [hPlain]
          simp [hZero, branchText]
  unfold pointKey articleIri keyText windowText
  rw [hSegment]
  by_cases hSeq : seq = 0
  · rw [if_pos hSeq, if_pos hSeq]
    simp
  · rw [if_neg hSeq, if_neg hSeq]
    simp

/- The text of a window is no part of a numeral. -/
theorem endsNumeral_windowText (seq : Nat) :
    EndsNumeral (windowText seq) := by
  intro c rest hEq
  unfold windowText at hEq
  split at hEq
  · cases hEq
  · rw [← (List.cons.inj hEq).1]
    decide

/- A window is known from its text. -/
theorem windowText_inj
    {seq other : Nat}
    (hEq : windowText seq = windowText other) :
    seq = other := by
  unfold windowText at hEq
  by_cases hSeq : seq = 0
  · by_cases hOther : other = 0
    · rw [hSeq, hOther]
    · rw [if_pos hSeq, if_neg hOther] at hEq
      cases hEq
  · by_cases hOther : other = 0
    · rw [if_neg hSeq, if_pos hOther] at hEq
      cases hEq
    · rw [if_neg hSeq, if_neg hOther] at hEq
      have hStr := (List.cons.inj (List.cons.inj hEq).2).2
      exact Int.ofNat.inj (str_inj hStr)

/- A branch and a window are known from their texts. -/
theorem branchText_append_inj
    {branch other : Option Int}
    {seq otherSeq : Nat}
    (hEq :
      branchText branch ++ windowText seq =
        branchText other ++ windowText otherSeq) :
    branch = other ∧ seq = otherSeq := by
  have hApart : ∀ (number : Int) (seq otherSeq : Nat),
      windowText seq ≠
        branchText (some number) ++ windowText otherSeq := by
    intro number seq otherSeq hEq
    unfold windowText at hEq
    split at hEq
    · cases hEq
    · exact absurd (List.cons.inj hEq).1 (by decide)
  cases branch with
  | none =>
      cases other with
      | none => exact ⟨rfl, windowText_inj hEq⟩
      | some number => exact absurd hEq (hApart _ _ _)
  | some number =>
      cases other with
      | none => exact absurd hEq.symm (hApart _ _ _)
      | some otherNumber =>
          rcases
              str_append_inj (endsNumeral_windowText seq)
                (endsNumeral_windowText otherSeq)
                (List.cons.inj hEq).2 with
            ⟨rfl, hWindow⟩
          exact ⟨rfl, windowText_inj hWindow⟩

/-
  Windows of a version of a law with one key show the same
  article, the same branch and the same window.
-/
theorem keyText_inj
    {lawId effDate : Text}
    {number other : Int × Option Int}
    {seq otherSeq : Nat}
    (hEq :
      keyText lawId effDate number seq =
        keyText lawId effDate other otherSeq) :
    number = other ∧ seq = otherSeq := by
  have hEnds : ∀ rest, EndsNumeral ('조' :: rest) := by
    intro rest c more hEq
    rw [← (List.cons.inj hEq).1]
    decide
  rcases
      str_append_inj (hEnds _) (hEnds _)
        (List.append_cancel_left hEq) with
    ⟨hNo, hRest⟩
  rcases branchText_append_inj (List.cons.inj hRest).2 with
    ⟨hBranch, hSeq⟩
  exact ⟨Prod.ext hNo hBranch, hSeq⟩

------------------------------------------------------------
-- Ids Of Chunks
------------------------------------------------------------

/-
  Numbered blocks of a list have distinct entries exactly when
  the names of the blocks that are not empty are distinct.
-/
theorem nodup_blocks_iff
    {α β γ : Type}
    {name : α → β}
    {entry : β → Nat → γ}
    (hEntry : ∀ {b b' : β} {i j : Nat},
      entry b i = entry b' j → b = b' ∧ i = j)
    (size : α → Nat)
    (items : List α) :
    (items.flatMap fun item =>
        (List.range (size item)).map
          (entry (name item))).Nodup ↔
      ((items.filter fun item =>
        decide (size item ≠ 0)).map name).Nodup := by
  induction items with
  | nil => simp
  | cons item items ih =>
      rw [List.flatMap_cons, List.nodup_append, ih]
      have hBlock :
          ((List.range (size item)).map
            (entry (name item))).Nodup :=
        List.nodup_range.map fun i j hEq => (hEntry hEq).2
      by_cases hSize : size item = 0
      · rw [List.filter_cons_of_neg (by simp [hSize]), hSize]
        simp
      · rw [List.filter_cons_of_pos (by simp [hSize]),
          List.map_cons, List.nodup_cons]
        constructor
        · rintro ⟨-, hRest, hApart⟩
          refine ⟨?_, hRest⟩
          intro hMem
          rcases List.mem_map.mp hMem with
            ⟨other, hOther, hName⟩
          rcases List.mem_filter.mp hOther with
            ⟨hItem, hOtherSize⟩
          have hFirst :
              entry (name item) 0 ∈
                (List.range (size item)).map
                  (entry (name item)) :=
            List.mem_map_of_mem
              (List.mem_range.mpr (Nat.pos_of_ne_zero hSize))
          have hSecond :
              entry (name other) 0 ∈
                (List.range (size other)).map
                  (entry (name other)) :=
            List.mem_map_of_mem
              (List.mem_range.mpr
                (Nat.pos_of_ne_zero
                  (of_decide_eq_true hOtherSize)))
          exact
            hApart _ hFirst _
              (List.mem_flatMap.mpr ⟨other, hItem, hSecond⟩)
              (by rw [hName])
        · rintro ⟨hNew, hRest⟩
          refine ⟨hBlock, hRest, ?_⟩
          intro first hFirst second hSecond hEq
          rcases List.mem_map.mp hFirst with ⟨i, -, rfl⟩
          rcases List.mem_flatMap.mp hSecond with
            ⟨other, hOther, hBlockMem⟩
          rcases List.mem_map.mp hBlockMem with ⟨j, hj, rfl⟩
          have hSizeOther : size other ≠ 0 := by
            intro hZero
            rw [hZero] at hj
            cases List.mem_range.mp hj
          apply hNew
          rw [(hEntry hEq).1]
          exact List.mem_map_of_mem
            (List.mem_filter.mpr
              ⟨hOther, decide_eq_true hSizeOther⟩)

/- The first window of a text that is not empty. -/
theorem splitWindows_eq_nil_iff
    {text : Text}
    {size shared : Nat} :
    splitWindows text size shared = [] ↔ text.strip = [] := by
  unfold splitWindows
  by_cases hLength : text.strip.length ≤ size
  · rw [if_pos hLength]
    cases text.strip with
    | nil => simp
    | cons c rest => simp
  · rw [if_neg hLength]
    have hText : text.strip ≠ [] := by
      intro hEmpty
      rw [hEmpty] at hLength
      exact hLength (Nat.zero_le size)
    refine iff_of_false ?_ hText
    rcases
        Nat.exists_eq_succ_of_ne_zero
          (Nat.ne_of_gt (List.length_pos_iff.mpr hText)) with
      ⟨n, hn⟩
    rw [hn, windowsFrom, if_pos (by omega)]
    exact List.cons_ne_nil _ _

/- The number of the windows of an article. -/
def windowCount (article : ArticleRec) : Nat :=
  (splitWindows article.text maxChars overlapChars).length

/- The number of an article and of its branch, as shown. -/
def ArticleRec.number
    (article : ArticleRec) :
    Int × Option Int :=
  (article.articleNo, plainBranch article.branchNo)

/- The ids of the points of a law, article by article. -/
theorem ids_buildChunks
    (uuid5 : Text → Text)
    (law : LawMeta)
    (articles : List ArticleRec) :
    (buildChunks law articles).map
        (fun chunk => pointId uuid5 chunk.uri chunk.seq) =
      articles.flatMap fun article =>
        (List.range (windowCount article)).map fun seq =>
          uuid5
            (keyText law.lawId law.effDate article.number
              seq) := by
  rw [buildChunks, List.map_flatMap]
  congr 1
  funext article
  have hWindows :
      article.chunks law =
        (splitWindows article.text maxChars
          overlapChars).zipIdx.map fun window =>
            article.chunk law window.2 window.1 := by
    unfold ArticleRec.chunks
    split
    · rename_i hEmpty
      rw [splitWindows_eq_nil_iff.mpr
        (List.isEmpty_iff.mp hEmpty)]
      rfl
    · rfl
  have hIndices :
      ((splitWindows article.text maxChars
          overlapChars).zipIdx).map Prod.snd =
        List.range (windowCount article) := by
    rw [List.zipIdx_map_snd, windowCount, List.range_eq_range']
  rw [hWindows, List.map_map, ← hIndices, List.map_map]
  apply List.map_congr_left
  intro window _
  simp only [Function.comp_apply, ArticleRec.chunk, pointId,
    pointKey_eq, ArticleRec.number]

/-
  The chunks of a law have distinct points exactly when the
  articles with text have distinct numbers.
-/
theorem nodup_ids_iff
    {uuid5 : Text → Text}
    (hUuid : Function.Injective uuid5)
    (law : LawMeta)
    (articles : List ArticleRec) :
    ((buildChunks law articles).map fun chunk =>
        pointId uuid5 chunk.uri chunk.seq).Nodup ↔
      ((articles.filter fun article =>
        decide (windowCount article ≠ 0)).map
          ArticleRec.number).Nodup := by
  rw [ids_buildChunks]
  exact
    @nodup_blocks_iff _ _ _ ArticleRec.number
      (fun number seq =>
        uuid5 (keyText law.lawId law.effDate number seq))
      (fun hEq => keyText_inj (hUuid hEq)) windowCount articles

------------------------------------------------------------
-- Payloads
------------------------------------------------------------

section Payloads

variable (repr : Json → Text)

/-
  The number that a unit of a payload shows: of an article
  with text, with its branch unless that is zero.
-/
def numbered? (unit : Json) : Option (Int × Option Int) :=
  if isArticle unit ∧ (flattenArticle unit).strip ≠ [] then
    (articleNo? repr unit).bind fun articleNo =>
      (branch? repr unit).map fun branchNo =>
        (articleNo, plainBranch branchNo)
  else
    none

/- The numbers of the articles with text of a payload. -/
def shownNumbers (payload : Json) : List (Int × Option Int) :=
  (lawUnits payload).filterMap (numbered? repr)

/-
  The chunks of a law are stored whole: their points are
  distinct, and after an upsert each point is that of its
  chunk.
-/
structure StoresWindows
    (uuid5 : Text → Text)
    (chunks : List Chunk) : Prop where
  distinct :
    (chunks.map fun chunk =>
      pointId uuid5 chunk.uri chunk.seq).Nodup
  stored : ∀ (Vector : Type) (vectors : List Vector)
      (before after : Collection),
    before.upsert uuid5 chunks vectors = .ok after →
      ∀ chunk ∈ chunks,
        after (pointId uuid5 chunk.uri chunk.seq) =
          some chunk.payload

/- Distinct points are all stored. -/
theorem storesWindows_iff
    {uuid5 : Text → Text}
    {chunks : List Chunk} :
    StoresWindows uuid5 chunks ↔
      (chunks.map fun chunk =>
        pointId uuid5 chunk.uri chunk.seq).Nodup := by
  constructor
  · exact StoresWindows.distinct
  · intro hNodup
    refine ⟨hNodup, ?_⟩
    intro Vector vectors before after hUpsert chunk hMem
    unfold Collection.upsert at hUpsert
    split at hUpsert
    · cases hUpsert
    · rename_i hLength
      rw [Decidable.not_not] at hLength
      cases hUpsert
      rw [List.map_fst_zip (Nat.le_of_eq hLength), putAll_apply]
      rcases
          Option.ne_none_iff_exists'.mp
            (@putAll_ne_none uuid5 chunks chunk hMem) with
        ⟨payload, hPoint⟩
      rcases of_putAll hPoint with ⟨other, hOther, hId, rfl⟩
      have hSame : other = chunk :=
        List.inj_on_of_nodup_map hNodup hOther hMem hId
      rw [hPoint, hSame]
      rfl

/- An article has windows exactly when it has text. -/
theorem windowCount_ne_zero_iff
    {article : ArticleRec} :
    windowCount article ≠ 0 ↔ article.text.strip ≠ [] := by
  rw [windowCount, Ne, List.length_eq_zero_iff,
    splitWindows_eq_nil_iff]

/- The number that the record of a unit shows. -/
theorem number_articleOf?
    (unit : Json) :
    ((articleOf? repr unit).join.filter fun article =>
        decide (windowCount article ≠ 0)).map
          ArticleRec.number =
      numbered? repr unit := by
  cases unit with
  | obj fields =>
      unfold articleOf? numbered?
      by_cases hArticle : isArticle (.obj fields) = true
      · rw [if_pos hArticle]
        simp only [hArticle, true_and]
        cases articleNo? repr (.obj fields) with
        | none => simp
        | some articleNo =>
            cases branch? repr (.obj fields) with
            | none => simp
            | some branchNo =>
                by_cases hText :
                    (flattenArticle (.obj fields)).strip ≠ []
                · simp [hText, windowCount_ne_zero_iff,
                    Option.filter_some, ArticleRec.number]
                · simp [hText, windowCount_ne_zero_iff,
                    Option.filter_some]
      · rw [if_neg hArticle]
        simp [hArticle]
  | null => rfl
  | bool value => rfl
  | num text => rfl
  | str text => rfl
  | arr items => rfl

/-
  Ingestion stores every window of every article exactly when
  the articles with text show distinct numbers: the keys of
  the articles have no part in the points.
-/
theorem stores_windows_iff
    {uuid5 : Text → Text}
    (hUuid : Function.Injective uuid5)
    {payload : Json}
    {law : LawMeta}
    {articles : List ArticleRec}
    (hParse :
      parseLawService repr payload = some (law, articles)) :
    StoresWindows uuid5 (buildChunks law articles) ↔
      (shownNumbers repr payload).Nodup := by
  have hNumbers :
      ((articles.filter fun article =>
        decide (windowCount article ≠ 0)).map
          ArticleRec.number) =
        shownNumbers repr payload := by
    rw [articles_of_parseLawService repr hParse,
      List.filter_filterMap, List.map_filterMap, shownNumbers]
    simp only [number_articleOf?]
  rw [storesWindows_iff, nodup_ids_iff hUuid, hNumbers]

end Payloads

------------------------------------------------------------
-- Two Units With One Number
------------------------------------------------------------

/- A unit with a key, a number and the text of its branch. -/
def articleUnit (key branch : Text) : Json :=
  .obj
    [("조문여부".toList, .str "조문".toList),
      ("조문번호".toList, .str "4".toList),
      ("조문가지번호".toList, .str branch),
      ("조문키".toList, .str key),
      ("조문내용".toList, .str "내용".toList)]

/- A payload with units. -/
def lawPayload (units : List Json) : Json :=
  .obj
    [("법령".toList,
      .obj
        [("기본정보".toList,
          .obj
            [("법령ID".toList, .str "1".toList),
              ("법령명_한글".toList, .str "법".toList),
              ("시행일자".toList, .str "20260101".toList)]),
          ("조문".toList,
            .obj [("조문단위".toList, .arr units)])])]

/- Article 4, and article 4 with a branch of zero. -/
def zeroBranchPayload : Json :=
  lawPayload
    [articleUnit "0004001".toList [],
      articleUnit "0004002".toList "00".toList]

/- Article 4 and its second branch. -/
def branchPayload : Json :=
  lawPayload
    [articleUnit "0004001".toList [],
      articleUnit "0004021".toList "2".toList]

/- Two articles with different keys share a point. -/
theorem articles_share_point :
    ¬ ∀ (uuid5 : Text → Text) (repr : Json → Text)
        (payload : Json) (law : LawMeta)
        (articles : List ArticleRec),
      Function.Injective uuid5 →
        parseLawService repr payload = some (law, articles) →
          (articles.map ArticleRec.articleKey).Nodup →
            ((buildChunks law articles).map fun chunk =>
              pointId uuid5 chunk.uri chunk.seq).Nodup := by
  intro hAll
  have hNodup :=
    hAll id (fun _ => []) zeroBranchPayload _ _
      Function.injective_id rfl (by decide)
  rw [nodup_ids_iff Function.injective_id] at hNodup
  revert hNodup
  decide

/- An article and its branch are both stored. -/
theorem stores_windows_branch :
    ∃ law articles,
      parseLawService (fun _ => []) branchPayload =
          some (law, articles) ∧
        StoresWindows id (buildChunks law articles) :=
  ⟨_, _, rfl,
    (@stores_windows_iff (fun _ => []) id
      Function.injective_id branchPayload _ _ rfl).mpr
      (by decide)⟩

end Law

end LegalAgent
