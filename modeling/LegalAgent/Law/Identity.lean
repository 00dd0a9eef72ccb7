import LegalAgent.Law.Points
import LegalAgent.Law.Retrieval
import LegalAgent.Library.Tokens

/-
  The identity of the windows of articles.

  The key of a point is put together from the id of the law,
  the date, the number of the article, that of its branch and
  the window.  Keys are equal exactly when these agree, up to
  the dashes of the date and the ways to write no branch.

  Key definitions include:
    * `IntOrStr`
    * `segmentOf`
    * `WindowName`

  Key theorems include:
    * `segmentOf_eq`
    * `window_keys_canonical`
-/

------------------------------------------------------------
-- Segments
------------------------------------------------------------

namespace LegalAgent

namespace Law

open Library

/- A number as a caller may pass it. -/
inductive IntOrStr where
  | int (number : Int)
  | str (text : Text)
deriving DecidableEq

/- What an f-string shows of a number. -/
def IntOrStr.shown : IntOrStr → Text
| .int number => Law.str number
| .str text => text

/- `branch_no in (None, "", 0, "0")`. -/
def unbranched : Option IntOrStr → Bool
| none => true
| some (.int number) => number == 0
| some (.str text) => text == [] || text == ['0']

/- `article_segment`, for all arguments that it takes. -/
def segmentOf
    (articleNo : IntOrStr)
    (branchNo : Option IntOrStr) :
    Text :=
  let segment := ['제'] ++ articleNo.shown ++ ['조']
  if unbranched branchNo then segment
  else
    segment ++ ['의'] ++ (branchNo.map IntOrStr.shown).getD []

/- `article_iri`, for all arguments that it takes. -/
def articleIriOf
    (lawId effDate : Text)
    (articleNo : IntOrStr)
    (branchNo : Option IntOrStr) :
    Text :=
  expressionIri lawId effDate ++ ['/'] ++
    segmentOf articleNo branchNo

/- The ingestion passes numbers. -/
theorem segmentOf_int
    (articleNo : Int)
    (branchNo : Option Int) :
    segmentOf (.int articleNo) (branchNo.map .int) =
      articleSegment articleNo branchNo := by
  unfold segmentOf articleSegment
  cases branchNo with
  | none => rfl
  | some branch =>
      by_cases hZero : branch = 0
      · simp [unbranched, hZero, IntOrStr.shown]
      · simp [unbranched, hZero, IntOrStr.shown]

/- A branch is a number, or it is written as none. -/
def IsNumber : Option IntOrStr → Prop
| some (.str text) => text = [] ∨ text = ['0']
| _ => True

/- The number of a branch; nothing, empty and zero are none. -/
def branchNumber : Option IntOrStr → Option Int
| some (.int number) => if number = 0 then none else some number
| _ => none

/- All ways to write a number of a branch make one segment. -/
theorem segmentOf_eq
    (articleNo : Int)
    {branchNo : Option IntOrStr}
    (hNumber : IsNumber branchNo) :
    segmentOf (.int articleNo) branchNo =
      articleSegment articleNo (branchNumber branchNo) := by
  match branchNo with
  | none => rfl
  | some (.int number) =>
      rw [← segmentOf_int]
      by_cases hZero : number = 0
      · simp [branchNumber, segmentOf, unbranched, hZero]
      · simp [branchNumber, hZero]
  | some (.str text) =>
      rw [← segmentOf_int]
      rcases hNumber with rfl | rfl <;> rfl

------------------------------------------------------------
-- Names Of Windows
------------------------------------------------------------

/-
  What names a window of an article: the id of the law and the
  date have no slash and no hash.
-/
structure WindowName where
  lawId : Text
  effDate : Text
  articleNo : Int
  branchNo : Option IntOrStr
  seq : Nat
  law_plain : '/' ∉ lawId ∧ '#' ∉ lawId
  date_plain : '/' ∉ effDate ∧ '#' ∉ effDate
  number : IsNumber branchNo

namespace WindowName

/- The IRI of the article of a window. -/
def article (name : WindowName) : Text :=
  articleIriOf name.lawId name.effDate (.int name.articleNo)
    name.branchNo

/- The text that is hashed to the id of a point. -/
def key (name : WindowName) : Text :=
  pointKey name.article name.seq

/-
  Names of one window: they agree without the dashes of the
  dates, and with one way to write no branch.
-/
def Same (name other : WindowName) : Prop :=
  name.lawId = other.lawId ∧
    name.effDate.filter (· != '-') =
        other.effDate.filter (· != '-') ∧
      name.articleNo = other.articleNo ∧
        branchNumber name.branchNo =
            branchNumber other.branchNo ∧
          name.seq = other.seq

/- The number of a branch is never zero. -/
theorem plainBranch_branchNumber
    (branchNo : Option IntOrStr) :
    plainBranch (branchNumber branchNo) =
      branchNumber branchNo := by
  match branchNo with
  | none => rfl
  | some (.str text) => rfl
  | some (.int number) =>
      by_cases hZero : number = 0
      · simp [branchNumber, hZero, plainBranch]
      · simp [branchNumber, hZero, plainBranch]

/- The key shows the parts of the name. -/
theorem key_eq (name : WindowName) :
    name.key =
      keyText name.lawId name.effDate
        (name.articleNo, branchNumber name.branchNo)
        name.seq := by
  have hArticle :
      name.article =
        articleIri name.lawId name.effDate name.articleNo
          (branchNumber name.branchNo) := by
    rw [article, articleIriOf, segmentOf_eq _ name.number,
      articleIri]
  rw [key, hArticle, pointKey_eq, plainBranch_branchNumber]

/- A date without slashes has none without its dashes. -/
theorem slash_not_mem_date (name : WindowName) :
    '/' ∉ name.effDate.filter (· != '-') := by
  intro hMem
  exact name.date_plain.1 (List.mem_filter.mp hMem).1

/- Keys are equal exactly for names of one window. -/
theorem key_eq_iff (name other : WindowName) :
    name.key = other.key ↔ name.Same other := by
  rw [key_eq, key_eq]
  constructor
  · intro hKey
    have hIds :
        name.lawId = other.lawId ∧
          name.effDate.filter (· != '-') =
            other.effDate.filter (· != '-') := by
      simp only [keyText, expressionIri, resourceIri,
        List.append_assoc, List.cons_append,
        List.nil_append] at hKey
      have hRest :=
        List.append_cancel_left
          (List.append_cancel_left hKey)
      rcases append_mark_inj name.law_plain.1
          other.law_plain.1 hRest with
        ⟨hLaw, hDates⟩
      rcases append_mark_inj name.slash_not_mem_date
          other.slash_not_mem_date hDates with
        ⟨hDate, -⟩
      exact ⟨hLaw, hDate⟩
    have hFront :
        expressionIri name.lawId name.effDate =
          expressionIri other.lawId other.effDate := by
      rw [expressionIri, expressionIri, hIds.1, hIds.2]
    have hSame :
        keyText other.lawId other.effDate
            (name.articleNo, branchNumber name.branchNo)
            name.seq =
          keyText other.lawId other.effDate
            (other.articleNo, branchNumber other.branchNo)
            other.seq := by
      rw [← hKey, keyText, keyText, hFront]
    rcases keyText_inj hSame with ⟨hNumber, hSeq⟩
    rcases Prod.mk.inj hNumber with ⟨hNo, hBranch⟩
    exact ⟨hIds.1, hIds.2, hNo, hBranch, hSeq⟩
  · rintro ⟨hLaw, hDate, hNo, hBranch, hSeq⟩
    rw [keyText, keyText, expressionIri, expressionIri, hLaw,
      hDate, hNo, hBranch, hSeq]

end WindowName

open Retrieval in
/-
  Keys of windows are equal exactly for names of one window,
  the first window has the IRI of its article as its key, and
  a citation of an article has the id of its first window.
-/
theorem window_keys_canonical
    {S : Type}
    (name other : WindowName)
    (uuid5 : Text → Text)
    (hit : Hit S) :
    (name.key = other.key ↔ name.Same other) ∧
      pointKey name.article 0 = name.article ∧
        pointId uuid5 name.article 0 = uuid5 name.article ∧
          (toLawref uuid5 hit).id = uuid5 hit.payload.uri :=
  ⟨name.key_eq_iff other, rfl, rfl, rfl⟩

/- A dashed date and a branch zero name the same window. -/
example :
    pointKey
        (articleIriOf "001823".toList "2024-01-01".toList
          (.int 3) (some (.int 0)))
        2 =
      pointKey
        (articleIriOf "001823".toList "20240101".toList
          (.int 3) none)
        2 := by
  decide +kernel

end Law

end LegalAgent
