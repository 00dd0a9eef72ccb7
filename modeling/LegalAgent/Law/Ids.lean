import LegalAgent.Text.Marker

/-
  The identifiers of `legal_core/ids.py`.

  A law, its versions and their articles have IRIs that are
  made of the id of the law, the effective date and the number
  of the article.  A point of the vector index is named by the
  UUIDv5 of the IRI of its article and its window; the hash is
  a parameter.

  Key definitions include:
    * `articleIri`
    * `pointKey`
    * `pointId`
-/

------------------------------------------------------------
-- IRIs
------------------------------------------------------------

namespace LegalAgent

namespace Law

/- `BASE`. -/
def base : Text := "https://2026agent.kr/law".toList

/- The decimal digits of a number, as `str` prints it. -/
def str (number : Int) : Text := (toString number).toList

/- The identity of a law, whatever its date. -/
def resourceIri (lawId : Text) : Text :=
  base ++ "/법령/".toList ++ lawId

/- One version of a law; dashes in the date are dropped. -/
def expressionIri (lawId effDate : Text) : Text :=
  resourceIri lawId ++ ['/'] ++ effDate.filter (· != '-')

/- The number of an article with the number of its branch. -/
def articleSegment
    (articleNo : Int)
    (branchNo : Option Int) :
    Text :=
  let segment := ['제'] ++ str articleNo ++ ['조']
  match branchNo with
  | none => segment
  | some branch =>
      if branch = 0 then segment
      else segment ++ ['의'] ++ str branch

/- An article of a version of a law. -/
def articleIri
    (lawId effDate : Text)
    (articleNo : Int)
    (branchNo : Option Int) :
    Text :=
  expressionIri lawId effDate ++ ['/'] ++
    articleSegment articleNo branchNo

/- The text whose hash names a point. -/
def pointKey (articleIri : Text) (seq : Nat) : Text :=
  if seq = 0 then articleIri
  else articleIri ++ "#p".toList ++ str seq

/- The id of a point. -/
def pointId
    (uuid5 : Text → Text)
    (articleIri : Text)
    (seq : Nat) :
    Text :=
  uuid5 (pointKey articleIri seq)

end Law

end LegalAgent
