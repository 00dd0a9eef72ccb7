import LegalAgent.Law.Points
import LegalAgent.Library.Generator
import LegalAgent.Library.Tokens
import LegalAgent.Text.Compose
import LegalAgent.Text.Errors

/-
  The queries of the graph (`graph_fuseki.py`).

  An expansion puts the IRIs of its arguments in the text of a
  query.  Each argument is checked on the way, and whatever
  passes stays in the token that it is written in, so the rest
  of the query is known from the lengths of the lists.

  Key definitions include:
    * `validateIri`
    * `curieToIri`
    * `FusekiGraph.expand`
    * `skeleton`
    * `Safe`

  Key theorems include:
    * `scan_joined`
    * `scan_queryText`
    * `expand_safe`
-/

------------------------------------------------------------
-- IRIs
------------------------------------------------------------

namespace LegalAgent

namespace Law

namespace Fuseki

open Library

/- A character of `_ILLEGAL_IRI`. -/
def isIllegal (c : Char) : Bool :=
  Text.isSpace c || c ∈ "<>\"\x7b\x7d|\\^`".toList

/- `_ALLOWED_IRI_PREFIXES`. -/
def allowedNamespaces : List Text :=
  ["https://2026agent.kr/".toList,
    "http://www.aihub.or.kr/kb/law/".toList,
    "http://www.law.go.kr/".toList]

/- `_PREFIX`. -/
def curieNamespaces : List (Text × Text) :=
  [("lo".toList, "https://2026agent.kr/ontology#".toList),
    ("eli".toList,
      "http://data.europa.eu/eli/ontology#".toList),
    ("law".toList, "http://www.aihub.or.kr/kb/law/".toList),
    ("dct".toList, "http://purl.org/dc/terms/".toList)]

/- Whether a text starts with one of some texts. -/
def startsWithAny (starts : List Text) (text : Text) : Bool :=
  starts.any fun start => start.isPrefixOf text

/- `_validate_iri`. -/
def validateIri (iri : Text) : Except Raised Text :=
  if !startsWithAny ["http://".toList, "https://".toList] iri
  then
    .error (.about .valueError "절대 IRI 아님: ".toList iri)
  else if iri.any isIllegal then
    .error
      (.about .valueError
        "IRI에 허용되지 않은 문자: ".toList iri)
  else if !startsWithAny allowedNamespaces iri then
    .error
      (.about .valueError
        "허용되지 않은 네임스페이스: ".toList iri)
  else
    .ok iri

/- `_curie_to_iri`. -/
def curieToIri (curie : Text) : Except Raised Text :=
  let unknown :=
    .error
      (.about .valueError "알 수 없는 술어 CURIE: ".toList curie)
  if curie.contains ':' && !"http".toList.isPrefixOf curie then
    match
      curieNamespaces.lookup (curie.takeWhile (· != ':'))
    with
    | some full =>
        let iri := full ++ (curie.dropWhile (· != ':')).drop 1
        if iri.any isIllegal then
          .error
            (.about .valueError
              "술어 IRI 문자 위반: ".toList curie)
        else
          .ok iri
    | none => unknown
  else
    unknown

------------------------------------------------------------
-- Queries
------------------------------------------------------------

/- A row of an answer. -/
abbrev Row : Type :=
  List (Text × Text)

/- A triple of the graph. -/
abbrev Triple : Type :=
  Text × Text × Text

/- A program that sends queries and gets rows. -/
abbrev Program (α : Type) : Type :=
  Gen Text (fun _ => List Row) Raised Empty α

/- A group of a query. -/
def group (text : Text) : Text :=
  ['{', ' '] ++ text ++ [' ', '}']

/- The edges that go out of the nodes. -/
def outgoing : Text :=
  group
    (group
        (group "?n ?p ?o".toList ++ " UNION ".toList ++
          group ("GRAPH ?g1 ".toList ++
            group "?n ?p ?o".toList)) ++
      " BIND(?n AS ?s)".toList)

/- The edges that come into the nodes. -/
def incoming : Text :=
  group
    (group
        (group "?s ?p ?n".toList ++ " UNION ".toList ++
          group ("GRAPH ?g2 ".toList ++
            group "?s ?p ?n".toList)) ++
      " BIND(?n AS ?o)".toList)

/- The query for some predicates and nodes. -/
def queryText
    (valuesP valuesN : Text)
    (limit : Int) :
    Text :=
  "SELECT ?s ?p ?o WHERE ".toList ++
    group
      ("VALUES ?p ".toList ++ group valuesP ++
        " VALUES ?n ".toList ++ group valuesN ++ [' '] ++
        outgoing ++ " UNION ".toList ++ incoming) ++
    " LIMIT ".toList ++ str limit

/- The terms of some texts, each converted and written. -/
def terms
    (n3 convert : Text → Except Raised Text) :
    List Text → Except Raised (List Text)
| [] => .ok []
| text :: texts => do
    let iri ← convert text
    let term ← n3 iri
    let rest ← terms n3 convert texts
    pure (term :: rest)

/- The text of the query, unless an argument is refused. -/
def prepare
    (n3 : Text → Except Raised Text)
    (uris predicates : List Text)
    (limit : Int) :
    Except Raised Text := do
  let valuesN ← terms n3 validateIri uris
  let valuesP ← terms n3 curieToIri predicates
  pure
    (queryText (joinWith [' '] valuesP)
      (joinWith [' '] valuesN) limit)

/- A field of a row; one that is missing is a `KeyError`. -/
def Row.field (row : Row) (name : Text) : Except Raised Text :=
  match row.lookup name with
  | some value => .ok value
  | none => .error (.about .keyError [] name)

/- The triple of a row. -/
def Row.triple (row : Row) : Except Raised Triple := do
  let subject ← row.field ['s']
  let predicate ← row.field ['p']
  let object ← row.field ['o']
  pure (subject, predicate, object)

/-
  `FusekiGraph.expand`.  The writing of terms is that of the
  RDF library, so it is a parameter.
-/
def FusekiGraph.expand
    (n3 : Text → Except Raised Text)
    (uris predicates : List Text)
    (_depth limit : Int) :
    Program (List Triple) :=
  if uris.isEmpty || predicates.isEmpty then
    pure []
  else
    match prepare n3 uris predicates limit with
    | .error raised => Gen.raise raised
    | .ok query => do
        let rows ← Gen.perform query
        let triples ← Gen.ret (rows.mapM Row.triple)
        pure triples.eraseDups

------------------------------------------------------------
-- Safe Expansions
------------------------------------------------------------

/- No character of a text closes or escapes its token. -/
def Enclosed (iri : Text) : Prop :=
  ∀ c ∈ iri, isIllegal c = false

/- A node that is accepted. -/
def Accepted (uri : Text) : Prop :=
  Enclosed uri ∧
    ∃ name ∈ allowedNamespaces, name.IsPrefix uri

/- The predicate that a CURIE is expanded to. -/
def Expands (curie iri : Text) : Prop :=
  Enclosed iri ∧
    ∃ short full rest,
      (short, full) ∈ curieNamespaces ∧
        curie = short ++ ':' :: rest ∧ iri = full ++ rest

/- The blanks between tokens. -/
def gaps (count : Nat) : Text :=
  List.replicate (count - 1) ' '

/- The query around its tokens. -/
def skeleton
    (predicateCount uriCount : Nat)
    (limit : Int) :
    Text :=
  queryText (gaps predicateCount) (gaps uriCount) limit

/-
  What an expansion may do: it ends without a query, or it
  sends a single one, which is the skeleton with one token for
  each predicate and one for each node, in order.
-/
inductive Safe
    (uris predicates : List Text)
    (limit : Int) :
    Program (List Triple) → Prop
| empty
    (hEmpty : uris = [] ∨ predicates = []) :
    Safe uris predicates limit (.ret (.ok []))
| refused
    (hUris : uris ≠ [])
    (hPredicates : predicates ≠ [])
    {raised : Raised}
    (hClass : raised.cls = .valueError) :
    Safe uris predicates limit (.ret (.error raised))
| sent
    (hUris : uris ≠ [])
    (hPredicates : predicates ≠ [])
    {query : Text}
    {next :
      Except Raised (List Row) → Program (List Triple)}
    (hOnce : ∀ reply, ∃ result, next reply = .ret result)
    {iris : List Text}
    (hOutside :
      (scanTokens '<' '>' none query).outside =
        skeleton predicates.length uris.length limit)
    (hTokens :
      (scanTokens '<' '>' none query).tokens = iris ++ uris)
    (hIris : List.Forall₂ Expands predicates iris)
    (hAccepted : ∀ uri ∈ uris, Accepted uri) :
    Safe uris predicates limit (.call query next)

------------------------------------------------------------
-- Checked Arguments
------------------------------------------------------------

/-
  How the RDF library writes an IRI: between angle brackets,
  when none of the characters is in it that the library takes
  for invalid.
-/
def WritesIris (n3 : Text → Except Raised Text) : Prop :=
  ∀ iri : Text,
    (∀ c ∈ iri, c ∉ "<>\" \x7b\x7d|\\^`".toList) →
      n3 iri = .ok (token '<' '>' iri)

/- A text that passes the search is enclosed. -/
theorem enclosed_of_any
    {iri : Text}
    (hAny : iri.any isIllegal = false) :
    Enclosed iri := by
  intro c hMem
  rw [List.any_eq_false] at hAny
  exact Bool.eq_false_iff.mpr (hAny c hMem)

/- An enclosed text does not have the marks of a token. -/
theorem Enclosed.not_mem
    {iri : Text}
    {c : Char}
    (hIri : Enclosed iri)
    (hIllegal : isIllegal c = true) :
    c ∉ iri := by
  intro hMem
  rw [hIri c hMem] at hIllegal
  cases hIllegal

/- The library writes what is enclosed. -/
theorem WritesIris.enclosed
    {n3 : Text → Except Raised Text}
    {iri : Text}
    (hN3 : WritesIris n3)
    (hIri : Enclosed iri) :
    n3 iri = .ok (token '<' '>' iri) := by
  have hInvalid :
      "<>\" \x7b\x7d|\\^`".toList.all isIllegal = true := by
    decide
  apply hN3
  intro c hMem hIn
  exact hIri.not_mem (List.all_eq_true.mp hInvalid c hIn) hMem

/- What starts with one of some texts has it in front. -/
theorem of_startsWithAny
    {starts : List Text}
    {text : Text}
    (hStarts : startsWithAny starts text = true) :
    ∃ start ∈ starts, start.IsPrefix text := by
  rcases List.any_eq_true.mp hStarts with ⟨start, hMem, hIn⟩
  exact ⟨start, hMem, List.isPrefixOf_iff_prefix.mp hIn⟩

/- A node passes as it is, or it is refused. -/
theorem of_validateIri (uri : Text) :
    (validateIri uri = .ok uri ∧ Accepted uri) ∨
      ∃ raised,
        validateIri uri = .error raised ∧
          raised.cls = .valueError := by
  unfold validateIri
  split
  · exact Or.inr ⟨_, rfl, rfl⟩
  · split
    · exact Or.inr ⟨_, rfl, rfl⟩
    · rename_i hLegal
      split
      · exact Or.inr ⟨_, rfl, rfl⟩
      · rename_i hSpace
        rw [Bool.not_eq_true] at hLegal
        rw [Bool.not_eq_true, Bool.not_eq_false'] at hSpace
        exact
          Or.inl
            ⟨rfl, enclosed_of_any hLegal,
              of_startsWithAny hSpace⟩

/- A text with a mark is what is before and behind it. -/
theorem partition_eq
    {text : Text}
    (hColon : text.contains ':' = true) :
    text =
      text.takeWhile (· != ':') ++
        ':' :: (text.dropWhile (· != ':')).drop 1 := by
  induction text with
  | nil => cases hColon
  | cons c text ih =>
      by_cases hMark : c = ':'
      · subst hMark
        simp
      · have hRest : text.contains ':' = true := by
          rw [List.contains_cons, Bool.or_eq_true,
            beq_iff_eq] at hColon
          rcases hColon with hEq | hRest
          · exact absurd hEq.symm hMark
          · exact hRest
        have hKeep : (c != ':') = true := by
          rw [bne_iff_ne]
          exact hMark
        simp only [List.takeWhile_cons, List.dropWhile_cons,
          hKeep, if_true, List.cons_append]
        rw [← ih hRest]

/- A CURIE is expanded, or it is refused. -/
theorem of_curieToIri (curie : Text) :
    (∃ iri, curieToIri curie = .ok iri ∧ Expands curie iri) ∨
      ∃ raised,
        curieToIri curie = .error raised ∧
          raised.cls = .valueError := by
  unfold curieToIri
  dsimp only
  split
  · rename_i hCurie
    rw [Bool.and_eq_true] at hCurie
    split
    · rename_i full hLookup
      split
      · exact Or.inr ⟨_, rfl, rfl⟩
      · rename_i hLegal
        rw [Bool.not_eq_true] at hLegal
        rcases List.lookup_eq_some_iff.mp hLookup with
          ⟨front, back, hSplit, -⟩
        left
        refine
          ⟨_, rfl, enclosed_of_any hLegal,
            curie.takeWhile (· != ':'), full,
            (curie.dropWhile (· != ':')).drop 1, ?_,
            partition_eq hCurie.1, rfl⟩
        rw [hSplit]
        simp
    · exact Or.inr ⟨_, rfl, rfl⟩
  · exact Or.inr ⟨_, rfl, rfl⟩

/-
  Terms are the tokens of what the texts are converted to, or
  one of the texts is refused.
-/
theorem of_terms
    {n3 convert : Text → Except Raised Text}
    {accepts : Text → Text → Prop}
    (hN3 : WritesIris n3)
    (hConvert :
      ∀ text,
        (∃ iri,
            convert text = .ok iri ∧ Enclosed iri ∧
              accepts text iri) ∨
          ∃ raised,
            convert text = .error raised ∧
              raised.cls = .valueError)
    (texts : List Text) :
    (∃ iris,
        terms n3 convert texts =
            .ok (iris.map (token '<' '>')) ∧
          (∀ iri ∈ iris, Enclosed iri) ∧
            List.Forall₂ accepts texts iris) ∨
      ∃ raised,
        terms n3 convert texts = .error raised ∧
          raised.cls = .valueError := by
  induction texts with
  | nil => exact Or.inl ⟨[], rfl, nofun, List.Forall₂.nil⟩
  | cons text texts ih =>
      rw [terms]
      rcases hConvert text with
        ⟨iri, hOk, hIri, hAccepts⟩ | ⟨raised, hError, hClass⟩
      · rw [hOk, ok_bind, hN3.enclosed hIri, ok_bind]
        rcases ih with
          ⟨iris, hTerms, hIris, hAll⟩ | ⟨raised, hError, hClass⟩
        · left
          rw [hTerms]
          refine ⟨iri :: iris, rfl, ?_, hAll.cons hAccepts⟩
          intro other hMem
          rcases List.mem_cons.mp hMem with rfl | hMem
          · exact hIri
          · exact hIris other hMem
        · right
          rw [hError]
          exact ⟨raised, rfl, hClass⟩
      · right
        rw [hError]
        exact ⟨raised, rfl, hClass⟩

------------------------------------------------------------
-- Scanned Queries
------------------------------------------------------------

/- Tokens in a row are found, with the blanks between them. -/
theorem scan_joined
    {iris : List Text}
    (hIris : ∀ iri ∈ iris, Enclosed iri)
    (rest : Text) :
    scanTokens '<' '>' none
        (joinWith [' '] (iris.map (token '<' '>')) ++ rest) =
      ⟨gaps iris.length ++
          (scanTokens '<' '>' none rest).outside,
        iris ++ (scanTokens '<' '>' none rest).tokens⟩ := by
  induction iris with
  | nil => rfl
  | cons iri iris ih =>
      have hIri : '>' ∉ iri :=
        (hIris iri List.mem_cons_self).not_mem (by decide)
      have hBlank : '<' ∉ [' '] := by decide
      cases iris with
      | nil =>
          rw [List.map_singleton, joinWith, scan_token hIri]
          rfl
      | cons next iris =>
          have hMore :=
            ih fun other hMem =>
              hIris other (List.mem_cons_of_mem _ hMem)
          have hGaps :
              gaps (iri :: next :: iris).length =
                [' '] ++ gaps (next :: iris).length := by
            simp [gaps, List.replicate_succ]
          rw [List.map_cons] at hMore
          rw [List.map_cons, List.map_cons, joinWith,
            List.append_assoc, List.append_assoc,
            scan_token hIri, scan_plain hBlank, hMore, hGaps]
          · simp
          · intro hNil
            cases hNil

/- The query in front of the predicates. -/
def queryFront : Text :=
  "SELECT ?s ?p ?o WHERE ".toList ++ ['{', ' '] ++
    "VALUES ?p ".toList ++ ['{', ' ']

/- The query between the predicates and the nodes. -/
def queryMiddle : Text :=
  [' ', '}'] ++ " VALUES ?n ".toList ++ ['{', ' ']

/- The query behind the nodes. -/
def queryBack : Text :=
  [' ', '}'] ++ [' '] ++ outgoing ++ " UNION ".toList ++
    incoming ++ [' ', '}'] ++ " LIMIT ".toList

theorem queryText_eq
    (valuesP valuesN : Text)
    (limit : Int) :
    queryText valuesP valuesN limit =
      queryFront ++
        (valuesP ++
          (queryMiddle ++
            (valuesN ++ (queryBack ++ str limit)))) := by
  unfold queryText queryFront queryMiddle queryBack group
  -- what the texts say does not matter here
  generalize "SELECT ?s ?p ?o WHERE ".toList = select
  generalize "VALUES ?p ".toList = valuesOfP
  generalize " VALUES ?n ".toList = valuesOfN
  generalize " UNION ".toList = union
  generalize " LIMIT ".toList = limitOf
  simp only [List.append_assoc]

/- The query has the tokens, and the skeleton around them. -/
theorem scan_queryText
    {predicates uris : List Text}
    (hPredicates : ∀ iri ∈ predicates, Enclosed iri)
    (hUris : ∀ iri ∈ uris, Enclosed iri)
    (limit : Int) :
    scanTokens '<' '>' none
        (queryText
          (joinWith [' '] (predicates.map (token '<' '>')))
          (joinWith [' '] (uris.map (token '<' '>'))) limit) =
      ⟨skeleton predicates.length uris.length limit,
        predicates ++ uris⟩ := by
  have hLimit : '<' ∉ str limit := by
    intro hMem
    have hNumeral := isNumeral_of_mem_str hMem
    cases hNumeral
  have hFront : '<' ∉ queryFront := by decide +kernel
  have hMiddle : '<' ∉ queryMiddle := by decide +kernel
  have hBack : '<' ∉ queryBack ++ str limit := by
    rw [List.mem_append, not_or]
    exact ⟨by decide +kernel, hLimit⟩
  have hScan :
      scanTokens '<' '>' none (queryBack ++ str limit) =
        ⟨queryBack ++ str limit, []⟩ := by
    have hPlain := @scan_plain _ _ _ '>' _ hBack []
    rw [List.append_nil] at hPlain
    rw [hPlain, scanTokens, List.append_nil]
  rw [queryText_eq, scan_plain hFront, scan_joined hPredicates,
    scan_plain hMiddle, scan_joined hUris, hScan, skeleton,
    queryText_eq, List.append_nil]

------------------------------------------------------------
-- Expansions
------------------------------------------------------------

/- The rows of the answer are read without another query. -/
theorem once_reply (reply : Except Raised (List Row)) :
    ∃ result : Except Raised (List Triple),
      ((Gen.ret reply : Program (List Row)) >>= fun rows =>
          (Gen.ret (rows.mapM Row.triple) :
              Program (List Triple)) >>=
            fun triples => pure triples.eraseDups) =
        .ret result := by
  cases reply with
  | error raised => exact ⟨_, rfl⟩
  | ok rows =>
      change
        ∃ result,
          ((Gen.ret (rows.mapM Row.triple) :
                Program (List Triple)) >>=
              fun triples => pure triples.eraseDups) =
            .ret result
      cases rows.mapM Row.triple with
      | error raised => exact ⟨_, rfl⟩
      | ok triples => exact ⟨_, rfl⟩

/-
  Whatever its arguments are, an expansion ends before it
  sends anything, or it sends the skeleton for the lengths of
  the lists with one enclosed token for each argument.
-/
theorem expand_safe
    {n3 : Text → Except Raised Text}
    (hN3 : WritesIris n3)
    (uris predicates : List Text)
    (depth limit : Int) :
    Safe uris predicates limit
      (FusekiGraph.expand n3 uris predicates depth limit) := by
  unfold FusekiGraph.expand
  split
  · rename_i hEmpty
    rw [Bool.or_eq_true, List.isEmpty_iff, List.isEmpty_iff]
      at hEmpty
    exact Safe.empty hEmpty
  · rename_i hSome
    rw [Bool.or_eq_true, List.isEmpty_iff, List.isEmpty_iff,
      not_or] at hSome
    have hNodes :
        ∀ uri,
          (∃ iri,
              validateIri uri = .ok iri ∧ Enclosed iri ∧
                (Accepted uri ∧ uri = iri)) ∨
            ∃ raised,
              validateIri uri = .error raised ∧
                raised.cls = .valueError := by
      intro uri
      rcases of_validateIri uri with ⟨hOk, hAccepted⟩ | hError
      · exact
          Or.inl ⟨uri, hOk, hAccepted.1, hAccepted, rfl⟩
      · exact Or.inr hError
    have hCuries :
        ∀ curie,
          (∃ iri,
              curieToIri curie = .ok iri ∧ Enclosed iri ∧
                Expands curie iri) ∨
            ∃ raised,
              curieToIri curie = .error raised ∧
                raised.cls = .valueError := by
      intro curie
      rcases of_curieToIri curie with
        ⟨iri, hOk, hExpands⟩ | hError
      · exact Or.inl ⟨iri, hOk, hExpands.1, hExpands⟩
      · exact Or.inr hError
    rw [prepare]
    rcases of_terms hN3 hNodes uris with
      ⟨nodes, hN, hNodesIn, hAll⟩ | ⟨raised, hN, hClass⟩
    · rcases of_terms hN3 hCuries predicates with
        ⟨iris, hP, hIrisIn, hExpands⟩ | ⟨raised, hP, hClass⟩
      · rcases (List.forall₂_and_left uris nodes).mp hAll with
          ⟨hAccepted, hEqual⟩
        rw [List.forall₂_eq_eq_eq] at hEqual
        subst hEqual
        have hScan := scan_queryText hIrisIn hNodesIn limit
        rw [hN, ok_bind, hP, ok_bind]
        refine
          Safe.sent hSome.1 hSome.2 ?_ ?_ ?_ hExpands hAccepted
        · intro reply
          exact once_reply reply
        · rw [hScan, hExpands.length_eq]
        · rw [hScan]
      · rw [hN, ok_bind, hP, error_bind]
        exact Safe.refused hSome.1 hSome.2 hClass
    · rw [hN, error_bind]
      exact Safe.refused hSome.1 hSome.2 hClass

/- The library refuses an IRI with an invalid character. -/
def rdfN3 (iri : Text) : Except Raised Text :=
  if iri.any fun c => c ∈ "<>\" \x7b\x7d|\\^`".toList then
    .error
      (.plain .other
        "does not look like a valid URI".toList)
  else
    .ok (token '<' '>' iri)

/- The library writes the other IRIs. -/
theorem writesIris_rdfN3 : WritesIris rdfN3 := by
  intro iri hValid
  apply if_neg
  rw [Bool.not_eq_true, List.any_eq_false]
  intro c hMem hIn
  exact hValid c hMem (of_decide_eq_true hIn)

/- Whether a program begins with a query. -/
def sends : Program (List Triple) → Bool
| .call _ _ => true
| _ => false

/- The IRIs of two versions of a law. -/
def versionIris : List Text :=
  ["https://2026agent.kr/id/law/001823/20240101".toList,
    "https://2026agent.kr/id/law/001823/20250101".toList]

/-
  An IRI that would close its token is refused, and the IRIs
  of two versions are sent.
-/
theorem expand_safe_closing :
    Safe ["https://2026agent.kr/x> \x7d #".toList]
        ["lo:delegatesTo".toList] 20
        (FusekiGraph.expand rdfN3
          ["https://2026agent.kr/x> \x7d #".toList]
          ["lo:delegatesTo".toList] 1 20) ∧
      sends
          (FusekiGraph.expand rdfN3 versionIris
            ["lo:delegatesTo".toList] 1 20) =
        true ∧
      Safe versionIris ["lo:delegatesTo".toList] 20
        (FusekiGraph.expand rdfN3 versionIris
          ["lo:delegatesTo".toList] 1 20) := by
  refine
    ⟨expand_safe writesIris_rdfN3 _ _ 1 20, ?_,
      expand_safe writesIris_rdfN3 _ _ 1 20⟩
  decide +kernel

end Fuseki

end Law

end LegalAgent
