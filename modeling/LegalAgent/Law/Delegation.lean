import LegalAgent.Law.Hierarchy
import LegalAgent.Library.Register
import Mathlib.Data.Finset.Image

/-
  The graph of delegations (`delegation_build.py`).

  A build of a base law fetches its hierarchy and loads an
  edge from each law of it to the base into the named graph of
  the base.  The graph store maps the names of graphs to sets
  of triples; `add_nt` replaces a graph.

  Key definitions include:
    * `GraphStore.addNt`
    * `buildDelegation`
    * `buildAll`
    * `Replaced`

  Key theorems include:
    * `delegation_subordinates_iff`
    * `graph_buildAll`
    * `builds_replace_iff`
-/

------------------------------------------------------------
-- Graphs
------------------------------------------------------------

namespace LegalAgent

open Library

namespace Law

/- A subject, a predicate and an object. -/
abbrev Triple := Text × Text × Text

/- The triples of each named graph. -/
abbrev GraphStore := Text → Finset Triple

/- The store without triples. -/
def GraphStore.empty : GraphStore := fun _ => ∅

/- Replace a named graph (`add_nt`). -/
def GraphStore.addNt
    (store : GraphStore)
    (graphUri : Text)
    (triples : Finset Triple) :
    GraphStore :=
  fun uri => if uri = graphUri then triples else store uri

/- The predicate of delegation (`LO.delegatesTo`). -/
def delegatesTo : Text :=
  "https://2026agent.kr/ontology#delegatesTo".toList

/- The graph of a base (`_DELEG_GRAPH`). -/
def delegationUri (baseId : Text) : Text :=
  "https://2026agent.kr/law/graph/delegation".toList ++
    '/' :: baseId

/- The edge from a law to the base. -/
def delegationEdge (baseId childId : Text) : Triple :=
  (resourceIri childId, delegatesTo, resourceIri baseId)

/- The edges from the laws of a hierarchy to the base. -/
def delegationEdges
    (baseId : Text)
    (children : List (Text × Text)) :
    Finset Triple :=
  (children.map fun child =>
    delegationEdge baseId child.1).toFinset

/- Different bases have different graphs. -/
theorem delegationUri_inj
    {baseId other : Text} :
    delegationUri baseId = delegationUri other ↔
      baseId = other := by
  unfold delegationUri
  rw [List.append_cancel_left_eq, List.cons.injEq]
  exact and_iff_right rfl

/- A graph with edges has laws, and the other way round. -/
theorem delegationEdges_eq_empty_iff
    {baseId : Text}
    {children : List (Text × Text)} :
    delegationEdges baseId children = ∅ ↔ children = [] := by
  rw [delegationEdges, List.toFinset_eq_empty_iff,
    List.map_eq_nil_iff]

------------------------------------------------------------
-- Builds
------------------------------------------------------------

/-
  A call of `build_delegation` whose base was resolved and
  whose hierarchy was fetched.
-/
structure DelegationBuild where
  baseId : Text
  payload : Json

section Builds

variable (repr : Json → Text)

/- The laws of the hierarchy; `none` is an exception. -/
def DelegationBuild.children?
    (build : DelegationBuild) :
    Option (List (Text × Text)) :=
  parseHierarchy repr build.payload build.baseId

/-
  Load the edges of a base (`build_delegation`): a hierarchy
  without laws loads nothing.
-/
def buildDelegation
    (store : GraphStore)
    (build : DelegationBuild) :
    Option GraphStore :=
  (build.children? repr).map fun children =>
    let edges := children.length
    if edges ≠ 0 then
      store.addNt (delegationUri build.baseId)
        (delegationEdges build.baseId children)
    else
      store

/- Builds that all succeed, in order. -/
def buildAll
    (store : GraphStore) :
    List DelegationBuild → Option GraphStore
| [] => some store
| build :: builds =>
    (buildDelegation repr store build).bind fun store =>
      buildAll store builds

/- An edge is recorded for each law of the result. -/
theorem delegationEdge_mem_iff
    {baseId childId : Text}
    {laws : List (Text × Text)} :
    delegationEdge baseId childId ∈
        delegationEdges baseId laws ↔
      childId ∈ laws.map Prod.fst := by
  rw [delegationEdges, List.mem_toFinset, List.mem_map,
    List.mem_map]
  constructor
  · rintro ⟨law, hLaw, hEdge⟩
    refine ⟨law, hLaw, ?_⟩
    exact List.append_cancel_left (Prod.mk.inj hEdge).1
  · rintro ⟨law, hLaw, rfl⟩
    exact ⟨law, hLaw, rfl⟩

/-
  The result shows the subordinates of the base, and only
  subordinates are recorded as delegated from it, exactly when
  only acts stand beside and above the base.
-/
theorem delegation_subordinates_iff
    {payload tree base : Json}
    {baseId : Text}
    {laws : List (Text × Text)}
    (hTree : lawTree? payload = some tree)
    (hBase : baseNodes repr baseId tree = [base])
    (hLaws : parseHierarchy repr payload baseId = some laws) :
    (Subordinates repr baseId base laws ∧
      ∀ childId,
        delegationEdge baseId childId ∈
            delegationEdges baseId laws →
          ∃ node ∈ below base, Names repr node childId) ↔
      OnlyActsBeside repr baseId tree base := by
  constructor
  · rintro ⟨hSub, -⟩
    exact
      (parseHierarchy_subordinates_iff repr hTree hBase
        hLaws).mp hSub
  · intro hOnly
    have hSub :=
      (parseHierarchy_subordinates_iff repr hTree hBase
        hLaws).mpr hOnly
    refine ⟨hSub, ?_⟩
    intro childId hEdge
    exact
      ((hSub.exact childId).mp
        (delegationEdge_mem_iff.mp hEdge)).2

end Builds

/- With the rule below the decree the answer is right. -/
theorem delegation_shows_rule :
    Subordinates (fun _ => []) "2".toList
      (decreeNode [("부령".toList, ruleNode)])
      ((walk (fun _ => []) "2".toList []
        beneathTree).insertionSort itemLe) := by
  refine
    ((@delegation_subordinates_iff (fun _ => [])
      (hierarchyOf beneathTree) beneathTree _ "2".toList _ rfl
      rfl rfl).mpr ⟨?_, ?_⟩).1
  · have hOutside :
        outside (fun _ => []) "2".toList beneathTree =
          [beneathTree, _] := rfl
    rw [hOutside]
    intro node hNode id hNames hAct
    rcases List.mem_cons.mp hNode with rfl | hNode
    · cases hNames.1
    · rw [List.mem_singleton.mp hNode] at hAct
      cases hAct
  · intro node hNode id _ hAct
    rw [List.mem_singleton.mp hNode] at hAct
    cases hAct

------------------------------------------------------------
-- Sequences Of Builds
------------------------------------------------------------

section Sequences

variable (repr : Json → Text)

/- The last build of a base. -/
def lastBuild?
    (builds : List DelegationBuild)
    (baseId : Text) :
    Option DelegationBuild :=
  builds.reverse.find? fun build =>
    decide (build.baseId = baseId)

/- The edges of the hierarchy that a build fetched. -/
def DelegationBuild.edges
    (build : DelegationBuild) :
    Finset Triple :=
  delegationEdges build.baseId
    ((build.children? repr).getD [])

/-
  The graph of each base is that of the last hierarchy fetched
  for it, and every other graph is untouched.
-/
structure Replaced
    (builds : List DelegationBuild)
    (store : GraphStore) : Prop where
  last : ∀ baseId,
    store (delegationUri baseId) =
      ((lastBuild? builds baseId).map
        (DelegationBuild.edges repr)).getD ∅
  other : ∀ uri,
    (∀ build ∈ builds, uri ≠ delegationUri build.baseId) →
      store uri = ∅

/- A build whose hierarchy has no laws. -/
def DelegationBuild.Emptied (build : DelegationBuild) : Prop :=
  build.children? repr = some []

/-
  No base loses its laws: where the last hierarchy of a base
  has none, no earlier hierarchy of it had any.
-/
def NeverEmptied (builds : List DelegationBuild) : Prop :=
  ∀ baseId build,
    lastBuild? builds baseId = some build →
      build.Emptied repr →
        ∀ other ∈ builds,
          other.baseId = baseId → other.Emptied repr

/- A build as a write of the graph of its base. -/
def DelegationBuild.write
    (build : DelegationBuild) :
    Write Text (Finset Triple) :=
  fun baseId =>
    if build.baseId = baseId ∧
        build.children? repr ≠ some [] then
      some (build.edges repr)
    else none

/- A build writes the graph of its base, or nothing. -/
theorem graph_buildDelegation
    {store store' : GraphStore}
    {build : DelegationBuild}
    (hBuild : buildDelegation repr store build = some store')
    (baseId : Text) :
    store' (delegationUri baseId) =
      (build.write repr).apply
        (fun baseId => store (delegationUri baseId)) baseId := by
  rcases Option.map_eq_some_iff.mp hBuild with
    ⟨children, hChildren, rfl⟩
  rw [Write.apply, DelegationBuild.write,
    DelegationBuild.edges, hChildren, Option.getD_some]
  by_cases hNil : children = []
  · subst hNil
    simp
  · have hLength : children.length ≠ 0 := fun hZero =>
      hNil (List.eq_nil_of_length_eq_zero hZero)
    simp only [if_pos hLength, GraphStore.addNt,
      delegationUri_inj, Option.some.injEq, ne_eq, hNil,
      not_false_iff, and_true]
    by_cases hBase : baseId = build.baseId
    · rw [if_pos hBase, if_pos hBase.symm]
      rfl
    · rw [if_neg hBase, if_neg (Ne.symm hBase)]
      rfl

/- Builds are writes of graphs, in order. -/
theorem graph_buildAll
    {builds : List DelegationBuild}
    {store store' : GraphStore}
    (hBuilds : buildAll repr store builds = some store')
    (baseId : Text) :
    store' (delegationUri baseId) =
      writeAll (builds.map (DelegationBuild.write repr))
        (fun baseId => store (delegationUri baseId)) baseId := by
  induction builds generalizing store with
  | nil =>
      cases hBuilds
      rfl
  | cons build builds ih =>
      rcases Option.bind_eq_some_iff.mp hBuilds with
        ⟨middle, hBuild, hRest⟩
      have hMiddle :
          (fun baseId => middle (delegationUri baseId)) =
            (build.write repr).apply
              (fun baseId => store (delegationUri baseId)) :=
        funext fun baseId =>
          graph_buildDelegation repr hBuild baseId
      rw [ih hRest, hMiddle]
      rfl

/- A graph that no build names is left alone. -/
theorem other_buildAll
    {builds : List DelegationBuild}
    {store store' : GraphStore}
    (hBuilds : buildAll repr store builds = some store')
    {uri : Text}
    (hOther :
      ∀ build ∈ builds, uri ≠ delegationUri build.baseId) :
    store' uri = store uri := by
  induction builds generalizing store with
  | nil =>
      cases hBuilds
      rfl
  | cons build builds ih =>
      rcases Option.bind_eq_some_iff.mp hBuilds with
        ⟨middle, hBuild, hRest⟩
      rcases Option.map_eq_some_iff.mp hBuild with
        ⟨children, -, rfl⟩
      rw [ih hRest fun other hMem =>
        hOther other (List.mem_cons_of_mem build hMem)]
      dsimp only
      split
      · rw [GraphStore.addNt,
          if_neg (hOther build List.mem_cons_self)]
      · rfl

/- The hierarchies of builds that succeed were read. -/
theorem children?_of_buildAll
    {builds : List DelegationBuild}
    {store store' : GraphStore}
    (hBuilds : buildAll repr store builds = some store')
    {build : DelegationBuild}
    (hMem : build ∈ builds) :
    ∃ children, build.children? repr = some children := by
  induction builds generalizing store with
  | nil => cases hMem
  | cons other builds ih =>
      rcases Option.bind_eq_some_iff.mp hBuilds with
        ⟨middle, hBuild, hRest⟩
      rcases List.mem_cons.mp hMem with rfl | hMem
      · rcases Option.map_eq_some_iff.mp hBuild with
          ⟨children, hChildren, -⟩
        exact ⟨children, hChildren⟩
      · exact ih hRest hMem

/-
  The graph of a base whose last hierarchy has laws is that
  of the last build.
-/
theorem lastCarried?_of_lastBuild?
    {builds : List DelegationBuild}
    {baseId : Text}
    {build : DelegationBuild}
    (hLast : lastBuild? builds baseId = some build)
    (hLaws : ¬ build.Emptied repr) :
    lastCarried? (builds.map (DelegationBuild.write repr))
        baseId =
      some (build.edges repr) := by
  rcases List.find?_eq_some_iff_append.mp hLast with
    ⟨hBase, after, before, hSplit, hAfter⟩
  rw [lastCarried?, ← List.map_reverse, hSplit,
    List.map_append, List.findSome?_append,
    List.findSome?_eq_none_iff.mpr, Option.none_or,
    List.map_cons, List.findSome?_cons,
    DelegationBuild.write,
    if_pos ⟨of_decide_eq_true hBase, hLaws⟩]
  intro write hWrite
  rcases List.mem_map.mp hWrite with ⟨other, hOther, rfl⟩
  have hNe := hAfter other hOther
  rw [DelegationBuild.write, if_neg]
  rintro ⟨hEq, -⟩
  rw [hEq] at hNe
  simp at hNe

/-
  A base whose builds were all without laws has no graph, and
  the other way round.
-/
theorem lastCarried?_getD_eq_empty_iff
    {builds : List DelegationBuild}
    {store store' : GraphStore}
    (hBuilds : buildAll repr store builds = some store')
    (baseId : Text) :
    (lastCarried? (builds.map (DelegationBuild.write repr))
        baseId).getD ∅ = ∅ ↔
      ∀ build ∈ builds,
        build.baseId = baseId → build.Emptied repr := by
  have hWrite : ∀ build : DelegationBuild,
      build.write repr baseId = none ↔
        (build.baseId = baseId → build.Emptied repr) := by
    intro build
    rw [DelegationBuild.write, ite_eq_right_iff]
    constructor
    · intro hNone hBase
      by_contra hLaws
      cases hNone ⟨hBase, hLaws⟩
    · rintro hEmptied ⟨hBase, hLaws⟩
      exact absurd (hEmptied hBase) hLaws
  rw [lastCarried?, ← List.map_reverse]
  cases hCarried :
      (builds.reverse.map (DelegationBuild.write repr)).findSome?
        fun write => write baseId with
  | none =>
      rw [List.findSome?_eq_none_iff] at hCarried
      apply iff_of_true rfl
      intro build hMem
      apply (hWrite build).mp
      exact hCarried _
        (List.mem_map_of_mem (List.mem_reverse.mpr hMem))
  | some edges =>
      rcases List.exists_of_findSome?_eq_some hCarried with
        ⟨write, hMem, hEdges⟩
      rcases List.mem_map.mp hMem with ⟨build, hBuild, rfl⟩
      rw [List.mem_reverse] at hBuild
      rcases children?_of_buildAll repr hBuilds hBuild with
        ⟨children, hChildren⟩
      rw [DelegationBuild.write] at hEdges
      split at hEdges
      · rename_i hCond
        cases hEdges
        have hNil : children ≠ [] := by
          rintro rfl
          exact hCond.2 hChildren
        refine iff_of_false ?_ ?_
        · rw [Option.getD_some, DelegationBuild.edges,
            delegationEdges_eq_empty_iff, hChildren]
          exact hNil
        · intro hAll
          exact hCond.2 (hAll build hBuild hCond.1)
      · cases hEdges

/-
  Builds replace the graphs of their bases exactly when no
  base loses its laws: an empty hierarchy leaves the graph
  that an earlier one loaded.
-/
theorem builds_replace_iff
    {builds : List DelegationBuild}
    {store : GraphStore}
    (hBuilds : buildAll repr .empty builds = some store) :
    Replaced repr builds store ↔ NeverEmptied repr builds := by
  have hGraph : ∀ baseId,
      store (delegationUri baseId) =
        (lastCarried? (builds.map (DelegationBuild.write repr))
          baseId).getD ∅ := by
    intro baseId
    rw [graph_buildAll repr hBuilds, writeAll_apply]
    rfl
  constructor
  · intro hReplaced baseId build hLast hEmptied
    apply (lastCarried?_getD_eq_empty_iff repr hBuilds
      baseId).mp
    rw [← hGraph, hReplaced.last, hLast, Option.map_some,
      Option.getD_some, DelegationBuild.edges, hEmptied]
    rfl
  · intro hNever
    constructor
    · intro baseId
      rw [hGraph]
      cases hLast : lastBuild? builds baseId with
      | none =>
          apply (lastCarried?_getD_eq_empty_iff repr hBuilds
            baseId).mpr
          intro build hMem hBase
          have hNone :=
            List.find?_eq_none.mp hLast build
              (List.mem_reverse.mpr hMem)
          exact absurd (decide_eq_true hBase) hNone
      | some build =>
          by_cases hEmptied : build.Emptied repr
          · rw [(lastCarried?_getD_eq_empty_iff repr hBuilds
              baseId).mpr
              (hNever baseId build hLast hEmptied),
              Option.map_some, Option.getD_some,
              DelegationBuild.edges, hEmptied]
            rfl
          · rw [lastCarried?_of_lastBuild? repr hLast hEmptied]
            rfl
    · intro uri hOther
      exact other_buildAll repr hBuilds hOther

end Sequences

/- A decree that has a rule, and one that has lost it. -/
def ruledBuild : DelegationBuild where
  baseId := "2".toList
  payload := hierarchyOf beneathTree

def ruleLostBuild : DelegationBuild where
  baseId := "2".toList
  payload :=
    hierarchyOf
      (actTree [("대통령령".toList, decreeNode [])])

/- The graph of a decree keeps the edge of a rule it lost. -/
theorem builds_keep_lost_rule :
    ¬ ∀ (repr : Json → Text) (builds : List DelegationBuild)
        (store : GraphStore),
      buildAll repr .empty builds = some store →
        Replaced repr builds store := by
  intro hAll
  have hReplaced :=
    hAll (fun _ => []) [ruledBuild, ruleLostBuild] _ rfl
  have hGraph := hReplaced.last "2".toList
  have hEdges :
      delegationEdges "2".toList
          [("3".toList, "시행규칙".toList)] = ∅ :=
    hGraph
  cases delegationEdges_eq_empty_iff.mp hEdges

/- The graph of a decree that is built twice. -/
theorem builds_replace_rule :
    ∃ store,
      buildAll (fun _ => []) .empty [ruledBuild, ruledBuild] =
          some store ∧
        Replaced (fun _ => []) [ruledBuild, ruledBuild]
          store := by
  refine
    ⟨_, rfl, (builds_replace_iff (fun _ => []) rfl).mpr ?_⟩
  intro baseId build hLast hEmptied
  have hMem := List.mem_of_find?_eq_some hLast
  have hBuild : build = ruledBuild := by
    simpa using hMem
  subst hBuild
  cases hEmptied

end Law

end LegalAgent
