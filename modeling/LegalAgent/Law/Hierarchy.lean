import LegalAgent.Law.Ids
import LegalAgent.Text.Json
import Mathlib.Data.Char
import Mathlib.Data.List.Lex
import Mathlib.Data.List.Sort

/-
  The hierarchy of laws around a base law (`parse_hierarchy`
  of `lawgo.py`).

  A hierarchy is a JSON tree whose objects describe laws.  The
  code collects the laws of the whole tree; what it is asked
  for is the laws below the base.

  Key definitions include:
    * `walk`
    * `parseHierarchy`
    * `nodes`
    * `below`
    * `outside`
    * `OnlyActsBeside`

  Key theorems include:
    * `walk_eq_foldl`
    * `mem_keys_parseHierarchy`
    * `mem_nodes_iff`
    * `parseHierarchy_subordinates_iff`
-/

------------------------------------------------------------
-- Laws Of A Tree
------------------------------------------------------------

namespace LegalAgent

namespace Law

section Tree

variable (repr : Json → Text)

/- The basic information of an object (`기본정보`). -/
def basicOf? (node : Json) : Option (List (Text × Json)) :=
  match node.get? "기본정보".toList with
  | some (.obj basic) => some basic
  | _ => none

/- The stripped text of an entry; a missing entry is empty. -/
def entryText
    (basic : List (Text × Json))
    (key : Text) :
    Text :=
  Text.strip (((basic.lookup key).getD (.str [])).text repr)

/- The id of the law that an object describes (`법령ID`). -/
def lawId? (node : Json) : Option Text :=
  (basicOf? node).map fun basic =>
    entryText repr basic "법령ID".toList

/- Its name (`법령명`). -/
def lawName? (node : Json) : Option Text :=
  (basicOf? node).map fun basic =>
    entryText repr basic "법령명".toList

/- Whether its kind (`법종구분`) is that of an act. -/
def isAct (node : Json) : Bool :=
  match (basicOf? node).bind fun basic =>
      basic.lookup "법종구분".toList with
  | some (.obj kind) =>
      match kind.lookup "content".toList with
      | some (.str content) =>
          decide (content = "법률".toList)
      | _ => false
  | _ => false

/-
  The law that an object adds to the result: one with an id
  and a name that is neither the base nor an act.
-/
def found?
    (baseId : Text)
    (node : Json) :
    Option (Text × Text) :=
  match lawId? repr node, lawName? repr node with
  | some id, some name =>
      if id ≠ [] ∧ name ≠ [] ∧ id ≠ baseId ∧
          isAct node = false then
        some (id, name)
      else
        none
  | _, _ => none

/- The laws found so far, with that of an object. -/
def recordLaw
    (baseId : Text)
    (found : List (Text × Text))
    (node : Json) :
    List (Text × Text) :=
  match found? repr baseId node with
  | some (id, name) => setItem id name found
  | none => found

mutual

/- Collect the laws of a tree (`walk`). -/
def walk
    (baseId : Text)
    (found : List (Text × Text)) :
    Json → List (Text × Text)
| .obj fields =>
    walkFields baseId
      (recordLaw repr baseId found (.obj fields)) fields
| .arr items => walkItems baseId found items
| _ => found

/- The values of an object, except its basic information. -/
def walkFields
    (baseId : Text)
    (found : List (Text × Text)) :
    List (Text × Json) → List (Text × Text)
| [] => found
| (key, value) :: rest =>
    walkFields baseId
      (if key = "기본정보".toList then found
        else walk baseId found value)
      rest

/- The items of a list. -/
def walkItems
    (baseId : Text)
    (found : List (Text × Text)) :
    List Json → List (Text × Text)
| [] => found
| item :: rest =>
    walkItems baseId (walk baseId found item) rest

end

/-
  The tree of a hierarchy: a missing key is an empty object,
  `none` is an exception.
-/
def lawTree? (payload : Json) : Option Json :=
  match payload with
  | .obj fields =>
      match fields.lookup "법령체계도".toList with
      | none => some (.obj [])
      | some (.obj chart) =>
          some ((chart.lookup "상하위법".toList).getD (.obj []))
      | some _ => none
  | _ => none

/- The order of pairs of an id and a name. -/
def itemLe (first second : Text × Text) : Prop :=
  first.1 < second.1 ∨
    first.1 = second.1 ∧ first.2 ≤ second.2

instance (first second : Text × Text) :
    Decidable (itemLe first second) := by
  unfold itemLe
  infer_instance

/-
  The laws that a hierarchy shows for a base, sorted
  (`parse_hierarchy`; the name of the base is not used).
-/
def parseHierarchy
    (payload : Json)
    (baseId : Text) :
    Option (List (Text × Text)) :=
  (lawTree? payload).map fun tree =>
    (walk repr baseId [] tree).insertionSort itemLe

------------------------------------------------------------
-- Nodes
------------------------------------------------------------

mutual

/- The objects of a tree, each before those below it. -/
def nodes : Json → List Json
| .obj fields => .obj fields :: nodesFields fields
| .arr items => nodesItems items
| _ => []

def nodesFields : List (Text × Json) → List Json
| [] => []
| (key, value) :: rest =>
    (if key = "기본정보".toList then [] else nodes value) ++
      nodesFields rest

def nodesItems : List Json → List Json
| [] => []
| item :: rest => nodes item ++ nodesItems rest

end

/- The objects strictly below an object. -/
def below : Json → List Json
| .obj fields => nodesFields fields
| _ => []

mutual

/- The objects that are neither the base nor below it. -/
def outside (baseId : Text) : Json → List Json
| .obj fields =>
    if lawId? repr (.obj fields) = some baseId then []
    else .obj fields :: outsideFields baseId fields
| .arr items => outsideItems baseId items
| _ => []

def outsideFields (baseId : Text) :
    List (Text × Json) → List Json
| [] => []
| (key, value) :: rest =>
    (if key = "기본정보".toList then []
      else outside baseId value) ++
      outsideFields baseId rest

def outsideItems (baseId : Text) : List Json → List Json
| [] => []
| item :: rest =>
    outside baseId item ++ outsideItems baseId rest

end

mutual

/- A walk records the objects of the tree in order. -/
theorem walk_eq_foldl
    (baseId : Text)
    (found : List (Text × Text)) :
    (tree : Json) →
      walk repr baseId found tree =
        (nodes tree).foldl (recordLaw repr baseId) found
| .obj fields => by
    rw [walk, nodes, List.foldl_cons, walkFields_eq_foldl]
| .arr items => by
    rw [walk, nodes, walkItems_eq_foldl]
| .null => rfl
| .bool _ => rfl
| .num _ => rfl
| .str _ => rfl

theorem walkFields_eq_foldl
    (baseId : Text)
    (found : List (Text × Text)) :
    (fields : List (Text × Json)) →
      walkFields repr baseId found fields =
        (nodesFields fields).foldl
          (recordLaw repr baseId) found
| [] => rfl
| (key, value) :: rest => by
    rw [walkFields, nodesFields, List.foldl_append,
      walkFields_eq_foldl]
    split
    · rfl
    · rw [walk_eq_foldl]

theorem walkItems_eq_foldl
    (baseId : Text)
    (found : List (Text × Text)) :
    (items : List Json) →
      walkItems repr baseId found items =
        (nodesItems items).foldl
          (recordLaw repr baseId) found
| [] => rfl
| item :: rest => by
    rw [walkItems, nodesItems, List.foldl_append,
      walkItems_eq_foldl, walk_eq_foldl]

end

mutual

/- The objects of a part of a tree stand together. -/
theorem nodes_together
    {node : Json} :
    (tree : Json) →
      node ∈ nodes tree → nodes node <:+: nodes tree
| .obj fields => fun hMem => by
    rw [nodes] at hMem ⊢
    rcases List.mem_cons.mp hMem with rfl | hMem
    · have hNodes :
          nodes (.obj fields) =
            .obj fields :: nodesFields fields := by rw [nodes]
      exact hNodes ▸ List.infix_refl _
    · exact (nodesFields_together fields hMem).trans
        (List.suffix_cons _ _).isInfix
| .arr items => fun hMem => by
    rw [nodes] at hMem ⊢
    exact nodesItems_together items hMem
| .null => fun hMem => by cases hMem
| .bool _ => fun hMem => by cases hMem
| .num _ => fun hMem => by cases hMem
| .str _ => fun hMem => by cases hMem

theorem nodesFields_together
    {node : Json} :
    (fields : List (Text × Json)) →
      node ∈ nodesFields fields →
        nodes node <:+: nodesFields fields
| [] => fun hMem => by cases hMem
| (key, value) :: rest => fun hMem => by
    rw [nodesFields] at hMem ⊢
    rcases List.mem_append.mp hMem with hValue | hRest
    · split at hValue
      · cases hValue
      · rename_i hKey
        rw [if_neg hKey]
        exact (nodes_together value hValue).trans
          (List.prefix_append _ _).isInfix
    · exact (nodesFields_together rest hRest).trans
        (List.suffix_append _ _).isInfix

theorem nodesItems_together
    {node : Json} :
    (items : List Json) →
      node ∈ nodesItems items →
        nodes node <:+: nodesItems items
| [] => fun hMem => by cases hMem
| item :: rest => fun hMem => by
    rw [nodesItems] at hMem ⊢
    rcases List.mem_append.mp hMem with hItem | hRest
    · exact (nodes_together item hItem).trans
        (List.prefix_append _ _).isInfix
    · exact (nodesItems_together rest hRest).trans
        (List.suffix_append _ _).isInfix

end

mutual

/- An object outside the base is one of the tree. -/
theorem of_mem_outside
    {baseId : Text}
    {node : Json} :
    (tree : Json) →
      node ∈ outside repr baseId tree →
        node ∈ nodes tree ∧ lawId? repr node ≠ some baseId
| .obj fields => fun hMem => by
    rw [outside] at hMem
    rw [nodes]
    split at hMem
    · cases hMem
    · rename_i hId
      rcases List.mem_cons.mp hMem with rfl | hMem
      · exact ⟨List.mem_cons_self, hId⟩
      · rcases of_mem_outsideFields fields hMem with
          ⟨hNode, hId⟩
        exact ⟨List.mem_cons_of_mem _ hNode, hId⟩
| .arr items => fun hMem => by
    rw [outside] at hMem
    rw [nodes]
    exact of_mem_outsideItems items hMem
| .null => fun hMem => by cases hMem
| .bool _ => fun hMem => by cases hMem
| .num _ => fun hMem => by cases hMem
| .str _ => fun hMem => by cases hMem

theorem of_mem_outsideFields
    {baseId : Text}
    {node : Json} :
    (fields : List (Text × Json)) →
      node ∈ outsideFields repr baseId fields →
        node ∈ nodesFields fields ∧
          lawId? repr node ≠ some baseId
| [] => fun hMem => by cases hMem
| (key, value) :: rest => fun hMem => by
    rw [outsideFields] at hMem
    rw [nodesFields]
    rcases List.mem_append.mp hMem with hValue | hRest
    · split at hValue
      · cases hValue
      · rename_i hKey
        rcases of_mem_outside value hValue with ⟨hNode, hId⟩
        rw [if_neg hKey]
        exact ⟨List.mem_append_left _ hNode, hId⟩
    · rcases of_mem_outsideFields rest hRest with ⟨hNode, hId⟩
      exact ⟨List.mem_append_right _ hNode, hId⟩

theorem of_mem_outsideItems
    {baseId : Text}
    {node : Json} :
    (items : List Json) →
      node ∈ outsideItems repr baseId items →
        node ∈ nodesItems items ∧
          lawId? repr node ≠ some baseId
| [] => fun hMem => by cases hMem
| item :: rest => fun hMem => by
    rw [outsideItems] at hMem
    rw [nodesItems]
    rcases List.mem_append.mp hMem with hItem | hRest
    · rcases of_mem_outside item hItem with ⟨hNode, hId⟩
      exact ⟨List.mem_append_left _ hNode, hId⟩
    · rcases of_mem_outsideItems rest hRest with ⟨hNode, hId⟩
      exact ⟨List.mem_append_right _ hNode, hId⟩

end

/- Whether an object is the base or below a base of the tree. -/
def InBase (baseId : Text) (trees : List Json) (node : Json) :
    Prop :=
  ∃ base ∈ trees,
    lawId? repr base = some baseId ∧ node ∈ nodes base

/- More objects leave what is in a base in it. -/
theorem InBase.mono
    {baseId : Text}
    {trees others : List Json}
    {node : Json}
    (hIn : InBase repr baseId trees node)
    (hSubset : trees ⊆ others) :
    InBase repr baseId others node := by
  rcases hIn with ⟨base, hBase, hRest⟩
  exact ⟨base, hSubset hBase, hRest⟩

mutual

/- An object is outside the base, the base or below it. -/
theorem mem_nodes_cases
    {baseId : Text}
    {node : Json} :
    (tree : Json) →
      node ∈ nodes tree →
        node ∈ outside repr baseId tree ∨
          InBase repr baseId (nodes tree) node
| .obj fields => fun hMem => by
    rw [outside]
    by_cases hId : lawId? repr (.obj fields) = some baseId
    · right
      exact ⟨.obj fields, by rw [nodes]; exact List.mem_cons_self,
        hId, hMem⟩
    · rw [if_neg hId]
      rw [nodes] at hMem ⊢
      rcases List.mem_cons.mp hMem with rfl | hMem
      · exact Or.inl List.mem_cons_self
      · cases mem_nodesFields_cases fields hMem with
        | inl hOutside =>
            exact Or.inl (List.mem_cons_of_mem _ hOutside)
        | inr hIn =>
            exact Or.inr
              (hIn.mono repr (List.subset_cons_self _ _))
| .arr items => fun hMem => by
    rw [nodes] at hMem ⊢
    rw [outside]
    exact mem_nodesItems_cases items hMem
| .null => fun hMem => by cases hMem
| .bool _ => fun hMem => by cases hMem
| .num _ => fun hMem => by cases hMem
| .str _ => fun hMem => by cases hMem

theorem mem_nodesFields_cases
    {baseId : Text}
    {node : Json} :
    (fields : List (Text × Json)) →
      node ∈ nodesFields fields →
        node ∈ outsideFields repr baseId fields ∨
          InBase repr baseId (nodesFields fields) node
| [] => fun hMem => by cases hMem
| (key, value) :: rest => fun hMem => by
    rw [nodesFields] at hMem ⊢
    rw [outsideFields]
    rcases List.mem_append.mp hMem with hValue | hRest
    · split at hValue
      · cases hValue
      · rename_i hKey
        rw [if_neg hKey, if_neg hKey]
        cases mem_nodes_cases value hValue with
        | inl hOutside =>
            exact Or.inl (List.mem_append_left _ hOutside)
        | inr hIn =>
            exact Or.inr
              (hIn.mono repr (List.subset_append_left _ _))
    · cases mem_nodesFields_cases rest hRest with
      | inl hOutside =>
          exact Or.inl (List.mem_append_right _ hOutside)
      | inr hIn =>
          exact Or.inr
            (hIn.mono repr (List.subset_append_right _ _))

theorem mem_nodesItems_cases
    {baseId : Text}
    {node : Json} :
    (items : List Json) →
      node ∈ nodesItems items →
        node ∈ outsideItems repr baseId items ∨
          InBase repr baseId (nodesItems items) node
| [] => fun hMem => by cases hMem
| item :: rest => fun hMem => by
    rw [nodesItems] at hMem ⊢
    rw [outsideItems]
    rcases List.mem_append.mp hMem with hItem | hRest
    · cases mem_nodes_cases item hItem with
      | inl hOutside =>
          exact Or.inl (List.mem_append_left _ hOutside)
      | inr hIn =>
          exact Or.inr
            (hIn.mono repr (List.subset_append_left _ _))
    · cases mem_nodesItems_cases rest hRest with
      | inl hOutside =>
          exact Or.inl (List.mem_append_right _ hOutside)
      | inr hIn =>
          exact Or.inr
            (hIn.mono repr (List.subset_append_right _ _))

end

/- An object with basic information stands for itself. -/
theorem nodes_eq_cons_below
    {node : Json}
    {id : Text}
    (hId : lawId? repr node = some id) :
    nodes node = node :: below node := by
  cases node with
  | obj fields => rw [nodes, below]
  | null => cases hId
  | bool value => cases hId
  | num text => cases hId
  | str text => cases hId
  | arr items => cases hId

------------------------------------------------------------
-- The Collected Laws
------------------------------------------------------------

/- The objects of the tree with the id of the base. -/
def baseNodes (baseId : Text) (tree : Json) : List Json :=
  (nodes tree).filter fun node =>
    decide (lawId? repr node = some baseId)

/- An object with an id and a name that are not empty. -/
def Names (node : Json) (id : Text) : Prop :=
  lawId? repr node = some id ∧ id ≠ [] ∧
    lawName? repr node ≠ some []

/- What an object adds is a law that is no act. -/
theorem exists_found?_iff
    {baseId id : Text}
    {node : Json} :
    (∃ name, found? repr baseId node = some (id, name)) ↔
      Names repr node id ∧ id ≠ baseId ∧
        isAct node = false := by
  unfold found? Names lawId? lawName?
  cases hBasic : basicOf? node with
  | none => simp
  | some basic =>
      simp only [Option.map_some, Option.some.injEq]
      constructor
      · rintro ⟨name, hFound⟩
        split at hFound
        · rename_i hCond
          rcases hCond with ⟨hId, hName, hBase, hAct⟩
          cases hFound
          exact
            ⟨⟨rfl, hId, fun hEq => hName (Option.some.inj hEq)⟩,
              hBase, hAct⟩
        · cases hFound
      · rintro ⟨⟨rfl, hId, hName⟩, hBase, hAct⟩
        exact
          ⟨_, if_pos
            ⟨hId, fun hEq => hName (congrArg some hEq), hBase,
              hAct⟩⟩

/- The ids that a list of objects adds. -/
theorem mem_keys_foldl_recordLaw
    {baseId id : Text}
    (trees : List Json)
    (found : List (Text × Text)) :
    id ∈ (trees.foldl (recordLaw repr baseId) found).map
        Prod.fst ↔
      id ∈ found.map Prod.fst ∨
        ∃ node ∈ trees, ∃ name,
          found? repr baseId node = some (id, name) := by
  induction trees generalizing found with
  | nil => simp
  | cons node trees ih =>
      rw [List.foldl_cons, ih, recordLaw]
      cases hFound : found? repr baseId node with
      | none => simp [hFound]
      | some law =>
          rcases law with ⟨key, name⟩
          rw [mem_keys_setItem, List.exists_mem_cons_iff]
          simp only [hFound, Option.some.injEq, Prod.mk.injEq]
          constructor
          · rintro ((rfl | hOld) | hRest)
            · exact Or.inr (Or.inl ⟨name, rfl, rfl⟩)
            · exact Or.inl hOld
            · exact Or.inr (Or.inr hRest)
          · rintro (hOld | ⟨_, rfl, -⟩ | hRest)
            · exact Or.inl (Or.inr hOld)
            · exact Or.inl (Or.inl rfl)
            · exact Or.inr hRest

/- No id is added twice. -/
theorem nodup_keys_foldl_recordLaw
    {baseId : Text}
    (trees : List Json)
    {found : List (Text × Text)}
    (hFound : (found.map Prod.fst).Nodup) :
    ((trees.foldl (recordLaw repr baseId) found).map
      Prod.fst).Nodup := by
  induction trees generalizing found with
  | nil => exact hFound
  | cons node trees ih =>
      rw [List.foldl_cons]
      apply ih
      unfold recordLaw
      split
      · exact nodup_keys_setItem hFound _ _
      · exact hFound

/- The ids of the result are those of the whole tree. -/
theorem mem_keys_parseHierarchy
    {payload tree : Json}
    {baseId id : Text}
    {laws : List (Text × Text)}
    (hTree : lawTree? payload = some tree)
    (hLaws : parseHierarchy repr payload baseId = some laws) :
    id ∈ laws.map Prod.fst ↔
      ∃ node ∈ nodes tree,
        Names repr node id ∧ id ≠ baseId ∧
          isAct node = false := by
  rw [parseHierarchy, hTree] at hLaws
  cases hLaws
  rw [((List.perm_insertionSort itemLe _).map
    Prod.fst).mem_iff, walk_eq_foldl,
    mem_keys_foldl_recordLaw]
  simp only [List.map_nil, List.not_mem_nil, false_or,
    exists_found?_iff]

instance : Std.Total itemLe where
  total first second := by
    unfold itemLe
    rcases @lt_trichotomy (List Char) _ first.1 second.1 with
      hLess | hEq | hMore
    · exact Or.inl (Or.inl hLess)
    · rcases le_total first.2 second.2 with hLe | hLe
      · exact Or.inl (Or.inr ⟨hEq, hLe⟩)
      · exact Or.inr (Or.inr ⟨hEq.symm, hLe⟩)
    · exact Or.inr (Or.inl hMore)

instance : IsTrans (Text × Text) itemLe where
  trans first second third := by
    rintro (hFirst | ⟨hFirst, hName⟩) (hSecond | ⟨hSecond, hNext⟩)
    · exact Or.inl (hFirst.trans hSecond)
    · exact Or.inl (hSecond ▸ hFirst)
    · exact Or.inl (hFirst ▸ hSecond)
    · exact Or.inr
        ⟨hFirst.trans hSecond, hName.trans hNext⟩

/- The result is sorted and has no id twice. -/
theorem sorted_parseHierarchy
    {payload : Json}
    {baseId : Text}
    {laws : List (Text × Text)}
    (hLaws : parseHierarchy repr payload baseId = some laws) :
    (laws.map Prod.fst).Pairwise (· < ·) := by
  rcases Option.map_eq_some_iff.mp hLaws with ⟨tree, -, rfl⟩
  have hSorted :=
    List.pairwise_insertionSort itemLe (walk repr baseId [] tree)
  have hNodup :
      (((walk repr baseId [] tree).insertionSort itemLe).map
        Prod.fst).Nodup := by
    rw [((List.perm_insertionSort itemLe _).map
      Prod.fst).nodup_iff, walk_eq_foldl]
    exact nodup_keys_foldl_recordLaw repr _ List.nodup_nil
  rw [List.pairwise_map]
  have hDistinct := List.pairwise_map.mp hNodup
  refine hSorted.imp₂ ?_ hDistinct
  rintro first second (hLess | ⟨hEq, -⟩) hNe
  · exact hLess
  · exact absurd hEq hNe

------------------------------------------------------------
-- Subordinates
------------------------------------------------------------

/-
  A result that shows the subordinates of a base: sorted,
  without duplicates, and with the ids of exactly the named
  laws strictly below the base.
-/
structure Subordinates
    (baseId : Text)
    (base : Json)
    (laws : List (Text × Text)) : Prop where
  sorted : (laws.map Prod.fst).Pairwise (· < ·)
  exact : ∀ id,
    id ∈ laws.map Prod.fst ↔
      id ≠ baseId ∧ ∃ node ∈ below base, Names repr node id

/-
  A hierarchy in which the kind of a law tells its place:
  beside and above the base there are only acts, or laws that
  also stand below it, and a law that stands below it as an
  act also stands somewhere as no act.
-/
structure OnlyActsBeside
    (baseId : Text)
    (tree base : Json) : Prop where
  beside : ∀ node ∈ outside repr baseId tree, ∀ id,
    Names repr node id →
      isAct node = false →
        ∃ other ∈ below base, Names repr other id
  beneath : ∀ node ∈ below base, ∀ id,
    Names repr node id →
      isAct node = true →
        ∃ other ∈ outside repr baseId tree ++ below base,
          Names repr other id ∧ isAct other = false

/- The base of a tree with one base. -/
theorem of_baseNodes_eq
    {baseId : Text}
    {tree base : Json}
    (hBase : baseNodes repr baseId tree = [base]) :
    base ∈ nodes tree ∧ lawId? repr base = some baseId ∧
      ∀ other ∈ nodes tree,
        lawId? repr other = some baseId → other = base := by
  have hMem : base ∈ baseNodes repr baseId tree := by
    rw [hBase]
    exact List.mem_singleton_self base
  rcases List.mem_filter.mp hMem with ⟨hNode, hId⟩
  refine ⟨hNode, of_decide_eq_true hId, ?_⟩
  intro other hOther hOtherId
  have hOtherMem : other ∈ baseNodes repr baseId tree :=
    List.mem_filter.mpr ⟨hOther, decide_eq_true hOtherId⟩
  rw [hBase] at hOtherMem
  exact List.mem_singleton.mp hOtherMem

/- The base does not stand below itself. -/
theorem lawId?_of_mem_below
    {baseId : Text}
    {tree base node : Json}
    (hBase : baseNodes repr baseId tree = [base])
    (hNode : node ∈ below base) :
    lawId? repr node ≠ some baseId := by
  intro hId
  rcases of_baseNodes_eq repr hBase with ⟨hMem, hBaseId, -⟩
  have hSublist :=
    (nodes_together tree hMem).sublist.filter fun node =>
      decide (lawId? repr node = some baseId)
  rw [nodes_eq_cons_below repr hBaseId,
    List.filter_cons_of_pos (by simpa using hBaseId)]
    at hSublist
  have hLength := hSublist.length_le
  rw [← baseNodes, hBase, List.length_cons,
    List.length_singleton] at hLength
  have hBelow :
      node ∈ (below base).filter fun node =>
        decide (lawId? repr node = some baseId) :=
    List.mem_filter.mpr ⟨hNode, decide_eq_true hId⟩
  have hPositive := List.length_pos_of_mem hBelow
  omega

/- The objects of a tree with one base, the base apart. -/
theorem mem_nodes_iff
    {baseId : Text}
    {tree base node : Json}
    (hBase : baseNodes repr baseId tree = [base])
    (hNode : lawId? repr node ≠ some baseId) :
    node ∈ nodes tree ↔
      node ∈ outside repr baseId tree ∨ node ∈ below base := by
  rcases of_baseNodes_eq repr hBase with ⟨hMem, hBaseId, hOnly⟩
  constructor
  · intro hTree
    cases mem_nodes_cases repr tree hTree with
    | inl hOutside => exact Or.inl hOutside
    | inr hIn =>
        rcases hIn with ⟨other, hOther, hOtherId, hInner⟩
        rw [hOnly other hOther hOtherId,
          nodes_eq_cons_below repr hBaseId] at hInner
        rcases List.mem_cons.mp hInner with rfl | hBelow
        · exact absurd hBaseId hNode
        · exact Or.inr hBelow
  · rintro (hOutside | hBelow)
    · exact (of_mem_outside repr tree hOutside).1
    · apply (nodes_together tree hMem).subset
      rw [nodes_eq_cons_below repr hBaseId]
      exact List.mem_cons_of_mem base hBelow

/-
  The result shows the subordinates of the base exactly when
  only acts stand beside and above the base.
-/
theorem parseHierarchy_subordinates_iff
    {payload tree base : Json}
    {baseId : Text}
    {laws : List (Text × Text)}
    (hTree : lawTree? payload = some tree)
    (hBase : baseNodes repr baseId tree = [base])
    (hLaws : parseHierarchy repr payload baseId = some laws) :
    Subordinates repr baseId base laws ↔
      OnlyActsBeside repr baseId tree base := by
  have hKeys : ∀ id, id ∈ laws.map Prod.fst ↔
      ∃ node ∈ nodes tree,
        Names repr node id ∧ id ≠ baseId ∧
          isAct node = false :=
    fun _ => mem_keys_parseHierarchy repr hTree hLaws
  constructor
  · intro hSub
    constructor
    · intro node hNode id hNames hAct
      rcases of_mem_outside repr tree hNode with ⟨hMem, hId⟩
      have hNe : id ≠ baseId := by
        rintro rfl
        exact hId hNames.1
      exact
        ((hSub.exact id).mp
          ((hKeys id).mpr ⟨node, hMem, hNames, hNe, hAct⟩)).2
    · intro node hNode id hNames _
      have hNe : id ≠ baseId := by
        rintro rfl
        exact lawId?_of_mem_below repr hBase hNode hNames.1
      rcases
          (hKeys id).mp
            ((hSub.exact id).mpr ⟨hNe, node, hNode, hNames⟩) with
        ⟨other, hOther, hOtherNames, -, hOtherAct⟩
      have hOtherId : lawId? repr other ≠ some baseId := by
        rw [hOtherNames.1]
        exact fun hEq => hNe (Option.some.inj hEq)
      exact
        ⟨other,
          List.mem_append.mpr
            ((mem_nodes_iff repr hBase hOtherId).mp hOther),
          hOtherNames, hOtherAct⟩
  · intro hOnly
    refine ⟨sorted_parseHierarchy repr hLaws, ?_⟩
    intro id
    rw [hKeys]
    constructor
    · rintro ⟨node, hNode, hNames, hNe, hAct⟩
      have hNodeId : lawId? repr node ≠ some baseId := by
        rw [hNames.1]
        exact fun hEq => hNe (Option.some.inj hEq)
      refine ⟨hNe, ?_⟩
      rcases (mem_nodes_iff repr hBase hNodeId).mp hNode with
        hOutside | hBelow
      · exact hOnly.beside node hOutside id hNames hAct
      · exact ⟨node, hBelow, hNames⟩
    · rintro ⟨hNe, node, hNode, hNames⟩
      have hMem : ∀ other, Names repr other id →
          other ∈ outside repr baseId tree ++ below base →
            other ∈ nodes tree := by
        intro other hOther hPlace
        have hOtherId : lawId? repr other ≠ some baseId := by
          rw [hOther.1]
          exact fun hEq => hNe (Option.some.inj hEq)
        exact
          (mem_nodes_iff repr hBase hOtherId).mpr
            (List.mem_append.mp hPlace)
      cases hAct : isAct node with
      | false =>
          exact
            ⟨node,
              hMem node hNames (List.mem_append_right _ hNode),
              hNames, hNe, hAct⟩
      | true =>
          rcases hOnly.beneath node hNode id hNames hAct with
            ⟨other, hPlace, hOther, hOtherAct⟩
          exact
            ⟨other, hMem other hOther hPlace, hOther, hNe,
              hOtherAct⟩

end Tree

------------------------------------------------------------
-- A Decree As Base
------------------------------------------------------------

/- The basic information of a law with an id, name and kind. -/
def basicInfo (id name kind : Text) : Text × Json :=
  ("기본정보".toList,
    .obj
      [("법령ID".toList, .str id),
        ("법령명".toList, .str name),
        ("법종구분".toList,
          .obj [("content".toList, .str kind)])])

/- A decree with the rule below it, if any. -/
def decreeNode (rules : List (Text × Json)) : Json :=
  .obj
    (basicInfo "2".toList "시행령".toList "대통령령".toList ::
      rules)

/- A rule. -/
def ruleNode : Json :=
  .obj [basicInfo "3".toList "시행규칙".toList "부령".toList]

/- An act with what stands below it. -/
def actTree (children : List (Text × Json)) : Json :=
  .obj
    [("법률".toList,
      .obj
        (basicInfo "1".toList "법".toList "법률".toList ::
          children))]

/- A hierarchy with a tree. -/
def hierarchyOf (tree : Json) : Json :=
  .obj
    [("법령체계도".toList, .obj [("상하위법".toList, tree)])]

/- An act with a decree and a rule beside it. -/
def besideTree : Json :=
  actTree
    [("대통령령".toList, decreeNode []),
      ("부령".toList, ruleNode)]

/- An act with a decree and a rule below that. -/
def beneathTree : Json :=
  actTree
    [("대통령령".toList,
      decreeNode [("부령".toList, ruleNode)])]

/-
  Asked for the laws below the decree, the code answers with
  the rule that stands beside it.
-/
theorem parseHierarchy_shows_sibling :
    ¬ ∀ (repr : Json → Text) (payload tree base : Json)
        (baseId : Text) (laws : List (Text × Text)),
      lawTree? payload = some tree →
        baseNodes repr baseId tree = [base] →
          parseHierarchy repr payload baseId = some laws →
            Subordinates repr baseId base laws := by
  intro hAll
  have hSub :=
    hAll (fun _ => []) (hierarchyOf besideTree) besideTree
      (decreeNode []) "2".toList _ rfl rfl rfl
  have hNodes :
      nodes besideTree =
        [besideTree, _, decreeNode [], ruleNode] := rfl
  have hMem : ruleNode ∈ nodes besideTree := by
    rw [hNodes]
    simp
  have hRule :=
    (@mem_keys_parseHierarchy (fun _ => [])
      (hierarchyOf besideTree) besideTree "2".toList "3".toList
      _ rfl rfl).mpr
      ⟨ruleNode, hMem, ⟨rfl, by decide, by decide⟩, by decide,
        rfl⟩
  rcases (hSub.exact _).mp hRule with ⟨-, node, hNode, -⟩
  cases hNode

end Law

end LegalAgent
