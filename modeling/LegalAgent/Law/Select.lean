import LegalAgent.Library.Words
import LegalAgent.Text.Marker

/-
  Bound queries (`FusekiGraph.select`).

  A template names its bindings by tokens, a dollar sign and
  the name.  The code replaces the tokens of one binding after
  the other, each in the text that the earlier ones have left;
  what it is for is to replace all tokens of the template at
  once.

  Key definitions include:
    * `selectQuery`
    * `bindingToken`
    * `substitute`
    * `Simultaneous`
    * `Undisturbed`

  Key theorems include:
    * `replaceWord_shown_iff`
    * `select_simultaneous_iff`
-/

------------------------------------------------------------
-- Queries
------------------------------------------------------------

namespace LegalAgent

open Library Library.Matcher

namespace Law

/- A bound value: a term of the graph, or a plain text. -/
inductive BoundValue (Term : Type) where
  | term (value : Term)
  | plain (value : Text)

section Select

variable {Term : Type} (n3 : Term → Text)
variable (literal : Text → Term)

/- The text of a value; a plain text becomes a literal. -/
def BoundValue.text : BoundValue Term → Text
| .term value => n3 value
| .plain value => n3 (literal value)

/- The query that is sent for a template (`select`). -/
def selectQuery
    (template : Text)
    (bindings : List (Text × BoundValue Term)) :
    Text :=
  bindings.foldl
    (fun query binding =>
      replaceWord '$' binding.1 (binding.2.text n3 literal) query)
    template

------------------------------------------------------------
-- Tokens Of A Template
------------------------------------------------------------

/- The longest of the names with which a text starts. -/
def longestName? (names : List Text) (text : Text) :
    Option Text :=
  names.foldl
    (fun best name =>
      if name <+: text ∧
          best.all (fun other => other.length < name.length) then
        some name
      else
        best)
    none

/- A text starts with the name that is found. -/
theorem prefix_of_longestName?
    {names : List Text}
    {text name : Text}
    (hName : longestName? names text = some name) :
    name <+: text := by
  have hFold : ∀ (names : List Text) (best : Option Text),
      (∀ other ∈ best, other <+: text) →
        ∀ name ∈ names.foldl
          (fun best name =>
            if name <+: text ∧
                best.all
                  (fun other => other.length < name.length) then
              some name
            else
              best) best,
          name <+: text := by
    intro names
    induction names with
    | nil => exact fun _ hBest => hBest
    | cons first names ih =>
        intro best hBest
        apply ih
        dsimp only
        split
        · rename_i hCond
          intro other hOther
          cases hOther
          exact hCond.1
        · exact hBest
  exact hFold names none (fun _ hNone => by cases hNone) name
    hName

/- Tokens of bindings, the longest name first. -/
def bindingToken (names : List Text) : Matcher Char Text where
  read
    | '$' :: rest =>
        (longestName? names rest).map fun name =>
          (name, rest.drop name.length)
    | _ => none
  consumes := by
    intro input value rest hRead
    split at hRead
    · rename_i text
      rcases Option.map_eq_some_iff.mp hRead with ⟨name, -, hEq⟩
      rcases Prod.mk.inj hEq with ⟨-, rfl⟩
      exact
        ⟨'$' :: text.take name.length, List.cons_ne_nil _ _,
          by rw [List.cons_append, List.take_append_drop]⟩
    · cases hRead

/- A token is a dollar sign and its name. -/
theorem eq_of_read_bindingToken
    {names : List Text}
    {input name rest : Text}
    (hRead :
      (bindingToken names).read input = some (name, rest)) :
    input = '$' :: (name ++ rest) := by
  simp only [bindingToken] at hRead
  split at hRead
  · rcases Option.map_eq_some_iff.mp hRead with
      ⟨found, hFound, hEq⟩
    rcases Prod.mk.inj hEq with ⟨rfl, rfl⟩
    rcases prefix_of_longestName? hFound with ⟨more, rfl⟩
    rw [List.drop_left]
  · cases hRead

/- A part of a template with some bindings filled in. -/
def shown
    (done : List (Text × BoundValue Term)) :
    Token Char Text → Text
| .plain c => [c]
| .hit name =>
    match done.lookup name with
    | some value => value.text n3 literal
    | none => '$' :: name

/-
  Replace the tokens of some bindings in a template, all at
  once.
-/
def substitute
    (names : List Text)
    (template : Text)
    (done : List (Text × BoundValue Term)) :
    Text :=
  ((bindingToken names).scan template).flatMap
    (shown n3 literal done)

/-
  The query is a simultaneous substitution: after each pass of
  the loop it is the template in which exactly the tokens of
  the bindings so far are replaced, and in the end all are.
-/
def Simultaneous
    (template : Text)
    (bindings : List (Text × BoundValue Term)) : Prop :=
  ∀ done todo,
    bindings = done ++ todo →
      selectQuery n3 literal template done =
        substitute n3 literal (bindings.map Prod.fst) template
          done

/-
  No name disturbs another: where the tokens of the earlier
  bindings are filled in, the dollar sign and the name stand
  nowhere but at the tokens of the name.
-/
def Undisturbed
    (template : Text)
    (bindings : List (Text × BoundValue Term)) : Prop :=
  ∀ done name value todo,
    bindings = done ++ (name, value) :: todo →
      ∀ front token back,
        (bindingToken (bindings.map Prod.fst)).scan template =
            front ++ token :: back →
          token ≠ .hit name →
            Clear ('$' :: name) (shown n3 literal done token)
              (back.flatMap (shown n3 literal done))

/- Without bindings a template stays as it is. -/
theorem substitute_nil
    (names : List Text)
    (template : Text) :
    substitute n3 literal names template [] = template := by
  rw [substitute]
  induction template using (bindingToken names).scanInduction with
  | nil => rfl
  | hit c text name rest hRead ih =>
      simp only [scan_cons, hRead, List.flatMap_cons, ih]
      exact (eq_of_read_bindingToken hRead).symm
  | plain c text hRead ih =>
      simp only [scan_cons, hRead, List.flatMap_cons, ih]
      rfl

/- What holds at every split of a list holds at its head. -/
theorem forall_split_cons_iff
    {α : Type}
    {P : α → List α → Prop}
    {item : α}
    {items : List α} :
    (∀ front other back,
      item :: items = front ++ other :: back → P other back) ↔
      P item items ∧
        ∀ front other back,
          items = front ++ other :: back → P other back := by
  constructor
  · intro hAll
    refine ⟨hAll [] item items rfl, ?_⟩
    intro front other back hSplit
    exact hAll (item :: front) other back (by rw [hSplit]; rfl)
  · rintro ⟨hHead, hRest⟩ front other back hSplit
    cases front with
    | nil =>
        rcases List.cons.inj hSplit with ⟨rfl, rfl⟩
        exact hHead
    | cons first front =>
        exact hRest front other back (List.cons.inj hSplit).2

/- A pass fills in the tokens of its name. -/
theorem shown_concat
    {done : List (Text × BoundValue Term)}
    {name : Text}
    (hNew : done.lookup name = none)
    (value : BoundValue Term)
    (token : Token Char Text) :
    (token = .hit name ∧
        shown n3 literal done token = '$' :: name ∧
        shown n3 literal (done ++ [(name, value)]) token =
          value.text n3 literal) ∨
      (token ≠ .hit name ∧
        shown n3 literal (done ++ [(name, value)]) token =
          shown n3 literal done token) := by
  cases token with
  | plain c =>
      right
      refine ⟨?_, rfl⟩
      intro hEq
      cases hEq
  | hit other =>
      by_cases hName : other = name
      · subst hName
        left
        simp [shown, hNew, List.lookup_append]
      · right
        refine ⟨fun hEq => hName (Token.hit.inj hEq), ?_⟩
        have hBeq : (other == name) = false := by
          simpa using hName
        simp [shown, List.lookup_append, List.lookup_cons, hBeq]

/-
  A pass replaces exactly the tokens of its name when the name
  disturbs no other part of the template.
-/
theorem replaceWord_shown_iff
    {done : List (Text × BoundValue Term)}
    {name : Text}
    (hNew : done.lookup name = none)
    {value : BoundValue Term}
    (hHead : (value.text n3 literal).head? ≠ some '$')
    (hNil : value.text n3 literal ≠ [])
    (tokens : List (Token Char Text)) :
    replaceWord '$' name (value.text n3 literal)
          (tokens.flatMap (shown n3 literal done)) =
        tokens.flatMap
          (shown n3 literal (done ++ [(name, value)])) ↔
      ∀ front token back,
        tokens = front ++ token :: back →
          token ≠ .hit name →
            Clear ('$' :: name) (shown n3 literal done token)
              (back.flatMap (shown n3 literal done)) := by
  induction tokens with
  | nil =>
      apply iff_of_true rfl
      intro front token back hSplit
      simp at hSplit
  | cons token tokens ih =>
      rw [forall_split_cons_iff, ← ih, List.flatMap_cons,
        List.flatMap_cons]
      rcases shown_concat n3 literal hNew value token with
        ⟨hToken, hBefore, hAfter⟩ | ⟨hToken, hAfter⟩
      · rw [hBefore, hAfter, replaceWord_append,
          List.append_cancel_left_eq]
        constructor
        · exact fun hRest =>
            ⟨fun hNe => absurd hToken hNe, hRest⟩
        · exact And.right
      · rw [hAfter, replaceWord_append_iff hHead hNil]
        constructor
        · rintro ⟨hClear, hRest⟩
          exact ⟨fun _ => hClear, hRest⟩
        · rintro ⟨hClear, hRest⟩
          exact ⟨hClear hToken, hRest⟩

/-
  The query is a simultaneous substitution exactly when no
  name disturbs another.  A term is written as one token, in
  quotes or in angle brackets.
-/
theorem select_simultaneous_iff
    (hToken : ∀ term, ∃ rest,
      n3 term = '"' :: rest ∨ n3 term = '<' :: rest)
    {template : Text}
    {bindings : List (Text × BoundValue Term)}
    (hNames : (bindings.map Prod.fst).Nodup) :
    Simultaneous n3 literal template bindings ↔
      Undisturbed n3 literal template bindings := by
  have hValue : ∀ value : BoundValue Term,
      (value.text n3 literal).head? ≠ some '$' ∧
        value.text n3 literal ≠ [] := by
    intro value
    have hTerm : ∃ rest,
        value.text n3 literal = '"' :: rest ∨
          value.text n3 literal = '<' :: rest := by
      cases value with
      | term value => exact hToken value
      | plain value => exact hToken (literal value)
    rcases hTerm with ⟨rest, hQuote | hAngle⟩
    · rw [hQuote]
      exact ⟨by simp, List.cons_ne_nil _ _⟩
    · rw [hAngle]
      exact ⟨by simp, List.cons_ne_nil _ _⟩
  have hNew : ∀ done name value todo,
      bindings = done ++ (name, value) :: todo →
        done.lookup name = none := by
    intro done name value todo hSplit
    rw [hSplit, List.map_append, List.nodup_append] at hNames
    rw [List.lookup_eq_none_iff]
    intro entry hEntry
    have hNe : entry.1 ≠ name :=
      hNames.2.2 entry.1 (List.mem_map_of_mem hEntry) name
        List.mem_cons_self
    simpa using Ne.symm hNe
  have hStep : ∀ done name value todo,
      bindings = done ++ (name, value) :: todo →
        selectQuery n3 literal template
            (done ++ [(name, value)]) =
          replaceWord '$' name (value.text n3 literal)
            (selectQuery n3 literal template done) := by
    intro done name value todo _
    rw [selectQuery, List.foldl_append]
    rfl
  constructor
  · intro hAll done name value todo hSplit
    apply (replaceWord_shown_iff n3 literal
      (hNew done name value todo hSplit) (hValue value).1
      (hValue value).2 _).mp
    have hBefore := hAll done ((name, value) :: todo) hSplit
    have hAfter := hAll (done ++ [(name, value)]) todo
      (by rw [hSplit, List.append_assoc]; rfl)
    rw [hStep done name value todo hSplit, hBefore] at hAfter
    exact hAfter
  · intro hClear done
    induction done using List.reverseRecOn with
    | nil =>
        intro todo _
        rw [substitute_nil]
        rfl
    | append_singleton done binding ih =>
        rcases binding with ⟨name, value⟩
        intro todo hSplit
        have hSplit' : bindings = done ++ (name, value) :: todo := by
          rw [hSplit, List.append_assoc]
          rfl
        rw [hStep done name value todo hSplit',
          ih ((name, value) :: todo) hSplit']
        exact
          (replaceWord_shown_iff n3 literal
            (hNew done name value todo hSplit')
            (hValue value).1 (hValue value).2 _).mpr
            (hClear done name value todo hSplit')

end Select

/- A plain text in quotes. -/
def quoted (text : Text) : Text :=
  '"' :: (text ++ ['"'])

/-
  The value of the first binding names the second: its text is
  replaced in the value, and the query has another literal.
-/
theorem select_rescans_value :
    ¬ ∀ (Term : Type) (n3 : Term → Text)
        (literal : Text → Term) (template : Text)
        (bindings : List (Text × BoundValue Term)),
      (∀ term, ∃ rest,
        n3 term = '"' :: rest ∨ n3 term = '<' :: rest) →
        (bindings.map Prod.fst).Nodup →
          selectQuery n3 literal template bindings =
            substitute n3 literal (bindings.map Prod.fst)
              template bindings := by
  intro hAll
  have hQuery :=
    hAll Text quoted id "$a".toList
      [("a".toList, .plain "$b".toList),
        ("b".toList, .plain "x".toList)]
      (fun text => ⟨text ++ ['"'], Or.inl rfl⟩) (by decide)
  revert hQuery
  decide

/- Two bindings, of which the longer name comes first. -/
theorem select_simultaneous_two :
    Simultaneous quoted id "$ab $a".toList
      [("ab".toList, .plain "y".toList),
        ("a".toList, .plain "x".toList)] := by
  refine
    (select_simultaneous_iff quoted id
      (fun text => ⟨text ++ ['"'], Or.inl rfl⟩)
      (by decide)).mpr ?_
  intro done name value todo hSplit
  cases done with
  | nil =>
      rcases List.cons.inj hSplit with ⟨hEntry, -⟩
      rcases Prod.mk.inj hEntry with ⟨rfl, rfl⟩
      exact
        (@replaceWord_shown_iff Text quoted id [] "ab".toList
          rfl (.plain "y".toList) (by decide) (by decide)
          _).mp (by decide)
  | cons first done =>
      rcases List.cons.inj hSplit with ⟨rfl, hRest⟩
      cases done with
      | nil =>
          rcases List.cons.inj hRest with ⟨hEntry, -⟩
          rcases Prod.mk.inj hEntry with ⟨rfl, rfl⟩
          exact
            (@replaceWord_shown_iff Text quoted id
              [("ab".toList, .plain "y".toList)] "a".toList
              rfl (.plain "x".toList) (by decide) (by decide)
              _).mp (by decide)
      | cons second done =>
          have hNil := (List.cons.inj hRest).2
          simp at hNil

end Law

end LegalAgent
