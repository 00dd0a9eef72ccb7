import LegalAgent.Text.Marker

/-
  Markers in normal form.

  A draft is checked and stored with its markers rewritten in
  lower case and without white space around their ids.  The
  rewriting makes no marker where none was, so every marker of
  the rewritten draft is one that was written by it.

  Key theorems include:
    * `readCite_normalise`
    * `marker_inside_of_mem`
    * `mem_of_mem_normalise`
-/

------------------------------------------------------------
-- Rewritten Texts
------------------------------------------------------------

namespace LegalAgent

open Library

/- A normalised text starts as the text did, or with a marker. -/
theorem head_of_normalise
    {body rest : Text}
    {c : Char}
    (hBody : normaliseMarkers body = c :: rest) :
    (∃ text,
        body = c :: text ∧ rest = normaliseMarkers text) ∨
      c = '[' ∧ ∃ more, rest = '[' :: more := by
  cases body with
  | nil =>
      rw [normaliseMarkers, cite.replace_nil] at hBody
      cases hBody
  | cons d text =>
      cases hRead : cite.read (d :: text) with
      | none =>
          rw [normaliseMarkers,
            cite.replace_of_read_none hRead] at hBody
          rcases List.cons.inj hBody with ⟨rfl, rfl⟩
          exact Or.inl ⟨text, rfl, rfl⟩
      | some found =>
          rw [normaliseMarkers,
            cite.replace_of_read_some hRead] at hBody
          rcases List.cons.inj hBody with ⟨rfl, rfl⟩
          exact Or.inr ⟨rfl, _, rfl⟩

/- A part without `[` is as it was. -/
theorem word_of_normalise
    {word body rest : Text}
    (hWord : '[' ∉ word)
    (hBody : normaliseMarkers body = word ++ rest) :
    ∃ text,
      body = word ++ text ∧ rest = normaliseMarkers text := by
  induction word generalizing body with
  | nil => exact ⟨body, rfl, hBody.symm⟩
  | cons c word ih =>
      rw [List.mem_cons, not_or] at hWord
      rcases head_of_normalise hBody with
        ⟨text, rfl, hText⟩ | ⟨rfl, -⟩
      · rcases ih hWord.2 hText.symm with ⟨more, rfl, hMore⟩
        exact ⟨more, rfl, hMore⟩
      · exact absurd rfl hWord.1

/- An opening has no closing bracket. -/
theorem close_not_mem_opening
    {opening : Text}
    (hOpening :
      List.Forall₂ (fun p c => p c = true) citeOpen opening) :
    ']' ∉ opening := by
  intro hMem
  simp only [citeOpen, List.forall₂_cons_left_iff,
    List.forall₂_nil_left_iff, decide_eq_true_eq,
    Bool.or_eq_true] at hOpening
  rcases hOpening with
    ⟨_, _, rfl, ⟨_, _, rfl, ⟨c, _, hc, ⟨i, _, hi,
      ⟨t, _, ht, ⟨e, _, he, ⟨_, _, rfl, rfl, rfl⟩,
      rfl⟩, rfl⟩, rfl⟩, rfl⟩, rfl⟩, rfl⟩
  simp only [List.mem_cons, List.not_mem_nil, or_false] at hMem
  rcases hMem with hMem | hMem | hMem | hMem | hMem | hMem | hMem
  · simp at hMem
  · simp at hMem
  · subst hMem
    simp at hc
  · subst hMem
    simp at hi
  · subst hMem
    simp at ht
  · subst hMem
    simp at he
  · simp at hMem

/-
  A normalised text whose first closing bracket is doubled was
  such a text before.
-/
theorem close_of_normalise
    {body id rest : Text}
    (hClosed : ']' ∉ id)
    (hBody : normaliseMarkers body = id ++ ']' :: ']' :: rest) :
    ∃ id' rest',
      body = id' ++ ']' :: ']' :: rest' ∧
        ']' ∉ id' ∧ (id' = [] → id = []) := by
  induction body using cite.scanInduction generalizing id with
  | nil =>
      rw [normaliseMarkers, cite.replace_nil] at hBody
      cases id <;> cases hBody
  | hit c text raw behind hRead ih =>
      rcases readCite_eq_some_iff.mp hRead with
        ⟨opening, hOpening, hRaw, hRawClosed, hText⟩
      refine ⟨opening ++ raw, behind, hText, ?_, ?_⟩
      · rw [List.mem_append, not_or]
        exact ⟨close_not_mem_opening hOpening, hRawClosed⟩
      · intro hEmpty
        exact absurd (List.append_eq_nil_iff.mp hEmpty).2 hRaw
  | plain c text hRead ih =>
      cases id with
      | nil =>
          have hWord : '[' ∉ [']', ']'] := by decide
          rcases word_of_normalise hWord hBody with
            ⟨more, hMore, -⟩
          exact ⟨[], more, hMore, hClosed, fun _ => rfl⟩
      | cons d id =>
          rw [List.mem_cons, not_or] at hClosed
          rw [normaliseMarkers,
            cite.replace_of_read_none hRead, List.cons_append,
            List.cons.injEq] at hBody
          rcases hBody with ⟨rfl, hBody⟩
          rcases ih hClosed.2 hBody with
            ⟨id', rest', rfl, hClosed', -⟩
          refine ⟨c :: id', rest', rfl, ?_, ?_⟩
          · rw [List.mem_cons, not_or]
            exact ⟨hClosed.1, hClosed'⟩
          · intro hEmpty
            cases hEmpty

/- Where no marker was, the rewriting makes none. -/
theorem readCite_normalise
    {c : Char}
    {text : Text}
    (hRead : readCite (c :: text) = none) :
    readCite (c :: normaliseMarkers text) = none := by
  rw [Option.eq_none_iff_forall_ne_some]
  rintro ⟨id, rest⟩ hFound
  rcases readCite_eq_some_iff.mp hFound with
    ⟨opening, hOpening, hId, hClosed, hText⟩
  have hSame := hOpening
  simp only [citeOpen, List.forall₂_cons_left_iff,
    List.forall₂_nil_left_iff, decide_eq_true_eq,
    Bool.or_eq_true] at hSame
  rcases hSame with
    ⟨_, _, rfl, ⟨_, _, rfl, ⟨x, _, hx, ⟨i, _, hi,
      ⟨t, _, ht, ⟨e, _, he, ⟨_, _, rfl, rfl, rfl⟩,
      rfl⟩, rfl⟩, rfl⟩, rfl⟩, rfl⟩, rfl⟩
  simp only [List.cons_append, List.nil_append,
    List.cons.injEq] at hText
  rcases hText with ⟨rfl, hText⟩
  rcases head_of_normalise hText with
    ⟨behind, rfl, hBehind⟩ | ⟨-, more, hMore⟩
  · have hWord : '[' ∉ [x, i, t, e, ':'] := by
      intro hMem
      simp only [List.mem_cons, List.not_mem_nil, or_false]
        at hMem
      rcases hMem with rfl | rfl | rfl | rfl | hMem
      · simp at hx
      · simp at hi
      · simp at ht
      · simp at he
      · simp at hMem
    rcases word_of_normalise hWord hBehind.symm with
      ⟨inner, rfl, hInner⟩
    rcases close_of_normalise hClosed hInner.symm with
      ⟨id', rest', rfl, hClosed', hEmpty⟩
    have hSome :
        readCite
            ('[' :: '[' ::
              ([x, i, t, e, ':'] ++
                (id' ++ ']' :: ']' :: rest'))) =
          some (id', rest') := by
      apply readCite_eq_some_iff.mpr
      refine
        ⟨['[', '[', x, i, t, e, ':'], hOpening,
          fun hNil => hId (hEmpty hNil), hClosed', ?_⟩
      simp
    rw [hSome] at hRead
    cases hRead
  · rcases List.cons.inj hMore with ⟨rfl, -⟩
    simp at hx

/- The marker of an id without text is none. -/
theorem citeFindall_marker_nil (text : Text) :
    citeFindall (marker [] ++ text) = citeFindall text := by
  have hNone :
      readCite (marker [] ++ text) = none := by
    simp [marker, readCite, citeOpen, readWord, notClose]
  have hSecond :
      readCite
          ('[' :: ['c', 'i', 't', 'e', ':', ']', ']'] ++ text) =
        none := by
    simp [readCite, citeOpen, readWord]
  have hWord :
      '[' ∉ ['c', 'i', 't', 'e', ':', ']', ']'] := by
    decide
  calc
    citeFindall (marker [] ++ text)
    _ = citeFindall
          ('[' :: ['c', 'i', 't', 'e', ':', ']', ']'] ++
            text) :=
      cite.hits_of_read_none hNone
    _ = citeFindall
          (['c', 'i', 't', 'e', ':', ']', ']'] ++ text) :=
      cite.hits_of_read_none hSecond
    _ = citeFindall text := citeFindall_append_left hWord text

------------------------------------------------------------
-- Their Markers
------------------------------------------------------------

/- The markers of a normalised text are in normal form. -/
theorem marker_inside_of_mem
    {body id : Text}
    (hMem : id ∈ citeFindall (normaliseMarkers body)) :
    marker id <:+: normaliseMarkers body := by
  induction body using cite.scanInduction with
  | nil =>
      rw [normaliseMarkers, cite.replace_nil] at hMem
      cases hMem
  | hit c text raw rest hRead ih =>
      have hBody :
          normaliseMarkers (c :: text) =
            marker (Text.strip raw) ++ normaliseMarkers rest :=
        cite.replace_of_read_some hRead
      rw [hBody] at hMem ⊢
      have hBehind :
          id ∈ citeFindall (normaliseMarkers rest) →
            marker id <:+:
              marker (Text.strip raw) ++
                normaliseMarkers rest := by
        intro hRest
        exact
          (ih hRest).trans (List.suffix_append _ _).isInfix
      by_cases hEmpty : Text.strip raw = []
      · rw [hEmpty, citeFindall_marker_nil] at hMem
        exact hBehind hMem
      · rcases readCite_eq_some_iff.mp hRead with
          ⟨_, _, _, hClosed, _⟩
        have hMarker :
            cite.read
                ('[' ::
                  (['[', 'c', 'i', 't', 'e', ':'] ++
                        Text.strip raw ++ [']', ']'] ++
                    normaliseMarkers rest)) =
              some (Text.strip raw, normaliseMarkers rest) :=
          readCite_marker hEmpty
            (fun hIn => hClosed (Text.mem_of_mem_strip hIn)) _
        have hHits :
            citeFindall
                (marker (Text.strip raw) ++
                  normaliseMarkers rest) =
              Text.strip raw ::
                citeFindall (normaliseMarkers rest) :=
          cite.hits_of_read_some hMarker
        rw [hHits] at hMem
        rcases List.mem_cons.mp hMem with rfl | hRest
        · exact (List.prefix_append _ _).isInfix
        · exact hBehind hRest
  | plain c text hRead ih =>
      have hBody :
          normaliseMarkers (c :: text) =
            c :: normaliseMarkers text :=
        cite.replace_of_read_none hRead
      rw [hBody] at hMem ⊢
      rw [citeFindall,
        cite.hits_of_read_none (readCite_normalise hRead)]
        at hMem
      exact (ih hMem).trans (List.suffix_cons _ _).isInfix

/- A normalised text has no other characters than markers have. -/
theorem mem_of_mem_normalise
    {body : Text}
    {c : Char}
    (hMem : c ∈ normaliseMarkers body) :
    c ∈ body ∨ c ∈ marker [] := by
  induction body using cite.scanInduction with
  | nil =>
      rw [normaliseMarkers, cite.replace_nil] at hMem
      cases hMem
  | hit d text raw rest hRead ih =>
      rcases readCite_eq_some_iff.mp hRead with
        ⟨opening, _, _, _, hText⟩
      have hBody :
          normaliseMarkers (d :: text) =
            marker (Text.strip raw) ++ normaliseMarkers rest :=
        cite.replace_of_read_some hRead
      rw [hBody, List.mem_append] at hMem
      rcases hMem with hMarker | hRest
      · simp only [marker, List.mem_append] at hMarker
        rcases hMarker with (hOpen | hId) | hClose
        · right
          simp only [marker, List.append_nil, List.mem_append]
          exact Or.inl hOpen
        · left
          rw [hText]
          simp [Text.mem_of_mem_strip hId]
        · right
          simp only [marker, List.append_nil, List.mem_append]
          exact Or.inr hClose
      · rcases ih hRest with hOld | hNew
        · left
          rw [hText]
          simp [hOld]
        · exact Or.inr hNew
  | plain d text hRead ih =>
      have hBody :
          normaliseMarkers (d :: text) =
            d :: normaliseMarkers text :=
        cite.replace_of_read_none hRead
      rw [hBody] at hMem
      rcases List.mem_cons.mp hMem with rfl | hRest
      · exact Or.inl List.mem_cons_self
      · rcases ih hRest with hOld | hNew
        · exact Or.inl (List.mem_cons_of_mem _ hOld)
        · exact Or.inr hNew

end LegalAgent
