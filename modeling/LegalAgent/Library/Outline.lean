import LegalAgent.Library.Transition

/-
  Proof outlines for parties that share a state.

  An outline asserts something of the shared state, something
  of each party, and something of each two parties.  When one
  party moves, it has to keep what is asserted of the shared
  state and of itself, and it must not interfere with what is
  asserted of another party.

  Key definitions include:
    * `Outline`
    * `Outline.Holds`
    * `Outline.Keeps`
    * `Outline.Bears`

  Key theorems include:
    * `Outline.Holds.join`
    * `Outline.Holds.move`
    * `Outline.Holds.change`
-/

------------------------------------------------------------
-- Outlines
------------------------------------------------------------

namespace LegalAgent

namespace Library

/- The assertions of a proof outline. -/
structure Outline (Shared Party : Type) where
  globally : Shared → Prop
  locally : Shared → Party → Prop
  mutually : Party → Party → Prop

namespace Outline

variable {Shared Party Id : Type}

/- The assertions hold of a state and its parties. -/
structure Holds
    (outline : Outline Shared Party)
    (shared : Shared)
    (parties : Id → Option Party) :
    Prop where
  globally : outline.globally shared
  locally :
    ∀ id party,
      parties id = some party → outline.locally shared party
  mutually :
    ∀ id other party party',
      id ≠ other →
        parties id = some party →
          parties other = some party' →
            outline.mutually party party'

/- Two parties are compatible in both orders. -/
def Both
    (outline : Outline Shared Party)
    (party other : Party) :
    Prop :=
  outline.mutually party other ∧ outline.mutually other party

/- A move of one of the parties keeps the assertions. -/
structure Keeps
    (outline : Outline Shared Party)
    (parties : Id → Option Party)
    (id : Id)
    (shared : Shared)
    (party : Party)
    (shared' : Shared)
    (party' : Party) :
    Prop where
  globally : outline.globally shared'
  locally : outline.locally shared' party'
  others :
    ∀ id' other,
      id' ≠ id →
        parties id' = some other →
          outline.locally shared other →
            outline.Both party other →
              outline.locally shared' other ∧
                outline.Both party' other

/- A change of the shared state alone keeps the assertions. -/
structure Bears
    (outline : Outline Shared Party)
    (shared shared' : Shared) :
    Prop where
  globally : outline.globally shared'
  locally :
    ∀ party,
      outline.locally shared party →
        outline.locally shared' party

variable {outline : Outline Shared Party}
variable {shared shared' : Shared}
variable {parties parties' : Id → Option Party}

------------------------------------------------------------
-- Rules
------------------------------------------------------------

/- Two parties of an outline that holds are compatible. -/
theorem Holds.both
    (hHolds : outline.Holds shared parties)
    {id other : Id}
    {party party' : Party}
    (hNe : id ≠ other)
    (hParty : parties id = some party)
    (hOther : parties other = some party') :
    outline.Both party party' :=
  ⟨hHolds.mutually id other _ _ hNe hParty hOther,
    hHolds.mutually other id _ _ hNe.symm hOther hParty⟩

/- Parties may leave, and the shared state with them. -/
theorem Holds.leave
    (hHolds : outline.Holds shared parties)
    (hGlobally : outline.globally shared')
    (hLeave :
      ∀ id party,
        parties' id = some party →
          parties id = some party ∧
            (outline.locally shared party →
              outline.locally shared' party)) :
    outline.Holds shared' parties' := by
  refine ⟨hGlobally, ?_, ?_⟩
  · intro id party hParty
    rcases hLeave id party hParty with ⟨hWas, hLocally⟩
    exact hLocally (hHolds.locally id party hWas)
  · intro id other party party' hNe hParty hOther
    exact
      hHolds.mutually id other party party' hNe
        (hLeave id party hParty).1
        (hLeave other party' hOther).1

/- The shared state may change without a party's doing. -/
theorem Holds.change
    (hHolds : outline.Holds shared parties)
    (hBears : outline.Bears shared shared') :
    outline.Holds shared' parties := by
  refine ⟨hBears.globally, ?_, hHolds.mutually⟩
  intro id party hParty
  exact
    hBears.locally party (hHolds.locally id party hParty)

variable [DecidableEq Id]

/- One party moves, or a party joins. -/
theorem Holds.put
    (hHolds : outline.Holds shared parties)
    {id : Id}
    {party' : Party}
    (hGlobally : outline.globally shared')
    (hLocally : outline.locally shared' party')
    (hOthers :
      ∀ other party,
        other ≠ id →
          parties other = some party →
            outline.locally shared' party ∧
              outline.Both party' party) :
    outline.Holds shared' fun other =>
      if other = id then some party' else parties other := by
  refine ⟨hGlobally, ?_, ?_⟩
  · intro other party hParty
    split at hParty
    · cases hParty
      exact hLocally
    · rename_i hNe
      exact (hOthers other party hNe hParty).1
  · intro other other' first second hNe hFirst hSecond
    split at hFirst
    · rename_i hEq
      cases hFirst
      rw [if_neg fun hEq' => hNe (hEq.trans hEq'.symm)]
        at hSecond
      exact
        (hOthers other' second
          (fun hEq' => hNe (hEq.trans hEq'.symm))
          hSecond).2.1
    · rename_i hOther
      split at hSecond
      · cases hSecond
        exact (hOthers other first hOther hFirst).2.2
      · exact
          hHolds.mutually other other' first second hNe hFirst
            hSecond

/- A party joins that is compatible with all others. -/
theorem Holds.join
    (hHolds : outline.Holds shared parties)
    {id : Id}
    {party : Party}
    (hLocally : outline.locally shared party)
    (hBoth : ∀ other, outline.Both party other) :
    outline.Holds shared fun other =>
      if other = id then some party else parties other := by
  apply hHolds.put hHolds.globally hLocally
  intro other party' _ hParty
  exact ⟨hHolds.locally other party' hParty, hBoth party'⟩

/- A party moves and keeps the assertions. -/
theorem Holds.move
    (hHolds : outline.Holds shared parties)
    {id : Id}
    {party party' : Party}
    (hParty : parties id = some party)
    (hKeeps :
      outline.Keeps parties id shared party shared' party') :
    outline.Holds shared' fun other =>
      if other = id then some party' else parties other := by
  apply hHolds.put hKeeps.globally hKeeps.locally
  intro other party'' hNe hOther
  exact
    hKeeps.others other party'' hNe hOther
      (hHolds.locally other party'' hOther)
      (hHolds.both hNe.symm hParty hOther)

end Outline

end Library

end LegalAgent
