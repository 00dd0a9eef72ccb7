import LegalAgent.Library.Generator

/-
  Pre- and postconditions of generators that share a state.

  While a program runs, other parties change the state as well.
  A `Rely` says how every party changes it and what each call
  leaves behind.  The assertions between two calls speak about
  all states that the others can make of the one that the call
  left, so what is proved of one program alone holds of it
  among all others.

  Key definitions include:
    * `Rely`
    * `Rely.Stable`
    * `Rely.Triple`

  Key theorems include:
    * `triple_mono`
    * `triple_andThen`
    * `triple_bind`
    * `triple_frame`
    * `triple_of_fact`
    * `triple_close`
-/

------------------------------------------------------------
-- Assertions
------------------------------------------------------------

namespace LegalAgent

namespace Library

/-
  How the parties change the state: `grows` relates a state to
  the later ones, `posts` a state to the one that a call with
  its reply leaves, and `needs` says what has to hold for a
  call to be made.
-/
structure Rely
    (Shared Op : Type)
    (Reply : Op → Type)
    (Exn : Type) :
    Type where
  grows : Shared → Shared → Prop
  refl : ∀ shared, grows shared shared
  trans :
    ∀ {first middle last},
      grows first middle →
        grows middle last → grows first last
  posts :
    (op : Op) →
      Shared → Except Exn (Reply op) → Shared → Prop
  posts_grows :
    ∀ {op shared reply shared'},
      posts op shared reply shared' → grows shared shared'
  needs : Shared → Op → Prop

namespace Rely

variable {Shared Op : Type} {Reply : Op → Type}
variable {Exn Ev α β : Type}

/- An assertion that no party invalidates. -/
def Stable
    (rely : Rely Shared Op Reply Exn)
    (pre : Shared → Prop) :
    Prop :=
  ∀ shared shared',
    pre shared → rely.grows shared shared' → pre shared'

/- What is known once a call has replied. -/
def after
    (rely : Rely Shared Op Reply Exn)
    (pre : Shared → Prop)
    (op : Op)
    (reply : Except Exn (Reply op))
    (last : Shared) :
    Prop :=
  ∃ shared shared',
    pre shared ∧ rely.posts op shared reply shared' ∧
      rely.grows shared' last

/-
  From every state that satisfies `pre` the program makes only
  calls whose needs are met, yields only events that `shows`
  admits, and ends as `post` says.
-/
def Triple
    (rely : Rely Shared Op Reply Exn)
    (shows : Shared → Ev → Prop)
    (pre : Shared → Prop)
    (program : Gen Op Reply Exn Ev α)
    (post : Except Exn α → Shared → Prop) :
    Prop :=
  match program with
  | .ret result => ∀ shared, pre shared → post result shared
  | .call op next =>
      (∀ shared, pre shared → rely.needs shared op) ∧
        ∀ reply,
          rely.Triple shows (rely.after pre op reply)
            (next reply) post
  | .yield event next =>
      (∀ shared, pre shared → shows shared event) ∧
        ∀ reply, rely.Triple shows pre (next reply) post

variable {rely : Rely Shared Op Reply Exn}
variable {shows : Shared → Ev → Prop}
variable {pre pre' frame : Shared → Prop}

/- What is known behind a call stays known. -/
theorem stable_after
    {op : Op}
    {reply : Except Exn (Reply op)} :
    rely.Stable (rely.after pre op reply) := by
  rintro shared last ⟨first, middle, hPre, hPosts, hGrows⟩ hLast
  exact ⟨first, middle, hPre, hPosts, rely.trans hGrows hLast⟩

/- Less known before a call is less known behind it. -/
theorem after_mono
    {op : Op}
    {reply : Except Exn (Reply op)}
    {last : Shared}
    (hPre : ∀ shared, pre shared → pre' shared)
    (hAfter : rely.after pre op reply last) :
    rely.after pre' op reply last := by
  rcases hAfter with ⟨shared, shared', hShared, hPosts, hGrows⟩
  exact ⟨shared, shared', hPre shared hShared, hPosts, hGrows⟩

/- A stable assertion survives a call. -/
theorem of_after
    (hStable : rely.Stable pre)
    {op : Op}
    {reply : Except Exn (Reply op)}
    {last : Shared}
    (hAfter : rely.after pre op reply last) :
    pre last := by
  rcases hAfter with ⟨shared, shared', hShared, hPosts, hGrows⟩
  exact
    hStable shared last hShared
      (rely.trans (rely.posts_grows hPosts) hGrows)

/- Two stable assertions are stable together. -/
theorem Stable.and
    (hPre : rely.Stable pre)
    (hFrame : rely.Stable frame) :
    rely.Stable fun shared => pre shared ∧ frame shared := by
  rintro shared shared' ⟨hShared, hOther⟩ hGrows
  exact
    ⟨hPre shared shared' hShared hGrows,
      hFrame shared shared' hOther hGrows⟩

------------------------------------------------------------
-- Structural Rules
------------------------------------------------------------

/- The rule of consequence. -/
theorem triple_mono
    {post post' : Except Exn α → Shared → Prop}
    {program : Gen Op Reply Exn Ev α}
    (hTriple : rely.Triple shows pre program post)
    (hPre : ∀ shared, pre' shared → pre shared)
    (hPost :
      ∀ result shared,
        post result shared → post' result shared) :
    rely.Triple shows pre' program post' := by
  induction program generalizing pre pre' with
  | ret result =>
      intro shared hShared
      exact
        hPost result shared
          (hTriple shared (hPre shared hShared))
  | call op next ih =>
      refine ⟨fun shared hShared => ?_, ?_⟩
      · exact hTriple.1 shared (hPre shared hShared)
      · intro reply
        exact
          ih reply (hTriple.2 reply) fun shared =>
            after_mono hPre
  | yield event next ih =>
      refine ⟨fun shared hShared => ?_, ?_⟩
      · exact hTriple.1 shared (hPre shared hShared)
      · intro reply
        exact ih reply (hTriple.2 reply) hPre

/- The rule of consequence, from a chosen precondition. -/
theorem triple_from
    (pre : Shared → Prop)
    {post : Except Exn α → Shared → Prop}
    {program : Gen Op Reply Exn Ev α}
    (hPre : ∀ shared, pre' shared → pre shared)
    (hTriple : rely.Triple shows pre program post) :
    rely.Triple shows pre' program post :=
  triple_mono hTriple hPre fun _ _ hPost => hPost

/- The rule of consequence, to a chosen postcondition. -/
theorem triple_to
    (post : Except Exn α → Shared → Prop)
    {post' : Except Exn α → Shared → Prop}
    {program : Gen Op Reply Exn Ev α}
    (hPost :
      ∀ result shared,
        post result shared → post' result shared)
    (hTriple : rely.Triple shows pre program post) :
    rely.Triple shows pre program post' :=
  triple_mono hTriple (fun _ hPre => hPre) hPost

/- A stable assertion holds around a program. -/
theorem triple_frame
    {post : Except Exn α → Shared → Prop}
    {program : Gen Op Reply Exn Ev α}
    (hFrame : rely.Stable frame)
    (hTriple : rely.Triple shows pre program post) :
    rely.Triple shows
      (fun shared => pre shared ∧ frame shared)
      program
      fun result shared => post result shared ∧ frame shared := by
  induction program generalizing pre with
  | ret result =>
      rintro shared ⟨hPre, hShared⟩
      exact ⟨hTriple shared hPre, hShared⟩
  | call op next ih =>
      refine ⟨fun shared hShared => ?_, ?_⟩
      · exact hTriple.1 shared hShared.1
      · intro reply
        refine
          triple_mono (ih reply (hTriple.2 reply)) ?_
            fun _ _ hPost => hPost
        rintro last ⟨shared, shared', hPre, hPosts, hGrows⟩
        exact
          ⟨⟨shared, shared', hPre.1, hPosts, hGrows⟩,
            hFrame shared last hPre.2
              (rely.trans (rely.posts_grows hPosts) hGrows)⟩
  | yield event next ih =>
      refine ⟨fun shared hShared => ?_, ?_⟩
      · exact hTriple.1 shared hShared.1
      · intro reply
        exact ih reply (hTriple.2 reply)

/- Nothing is to be shown of states that there are not. -/
theorem triple_of_false
    {post : Except Exn α → Shared → Prop}
    (program : Gen Op Reply Exn Ev α)
    (hFalse : ∀ shared, ¬ pre shared) :
    rely.Triple shows pre program post := by
  induction program generalizing pre with
  | ret result =>
      intro shared hPre
      exact absurd hPre (hFalse shared)
  | call op next ih =>
      refine ⟨fun shared hPre => absurd hPre (hFalse shared), ?_⟩
      intro reply
      apply ih reply
      rintro last ⟨shared, shared', hPre, -, -⟩
      exact hFalse shared hPre
  | yield event next ih =>
      refine ⟨fun shared hPre => absurd hPre (hFalse shared), ?_⟩
      intro reply
      exact ih reply hFalse

/- A fact that speaks of no state may be assumed. -/
theorem triple_of_fact
    {fact : Prop}
    {post : Except Exn α → Shared → Prop}
    {program : Gen Op Reply Exn Ev α}
    (hTriple : fact → rely.Triple shows pre program post) :
    rely.Triple shows (fun shared => fact ∧ pre shared)
      program post := by
  by_cases hFact : fact
  · exact
      triple_mono (hTriple hFact) (fun _ hPre => hPre.2)
        fun _ _ hPost => hPost
  · exact triple_of_false program fun _ hPre => hFact hPre.1

/- The rule of sequential composition. -/
theorem triple_andThen
    (mid : Except Exn α → Shared → Prop)
    {post : Except Exn β → Shared → Prop}
    {program : Gen Op Reply Exn Ev α}
    {next : Except Exn α → Gen Op Reply Exn Ev β}
    (hFirst : rely.Triple shows pre program mid)
    (hNext :
      ∀ result,
        rely.Triple shows (mid result) (next result) post) :
    rely.Triple shows pre (program.andThen next) post := by
  induction program generalizing pre with
  | ret result =>
      exact
        triple_mono (hNext result) hFirst fun _ _ hPost => hPost
  | call op k ih =>
      exact
        ⟨hFirst.1, fun reply => ih reply (hFirst.2 reply)⟩
  | yield event k ih =>
      exact
        ⟨hFirst.1, fun reply => ih reply (hFirst.2 reply)⟩

/- The rule of `do` blocks. -/
theorem triple_bind
    {mid : Except Exn α → Shared → Prop}
    {post : Except Exn β → Shared → Prop}
    {program : Gen Op Reply Exn Ev α}
    {next : α → Gen Op Reply Exn Ev β}
    (hFirst : rely.Triple shows pre program mid)
    (hNext :
      ∀ value,
        rely.Triple shows (mid (.ok value)) (next value) post)
    (hError :
      ∀ exn shared,
        mid (.error exn) shared → post (.error exn) shared) :
    rely.Triple shows pre (program >>= next) post := by
  apply triple_andThen _ hFirst
  intro result
  cases result with
  | ok value => exact hNext value
  | error exn => exact hError exn

/- The rule of exception handlers. -/
theorem triple_tryCatch
    {mid post : Except Exn α → Shared → Prop}
    {program : Gen Op Reply Exn Ev α}
    {handler : Exn → Gen Op Reply Exn Ev α}
    (hFirst : rely.Triple shows pre program mid)
    (hOk :
      ∀ value shared,
        mid (.ok value) shared → post (.ok value) shared)
    (hHandler :
      ∀ exn,
        rely.Triple shows (mid (.error exn)) (handler exn)
          post) :
    rely.Triple shows pre (program.tryCatch handler) post := by
  apply triple_andThen _ hFirst
  intro result
  cases result with
  | ok value => exact hOk value
  | error exn => exact hHandler exn

/- The rule of last steps that leave the postcondition. -/
theorem triple_tryFinally
    {post : Except Exn α → Shared → Prop}
    {program : Gen Op Reply Exn Ev α}
    {last : Gen Op Reply Exn Ev Unit}
    (hFirst : rely.Triple shows pre program post)
    (hLast :
      ∀ result,
        rely.Triple shows (post result) last
          fun ended shared =>
            match ended with
            | .ok () => post result shared
            | .error exn => post (.error exn) shared) :
    rely.Triple shows pre (program.tryFinally last) post := by
  apply triple_andThen _ hFirst
  intro result
  apply triple_andThen _ (hLast result)
  intro ended
  cases ended with
  | ok value =>
      intro shared hPost
      exact hPost
  | error exn =>
      intro shared hPost
      exact hPost

/- What a closed program still does meets its needs. -/
theorem triple_close
    {Ev' : Type}
    {shows' : Shared → Ev' → Prop}
    {post : Except Exn Unit → Shared → Prop}
    {program : Gen Op Reply Exn Ev Unit}
    {stop : Exn}
    (hTriple : rely.Triple shows pre program post) :
    rely.Triple shows' pre (program.close stop)
      fun _ _ => True := by
  induction program generalizing pre with
  | ret result =>
      intro shared hShared
      trivial
  | call op next ih =>
      exact
        ⟨hTriple.1, fun reply => ih reply (hTriple.2 reply)⟩
  | yield event next ih =>
      intro shared hShared
      trivial

------------------------------------------------------------
-- Calls And Events
------------------------------------------------------------

/- The rule of a call that is followed by a program. -/
theorem triple_call
    {op : Op}
    {post : Except Exn β → Shared → Prop}
    {next : Reply op → Gen Op Reply Exn Ev β}
    (hNeeds : ∀ shared, pre shared → rely.needs shared op)
    (hNext :
      ∀ value,
        rely.Triple shows (rely.after pre op (.ok value))
          (next value) post)
    (hError :
      ∀ exn shared,
        rely.after pre op (.error exn) shared →
          post (.error exn) shared) :
    rely.Triple shows pre (Gen.perform op >>= next) post := by
  refine ⟨hNeeds, ?_⟩
  intro reply
  cases reply with
  | ok value => exact hNext value
  | error exn => exact hError exn

/- The rule of a call that is the whole program. -/
theorem triple_perform
    {op : Op}
    (hNeeds : ∀ shared, pre shared → rely.needs shared op) :
    rely.Triple shows pre
      (Gen.perform op : Gen Op Reply Exn Ev (Reply op))
      fun reply => rely.after pre op reply :=
  ⟨hNeeds, fun _ _ hAfter => hAfter⟩

/- The rule of an event that is followed by a program. -/
theorem triple_emit
    {event : Ev}
    {post : Except Exn β → Shared → Prop}
    {next : Unit → Gen Op Reply Exn Ev β}
    (hShows : ∀ shared, pre shared → shows shared event)
    (hNext : rely.Triple shows pre (next ()) post)
    (hClosed :
      ∀ exn shared, pre shared → post (.error exn) shared) :
    rely.Triple shows pre (Gen.emit event >>= next) post := by
  refine ⟨hShows, ?_⟩
  intro reply
  cases reply with
  | ok value => exact hNext
  | error exn => exact hClosed exn

end Rely

end Library

end LegalAgent
