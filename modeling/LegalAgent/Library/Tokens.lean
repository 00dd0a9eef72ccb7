import Mathlib.Data.List.Basic

/-
  Tokens in a text.

  A token stands between an opening and a closing mark.  A
  scan of a text tells what stands outside of its tokens, and
  what stands in them.  A text that is put together from plain
  pieces and from tokens is scanned piece by piece.

  Key definitions include:
    * `token`
    * `scanTokens`

  Key theorems include:
    * `scan_plain`
    * `scan_token`
    * `append_mark_inj`
-/

------------------------------------------------------------
-- Marks
------------------------------------------------------------

namespace LegalAgent

namespace Library

variable {α : Type}

/- Texts in front of the first mark are known from the whole. -/
theorem append_mark_inj
    {mark : α}
    {first second rest other : List α}
    (hFirst : mark ∉ first)
    (hSecond : mark ∉ second)
    (hEq : first ++ mark :: rest = second ++ mark :: other) :
    first = second ∧ rest = other := by
  induction first generalizing second with
  | nil =>
      cases second with
      | nil => exact ⟨rfl, (List.cons.inj hEq).2⟩
      | cons c second =>
          rw [List.nil_append, List.cons_append] at hEq
          apply absurd _ hSecond
          rw [← (List.cons.inj hEq).1]
          exact List.mem_cons_self
  | cons c first ih =>
      cases second with
      | nil =>
          rw [List.nil_append, List.cons_append] at hEq
          apply absurd _ hFirst
          rw [(List.cons.inj hEq).1]
          exact List.mem_cons_self
      | cons d second =>
          rw [List.cons_append, List.cons_append] at hEq
          rcases List.cons.inj hEq with ⟨rfl, hRest⟩
          rcases ih
              (fun hMem => hFirst (List.mem_cons_of_mem _ hMem))
              (fun hMem => hSecond (List.mem_cons_of_mem _ hMem))
              hRest with
            ⟨rfl, hSame⟩
          exact ⟨rfl, hSame⟩

------------------------------------------------------------
-- Scans
------------------------------------------------------------

variable [DecidableEq α] {opening closing : α}

/- A text between the marks. -/
def token (opening closing : α) (text : List α) : List α :=
  opening :: (text ++ [closing])

/- What a scan finds outside of the tokens and in them. -/
structure Scanned (α : Type) where
  outside : List α
  tokens : List (List α)
deriving DecidableEq

/- Scan a text; a token that is open has begun with a text. -/
def scanTokens
    (opening closing : α) :
    Option (List α) → List α → Scanned α
| _, [] => ⟨[], []⟩
| none, c :: rest =>
    if c = opening then
      scanTokens opening closing (some []) rest
    else
      let scanned := scanTokens opening closing none rest
      ⟨c :: scanned.outside, scanned.tokens⟩
| some begun, c :: rest =>
    if c = closing then
      let scanned := scanTokens opening closing none rest
      ⟨scanned.outside, begun :: scanned.tokens⟩
    else
      scanTokens opening closing (some (begun ++ [c])) rest

/- A plain piece stands outside. -/
theorem scan_plain
    {text : List α}
    (hText : opening ∉ text)
    (rest : List α) :
    scanTokens opening closing none (text ++ rest) =
      ⟨text ++ (scanTokens opening closing none rest).outside,
        (scanTokens opening closing none rest).tokens⟩ := by
  induction text with
  | nil => rfl
  | cons c text ih =>
      rw [List.mem_cons, not_or] at hText
      rw [List.cons_append, scanTokens, if_neg (Ne.symm hText.1),
        ih hText.2]
      rfl

/- A token is read to its closing mark. -/
theorem scan_begun
    {text : List α}
    (hText : closing ∉ text)
    (begun rest : List α) :
    scanTokens opening closing (some begun)
        (text ++ closing :: rest) =
      ⟨(scanTokens opening closing none rest).outside,
        (begun ++ text) ::
          (scanTokens opening closing none rest).tokens⟩ := by
  induction text generalizing begun with
  | nil =>
      rw [List.nil_append, scanTokens, if_pos rfl,
        List.append_nil]
  | cons c text ih =>
      rw [List.mem_cons, not_or] at hText
      rw [List.cons_append, scanTokens, if_neg (Ne.symm hText.1),
        ih hText.2, List.append_assoc, List.singleton_append]

/- A token is found as it is. -/
theorem scan_token
    {text : List α}
    (hText : closing ∉ text)
    (rest : List α) :
    scanTokens opening closing none
        (token opening closing text ++ rest) =
      ⟨(scanTokens opening closing none rest).outside,
        text ::
          (scanTokens opening closing none rest).tokens⟩ := by
  rw [token, List.cons_append, List.append_assoc,
    List.singleton_append, scanTokens, if_pos rfl,
    scan_begun hText, List.nil_append]

end Library

end LegalAgent
