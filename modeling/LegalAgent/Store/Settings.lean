import LegalAgent.Library.Register
import LegalAgent.Library.Table
import LegalAgent.Text.Json

/-
  The settings of the front end.

  `put_settings` writes a row with one statement: it inserts
  the row of a new scope, and of an old scope it changes the
  fields that were sent.  A field that was not sent is
  `_UNSET`, a field sent as null is emptied.

  Key definitions include:
    * `SettingsRow`
    * `upsertSettings`
    * `putSettings`
    * `putSettingsRoute`

  Key theorems include:
    * `registers_putSettings`
    * `settings_last_writer_wins`
    * `settings_of_requests`
-/

------------------------------------------------------------
-- The Table
------------------------------------------------------------

namespace LegalAgent

open Library

/- A row of the table `settings` without its scope. -/
structure SettingsRow where
  model : Option Text
  serverUrl : Option Text
  theme : Option Text
deriving DecidableEq

/- The fields of a row. -/
inductive SettingsField where
  | model
  | serverUrl
  | theme
deriving DecidableEq

/- The value of a field. -/
def SettingsRow.value
    (row : SettingsRow) :
    SettingsField → Option Text
| .model => row.model
| .serverUrl => row.serverUrl
| .theme => row.theme

/- The table `settings`, with the scope as primary key. -/
abbrev SettingsTable :=
  Table Text SettingsRow

/-
  The statement of `put_settings` with its parameters in
  order: the row to insert, and for each field whether an old
  row keeps its value.
-/
def upsertSettings
    (scope : Text)
    (model serverUrl theme : Option Text)
    (modelUnset serverUrlUnset themeUnset : Bool)
    (table : SettingsTable) :
    SettingsTable :=
  match table.get? scope with
  | none =>
      table.insert scope
        { model := model
          serverUrl := serverUrl
          theme := theme }
  | some _ =>
      table.update (fun key _ => decide (key = scope))
        fun row =>
          { model := if modelUnset then row.model else model
            serverUrl :=
              if serverUrlUnset then row.serverUrl
              else serverUrl
            theme := if themeUnset then row.theme else theme }

------------------------------------------------------------
-- The Repository
------------------------------------------------------------

/-
  The arguments of a call: `none` is `_UNSET`, `some none` is
  an explicit `None`.
-/
structure SettingsCall where
  scope : Text
  model : Option (Option Text)
  serverUrl : Option (Option Text)
  theme : Option (Option Text)

/- What a call carries for a field. -/
def SettingsCall.carried
    (call : SettingsCall) :
    SettingsField → Option (Option Text)
| .model => call.model
| .serverUrl => call.serverUrl
| .theme => call.theme

/- Write the fields that a call carries (`put_settings`). -/
def putSettings
    (call : SettingsCall)
    (table : SettingsTable) :
    SettingsTable :=
  upsertSettings call.scope
    (call.model.getD none)
    (call.serverUrl.getD none)
    (call.theme.getD none)
    call.model.isNone
    call.serverUrl.isNone
    call.theme.isNone
    table

/- The row of a scope (`get_settings`). -/
def getSettings
    (scope : Text)
    (table : SettingsTable) :
    Option SettingsRow :=
  table.get? scope

/- The stored value of a field; a missing row has no values. -/
def storedSetting
    (table : SettingsTable)
    (register : Text × SettingsField) :
    Option Text :=
  (getSettings register.1 table).bind fun row =>
    row.value register.2

/- The calls of a sequence, each in a transaction of its own. -/
def putAllSettings
    (calls : List SettingsCall)
    (table : SettingsTable) :
    SettingsTable :=
  calls.foldl (fun table call => putSettings call table) table

------------------------------------------------------------
-- Fields As Registers
------------------------------------------------------------

/- A call as a write of the registers of its scope. -/
def SettingsCall.write
    (call : SettingsCall) :
    Write (Text × SettingsField) (Option Text) :=
  fun register =>
    if register.1 = call.scope then call.carried register.2
    else none

/- The row that a call leaves in its scope. -/
theorem getSettings_putSettings
    (call : SettingsCall)
    (table : SettingsTable)
    (scope : Text) :
    getSettings scope (putSettings call table) =
      if scope = call.scope then
        some
          { model :=
              call.model.getD
                (storedSetting table (scope, .model))
            serverUrl :=
              call.serverUrl.getD
                (storedSetting table (scope, .serverUrl))
            theme :=
              call.theme.getD
                (storedSetting table (scope, .theme)) }
      else
        getSettings scope table := by
  unfold putSettings upsertSettings storedSetting getSettings
  cases hRow : table.get? call.scope with
  | none =>
      rw [Table.get?_insert hRow]
      by_cases hScope : scope = call.scope
      · subst hScope
        rw [if_pos rfl, if_pos rfl, hRow]
        rfl
      · rw [if_neg hScope, if_neg hScope]
  | some row =>
      rw [Table.get?_update]
      by_cases hScope : scope = call.scope
      · subst hScope
        rw [if_pos rfl, hRow]
        simp only [decide_true, if_true, Option.map_some,
          Option.bind_some, SettingsRow.value]
        cases call.model <;> cases call.serverUrl <;>
          cases call.theme <;> rfl
      · rw [if_neg hScope]
        simp only [hScope, decide_false, Bool.false_eq_true,
          if_false, Option.map_id']

/- A call writes the registers that it carries. -/
theorem registers_putSettings
    (call : SettingsCall)
    (table : SettingsTable) :
    storedSetting (putSettings call table) =
      call.write.apply (storedSetting table) := by
  funext ⟨scope, field⟩
  rw [Write.apply, storedSetting, getSettings_putSettings,
    SettingsCall.write]
  by_cases hScope : scope = call.scope
  · rw [if_pos hScope, if_pos hScope]
    cases field <;> rfl
  · rw [if_neg hScope, if_neg hScope]
    rfl

/- A sequence of calls is a sequence of writes. -/
theorem registers_putAllSettings
    (calls : List SettingsCall)
    (table : SettingsTable) :
    storedSetting (putAllSettings calls table) =
      writeAll (calls.map SettingsCall.write)
        (storedSetting table) := by
  induction calls generalizing table with
  | nil => rfl
  | cons call calls ih =>
      rw [putAllSettings, List.foldl_cons, ← putAllSettings,
        ih, registers_putSettings]
      rfl

/- Calls that carry no field in common. -/
def SettingsCall.Disjoint (call other : SettingsCall) : Prop :=
  ∀ field, call.carried field = none ∨
    other.carried field = none

/- The row of a scope is there once some call named the scope. -/
theorem isSome_getSettings_putSettings
    (call : SettingsCall)
    (table : SettingsTable)
    (scope : Text) :
    (getSettings scope (putSettings call table)).isSome =
      (decide (scope = call.scope) ||
        (getSettings scope table).isSome) := by
  rw [getSettings_putSettings]
  by_cases hScope : scope = call.scope
  · rw [if_pos hScope, decide_eq_true hScope]
    rfl
  · rw [if_neg hScope, decide_eq_false hScope, Bool.false_or]

/- A row is determined by its registers and by its presence. -/
theorem getSettings_ext
    {table other : SettingsTable}
    {scope : Text}
    (hStored : ∀ field,
      storedSetting table (scope, field) =
        storedSetting other (scope, field))
    (hSome :
      (getSettings scope table).isSome =
        (getSettings scope other).isSome) :
    getSettings scope table = getSettings scope other := by
  unfold storedSetting at hStored
  cases hTable : getSettings scope table with
  | none =>
      rw [hTable] at hSome
      exact (Option.isNone_iff_eq_none.mp
        (by simpa using hSome.symm)).symm
  | some row =>
      rw [hTable] at hSome
      rcases Option.isSome_iff_exists.mp hSome.symm with
        ⟨row', hOther⟩
      have hValue : ∀ field,
          row.value field = row'.value field := by
        intro field
        simpa only [hTable, hOther, Option.bind_some] using
          hStored field
      have hModel := hValue .model
      have hServerUrl := hValue .serverUrl
      have hTheme := hValue .theme
      simp only [SettingsRow.value]
        at hModel hServerUrl hTheme
      rw [hOther]
      cases row
      cases row'
      subst hModel hServerUrl hTheme
      rfl

/- Tables that show the same rows show the same afterwards. -/
theorem getSettings_putAllSettings_congr
    {table other : SettingsTable}
    (hSame : ∀ scope,
      getSettings scope table = getSettings scope other)
    (calls : List SettingsCall)
    (scope : Text) :
    getSettings scope (putAllSettings calls table) =
      getSettings scope (putAllSettings calls other) := by
  induction calls generalizing table other with
  | nil => exact hSame scope
  | cons call calls ih =>
      refine ih fun scope => ?_
      rw [getSettings_putSettings, getSettings_putSettings]
      simp only [storedSetting, hSame]

/- Calls that carry different fields commute. -/
theorem getSettings_putSettings_comm
    {call other : SettingsCall}
    (hDisjoint : call.Disjoint other)
    (table : SettingsTable)
    (scope : Text) :
    getSettings scope
        (putSettings call (putSettings other table)) =
      getSettings scope
        (putSettings other (putSettings call table)) := by
  apply getSettings_ext
  · intro field
    rw [registers_putSettings, registers_putSettings,
      registers_putSettings, registers_putSettings,
      apply_comm]
    intro register
    unfold SettingsCall.write
    cases hDisjoint register.2 with
    | inl hNone =>
        exact Or.inl (by rw [hNone, ite_self])
    | inr hNone =>
        exact Or.inr (by rw [hNone, ite_self])
  · rw [isSome_getSettings_putSettings,
      isSome_getSettings_putSettings,
      isSome_getSettings_putSettings,
      isSome_getSettings_putSettings, Bool.or_left_comm]

/-
  The fields of the settings are registers: whatever the order
  in which requests interleave, a field has the value of the
  last call that carried it, or null, and calls that carry
  different fields commute.
-/
theorem settings_last_writer_wins :
    (∀ (calls : List SettingsCall)
        (scope : Text)
        (field : SettingsField),
      storedSetting (putAllSettings calls Table.empty)
          (scope, field) =
        (lastCarried? (calls.map SettingsCall.write)
          (scope, field)).getD none) ∧
      ∀ (before after : List SettingsCall)
        (call other : SettingsCall)
        (scope : Text),
        call.Disjoint other →
          getSettings scope
              (putAllSettings
                (before ++ [call, other] ++ after)
                Table.empty) =
            getSettings scope
              (putAllSettings
                (before ++ [other, call] ++ after)
                Table.empty) := by
  constructor
  · intro calls scope field
    rw [registers_putAllSettings, writeAll_apply]
    rfl
  · intro before after call other scope hDisjoint
    simp only [putAllSettings, List.foldl_append,
      List.foldl_cons, List.foldl_nil]
    apply getSettings_putAllSettings_congr
    intro scope
    exact
      (getSettings_putSettings_comm hDisjoint _ scope).symm

/- Two calls that carry the model and the theme. -/
theorem settings_last_writer_wins_two :
    getSettings "global".toList
        (putAllSettings
          [⟨"global".toList, some (some "m".toList), none, none⟩,
            ⟨"global".toList, none, none, some none⟩]
          Table.empty) =
      getSettings "global".toList
        (putAllSettings
          [⟨"global".toList, none, none, some none⟩,
            ⟨"global".toList, some (some "m".toList), none, none⟩]
          Table.empty) :=
  settings_last_writer_wins.2 [] [] _ _ _ (by
    intro field
    cases field
    · exact Or.inr rfl
    · exact Or.inl rfl
    · exact Or.inl rfl)

------------------------------------------------------------
-- The Route
------------------------------------------------------------

/- A refused request (`HTTPException`). -/
structure HttpError where
  status : Nat
  detail : Text
deriving DecidableEq

/- The longest setting (`_MAX_SETTING`). -/
def maxSetting : Nat :=
  2000

/-
  The check of a stored text (`_reject_nul`).  A text is a
  list of code points that UTF-8 can encode, so the check for
  surrogates has no text to refuse.
-/
def rejectNul
    (value : Json)
    (field : Text)
    (maxLen : Option Nat) :
    Except HttpError Unit :=
  match value with
  | .str text =>
      if '\x00' ∈ text then
        .error ⟨422, field ++
          " 에 NUL 문자를 포함할 수 없습니다".toList⟩
      else
        match maxLen with
        | none => .ok ()
        | some max =>
            if max < text.length then
              .error ⟨422, field ++ " 가 너무 깁니다(최대 ".toList ++
                (toString max).toList ++ "자)".toList⟩
            else .ok ()
  | _ => .ok ()

/-
  What a request carries for a field, or why it is refused: a
  key of the body must be a text or null.
-/
def readSetting
    (body : List (Text × Json))
    (field : Text) :
    Except HttpError (Option (Option Text)) :=
  match body.lookup field with
  | none => .ok none
  | some .null => .ok (some none)
  | some (.str text) =>
      (rejectNul (.str text) field (some maxSetting)).map
        fun _ => some (some text)
  | some _ =>
      .error ⟨422, field ++ " 는 문자열이어야 합니다".toList⟩

/- The call of a request to `/settings`, or why it is refused. -/
def settingsRequest
    (body : List (Text × Json)) :
    Except HttpError SettingsCall := do
  let model ← readSetting body "model".toList
  let serverUrl ← readSetting body "server_url".toList
  let theme ← readSetting body "theme".toList
  return ⟨"global".toList, model, serverUrl, theme⟩

/- A request to change the settings (`PUT /settings`). -/
def putSettingsRoute
    (body : List (Text × Json))
    (table : SettingsTable) :
    Except HttpError (Option SettingsRow) × SettingsTable :=
  match settingsRequest body with
  | .error error => (.error error, table)
  | .ok call =>
      (.ok (getSettings "global".toList (putSettings call table)),
        putSettings call table)

/- The calls of the requests that are not refused. -/
def acceptedCalls
    (bodies : List (List (Text × Json))) :
    List SettingsCall :=
  bodies.filterMap fun body => (settingsRequest body).toOption

/-
  Behind any sequence of requests a setting has the value of
  the last request that was accepted and carried it.
-/
theorem settings_of_requests
    (bodies : List (List (Text × Json)))
    (field : SettingsField) :
    storedSetting
        (bodies.foldl
          (fun table body => (putSettingsRoute body table).2)
          Table.empty)
        ("global".toList, field) =
      (lastCarried?
        ((acceptedCalls bodies).map SettingsCall.write)
        ("global".toList, field)).getD none := by
  have hTable : ∀ table,
      bodies.foldl
          (fun table body => (putSettingsRoute body table).2)
          table =
        putAllSettings (acceptedCalls bodies) table := by
    induction bodies with
    | nil => intro table; rfl
    | cons body bodies ih =>
        intro table
        rw [List.foldl_cons, ih, putSettingsRoute]
        cases hRequest : settingsRequest body with
        | error error =>
            simp only [acceptedCalls, List.filterMap_cons,
              hRequest, Except.toOption]
        | ok call =>
            simp only [acceptedCalls, List.filterMap_cons,
              hRequest, Except.toOption, putAllSettings,
              List.foldl_cons]
  rw [hTable, registers_putAllSettings, writeAll_apply]
  rfl

end LegalAgent
