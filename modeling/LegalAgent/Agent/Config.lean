import LegalAgent.Text.Errors
import LegalAgent.Text.Json

/-
  The settings of `agent_app/core/config.py`.

  `from_env` reads the settings of one model, and
  `all_from_env` those of every model that the environment
  names, without a second one of the same name.

  Key definitions include:
    * `Settings`
    * `Settings.fromEnv`
    * `Registry`
    * `Settings.allFromEnv`

  Key theorems include:
    * `fromEnv_eq`
    * `allFromEnv_eq`
    * `allFromEnv_refines_iff`
-/

------------------------------------------------------------
-- Environment
------------------------------------------------------------

namespace LegalAgent

namespace Config

/- The variables that are read. -/
inductive Variable where
  | openaiApi
  | openaiBaseUrl
  | gptModel
  | gptModels
  | gptMaxTokens
  | llmModel
  | llmModels
  | llmBaseUrl
  | llmApiKey
  | llmTemperature
  | llmTimeout
  | llmMaxTokens
deriving DecidableEq

/- An environment; a variable may be unset. -/
abbrev Env : Type :=
  Variable → Option Text

/- `os.environ.get`. -/
def Env.get (env : Env) (name : Variable) (default : Text) : Text :=
  (env name).getD default

/- The value of a variable without white space around it. -/
def Env.stripped (env : Env) (name : Variable) : Text :=
  (env.get name []).strip

/- Floating-point numbers, with the two that the code names. -/
structure Floats (F : Type) where
  parse : Text → Option F
  sixty : F
  zero : F

variable {F : Type}

/- `float`. -/
def float (floats : Floats F) (raw : Text) : Except Raised F :=
  match floats.parse raw with
  | some number => .ok number
  | none =>
      .error
        (.about .valueError
          "could not convert string to float: ".toList raw)

/- `int`. -/
def int (raw : Text) : Except Raised Int :=
  match int? raw with
  | some number => .ok number
  | none =>
      .error
        (.about .valueError
          "invalid literal for int() with base 10: ".toList raw)

/- A variable that holds a float, or the default if blank. -/
def floatOr
    (floats : Floats F)
    (env : Env)
    (name : Variable)
    (default : F) :
    Except Raised F :=
  if env.stripped name = [] then .ok default
  else float floats (env.stripped name)

------------------------------------------------------------
-- Settings
------------------------------------------------------------

/- The kinds of servers. -/
inductive Provider where
  | openai
  | compatible
deriving DecidableEq

/- `Settings`. -/
structure Settings (F : Type) where
  provider : Provider
  llmBaseUrl : Option Text
  llmModel : Text
  llmApiKey : Text
  temperature : Option F
  requestTimeout : F
  maxTokens : Option Int
deriving DecidableEq

namespace Settings

/- `_float_or_none`. -/
def floatOrNone
    (floats : Floats F)
    (env : Env)
    (name : Variable) :
    Except Raised (Option F) :=
  if env.stripped name = [] then .ok none
  else do
    let number ← float floats (env.stripped name)
    return some number

/- `_max_tokens`. -/
def maxTokensOf
    (env : Env)
    (name : Variable)
    (default : Option Int) :
    Except Raised (Option Int) :=
  if env.stripped name = [] then .ok default
  else do
    let n ← int (env.stripped name)
    return if 0 < n then some n else none

/- A text, or nothing for the empty one (`or None`). -/
def orNone (text : Text) : Option Text :=
  if text = [] then none else some text

/- The address of the server when none is set. -/
def defaultBaseUrl : Text :=
  "http://localhost:8000/v1".toList

/- The refusal of a key that comes without a model. -/
def keyWithoutModel : Raised :=
  .plain .valueError
    ("OPENAI_API 는 설정됐지만 GPT_MODEL 이 없습니다. ".toList ++
      "OpenAI 사용 시 GPT_MODEL 을 설정하거나, ".toList ++
      "자체서버(LLM_*) 사용 시 OPENAI_API 를 제거하세요.".toList)

/- The refusal of `from_env` when there is no model. -/
def noModel : Raised :=
  .plain .valueError
    ("LLM 설정이 없습니다. ".toList ++
      "OpenAI 사용 시 OPENAI_API + GPT_MODEL, ".toList ++
      "또는 자체서버 사용 시 LLM_MODEL 을 .env 에 ".toList ++
      "설정하세요 (.env.example 참고).".toList)

/- The refusal of `all_from_env` when there is no model. -/
def noModels : Raised :=
  .plain .valueError
    ("LLM 설정이 없습니다. ".toList ++
      "OpenAI(GPT): OPENAI_API + GPT_MODELS".toList ++
      "(또는 GPT_MODEL), ".toList ++
      "자체서버: LLM_MODELS(또는 LLM_MODEL). ".toList ++
      "여러 개 설정하면 런타임에 모델 선택 가능.".toList)

/- `from_env`. -/
def fromEnv
    (floats : Floats F)
    (env : Env) :
    Except Raised (Settings F) := do
  let timeout ← floatOr floats env .llmTimeout floats.sixty
  let gptMaxTokens ← maxTokensOf env .gptMaxTokens none
  let llmMaxTokens ← maxTokensOf env .llmMaxTokens (some 8192)
  let openaiKey := env.stripped .openaiApi
  let gptModel := env.stripped .gptModel
  if openaiKey ≠ [] ∧ gptModel ≠ [] then
    let temperature ← floatOrNone floats env .llmTemperature
    return {
      provider := .openai
      llmBaseUrl := orNone (env.stripped .openaiBaseUrl)
      llmModel := gptModel
      llmApiKey := openaiKey
      temperature := temperature
      requestTimeout := timeout
      maxTokens := gptMaxTokens }
  else if openaiKey ≠ [] ∧ gptModel = [] then
    .error keyWithoutModel
  else
    let model := env.stripped .llmModel
    if model = [] then
      .error noModel
    else
      let temperature ←
        floatOr floats env .llmTemperature floats.zero
      return {
        provider := .compatible
        llmBaseUrl := some (env.get .llmBaseUrl defaultBaseUrl)
        llmModel := model
        llmApiKey := env.get .llmApiKey "EMPTY".toList
        temperature := some temperature
        requestTimeout := timeout
        maxTokens := llmMaxTokens }

/- The names of a text that are separated by commas. -/
def namesOf (text : Text) : List Text :=
  ((text.splitOn ',').map Text.strip).filter (· ≠ [])

/- `_split`. -/
def split (env : Env) (name : Variable) : List Text :=
  namesOf (env.get name [])

/- The names of the first variable, or those of the second. -/
def splitOr (env : Env) (plural singular : Variable) : List Text :=
  if split env plural = [] then split env singular
  else split env plural

end Settings

------------------------------------------------------------
-- Registry
------------------------------------------------------------

/- Settings with distinct models, in the order of `out`. -/
structure Registry (F : Type) where
  out : List (Settings F)
  nodup : (out.map Settings.llmModel).Nodup

namespace Registry

/- The registry without a model. -/
def empty : Registry F where
  out := []
  nodup := List.nodup_nil

/- `_add`: the first settings of a model are kept. -/
def add (registry : Registry F) (s : Settings F) : Registry F :=
  if hSeen :
      (registry.out.map Settings.llmModel).contains s.llmModel
  then
    registry
  else
    { out := registry.out ++ [s]
      nodup := by
        rw [List.map_append]
        apply List.Nodup.append registry.nodup
        · exact List.nodup_singleton _
        · intro model hMem hOther
          rw [List.map_singleton, List.mem_singleton] at hOther
          apply hSeen
          rw [List.contains_iff_mem, ← hOther]
          exact hMem }

/- The settings of a registry stay in front. -/
theorem prefix_add (registry : Registry F) (s : Settings F) :
    registry.out <+: (registry.add s).out := by
  unfold add
  split
  · exact List.prefix_rfl
  · exact List.prefix_append _ _

theorem prefix_foldl
    (registry : Registry F)
    (candidates : List (Settings F)) :
    registry.out <+: (candidates.foldl add registry).out := by
  induction candidates generalizing registry with
  | nil => exact List.prefix_rfl
  | cons s candidates ih =>
      exact (registry.prefix_add s).trans (ih (registry.add s))

/- The first of the candidates is the first that is kept. -/
theorem foldl_first
    (s : Settings F)
    (candidates : List (Settings F)) :
    ∃ rest,
      ((s :: candidates).foldl add empty).out = s :: rest := by
  rcases prefix_foldl (empty.add s) candidates with ⟨rest, hRest⟩
  refine ⟨rest, ?_⟩
  rw [List.foldl_cons, ← hRest]
  rfl

/- Nothing is kept of no candidates only. -/
theorem out_foldl_eq_nil
    {candidates : List (Settings F)} :
    (candidates.foldl add empty).out = [] ↔ candidates = [] := by
  cases candidates with
  | nil => exact ⟨fun _ => rfl, fun _ => rfl⟩
  | cons s candidates =>
      rcases foldl_first s candidates with ⟨rest, hRest⟩
      rw [hRest]
      exact
        ⟨fun hNil => absurd hNil (List.cons_ne_nil _ _),
          fun hNil => absurd hNil (List.cons_ne_nil _ _)⟩

end Registry

open Settings

/- `all_from_env`. -/
def Settings.allFromEnv
    (floats : Floats F)
    (env : Env) :
    Except Raised (List (Settings F)) := do
  let timeout ← floatOr floats env .llmTimeout floats.sixty
  let gptMaxTokens ← maxTokensOf env .gptMaxTokens none
  let llmMaxTokens ← maxTokensOf env .llmMaxTokens (some 8192)
  let openaiKey := env.stripped .openaiApi
  let registry ←
    if openaiKey = [] then
      pure Registry.empty
    else do
      let base := orNone (env.stripped .openaiBaseUrl)
      let temp ← floatOrNone floats env .llmTemperature
      pure
        ((splitOr env .gptModels .gptModel).foldl
          (fun (registry : Registry F) gm =>
            registry.add {
              provider := .openai
              llmBaseUrl := base
              llmModel := gm
              llmApiKey := openaiKey
              temperature := temp
              requestTimeout := timeout
              maxTokens := gptMaxTokens })
          Registry.empty)
  let localBase := env.get .llmBaseUrl defaultBaseUrl
  let localKey := env.get .llmApiKey "EMPTY".toList
  let registry ←
    (splitOr env .llmModels .llmModel).foldlM
      (fun (registry : Registry F) lm => do
        let temperature ←
          floatOr floats env .llmTemperature floats.zero
        pure
          (registry.add {
            provider := .compatible
            llmBaseUrl := some localBase
            llmModel := lm
            llmApiKey := localKey
            temperature := some temperature
            requestTimeout := timeout
            maxTokens := llmMaxTokens }))
      registry
  if registry.out = [] then
    .error noModels
  else
    return registry.out

------------------------------------------------------------
-- Readable Numbers
------------------------------------------------------------

/- The numbers of the environment are blank or can be read. -/
def Parseable (floats : Floats F) (env : Env) : Prop :=
  (∀ name ∈ [Variable.llmTimeout, .llmTemperature],
    env.stripped name = [] ∨
      (floats.parse (env.stripped name)).isSome) ∧
    (∀ name ∈ [Variable.gptMaxTokens, .llmMaxTokens],
      env.stripped name = [] ∨
        (int? (env.stripped name)).isSome)

/- Numbers that are all blank can be read. -/
theorem parseable_of_blank
    (floats : Floats F)
    {env : Env}
    (hBlank :
      ∀ name ∈
          [Variable.llmTimeout, .llmTemperature, .gptMaxTokens,
            .llmMaxTokens],
        env.stripped name = []) :
    Parseable floats env := by
  constructor
  · intro name hMem
    exact Or.inl (hBlank name (List.mem_append_left _ hMem))
  · intro name hMem
    exact
      Or.inl
        (hBlank name
          (List.mem_append_right
            [Variable.llmTimeout, .llmTemperature] hMem))

/- The numbers that the settings take. -/
structure Numbers (F : Type) where
  timeout : F
  gptMaxTokens : Option Int
  llmMaxTokens : Option Int
  temperature : Option F

/- The numbers of an environment. -/
structure Reads
    (floats : Floats F)
    (env : Env)
    (numbers : Numbers F) :
    Prop where
  timeout :
    floatOr floats env .llmTimeout floats.sixty =
      .ok numbers.timeout
  gptMaxTokens :
    maxTokensOf env .gptMaxTokens none = .ok numbers.gptMaxTokens
  llmMaxTokens :
    maxTokensOf env .llmMaxTokens (some 8192) =
      .ok numbers.llmMaxTokens
  temperature :
    floatOrNone floats env .llmTemperature =
      .ok numbers.temperature
  temperatureOr :
    floatOr floats env .llmTemperature floats.zero =
      .ok (numbers.temperature.getD floats.zero)

section Numbers

variable {floats : Floats F} {env : Env}

/- A readable float is read both ways. -/
theorem floatOrNone_of_readable
    {name : Variable}
    (hName :
      env.stripped name = [] ∨
        (floats.parse (env.stripped name)).isSome) :
    ∃ number,
      floatOrNone floats env name = .ok number ∧
        ∀ default,
          floatOr floats env name default =
            .ok (number.getD default) := by
  by_cases hBlank : env.stripped name = []
  · refine ⟨none, ?_, ?_⟩
    · rw [floatOrNone, if_pos hBlank]
    · intro default
      rw [floatOr, if_pos hBlank]
      rfl
  · rcases hName with hName | hName
    · exact absurd hName hBlank
    · rcases Option.isSome_iff_exists.mp hName with
        ⟨number, hParse⟩
      have hFloat :
          float floats (env.stripped name) = .ok number := by
        rw [float, hParse]
      refine ⟨some number, ?_, ?_⟩
      · rw [floatOrNone, if_neg hBlank, hFloat]
        rfl
      · intro default
        rw [floatOr, if_neg hBlank, hFloat]
        rfl

/- A readable integer is read. -/
theorem maxTokensOf_of_readable
    {name : Variable}
    (hName :
      env.stripped name = [] ∨
        (int? (env.stripped name)).isSome)
    (default : Option Int) :
    ∃ number, maxTokensOf env name default = .ok number := by
  by_cases hBlank : env.stripped name = []
  · exact ⟨default, if_pos hBlank⟩
  · rcases hName with hName | hName
    · exact absurd hName hBlank
    · rcases Option.isSome_iff_exists.mp hName with ⟨n, hInt⟩
      refine ⟨if 0 < n then some n else none, ?_⟩
      rw [maxTokensOf, if_neg hBlank, int, hInt]
      rfl

/- The numbers of a readable environment. -/
theorem Parseable.numbers
    (hParse : Parseable floats env) :
    ∃ numbers, Reads floats env numbers := by
  rcases hParse with ⟨hFloats, hInts⟩
  rcases floatOrNone_of_readable
      (hFloats .llmTimeout (by simp)) with
    ⟨timeout, -, hTimeout⟩
  rcases floatOrNone_of_readable
      (hFloats .llmTemperature (by simp)) with
    ⟨temperature, hNone, hOr⟩
  rcases maxTokensOf_of_readable
      (hInts .gptMaxTokens (by simp)) none with
    ⟨gptMaxTokens, hGpt⟩
  rcases maxTokensOf_of_readable
      (hInts .llmMaxTokens (by simp)) (some 8192) with
    ⟨llmMaxTokens, hLlm⟩
  exact
    ⟨{ timeout := timeout.getD floats.sixty
       gptMaxTokens := gptMaxTokens
       llmMaxTokens := llmMaxTokens
       temperature := temperature },
      { timeout := hTimeout floats.sixty
        gptMaxTokens := hGpt
        llmMaxTokens := hLlm
        temperature := hNone
        temperatureOr := hOr floats.zero }⟩

end Numbers

------------------------------------------------------------
-- One Model And All Models
------------------------------------------------------------

/- The settings of a model of OpenAI. -/
def openaiSettings
    (numbers : Numbers F)
    (env : Env)
    (model : Text) :
    Settings F where
  provider := .openai
  llmBaseUrl := orNone (env.stripped .openaiBaseUrl)
  llmModel := model
  llmApiKey := env.stripped .openaiApi
  temperature := numbers.temperature
  requestTimeout := numbers.timeout
  maxTokens := numbers.gptMaxTokens

/- The settings of a model of a compatible server. -/
def compatibleSettings
    (floats : Floats F)
    (numbers : Numbers F)
    (env : Env)
    (model : Text) :
    Settings F where
  provider := .compatible
  llmBaseUrl := some (env.get .llmBaseUrl defaultBaseUrl)
  llmModel := model
  llmApiKey := env.get .llmApiKey "EMPTY".toList
  temperature := some (numbers.temperature.getD floats.zero)
  requestTimeout := numbers.timeout
  maxTokens := numbers.llmMaxTokens

/- The settings of the models of OpenAI that have a key. -/
def openaiCandidates
    (numbers : Numbers F)
    (env : Env) :
    List (Settings F) :=
  if env.stripped .openaiApi = [] then []
  else
    (splitOr env .gptModels .gptModel).map
      (openaiSettings numbers env)

/- The settings of all models that are named, in order. -/
def candidates
    (floats : Floats F)
    (numbers : Numbers F)
    (env : Env) :
    List (Settings F) :=
  openaiCandidates numbers env ++
    (splitOr env .llmModels .llmModel).map
      (compatibleSettings floats numbers env)

section Equations

variable {floats : Floats F} {env : Env} {numbers : Numbers F}

/- The one model of a readable environment. -/
theorem fromEnv_eq (hReads : Reads floats env numbers) :
    fromEnv floats env =
      if env.stripped .openaiApi ≠ [] then
        if env.stripped .gptModel = [] then
          .error keyWithoutModel
        else
          .ok
            (openaiSettings numbers env (env.stripped .gptModel))
      else if env.stripped .llmModel = [] then
        .error noModel
      else
        .ok
          (compatibleSettings floats numbers env
            (env.stripped .llmModel)) := by
  rw [fromEnv, hReads.timeout, ok_bind, hReads.gptMaxTokens,
    ok_bind, hReads.llmMaxTokens, ok_bind, hReads.temperature,
    hReads.temperatureOr]
  by_cases hKey : env.stripped .openaiApi = []
  · simp only [hKey, ne_eq, not_true_eq_false, false_and,
      if_false]
    by_cases hModel : env.stripped .llmModel = []
    · rw [if_pos hModel, if_pos hModel]
    · rw [if_neg hModel, if_neg hModel]
      rfl
  · by_cases hModel : env.stripped .gptModel = []
    · simp [hKey, hModel]
    · simp only [hKey, hModel, ne_eq, not_false_eq_true,
        and_self, if_true]
      rfl

/- The loop over the models of compatible servers. -/
theorem foldlM_compatible
    (hReads : Reads floats env numbers)
    (names : List Text)
    (registry : Registry F) :
    (names.foldlM
        (fun (registry : Registry F) lm => do
          let temperature ←
            floatOr floats env .llmTemperature floats.zero
          pure
            (registry.add {
              provider := .compatible
              llmBaseUrl :=
                some (env.get .llmBaseUrl defaultBaseUrl)
              llmModel := lm
              llmApiKey := env.get .llmApiKey "EMPTY".toList
              temperature := some temperature
              requestTimeout := numbers.timeout
              maxTokens := numbers.llmMaxTokens }))
        registry :
        Except Raised (Registry F)) =
      .ok
        ((names.map (compatibleSettings floats numbers env)).foldl
          Registry.add registry) := by
  simp only [hReads.temperatureOr, ok_bind]
  rw [List.foldlM_pure, List.foldl_map]
  rfl

/- All models of a readable environment. -/
theorem allFromEnv_eq (hReads : Reads floats env numbers) :
    allFromEnv floats env =
      if candidates floats numbers env = [] then
        .error noModels
      else
        .ok
          ((candidates floats numbers env).foldl Registry.add
            Registry.empty).out := by
  unfold allFromEnv
  rw [hReads.timeout, ok_bind, hReads.gptMaxTokens, ok_bind,
    hReads.llmMaxTokens, ok_bind, hReads.temperature]
  by_cases hKey : env.stripped .openaiApi = []
  · simp only [hKey, if_true, pure_bind]
    rw [foldlM_compatible hReads, ok_bind, candidates,
      openaiCandidates, if_pos hKey, List.nil_append]
    simp only [Registry.out_foldl_eq_nil]
    rfl
  · simp only [hKey, if_false, ok_bind, pure_bind]
    rw [foldlM_compatible hReads, ok_bind, candidates,
      openaiCandidates, if_neg hKey]
    have hOpenai :
        ((splitOr env .gptModels .gptModel).map
            (openaiSettings numbers env)).foldl
              Registry.add Registry.empty =
          (splitOr env .gptModels .gptModel).foldl
            (fun registry gm =>
              registry.add (openaiSettings numbers env gm))
            Registry.empty :=
      List.foldl_map
    unfold openaiSettings at hOpenai
    rw [← hOpenai, ← List.foldl_append]
    simp only [Registry.out_foldl_eq_nil]
    rfl

end Equations

------------------------------------------------------------
-- Names In A Text
------------------------------------------------------------

/- A comma is not white space. -/
theorem comma_mem_strip
    {text : Text}
    (hComma : ',' ∈ text) :
    ',' ∈ Text.strip text := by
  rcases Text.strip_spec text with
    ⟨front, back, hFront, hBack, hSplit⟩
  rw [hSplit, List.mem_append, List.mem_append] at hComma
  rcases hComma with (hComma | hComma) | hComma
  · have hSpace := hFront _ hComma
    simp [Text.isSpace] at hSpace
  · exact hComma
  · have hSpace := hBack _ hComma
    simp [Text.isSpace] at hSpace

/- What a strip gives is a part of the text. -/
theorem comma_mem_of_strip
    {text : Text}
    (hComma : ',' ∈ Text.strip text) :
    ',' ∈ text := by
  rcases Text.strip_spec text with ⟨front, back, -, -, hSplit⟩
  rw [hSplit]
  exact
    List.mem_append_left back
      (List.mem_append_right front hComma)

/- The pieces between commas have none. -/
theorem comma_notMem_splitOn
    {text piece : Text}
    (hMem : piece ∈ text.splitOn ',') :
    ',' ∉ piece := by
  induction text generalizing piece with
  | nil =>
      rw [List.splitOn_nil, List.mem_singleton] at hMem
      rw [hMem]
      exact List.not_mem_nil
  | cons c text ih =>
      rw [List.splitOn_cons_eq_if_modifyHead] at hMem
      by_cases hEq : c = ','
      · rw [if_pos (beq_iff_eq.mpr hEq)] at hMem
        rcases List.mem_cons.mp hMem with rfl | hMem
        · exact List.not_mem_nil
        · exact ih hMem
      · rw [if_neg (fun hBeq => hEq (beq_iff_eq.mp hBeq))]
          at hMem
        cases hPieces : text.splitOn ',' with
        | nil => exact absurd hPieces (List.splitOn_ne_nil _ _)
        | cons first pieces =>
            rw [hPieces] at hMem ih
            rcases List.mem_cons.mp hMem with rfl | hMem
            · intro hComma
              rcases List.mem_cons.mp hComma with rfl | hComma
              · exact hEq rfl
              · exact ih List.mem_cons_self hComma
            · exact ih (List.mem_cons_of_mem _ hMem)

/- Names have no comma. -/
theorem comma_notMem_namesOf
    {text name : Text}
    (hMem : name ∈ namesOf text) :
    ',' ∉ name := by
  intro hComma
  rw [namesOf, List.mem_filter, List.mem_map] at hMem
  rcases hMem with ⟨⟨piece, hPiece, rfl⟩, -⟩
  exact comma_notMem_splitOn hPiece (comma_mem_of_strip hComma)

/- A text without a comma is one name, or blank. -/
theorem namesOf_of_notMem
    {text : Text}
    (hComma : ',' ∉ text) :
    namesOf text =
      if text.strip = [] then [] else [text.strip] := by
  rw [namesOf, List.splitOn_eq_singleton hComma]
  by_cases hBlank : text.strip = []
  · simp [hBlank]
  · simp [hBlank]

/- A blank text has no name. -/
theorem namesOf_of_blank
    {text : Text}
    (hBlank : text.strip = []) :
    namesOf text = [] := by
  have hComma : ',' ∉ text := by
    intro hComma
    have hStrip := comma_mem_strip hComma
    rw [hBlank] at hStrip
    exact List.not_mem_nil hStrip
  rw [namesOf_of_notMem hComma, if_pos hBlank]

/- A variable that is not set names the other's models. -/
theorem splitOr_of_unset
    {env : Env}
    {plural : Variable}
    (hUnset : env plural = none)
    (singular : Variable) :
    splitOr env plural singular = split env singular := by
  have hNone : split env plural = [] := by
    rw [split, Env.get, hUnset]
    exact namesOf_of_blank rfl
  rw [splitOr, if_pos hNone]

/-
  The first of the models of a variable that is not blank is
  its whole text if and only if the text has no comma.
-/
theorem head?_split
    {env : Env}
    {name : Variable}
    (hBlank : env.stripped name ≠ []) :
    (split env name).head? = some (env.stripped name) ↔
      ',' ∉ env.get name [] := by
  constructor
  · intro hHead hComma
    exact
      comma_notMem_namesOf (List.mem_of_mem_head? hHead)
        (comma_mem_strip hComma)
  · intro hComma
    unfold Env.stripped at hBlank ⊢
    rw [split, namesOf_of_notMem hComma, if_neg hBlank]
    rfl

------------------------------------------------------------
-- Refinement
------------------------------------------------------------

/-
  The registry agrees with the settings of one model: it has
  no model twice, begins with that model when there are only
  single names, and refuses a key without a model as well.
-/
structure Refines (floats : Floats F) (env : Env) : Prop where
  nodup :
    ∀ models,
      allFromEnv floats env = .ok models →
        (models.map Settings.llmModel).Nodup
  first :
    env .gptModels = none →
      env .llmModels = none →
        ∀ s,
          fromEnv floats env = .ok s →
            ∃ rest, allFromEnv floats env = .ok (s :: rest)
  refuses :
    fromEnv floats env = .error keyWithoutModel →
      split env .gptModels = [] →
        ∃ raised, allFromEnv floats env = .error raised

/-
  A key that comes without a model of its own comes without
  any other model, and a variable for one model that counts
  has no comma when only such variables are set.
-/
structure Unmixed (env : Env) : Prop where
  key :
    env.stripped .openaiApi ≠ [] →
      env.stripped .gptModel = [] →
        split env .gptModels = [] →
          splitOr env .llmModels .llmModel = []
  gpt :
    env .gptModels = none →
      env .llmModels = none →
        env.stripped .openaiApi ≠ [] →
          ',' ∉ env.get .gptModel []
  llm :
    env .gptModels = none →
      env .llmModels = none →
        env.stripped .openaiApi = [] →
          ',' ∉ env.get .llmModel []

section Refinement

variable {floats : Floats F} {env : Env} {numbers : Numbers F}

/- The registry begins with the first of the candidates. -/
theorem allFromEnv_first_iff
    (hReads : Reads floats env numbers)
    (s : Settings F) :
    (∃ rest, allFromEnv floats env = .ok (s :: rest)) ↔
      (candidates floats numbers env).head? = some s := by
  rw [allFromEnv_eq hReads]
  cases hAll : candidates floats numbers env with
  | nil => simp
  | cons first others =>
      rcases Registry.foldl_first first others with ⟨rest, hRest⟩
      rw [if_neg (List.cons_ne_nil _ _), hRest]
      simp

/- The registry is refused when there is no candidate. -/
theorem allFromEnv_refused_iff
    (hReads : Reads floats env numbers) :
    (∃ raised, allFromEnv floats env = .error raised) ↔
      candidates floats numbers env = [] := by
  rw [allFromEnv_eq hReads]
  by_cases hAll : candidates floats numbers env = []
  · simp [hAll]
  · simp [hAll]

/- A registry has no model twice. -/
theorem nodup_allFromEnv
    (hReads : Reads floats env numbers)
    {models : List (Settings F)}
    (hAll : allFromEnv floats env = .ok models) :
    (models.map Settings.llmModel).Nodup := by
  rw [allFromEnv_eq hReads] at hAll
  split at hAll
  · cases hAll
  · cases hAll
    exact Registry.nodup _

/- The first settings are known by the model they are for. -/
theorem head?_map_append
    {settings : Text → Settings F}
    {names : List Text}
    {others : List (Settings F)}
    (hModel : ∀ name, (settings name).llmModel = name)
    (hOthers : ∀ s ∈ others, ∀ name, s ≠ settings name)
    (model : Text) :
    (names.map settings ++ others).head? =
        some (settings model) ↔
      names.head? = some model := by
  cases names with
  | nil =>
      constructor
      · intro hHead
        exact
          absurd rfl
            (hOthers _ (List.mem_of_mem_head? hHead) model)
      · intro hHead
        cases hHead
  | cons name names =>
      rw [List.map_cons, List.cons_append, List.head?_cons,
        List.head?_cons, Option.some_inj, Option.some_inj]
      constructor
      · intro hEq
        rw [← hModel name, hEq, hModel]
      · intro hEq
        rw [hEq]

/- The first candidate of an environment with a key. -/
theorem head?_openai
    (hKey : env.stripped .openaiApi ≠ [])
    (model : Text) :
    (candidates floats numbers env).head? =
        some (openaiSettings numbers env model) ↔
      (splitOr env .gptModels .gptModel).head? = some model := by
  rw [candidates, openaiCandidates, if_neg hKey]
  apply head?_map_append
  · intro name
    rfl
  · -- a compatible server is none of OpenAI
    intro s hMem name hEq
    rcases List.mem_map.mp hMem with ⟨other, -, rfl⟩
    have hProvider := congrArg Settings.provider hEq
    cases hProvider

/- The first candidate of an environment without a key. -/
theorem head?_compatible
    (hKey : env.stripped .openaiApi = [])
    (model : Text) :
    (candidates floats numbers env).head? =
        some (compatibleSettings floats numbers env model) ↔
      (splitOr env .llmModels .llmModel).head? = some model := by
  rw [candidates, openaiCandidates, if_pos hKey,
    List.nil_append, ← List.append_nil (List.map _ _)]
  apply head?_map_append
  · intro name
    rfl
  · intro s hMem
    cases hMem

/-
  The first of the models is the one of `from_env` if and only
  if the variable that `from_env` reads has no comma.
-/
theorem first_iff
    (hReads : Reads floats env numbers)
    {plural singular : Variable}
    {settings : Text → Settings F}
    {raised : Raised}
    (hUnset : env plural = none)
    (hFrom :
      fromEnv floats env =
        if env.stripped singular = [] then .error raised
        else .ok (settings (env.stripped singular)))
    (hHead :
      ∀ model,
        (candidates floats numbers env).head? =
            some (settings model) ↔
          (splitOr env plural singular).head? = some model) :
    (∀ s,
        fromEnv floats env = .ok s →
          ∃ rest, allFromEnv floats env = .ok (s :: rest)) ↔
      ',' ∉ env.get singular [] := by
  rw [hFrom]
  by_cases hModel : env.stripped singular = []
  · rw [if_pos hModel]
    constructor
    · intro _ hComma
      have hStrip := comma_mem_strip hComma
      unfold Env.stripped at hModel
      rw [hModel] at hStrip
      exact List.not_mem_nil hStrip
    · intro _ s hOk
      cases hOk
  · rw [if_neg hModel, ← head?_split hModel,
      ← splitOr_of_unset hUnset singular, ← hHead,
      ← allFromEnv_first_iff hReads]
    constructor
    · intro hFirst
      exact hFirst _ rfl
    · intro hFirst s hOk
      cases hOk
      exact hFirst

/- With a key the first model is the one of `from_env`. -/
theorem first_iff_openai
    (hReads : Reads floats env numbers)
    (hUnset : env .gptModels = none)
    (hKey : env.stripped .openaiApi ≠ []) :
    (∀ s,
        fromEnv floats env = .ok s →
          ∃ rest, allFromEnv floats env = .ok (s :: rest)) ↔
      ',' ∉ env.get .gptModel [] := by
  apply first_iff hReads hUnset _ (head?_openai hKey)
  · exact keyWithoutModel
  · rw [fromEnv_eq hReads, if_pos hKey]

/- Without a key the first model is that of `from_env`. -/
theorem first_iff_compatible
    (hReads : Reads floats env numbers)
    (hUnset : env .llmModels = none)
    (hKey : env.stripped .openaiApi = []) :
    (∀ s,
        fromEnv floats env = .ok s →
          ∃ rest, allFromEnv floats env = .ok (s :: rest)) ↔
      ',' ∉ env.get .llmModel [] := by
  apply first_iff hReads hUnset _ (head?_compatible hKey)
  · exact noModel
  · rw [fromEnv_eq hReads, if_neg (fun hNe => hNe hKey)]

/- A refusal of the key without a model says what is set. -/
theorem fromEnv_keyWithoutModel_iff
    (hReads : Reads floats env numbers) :
    fromEnv floats env = .error keyWithoutModel ↔
      env.stripped .openaiApi ≠ [] ∧
        env.stripped .gptModel = [] := by
  rw [fromEnv_eq hReads]
  by_cases hKey : env.stripped .openaiApi = []
  · rw [if_neg (fun hNe => hNe hKey)]
    have hOther : noModel ≠ keyWithoutModel := by
      decide +kernel
    split
    · simp [hKey, hOther]
    · simp [hKey]
  · by_cases hModel : env.stripped .gptModel = []
    · simp [hKey, hModel]
    · simp [hKey, hModel]

/- With a key and no model of its own, any model is local. -/
theorem candidates_eq_nil_iff
    (hKey : env.stripped .openaiApi ≠ [])
    (hModel : env.stripped .gptModel = [])
    (hNames : split env .gptModels = []) :
    candidates floats numbers env = [] ↔
      splitOr env .llmModels .llmModel = [] := by
  have hNone : splitOr env .gptModels .gptModel = [] := by
    rw [splitOr, if_pos hNames, split]
    exact namesOf_of_blank hModel
  rw [candidates, openaiCandidates, if_neg hKey, hNone,
    List.map_nil, List.nil_append, List.map_eq_nil_iff]

end Refinement

/-
  The registry refines the settings of one model if and only
  if keys and models are not mixed up in the environment.
-/
theorem allFromEnv_refines_iff
    (floats : Floats F)
    (env : Env)
    (hParse : Parseable floats env) :
    Refines floats env ↔ Unmixed env := by
  rcases hParse.numbers with ⟨numbers, hReads⟩
  constructor
  · intro hRefines
    constructor
    · intro hKey hModel hNames
      rw [← candidates_eq_nil_iff hKey hModel hNames,
        ← allFromEnv_refused_iff hReads]
      apply hRefines.refuses _ hNames
      exact
        (fromEnv_keyWithoutModel_iff hReads).mpr ⟨hKey, hModel⟩
    · intro hGpt hLlm hKey
      exact
        (first_iff_openai hReads hGpt hKey).mp
          (hRefines.first hGpt hLlm)
    · intro hGpt hLlm hKey
      exact
        (first_iff_compatible hReads hLlm hKey).mp
          (hRefines.first hGpt hLlm)
  · intro hUnmixed
    constructor
    · intro models hAll
      exact nodup_allFromEnv hReads hAll
    · intro hGpt hLlm
      by_cases hKey : env.stripped .openaiApi = []
      · exact
          (first_iff_compatible hReads hLlm hKey).mpr
            (hUnmixed.llm hGpt hLlm hKey)
      · exact
          (first_iff_openai hReads hGpt hKey).mpr
            (hUnmixed.gpt hGpt hLlm hKey)
    · intro hFrom hNames
      rcases (fromEnv_keyWithoutModel_iff hReads).mp hFrom with
        ⟨hKey, hModel⟩
      rw [allFromEnv_refused_iff hReads,
        candidates_eq_nil_iff hKey hModel hNames]
      exact hUnmixed.key hKey hModel hNames

/- Floats as their texts. -/
def textFloats : Floats Text where
  parse := some
  sixty := "60.0".toList
  zero := "0.0".toList

/- A key of OpenAI next to the model of a local server. -/
def keyNextToLocal : Env
| .openaiApi => some "sk-x".toList
| .llmModel => some "qwen".toList
| _ => none

/- A model of OpenAI next to the model of a local server. -/
def gptNextToLocal : Env
| .openaiApi => some "sk-x".toList
| .gptModel => some " gpt-x ".toList
| .llmModel => some "qwen".toList
| _ => none

/- The key is ignored in favour of the local server. -/
theorem allFromEnv_ignores_key :
    Parseable textFloats keyNextToLocal ∧
      fromEnv textFloats keyNextToLocal =
        .error keyWithoutModel ∧
      (∃ s,
        allFromEnv textFloats keyNextToLocal = .ok [s] ∧
          s.provider = .compatible) ∧
      ¬ Refines textFloats keyNextToLocal := by
  have hFrom :
      fromEnv textFloats keyNextToLocal =
        .error keyWithoutModel := by
    decide +kernel
  have hAll :
      ∃ s,
        allFromEnv textFloats keyNextToLocal = .ok [s] ∧
          s.provider = .compatible :=
    ⟨_, rfl, rfl⟩
  refine ⟨parseable_of_blank _ ?_, hFrom, hAll, ?_⟩
  · decide +kernel
  · intro hRefines
    rcases hRefines.refuses hFrom (by decide +kernel) with
      ⟨raised, hRaised⟩
    rcases hAll with ⟨s, hSome, -⟩
    rw [hSome] at hRaised
    cases hRaised

/- An environment with both, where the registry refines. -/
theorem allFromEnv_refines_iff_both :
    Refines textFloats gptNextToLocal := by
  have hParse : Parseable textFloats gptNextToLocal :=
    parseable_of_blank _ (by decide +kernel)
  apply
    (allFromEnv_refines_iff textFloats gptNextToLocal hParse).mpr
  constructor
  · intro _ hModel
    exact absurd hModel (by decide +kernel)
  · intro _ _ _
    decide +kernel
  · intro _ _ hKey
    exact absurd hKey (by decide +kernel)

end Config

end LegalAgent
