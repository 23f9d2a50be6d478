import InferenceEngine.Inference.Types
import InferenceEngine.Lib.Json

/-!
# Edge.Requests

How the three edges translate a request body onto a `GenerationRequest` and the arguments of
`start_generation`: `chat_completions` (`api/openai_router.py`, `api/schemas/openai.py`), `messages`
(`api/anthropic_router.py`, `api/schemas/anthropic.py`) and `_generate` with `_build_request`
(`grpc/server.py`).

A body holds the fields the edge reads, with the types its schema gives them; unknown fields are
ignored. A schema collects the faults of all fields. Sampling values are exact rationals. The fields
of `GenerationRequest` that no edge sets are left out.

* `cap_checked_iff`: the completion cap of the pre-check bounds the cap that the backend is given
  exactly when the body sets one.
-/

namespace InferenceEngine
namespace Edge

open Json

variable {F : Type}

/-! ## Checks of a field -/

inductive Fault where
  | greaterThanEqual (bound : ℚ)
  | lessThanEqual (bound : ℚ)
  | tooShort (minLength : Nat)
  | literalError
  | dictType
  | valueError (message : String)
  deriving DecidableEq, Repr

structure FieldError where
  field : String
  fault : Fault
  deriving DecidableEq, Repr

/-- The faults of a field of which one check is made. -/
def require (ok : Bool) (field : String) (fault : Fault) : List FieldError :=
  if ok then [] else [⟨field, fault⟩]

def atLeast (lo : ℚ) (field : String) (x : ℚ) : List FieldError :=
  require (lo ≤ x) field (.greaterThanEqual lo)

/-- `Field(ge=lo, le=hi)` -/
def within (lo hi : ℚ) (field : String) (x : ℚ) : List FieldError :=
  atLeast lo field x ++ require (x ≤ hi) field (.lessThanEqual hi)

/-- `Field(ge=1, le=32768)` -/
def tokenCap (field : String) (x : Int) : List FieldError := within 1 32768 field x

/-- A field that may be `None`. -/
def optional {α : Type} (check : α → List FieldError) (x : Option α) : List FieldError :=
  (x.map check).getD []

/-- `a or b`, where zero is false. -/
def pyOr (a b : Option Int) : Option Int :=
  match a with
  | some x => if x = 0 then b else some x
  | none => b

/-! ## The internal request -/

inductive Role where
  | system
  | user
  | assistant
  deriving DecidableEq, Repr

def Role.ofString? : String → Option Role
  | "system" => some .system
  | "user" => some .user
  | "assistant" => some .assistant
  | _ => none

structure Message where
  role : Role
  content : String
  deriving DecidableEq, Repr

structure RawMessage where
  role : String
  content : String
  deriving DecidableEq, Repr

/-- `Message(role=m.role, content=m.content)` of messages whose roles are known -/
def toMessages (ms : List RawMessage) : List Message :=
  ms.filterMap fun m => (Role.ofString? m.role).map fun role => ⟨role, m.content⟩

/-- A JSON schema as it was received: an object, or a value that is none. -/
inductive Schema (F : Type) where
  | object (items : List (Text × Value F))
  | other (truthy : Bool)

def Schema.truthy : Schema F → Bool
  | .object items => !items.isEmpty
  | .other truthy => truthy

def Schema.isObject : Schema F → Bool
  | .object _ => true
  | .other _ => false

structure GenerationRequest (F : Type) where
  prompt : Option String := none
  messages : Option (List Message) := none
  requestId : String := ""
  maxTokens : Option Int := some 256
  temperature : ℚ := 4 / 5
  topP : ℚ := 19 / 20
  topK : Int := 40
  seed : Option Int := none
  stop : List String := []
  presencePenalty : ℚ := 0
  frequencyPenalty : ℚ := 0
  grammar : Option String := none
  jsonSchema : Option (Schema F) := none
  jsonObject : Bool := false

namespace GenerationRequest

/-- `_exactly_one_input` -/
def exactlyOneInput (r : GenerationRequest F) : List FieldError :=
  require (r.prompt.isSome != (r.messages.map fun ms => !ms.isEmpty).getD false) ""
    (.valueError "provide exactly one of 'prompt' or 'messages'")

/-- `_one_structured_mode` -/
def oneStructuredMode (r : GenerationRequest F) : List FieldError :=
  require (r.grammar.isSome.toNat + r.jsonSchema.isSome.toNat + r.jsonObject.toNat ≤ 1) ""
    (.valueError "set at most one of 'grammar', 'json_schema', or 'json_object'")

def errors (r : GenerationRequest F) : List FieldError :=
  optional (tokenCap "max_tokens") r.maxTokens ++ within 0 2 "temperature" r.temperature ++
    within 0 1 "top_p" r.topP ++ atLeast 0 "top_k" r.topK ++
    within (-2) 2 "presence_penalty" r.presencePenalty ++
    within (-2) 2 "frequency_penalty" r.frequencyPenalty ++
    optional (fun s => require s.isObject "json_schema" .dictType) r.jsonSchema ++
    r.exactlyOneInput ++ r.oneStructuredMode

end GenerationRequest

/-- Why an edge does not call `start_generation`. -/
inductive Rejection where
  /-- the schema of the body -/
  | body (errors : List FieldError)
  /-- 404, `NOT_FOUND` -/
  | modelNotFound (model : String)
  /-- an `OpenAIError` with status 400 -/
  | badRequest (message param : String) (code : Option String)
  /-- `GenerationRequest(...)` raises -/
  | raised (errors : List FieldError)
  deriving DecidableEq, Repr

/-- `GenerationRequest(...)` -/
def GenerationRequest.make (r : GenerationRequest F) : Except Rejection (GenerationRequest F) :=
  if r.errors.isEmpty then .ok r else .error (.raised r.errors)

structure StartCall (F : Type) where
  gen : GenerationRequest F
  endpoint : String
  modelId : String
  promptText : String
  maxTokens : Int
  requestId : String
  requiredFeatures : List String

structure Services where
  knownModel : String → Bool
  allowStructuredOutput : Bool

/-- Go on, or reject the request. -/
def expect (ok : Bool) (r : Rejection) : Except Rejection Unit := if ok then .ok () else .error r

def joinLines (contents : List String) : String := String.intercalate "\n" contents

/-! ## OpenAI -/

inductive FormatType where
  /-- missing or `null` -/
  | none
  | text
  | jsonObject
  | jsonSchema
  | unsupported (shown : String)
  deriving DecidableEq, Repr

/-- `response_format`, with the `schema` of its `json_schema` when that is an object. -/
structure ResponseFormat (F : Type) where
  type : FormatType
  schema : Option (Schema F)

/-- `stop: str | list[str] | None` -/
inductive Stop where
  | none
  | one (s : String)
  | many (ss : List String)
  deriving DecidableEq, Repr

structure ChatCompletionRequest (F : Type) where
  model : String
  messages : List RawMessage
  maxTokens : Option Int := none
  maxCompletionTokens : Option Int := none
  temperature : ℚ := 1
  topP : ℚ := 1
  frequencyPenalty : ℚ := 0
  presencePenalty : ℚ := 0
  stop : Stop := .none
  seed : Option Int := none
  n : Int := 1
  tools : Option (List (Value F)) := none
  functions : Option (List (Value F)) := none
  responseFormat : Option (ResponseFormat F) := none

inductive OutputMode where
  | none
  | jsonObject
  | jsonSchema
  deriving DecidableEq, Repr

namespace ChatCompletionRequest

/-- `_reject_tools` -/
def rejectTools (field : String) (v : Option (List (Value F))) : List FieldError :=
  require ((v.map List.isEmpty).getD true) field
    (.valueError "tool/function calling is not supported yet (planned: Block 12)")

/-- `_validate_response_format` -/
def validateResponseFormat (v : ResponseFormat F) : List FieldError :=
  match v.type with
  | .unsupported shown => [⟨"response_format",
    .valueError ("unsupported response_format type " ++ shown ++
      " (supported: text, json_object, json_schema)")⟩]
  | _ => []

def errors (b : ChatCompletionRequest F) : List FieldError :=
  require (1 ≤ b.messages.length) "messages" (.tooShort 1) ++
    (b.messages.flatMap fun m => require (Role.ofString? m.role).isSome "role" .literalError) ++
    optional (tokenCap "max_tokens") b.maxTokens ++
    optional (tokenCap "max_completion_tokens") b.maxCompletionTokens ++
    within 0 2 "temperature" b.temperature ++ within 0 1 "top_p" b.topP ++
    within (-2) 2 "frequency_penalty" b.frequencyPenalty ++
    within (-2) 2 "presence_penalty" b.presencePenalty ++ atLeast 1 "n" b.n ++
    require (b.n = 1) "n"
      (.valueError "only n=1 is supported (multiple choices are not implemented)") ++
    rejectTools "tools" b.tools ++ rejectTools "functions" b.functions ++
    optional validateResponseFormat b.responseFormat

/-- `effective_max_tokens` -/
def effectiveMaxTokens (b : ChatCompletionRequest F) : Option Int :=
  pyOr b.maxCompletionTokens b.maxTokens

/-- `stop_list`, after `_normalize_stop` -/
def stopList (b : ChatCompletionRequest F) : List String :=
  match b.stop with
  | .none => []
  | .one s => [s]
  | .many ss => ss

/-- `structured_output` -/
def structuredOutput (b : ChatCompletionRequest F) : OutputMode × Option (Schema F) :=
  match b.responseFormat with
  | none => (.none, none)
  | some rf =>
    match rf.type with
    | .jsonObject => (.jsonObject, none)
    | .jsonSchema => (.jsonSchema, rf.schema)
    | _ => (.none, none)

/-- The `GenerationRequest` of a body. -/
def toInternal (b : ChatCompletionRequest F) (requestId : String) : GenerationRequest F where
  messages := some (toMessages b.messages)
  requestId := requestId
  maxTokens := b.effectiveMaxTokens
  temperature := b.temperature
  topP := b.topP
  presencePenalty := b.presencePenalty
  frequencyPenalty := b.frequencyPenalty
  stop := b.stopList
  seed := b.seed
  jsonObject := b.structuredOutput.1 = .jsonObject
  jsonSchema := if b.structuredOutput.1 = .jsonSchema then b.structuredOutput.2 else none

end ChatCompletionRequest

/-- `chat_completions`, up to `start_generation` -/
def chatCompletions (app : Services) (requestId : String) (b : ChatCompletionRequest F) :
    Except Rejection (StartCall F) := do
  expect b.errors.isEmpty (.body b.errors)
  expect (app.knownModel b.model) (.modelNotFound b.model)
  let (mode, schema) := b.structuredOutput
  expect (mode = .none || app.allowStructuredOutput)
    (.badRequest "structured output is disabled by the operator" "response_format"
      (some "structured_output_disabled"))
  expect (mode ≠ .jsonSchema || (schema.map Schema.truthy).getD false)
    (.badRequest "response_format json_schema requires a non-empty 'schema'" "response_format" none)
  let gen ← (b.toInternal requestId).make
  pure {
    gen := gen
    endpoint := "/v1/chat/completions"
    modelId := b.model
    promptText := joinLines (b.messages.map RawMessage.content)
    maxTokens := (pyOr b.effectiveMaxTokens (some 256)).getD 0
    requestId := requestId
    requiredFeatures := if mode = .none then [] else ["structured_output"] }

/-! ## Anthropic -/

/-- A content block: is its `type` the text `"text"`, how is it shown, and `str` of its `text`
(empty when missing). -/
structure ContentBlock where
  isText : Bool
  shownType : String
  text : String
  deriving DecidableEq, Repr

inductive Content where
  | text (s : String)
  | blocks (bs : List ContentBlock)
  deriving DecidableEq, Repr

/-- `_extract_text` -/
def Content.extractText (place : String) : Content → Except Fault String
  | .text s => .ok s
  | .blocks bs =>
    match bs.find? fun b => !b.isText with
    | some b => .error (.valueError ("unsupported content block " ++ b.shownType ++ " in " ++
      place ++ "; only 'text' is supported"))
    | none => .ok (String.join (bs.map ContentBlock.text))

/-- `_text_only`, `_system_text_only` -/
def textOnly (field place : String) (c : Content) : List FieldError :=
  match c.extractText place with
  | .ok _ => []
  | .error fault => [⟨field, fault⟩]

structure AnthropicMessage where
  role : String
  content : Content
  deriving DecidableEq, Repr

structure MessagesRequest (F : Type) where
  model : String
  messages : List AnthropicMessage
  system : Option Content := none
  maxTokens : Int
  temperature : ℚ := 1
  topP : ℚ := 1
  topK : Int := 0
  stopSequences : List String := []
  tools : Option (List (Value F)) := none
  toolChoice : Option (List (Text × Value F)) := none

namespace MessagesRequest

/-- `Literal["user", "assistant"]` -/
def role? : String → Option Role
  | "user" => some .user
  | "assistant" => some .assistant
  | _ => none

def errors (b : MessagesRequest F) : List FieldError :=
  require (1 ≤ b.messages.length) "messages" (.tooShort 1) ++
    (b.messages.flatMap fun m => require (role? m.role).isSome "role" .literalError ++
      textOnly "content" "message" m.content) ++
    optional (textOnly "system" "system prompt") b.system ++
    tokenCap "max_tokens" b.maxTokens ++ within 0 1 "temperature" b.temperature ++
    within 0 1 "top_p" b.topP ++ atLeast 0 "top_k" b.topK ++
    require ((b.tools.map List.isEmpty).getD true) "tools"
      (.valueError "tool use is not supported yet (planned: Block 12)") ++
    require ((b.toolChoice.map List.isEmpty).getD true) "tool_choice"
      (.valueError "tool_choice is not supported yet (planned: Block 12)")

/-- `system_text` -/
def systemText (b : MessagesRequest F) : Option String :=
  b.system.bind fun c => (c.extractText "system prompt").toOption

/-- `to_internal_messages`, on a body without errors -/
def toInternalMessages (b : MessagesRequest F) : List Message :=
  (match b.systemText with
    | none | some "" => []
    | some system => [⟨.system, system⟩]) ++
    b.messages.filterMap fun m => do
      let role ← role? m.role
      let content ← (m.content.extractText (m.role ++ " message")).toOption
      pure ⟨role, content⟩

def promptText (b : MessagesRequest F) : String :=
  joinLines (b.toInternalMessages.map Message.content)

def toInternal (b : MessagesRequest F) (requestId : String) : GenerationRequest F where
  messages := some b.toInternalMessages
  requestId := requestId
  maxTokens := some b.maxTokens
  temperature := b.temperature
  topP := b.topP
  topK := b.topK
  stop := b.stopSequences

end MessagesRequest

/-- `messages`, up to `start_generation` -/
def messages (app : Services) (requestId : String) (b : MessagesRequest F) :
    Except Rejection (StartCall F) := do
  expect b.errors.isEmpty (.body b.errors)
  expect (app.knownModel b.model) (.modelNotFound b.model)
  let gen ← (b.toInternal requestId).make
  pure {
    gen := gen
    endpoint := "/v1/messages"
    modelId := b.model
    promptText := b.promptText
    maxTokens := b.maxTokens
    requestId := requestId
    requiredFeatures := [] }

/-! ## gRPC -/

/-- `GenerateRequest`; a proto3 field that is not set is zero or empty. -/
structure GenerateRequest where
  model : String
  messages : List RawMessage := []
  prompt : String := ""
  maxTokens : Int := 0
  temperature : ℚ := 0
  topP : ℚ := 0
  stop : List String := []
  topK : Int := 0
  deriving DecidableEq, Repr

/-- `_build_request` -/
def buildRequest (r : GenerateRequest) (requestId : String) :
    Except Rejection (GenerationRequest F × String) := do
  let common : GenerationRequest F := {
    requestId := requestId
    maxTokens := if r.maxTokens > 0 then some r.maxTokens else none
    temperature := if r.temperature > 0 then r.temperature else 4 / 5
    topP := if r.topP > 0 then r.topP else 19 / 20
    topK := if r.topK > 0 then r.topK else 40
    stop := r.stop }
  if r.messages.isEmpty then
    let gen ← { common with prompt := some r.prompt }.make
    pure (gen, r.prompt)
  else
    expect (r.messages.all fun m => (Role.ofString? m.role).isSome)
      (.raised [⟨"role", .literalError⟩])
    let gen ← { common with messages := some (toMessages r.messages) }.make
    pure (gen, joinLines (r.messages.map RawMessage.content))

/-- `_generate`, up to `start_generation_core` -/
def generateCall (app : Services) (requestId : String) (r : GenerateRequest) :
    Except Rejection (StartCall F) := do
  expect (app.knownModel r.model) (.modelNotFound r.model)
  let (gen, promptText) ← buildRequest r requestId
  pure {
    gen := gen
    endpoint := "/grpc/Generate"
    modelId := r.model
    promptText := promptText
    maxTokens := (pyOr gen.maxTokens (some 256)).getD 0
    requestId := requestId
    requiredFeatures := [] }

/-! ## The completion cap -/

@[simp]
theorem expect_bind_ok {α : Type} {ok : Bool} {r : Rejection} {f : Unit → Except Rejection α}
    {c : α} : (expect ok r >>= f) = .ok c ↔ ok = true ∧ f () = .ok c := by
  cases ok with
  | false => exact iff_of_false (fun h => by cases h) (fun h => by cases h.1)
  | true => exact ⟨fun h => ⟨rfl, h⟩, fun h => h.2⟩

@[simp]
theorem GenerationRequest.make_bind_ok {α : Type} {r : GenerationRequest F}
    {f : GenerationRequest F → Except Rejection α} {c : α} :
    (r.make >>= f) = .ok c ↔ r.errors = [] ∧ f r = .ok c := by
  unfold GenerationRequest.make
  cases hr : r.errors with
  | nil => exact ⟨fun h => ⟨rfl, h⟩, fun h => h.2⟩
  | cons e es => exact iff_of_false (fun h => by cases h) (fun h => by cases h.1)

theorem tokenCap_pos {field : String} {x : Int} (h : tokenCap field x = []) : 1 ≤ x := by
  unfold tokenCap within atLeast require at h
  by_contra hx
  have hlt : ¬ (1 : ℚ) ≤ x := by exact_mod_cast hx
  simp [hlt] at h

theorem optional_tokenCap_pos {field : String} {x : Option Int}
    (h : optional (tokenCap field) x = []) :
    ∀ cap ∈ x, 1 ≤ cap := by
  intro cap hcap
  rw [Option.mem_def] at hcap
  subst hcap
  exact tokenCap_pos h

/-- What an edge makes of a body: where the cap of the request comes from, and the one of the
pre-check. -/
theorem chatCompletions_caps {app : Services} {requestId : String} {b : ChatCompletionRequest F}
    {c : StartCall F} (h : chatCompletions app requestId b = .ok c) :
    b.errors = [] ∧ c.gen.maxTokens = b.effectiveMaxTokens ∧
      c.maxTokens = (pyOr b.effectiveMaxTokens (some 256)).getD 0 := by
  simp only [chatCompletions, expect_bind_ok, GenerationRequest.make_bind_ok, List.isEmpty_iff] at h
  obtain ⟨herr, -, -, -, -, hc⟩ := h
  rw [← Except.ok.inj hc]
  exact ⟨herr, rfl, rfl⟩

theorem messages_caps {app : Services} {requestId : String} {b : MessagesRequest F}
    {c : StartCall F} (h : messages app requestId b = .ok c) :
    c.gen.maxTokens = some b.maxTokens ∧ c.maxTokens = b.maxTokens := by
  simp only [messages, expect_bind_ok, GenerationRequest.make_bind_ok] at h
  obtain ⟨-, -, -, hc⟩ := h
  rw [← Except.ok.inj hc]
  exact ⟨rfl, rfl⟩

theorem generateCall_caps {app : Services} {requestId : String} {r : GenerateRequest}
    {c : StartCall F} (h : generateCall app requestId r = .ok c) :
    c.gen.maxTokens = (if r.maxTokens > 0 then some r.maxTokens else none) ∧
      c.maxTokens = (pyOr c.gen.maxTokens (some 256)).getD 0 := by
  simp only [generateCall, buildRequest, expect_bind_ok] at h
  obtain ⟨-, hbuild⟩ := h
  split at hbuild
  · simp only [bind_assoc, GenerationRequest.make_bind_ok, pure_bind] at hbuild
    rw [← Except.ok.inj hbuild.2]
    exact ⟨rfl, rfl⟩
  · simp only [bind_assoc, expect_bind_ok, GenerationRequest.make_bind_ok, pure_bind] at hbuild
    rw [← Except.ok.inj hbuild.2.2]
    exact ⟨rfl, rfl⟩

inductive Body (F : Type) where
  | openai (b : ChatCompletionRequest F)
  | anthropic (b : MessagesRequest F)
  | grpc (r : GenerateRequest)

/-- What the edge passes to `start_generation`, if it accepts the body. -/
def Body.startCall (app : Services) (requestId : String) : Body F → Except Rejection (StartCall F)
  | .openai b => chatCompletions app requestId b
  | .anthropic b => messages app requestId b
  | .grpc r => generateCall app requestId r

/-- Does the body set a cap? -/
def Body.setsCap : Body F → Bool
  | .openai b => b.maxTokens.isSome || b.maxCompletionTokens.isSome
  | .anthropic _ => true
  | .grpc r => 0 < r.maxTokens

/-- The backend may not generate more completion tokens than the pre-check has counted. -/
def StartCall.CapChecked (c : StartCall F) : Prop :=
  ∃ cap, c.gen.maxTokens = some cap ∧ cap ≤ c.maxTokens

theorem pyOr_some {x : Int} (hx : 1 ≤ x) (b : Option Int) : pyOr (some x) b = some x := by
  have hne : x ≠ 0 := by omega
  simp [pyOr, hne]

theorem effectiveMaxTokens_pos {b : ChatCompletionRequest F} (h : b.errors = []) :
    (∀ cap ∈ b.effectiveMaxTokens, 1 ≤ cap) ∧
      b.effectiveMaxTokens.isSome = (b.maxTokens.isSome || b.maxCompletionTokens.isSome) := by
  simp only [ChatCompletionRequest.errors, List.append_eq_nil_iff] at h
  have hmax := optional_tokenCap_pos h.1.1.1.1.1.1.1.1.1.1.2
  have hcomp := optional_tokenCap_pos h.1.1.1.1.1.1.1.1.1.2
  unfold ChatCompletionRequest.effectiveMaxTokens
  cases hc : b.maxCompletionTokens with
  | none => simpa [pyOr] using hmax
  | some x =>
    have hx := hcomp x hc
    rw [pyOr_some hx]
    simpa using hx

/-- **The pre-check counts every completion token exactly for the bodies that set a cap.** -/
theorem cap_checked_iff {app : Services} {requestId : String} {body : Body F} {c : StartCall F}
    (h : body.startCall app requestId = .ok c) : c.CapChecked ↔ body.setsCap = true := by
  cases body with
  | openai b =>
    obtain ⟨herr, hgen, hstart⟩ := chatCompletions_caps h
    obtain ⟨hpos, hsome⟩ := effectiveMaxTokens_pos herr
    rw [Body.setsCap, ← hsome, StartCall.CapChecked, hgen, hstart]
    cases heff : b.effectiveMaxTokens with
    | none => simp
    | some cap =>
      rw [pyOr_some (hpos cap heff)]
      simp
  | anthropic b =>
    obtain ⟨hgen, hstart⟩ := messages_caps h
    simp [StartCall.CapChecked, hgen, hstart, Body.setsCap]
  | grpc r =>
    obtain ⟨hgen, hstart⟩ := generateCall_caps h
    by_cases hr : r.maxTokens > 0
    · rw [if_pos hr] at hgen
      rw [hgen, pyOr_some (by omega)] at hstart
      simp [StartCall.CapChecked, hgen, hstart, Body.setsCap, hr]
    · rw [if_neg hr] at hgen
      simp [StartCall.CapChecked, hgen, Body.setsCap, hr]

/-- The services of the examples. -/
def openServices : Services := ⟨fun _ => true, true⟩

/-- Both caps are set, and the newer one counts. -/
def cappedBody : Body ExactFloat :=
  .openai {
    model := "m"
    messages := [⟨"user", "hi"⟩]
    maxTokens := some 1000
    maxCompletionTokens := some 20 }

theorem cap_checked_iff_cappedBody :
    ∃ c, cappedBody.startCall openServices "r" = .ok c ∧ c.maxTokens = 20 ∧ c.CapChecked := by
  obtain ⟨c, hc⟩ : ∃ c, cappedBody.startCall openServices "r" = .ok c := ⟨_, rfl⟩
  exact ⟨c, hc, by cases hc; rfl, (cap_checked_iff hc).mpr rfl⟩

/-- A body that sets no cap, as most clients send it. -/
def uncappedBody : Body ExactFloat := .openai { model := "m", messages := [⟨"user", "hi"⟩] }

/-- The pre-check counts 256 completion tokens, and the backend is given no cap. -/
theorem uncappedBody_unchecked :
    ∃ c, uncappedBody.startCall openServices "r" = .ok c ∧ c.maxTokens = 256 ∧
      c.gen.maxTokens = none ∧ ¬ c.CapChecked := by
  obtain ⟨c, hc⟩ : ∃ c, uncappedBody.startCall openServices "r" = .ok c := ⟨_, rfl⟩
  have hnone : c.gen.maxTokens = none := by
    cases hc
    rfl
  refine ⟨c, hc, by cases hc; rfl, hnone, ?_⟩
  rintro ⟨cap, hcap, -⟩
  rw [hnone] at hcap
  cases hcap

end Edge
end InferenceEngine
