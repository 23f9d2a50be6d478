import InferenceEngine.Lib.PyStr
import InferenceEngine.Lib.PyValue
import InferenceEngine.Inference.Types

/-!
# Inference.RemoteParse

The parser of the remote backends (`inference/remote/openai_compat.py`): one line of a streamed
reply becomes at most one token, or the end marker, and what it says of the finish reason and the
usage is recorded as a side effect. A line that is not understood is dropped; a chunk of another
shape than the code expects makes it raise. Left out are the two errors of `json.loads` that are no
`JSONDecodeError`: of an integer of more than 4300 digits, and of a line nested too deep.

* `parseSseLine_eq`: what a line gives does not depend on what was recorded before, and what it
  records is `lineWrites`.
* `parseChunk_isOk`: the parser raises on a chunk exactly when it is not of the shape it expects.
-/

namespace InferenceEngine

open Json Py

variable {F : Type} (num : Numbers F)

/-- `_Outcome`: what is captured from the stream. -/
structure RemoteOutcome where
  finish : FinishReason := .stop
  promptTokens : Int := 0
  completionTokens : Int := 0
  usageSeen : Bool := false
  upstreamAttempts : Nat := 0
  deriving DecidableEq, Repr

/-- What the parser returns: a token, which need not be a string, or the sentinel `_DONE`. -/
inductive SseItem (F : Type) where
  | done
  | text (v : Value F)

/-- `int(usage.get(key, 0) or 0)`; `null` is as good as no value. -/
def usageCount (key : String) (usage : List (Text × Value F)) : Except String Int :=
  toInt num (or num ((usage.lookup (Text.ofString key)).getD .null) (.int 0))

def recordUsage (usage : Value F) (outcome : RemoteOutcome) : Except String Unit × RemoteOutcome :=
  match usage with
  | .obj items =>
    match usageCount num "prompt_tokens" items with
    | .error e => (.error e, outcome)
    | .ok prompt =>
      match usageCount num "completion_tokens" items with
      | .error e => (.error e, { outcome with promptTokens := prompt })
      | .ok completion =>
        (.ok (),
          { outcome with promptTokens := prompt, completionTokens := completion, usageSeen := true })
  | _ => (.ok (), outcome)

/-- The finish reasons that are known. -/
def finishOf : Value F → Option FinishReason
  | .str s =>
    if s = Text.ofString "length" then some .length
    else if s = Text.ofString "stop" ∨ s = Text.ofString "eos_token" then some .stop
    else none
  | _ => none

/-- The text of a choice. -/
def choiceText (isChat : Bool) (choice : Value F) : Except String (Value F) :=
  if isChat then
    match get "delta" choice with
    | .error e => .error e
    | .ok delta =>
      match get "content" (or num delta (.obj [])) with
      | .error e => .error e
      | .ok content => .ok (or num content (.str []))
  else
    match get "text" choice with
    | .error e => .error e
    | .ok text => .ok (or num text (.str []))

/-- `choices[0]`, when there are choices. -/
def firstChoice (obj : Value F) : Except String (Option (Value F)) :=
  match get "choices" obj with
  | .error e => .error e
  | .ok choices =>
    if !truthy num choices then .ok none
    else
      match first choices with
      | .error e => .error e
      | .ok choice => .ok (some choice)

/-- The part of `_parse_sse_line` after the usage. -/
def parseChoices (isChat : Bool) (obj : Value F) (outcome : RemoteOutcome) :
    Except String (List (SseItem F)) × RemoteOutcome :=
  match firstChoice num obj with
  | .error e => (.error e, outcome)
  | .ok none => (.ok [], outcome)
  | .ok (some choice) =>
    match get "finish_reason" choice with
    | .error e => (.error e, outcome)
    | .ok reason =>
      let outcome := { outcome with finish := (finishOf reason).getD outcome.finish }
      match choiceText num isChat choice with
      | .error e => (.error e, outcome)
      | .ok text => (.ok (if truthy num text then [.text text] else []), outcome)

def parseChunk (isChat : Bool) (obj : Value F) (outcome : RemoteOutcome) :
    Except String (List (SseItem F)) × RemoteOutcome :=
  match get "usage" obj with
  | .error e => (.error e, outcome)
  | .ok usage =>
    match recordUsage num usage outcome with
    | (.error e, outcome) => (.error e, outcome)
    | (.ok _, outcome) => parseChoices num isChat obj outcome

/-- What an SSE line holds. -/
inductive SseData (F : Type) where
  /-- a comment, another field, or no JSON -/
  | other
  | done
  | chunk (obj : Value F)

def dataTag : List Char := ['d', 'a', 't', 'a', ':']

def doneMarker : List Char := ['[', 'D', 'O', 'N', 'E', ']']

def sseData (line : List Char) : SseData F :=
  let line := strip line
  if line.isEmpty || [':'].isPrefixOf line || !dataTag.isPrefixOf line then .other
  else
    let data := strip (line.drop dataTag.length)
    if data = doneMarker then .done
    else
      match loads num.toFloats (.ofList data) with
      | none => .other
      | some obj => .chunk obj

/-- `_parse_sse_line`. -/
def parseSseLine (isChat : Bool) (line : List Char) (outcome : RemoteOutcome) :
    Except String (List (SseItem F)) × RemoteOutcome :=
  match (sseData num line : SseData F) with
  | .other => (.ok [], outcome)
  | .done => (.ok [.done], outcome)
  | .chunk obj => parseChunk num isChat obj outcome

/-! ## What is recorded -/

/-- The fields of `_Outcome` that are written. The usage is seen when the second count is
written. -/
structure Writes where
  finish : Option FinishReason := none
  prompt : Option Int := none
  completion : Option Int := none
  deriving DecidableEq, Repr

namespace Writes

def apply (w : Writes) (outcome : RemoteOutcome) : RemoteOutcome :=
  { outcome with
    finish := w.finish.getD outcome.finish
    promptTokens := w.prompt.getD outcome.promptTokens
    completionTokens := w.completion.getD outcome.completionTokens
    usageSeen := outcome.usageSeen || w.completion.isSome }

/-- First `w`, then `w'`. -/
def seq (w w' : Writes) : Writes where
  finish := w'.finish.or w.finish
  prompt := w'.prompt.or w.prompt
  completion := w'.completion.or w.completion

theorem apply_empty (outcome : RemoteOutcome) : Writes.apply {} outcome = outcome := by
  simp [apply]

theorem apply_seq (w w' : Writes) (outcome : RemoteOutcome) :
    (w.seq w').apply outcome = w'.apply (w.apply outcome) := by
  obtain ⟨finish, prompt, completion⟩ := w
  obtain ⟨finish', prompt', completion'⟩ := w'
  cases finish' <;> cases prompt' <;> cases completion' <;> simp [apply, seq]

end Writes

def usageWrites : Value F → Writes
  | .obj items =>
    match usageCount num "prompt_tokens" items with
    | .error _ => {}
    | .ok prompt =>
      { prompt := some prompt, completion := (usageCount num "completion_tokens" items).toOption }
  | _ => {}

/-- The finish reason that a chunk records. -/
def chunkFinish (obj : Value F) : Option FinishReason :=
  match firstChoice num obj with
  | .ok (some choice) =>
    match get "finish_reason" choice with
    | .ok reason => finishOf reason
    | .error _ => none
  | _ => none

/-- The choices of a chunk are not looked at when its usage makes the parser raise. -/
def chunkWrites (obj : Value F) : Writes :=
  match get "usage" obj with
  | .error _ => {}
  | .ok usage =>
    match recordUsage num usage {} with
    | (.error _, _) => usageWrites num usage
    | (.ok _, _) => { usageWrites num usage with finish := chunkFinish num obj }

def lineWrites (line : List Char) : Writes :=
  match (sseData num line : SseData F) with
  | .chunk obj => chunkWrites num obj
  | _ => {}

theorem recordUsage_eq (usage : Value F) (outcome : RemoteOutcome) :
    recordUsage num usage outcome =
      ((recordUsage num usage {}).1, (usageWrites num usage).apply outcome) := by
  cases usage with
  | obj items =>
    simp only [recordUsage, usageWrites]
    cases usageCount num "prompt_tokens" items with
    | error e => simp [Writes.apply]
    | ok prompt =>
      cases usageCount num "completion_tokens" items with
      | error e => simp [Writes.apply, Except.toOption]
      | ok completion => simp [Writes.apply, Except.toOption]
  | _ => simp [recordUsage, usageWrites, Writes.apply]

theorem parseChoices_eq (isChat : Bool) (obj : Value F) (outcome : RemoteOutcome) :
    parseChoices num isChat obj outcome =
      ((parseChoices num isChat obj {}).1,
        { outcome with finish := (chunkFinish num obj).getD outcome.finish }) := by
  unfold parseChoices chunkFinish
  cases firstChoice num obj with
  | error e => rfl
  | ok choice? =>
    cases choice? with
    | none => rfl
    | some choice =>
      dsimp only
      cases get "finish_reason" choice with
      | error e => rfl
      | ok reason =>
        dsimp only
        cases choiceText num isChat choice with
        | error e => rfl
        | ok text => rfl

theorem parseChunk_eq (isChat : Bool) (obj : Value F) (outcome : RemoteOutcome) :
    parseChunk num isChat obj outcome =
      ((parseChunk num isChat obj {}).1, (chunkWrites num obj).apply outcome) := by
  unfold parseChunk chunkWrites
  cases get "usage" obj with
  | error e => rw [Writes.apply_empty]
  | ok usage =>
    dsimp only
    rw [recordUsage_eq num usage outcome]
    rcases hrecord : recordUsage num usage {} with ⟨result, recorded⟩
    cases result with
    | error e => rfl
    | ok u =>
      dsimp only
      rw [parseChoices_eq num isChat obj, parseChoices_eq num isChat obj recorded]
      refine congrArg _ ?_
      have hfinish : (usageWrites num usage).finish = none := by
        unfold usageWrites
        split
        · split
          · rfl
          · rfl
        · rfl
      simp [Writes.apply, hfinish]

/-- What a line gives does not depend on what was recorded before. -/
theorem parseSseLine_eq (isChat : Bool) (line : List Char) (outcome : RemoteOutcome) :
    parseSseLine num isChat line outcome =
      ((parseSseLine num isChat line {}).1, (lineWrites num line).apply outcome) := by
  unfold parseSseLine lineWrites
  cases (sseData num line : SseData F) with
  | other => rw [Writes.apply_empty]
  | done => rw [Writes.apply_empty]
  | chunk obj => exact parseChunk_eq num isChat obj outcome

/-! ## The shape of a chunk -/

/-- The value of a key, `null` when it is missing. -/
def field (key : String) (items : List (Text × Value F)) : Value F :=
  (items.lookup (Text.ofString key)).getD .null

def isObj : Value F → Bool
  | .obj _ => true
  | _ => false

/-- The counts of a usage object are numbers, or nothing. -/
def usageReadable : Value F → Bool
  | .obj items => (usageCount num "prompt_tokens" items).toOption.isSome &&
    (usageCount num "completion_tokens" items).toOption.isSome
  | _ => true

/-- A choice is an object, and so is its delta, if it has one. -/
def choiceReadable (isChat : Bool) : Value F → Bool
  | .obj items => !isChat || !truthy num (field "delta" items) || isObj (field "delta" items)
  | _ => false

def choicesReadable (isChat : Bool) (choices : Value F) : Bool :=
  !truthy num choices ||
    match choices with
    | .arr (choice :: _) => choiceReadable num isChat choice
    | _ => false

/-- A chunk is an object of the shape that is expected. -/
def readable (isChat : Bool) : Value F → Bool
  | .obj items =>
    usageReadable num (field "usage" items) && choicesReadable num isChat (field "choices" items)
  | _ => false

theorem recordUsage_isOk (usage : Value F) (outcome : RemoteOutcome) :
    (recordUsage num usage outcome).1.toOption.isSome = usageReadable num usage := by
  cases usage with
  | obj items =>
    simp only [recordUsage, usageReadable]
    cases usageCount num "prompt_tokens" items with
    | error e => rfl
    | ok prompt =>
      cases usageCount num "completion_tokens" items with
      | error e => rfl
      | ok completion => rfl
  | _ => rfl

theorem choiceText_isOk (isChat : Bool) (items : List (Text × Value F)) :
    (choiceText num isChat (.obj items)).toOption.isSome =
      choiceReadable num isChat (.obj items) := by
  cases isChat with
  | false => rfl
  | true =>
    simp only [choiceText, choiceReadable, Py.get, if_true, Bool.not_true, Bool.false_or]
    show (match get "content" (or num (field "delta" items) (.obj [])) with
        | .error e => Except.error e
        | .ok content => .ok (or num content (.str []))).toOption.isSome = _
    unfold Py.or
    cases truthy num (field "delta" items) with
    | false => rfl
    | true =>
      cases field "delta" items with
      | obj delta => rfl
      | _ => rfl

theorem parseChoices_isOk (isChat : Bool) (items : List (Text × Value F))
    (outcome : RemoteOutcome) : (parseChoices num isChat (.obj items) outcome).1.toOption.isSome =
      choicesReadable num isChat (field "choices" items) := by
  have hchoices : firstChoice num (.obj items) =
      if !truthy num (field "choices" items) then .ok none
      else
        match first (field "choices" items) with
        | .error e => .error e
        | .ok choice => .ok (some choice) := rfl
  unfold parseChoices choicesReadable
  rw [hchoices]
  cases truthy num (field "choices" items) with
  | false => rfl
  | true =>
    cases field "choices" items with
    | arr vs =>
      cases vs with
      | nil => rfl
      | cons choice vs =>
        cases choice with
        | obj choice =>
          have htext := choiceText_isOk num isChat choice
          simp only [first, Py.get, Bool.not_true, Bool.false_eq_true, if_false, Bool.false_or]
          cases hresult : choiceText num isChat (.obj choice) with
          | error e => rw [hresult] at htext; exact htext
          | ok text => rw [hresult] at htext; exact htext
        | _ => rfl
    | str s =>
      cases s with
      | nil => rfl
      | cons u us =>
        cases us with
        | nil => rfl
        | cons u' us => rfl
    | _ => rfl

theorem parseChunk_isOk (isChat : Bool) (obj : Value F) (outcome : RemoteOutcome) :
    (parseChunk num isChat obj outcome).1.toOption.isSome = readable num isChat obj := by
  cases obj with
  | obj items =>
    have husage := recordUsage_isOk num (field "usage" items) outcome
    have hget : get "usage" (.obj items : Value F) = .ok (field "usage" items) := rfl
    unfold parseChunk readable
    rw [hget]
    dsimp only
    rcases hrecord : recordUsage num (field "usage" items) outcome with ⟨result, recorded⟩
    rw [hrecord] at husage
    cases result with
    | error e =>
      rw [← husage]
      rfl
    | ok u =>
      rw [← husage, parseChoices_isOk]
      rfl
  | _ => rfl

theorem parseChunk_cases (isChat : Bool) (obj : Value F) (outcome : RemoteOutcome) :
    (∃ e, (parseChunk num isChat obj outcome).1 = .error e) ∨
    (parseChunk num isChat obj outcome).1 = .ok [] ∨
    ∃ v, (parseChunk num isChat obj outcome).1 = .ok [.text v] := by
  unfold parseChunk
  split
  · exact .inl ⟨_, rfl⟩
  · split
    · exact .inl ⟨_, rfl⟩
    · unfold parseChoices
      split
      · exact .inl ⟨_, rfl⟩
      · exact .inr (.inl rfl)
      · split
        · exact .inl ⟨_, rfl⟩
        · dsimp only
          split
          · exact .inl ⟨_, rfl⟩
          · split
            · exact .inr (.inr ⟨_, rfl⟩)
            · exact .inr (.inl rfl)

theorem parseSseLine_cases (isChat : Bool) (line : List Char) (outcome : RemoteOutcome) :
    (∃ e, (parseSseLine num isChat line outcome).1 = .error e) ∨
    (parseSseLine num isChat line outcome).1 = .ok [.done] ∨
    (parseSseLine num isChat line outcome).1 = .ok [] ∨
    ∃ v, (parseSseLine num isChat line outcome).1 = .ok [.text v] := by
  unfold parseSseLine
  cases (sseData num line : SseData F) with
  | other => exact .inr (.inr (.inl rfl))
  | done => exact .inr (.inl rfl)
  | chunk obj =>
    rcases parseChunk_cases num isChat obj outcome with herror | hnone | hsome
    · exact .inl herror
    · exact .inr (.inr (.inl hnone))
    · exact .inr (.inr (.inr hsome))

end InferenceEngine
