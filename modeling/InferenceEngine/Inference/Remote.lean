import InferenceEngine.Lib.Run
import InferenceEngine.Inference.RemoteParse

/-!
# Inference.Remote

A generation on a remote backend: `_stream_tokens`, the generator that posts the request and yields
the tokens of the reply, and `RemoteGenerationStream`, which pulls them. A failure before the first
token may be tried again; after it, or out of retries, it ends the generation.

The two are one state with one step for each thing that can happen: the consumer asks for the next
token or closes the stream, and while it waits, the upstream refuses, replies, sends a line, ends
the body or breaks. The generator is suspended at its yields, and stands nowhere else when the
consumer moves.

Ghost fields, for statements only: `log`, `lines`, `before`.

* `step_inv` and `from_one_attempt`: whatever the upstream does and whenever the consumer stops, the
  tokens are those of the lines of the last attempt, and there is no attempt after one of them.
-/

namespace InferenceEngine

open Lts Json Py

inductive UpstreamFault where
  /-- `httpx.TransportError` -/
  | transport (message : String)
  /-- any other; that of a `CancelledError` is empty -/
  | other (message : String)
  deriving DecidableEq, Repr

inductive Place (F : Type) where
  | created
  /-- waiting for the reply to a POST -/
  | posting
  /-- waiting for the next line of the body -/
  | reading
  /-- suspended, with what is left of the items of the line -/
  | yielded (v : Value F) (rest : List (SseItem F))
  | returned
  | raised (message : String)

/-- The generator has not ended. -/
def Place.going {F : Type} : Place F → Bool
  | .returned | .raised _ => false
  | _ => true

/-- `__anext__` is waiting in it for the upstream. -/
def Place.waiting {F : Type} : Place F → Bool
  | .posting | .reading => true
  | _ => false

/-- How a call of `__anext__` or `aclose` has ended. -/
inductive Answer (F : Type) where
  | chunk (text : Value F) (index : Nat)
  | stopAsyncIteration
  | raised (e : Exc)

structure RemoteResult where
  text : Text
  finishReason : FinishReason
  promptTokens : Int
  completionTokens : Int
  deriving DecidableEq, Repr

inductive RemoteEvent (F : Type) where
  | posted
  /-- a token of an attempt -/
  | yielded (attempt : Nat) (v : Value F)
  | failed (retriable : Bool)

namespace RemoteEvent

variable {F : Type}

def isPosted : RemoteEvent F → Bool
  | .posted => true
  | _ => false

/-- After it there must be no other attempt. -/
def final : RemoteEvent F → Bool
  | .posted => false
  | .yielded _ _ => true
  | .failed retriable => !retriable

def token? : RemoteEvent F → Option (Value F)
  | .yielded _ v => some v
  | _ => none

end RemoteEvent

structure RemoteStream (F : Type) where
  -- the generator
  outcome : RemoteOutcome := {}
  attempts : Nat := 0
  yieldedAny : Bool := false
  place : Place F := .created
  -- the stream
  index : Nat := 0
  parts : List (Value F) := []
  result : Option RemoteResult := none
  exhausted : Bool := false
  closed : Bool := false
  answer : Option (Answer F) := none
  log : List (RemoteEvent F) := []
  /-- the lines of the last attempt -/
  lines : List (List Char) := []
  /-- those of the attempts before it -/
  before : List (List Char) := []

inductive RemoteLabel where
  | anext
  | aclose
  | refused (fault : UpstreamFault)
  /-- the reply, and what reading its body raises if it is no 200 -/
  | replied (status : Nat) (read : Option UpstreamFault)
  | line (line : List Char)
  /-- the end of the body -/
  | ended
  | broke (fault : UpstreamFault)
  deriving DecidableEq, Repr

/-- `_RETRIABLE_STATUS`. -/
def retriableStatus : List Nat := [429, 500, 502, 503, 504]

namespace RemoteStream

variable {F : Type} (num : Numbers F) (maxPrestreamRetries : Nat) (isChat : Bool)
  (s : RemoteStream F)

/-! ## The generator -/

/-- The head of the loop of `_stream_tokens`. -/
def post : RemoteStream F :=
  { s with
    outcome := { s.outcome with upstreamAttempts := s.outcome.upstreamAttempts + 1 }
    place := .posting
    log := s.log ++ [.posted]
    lines := []
    before := s.before ++ s.lines }

def raise (message : String) : RemoteStream F :=
  { s with place := .raised message, log := s.log ++ [.failed false] }

/-- The `except` clause of the loop. -/
def caught (retriable : Bool) (message : String) : RemoteStream F :=
  if s.yieldedAny || !retriable || maxPrestreamRetries ≤ s.attempts then
    { s with place := .raised message, log := s.log ++ [.failed retriable] }
  else post { s with attempts := s.attempts + 1, log := s.log ++ [.failed retriable] }

def fault : UpstreamFault → RemoteStream F
  | .transport message => s.caught maxPrestreamRetries true message
  | .other message => s.raise message

/-- The loop over the items of a line. -/
def proceed : List (SseItem F) → RemoteStream F
  | [] => { s with place := .reading }
  | .done :: _ => { s with place := .returned }
  | .text v :: rest =>
    { s with
      yieldedAny := true
      place := .yielded v rest
      log := s.log ++ [.yielded s.outcome.upstreamAttempts v] }

def receive (line : List Char) : RemoteStream F :=
  let r := parseSseLine num isChat line s.outcome
  let s := { s with outcome := r.2, lines := s.lines ++ [line] }
  match r.1 with
  | .error message => s.raise message
  | .ok items => s.proceed items

/-! ## The stream -/

/-- `_build_result`; it raises when the parts cannot be joined. -/
def buildResult (finish : FinishReason) : Except String (RemoteStream F) :=
  if s.result.isSome then .ok s
  else
    match join 0 s.parts with
    | .error message => .error message
    | .ok text =>
      .ok { s with
        result := some
          { text := text
            finishReason := finish
            promptTokens := if s.outcome.usageSeen then s.outcome.promptTokens else 0
            completionTokens := if s.outcome.usageSeen then s.outcome.completionTokens
              else s.index }
        exhausted := true }

/-- The result is built, and the call ends so. -/
def conclude (finish : FinishReason) (answer : Answer F) : RemoteStream F :=
  match s.buildResult finish with
  | .ok s => { s with answer := some answer }
  | .error message => { s with answer := some (.raised (.other message)) }

/-- `__anext__` after its `await`, or still in it. -/
def settle : RemoteStream F :=
  match s.place with
  | .created | .posting | .reading => { s with answer := none }
  | .yielded v _ =>
    { s with index := s.index + 1, parts := s.parts ++ [v], answer := some (.chunk v s.index) }
  | .returned => s.conclude s.outcome.finish .stopAsyncIteration
  | .raised message => s.conclude .error (.raised (.generationFailed message))

def anext : Option (RemoteStream F) :=
  if s.place.waiting then none
  else if s.exhausted then some { s with answer := some .stopAsyncIteration }
  else
    match s.place with
    | .created => some s.post.settle
    | .yielded _ rest => some (s.proceed rest).settle
    -- a generator that has ended
    | _ => some (s.conclude s.outcome.finish .stopAsyncIteration)

/-- The generator is closed, at its yield or before it was started. -/
def closeTokens : RemoteStream F :=
  match s.place with
  | .created | .yielded _ _ => { s with place := .raised "" }
  | _ => s

def aclose : Option (RemoteStream F) :=
  if s.place.waiting then none
  else if s.closed then some s
  else
    let s := { s with closed := true }.closeTokens
    match s.buildResult .cancelled with
    | .ok s => some { s with exhausted := true }
    | .error message => some { s with answer := some (.raised (.other message)) }

def step (s : RemoteStream F) : RemoteLabel → Option (RemoteStream F)
  | .anext => s.anext
  | .aclose => s.aclose
  | .refused fault =>
    match s.place with
    | .posting => some (s.fault maxPrestreamRetries fault).settle
    | _ => none
  | .replied status read =>
    match s.place with
    | .posting =>
      if status = 200 then some { s with place := .reading }.settle
      else
        match read with
        | some fault => some (s.fault maxPrestreamRetries fault).settle
        | none =>
          some (s.caught maxPrestreamRetries (decide (status ∈ retriableStatus))
            ("remote generation failed: HTTP " ++ toString status)).settle
    | _ => none
  | .line line =>
    match s.place with
    | .reading => some (s.receive num isChat line).settle
    | _ => none
  | .ended =>
    match s.place with
    | .reading => some { s with place := .returned }.settle
    | _ => none
  | .broke fault =>
    match s.place with
    | .reading => some (s.fault maxPrestreamRetries fault).settle
    | _ => none

inductive Moves (s : RemoteStream F) : RemoteLabel → RemoteStream F → Prop where
  | drained (hidle : s.place.waiting = false) (hexhausted : s.exhausted = true) :
      Moves s .anext { s with answer := some .stopAsyncIteration }
  | start (hplace : s.place = .created) (hexhausted : s.exhausted = false) :
      Moves s .anext s.post.settle
  | resume {v : Value F} {rest : List (SseItem F)} (hplace : s.place = .yielded v rest)
      (hexhausted : s.exhausted = false) : Moves s .anext (s.proceed rest).settle
  /-- the generator has ended, but there is no result -/
  | again (hended : s.place.going = false) (hexhausted : s.exhausted = false) :
      Moves s .anext (s.conclude s.outcome.finish .stopAsyncIteration)
  | closed (hidle : s.place.waiting = false) (hclosed : s.closed = true) : Moves s .aclose s
  | close (hidle : s.place.waiting = false) (hclosed : s.closed = false) {t : RemoteStream F}
      (hresult : { s with closed := true }.closeTokens.buildResult .cancelled = .ok t) :
      Moves s .aclose { t with exhausted := true }
  | closeRaises (hidle : s.place.waiting = false) (hclosed : s.closed = false) {message : String}
      (hresult : { s with closed := true }.closeTokens.buildResult .cancelled = .error message) :
      Moves s .aclose
        { { s with closed := true }.closeTokens with answer := some (.raised (.other message)) }
  | refused (fault : UpstreamFault) (hplace : s.place = .posting) :
      Moves s (.refused fault) (s.fault maxPrestreamRetries fault).settle
  | opened (read : Option UpstreamFault) (hplace : s.place = .posting) :
      Moves s (.replied 200 read) { s with place := .reading }.settle
  | unreadable {status : Nat} (fault : UpstreamFault) (hplace : s.place = .posting)
      (hstatus : status ≠ 200) :
      Moves s (.replied status (some fault)) (s.fault maxPrestreamRetries fault).settle
  | rejected {status : Nat} (hplace : s.place = .posting) (hstatus : status ≠ 200) :
      Moves s (.replied status none)
        (s.caught maxPrestreamRetries (decide (status ∈ retriableStatus))
          ("remote generation failed: HTTP " ++ toString status)).settle
  | line (line : List Char) (hplace : s.place = .reading) :
      Moves s (.line line) (s.receive num isChat line).settle
  | ended (hplace : s.place = .reading) : Moves s .ended { s with place := .returned }.settle
  | broke (fault : UpstreamFault) (hplace : s.place = .reading) :
      Moves s (.broke fault) (s.fault maxPrestreamRetries fault).settle

variable {num maxPrestreamRetries isChat s} {s' : RemoteStream F} {l : RemoteLabel}

theorem moves_of_anext (h : s.anext = some s') :
    Moves num maxPrestreamRetries isChat s .anext s' := by
  unfold anext at h
  split at h
  · cases h
  · rename_i hidle
    have hidle : s.place.waiting = false := by simpa using hidle
    split at h
    · cases h
      exact .drained hidle ‹_›
    · rename_i hexhausted
      have hexhausted : s.exhausted = false := by simpa using hexhausted
      split at h <;> cases h
      · exact .start ‹_› hexhausted
      · exact .resume ‹_› hexhausted
      · rename_i hcreated hyielded
        refine .again ?_ hexhausted
        cases hplace : s.place with
        | created => exact absurd hplace hcreated
        | yielded v rest => exact absurd hplace (hyielded v rest)
        | posting | reading =>
          rw [hplace] at hidle
          cases hidle
        | returned | raised message => rfl

theorem moves_of_aclose (h : s.aclose = some s') :
    Moves num maxPrestreamRetries isChat s .aclose s' := by
  unfold aclose at h
  split at h
  · cases h
  · rename_i hidle
    have hidle : s.place.waiting = false := by simpa using hidle
    split at h
    · cases h
      exact .closed hidle ‹_›
    · rename_i hclosed
      have hclosed : s.closed = false := by simpa using hclosed
      dsimp only at h
      split at h <;> cases h
      · exact .close hidle hclosed ‹_›
      · exact .closeRaises hidle hclosed ‹_›

theorem moves_of_step (h : step num maxPrestreamRetries isChat s l = some s') :
    Moves num maxPrestreamRetries isChat s l s' := by
  cases l with
  | anext => exact moves_of_anext h
  | aclose => exact moves_of_aclose h
  | refused fault =>
    simp only [step] at h
    split at h <;> cases h
    exact .refused fault ‹_›
  | replied status read =>
    simp only [step] at h
    split at h
    · rename_i hplace
      split at h
      · rename_i hstatus
        cases h
        subst hstatus
        exact .opened read hplace
      · split at h <;> cases h
        · exact .unreadable _ hplace ‹_›
        · exact .rejected hplace ‹_›
    · cases h
  | line line =>
    simp only [step] at h
    split at h <;> cases h
    exact .line line ‹_›
  | ended =>
    simp only [step] at h
    split at h <;> cases h
    exact .ended ‹_›
  | broke fault =>
    simp only [step] at h
    split at h <;> cases h
    exact .broke fault ‹_›

/-! ## One attempt -/

variable (num maxPrestreamRetries isChat)

/-- The tokens of a line. -/
def lineTexts (line : List Char) : List (Value F) :=
  match (parseSseLine num isChat line {}).1 with
  | .ok items => items.filterMap fun
    | .text v => some v
    | .done => none
  | .error _ => []

structure FromOneAttempt (s : RemoteStream F) : Prop where
  /-- the tokens are those of the lines of the last attempt -/
  tokens : s.log.filterMap (·.token?) = s.lines.flatMap (lineTexts num isChat)
  single : ∀ a v, .yielded a v ∈ s.log → a = s.outcome.upstreamAttempts
  /-- no attempt after a token or a failure that is not retriable -/
  finality : s.log.Pairwise fun e e' => e.final = true → e'.isPosted = false
  posts : s.log.countP (·.isPosted) = s.outcome.upstreamAttempts
  bound : s.outcome.upstreamAttempts ≤ 1 + maxPrestreamRetries

structure Inv (s : RemoteStream F) : Prop where
  tokens : s.log.filterMap (·.token?) = s.lines.flatMap (lineTexts num isChat)
  single : ∀ a v, .yielded a v ∈ s.log → a = s.outcome.upstreamAttempts
  finality : s.log.Pairwise fun e e' => e.final = true → e'.isPosted = false
  posts : s.log.countP (·.isPosted) = s.outcome.upstreamAttempts
  attempts : s.outcome.upstreamAttempts ≤ s.attempts + 1
  budget : s.attempts ≤ maxPrestreamRetries
  /-- another attempt may still be made -/
  clean : s.place.going = true → s.yieldedAny = false → ∀ e ∈ s.log, e.final = false
  created : s.place = .created → s.outcome.upstreamAttempts = 0 ∧ s.yieldedAny = false
  posting : s.place = .posting → s.yieldedAny = false ∧ s.lines = [] ∧
    0 < s.outcome.upstreamAttempts
  rest : ∀ v rest, s.place = .yielded v rest → rest = []

variable {num maxPrestreamRetries isChat}

theorem Inv.fromOneAttempt (h : Inv num maxPrestreamRetries isChat s) :
    FromOneAttempt num maxPrestreamRetries isChat s where
  tokens := h.tokens
  single := h.single
  finality := h.finality
  posts := h.posts
  bound := by
    have hattempts := h.attempts
    have hbudget := h.budget
    omega

/-- Nothing of the generator has changed. -/
structure SameGenerator (s s' : RemoteStream F) : Prop where
  outcome : s'.outcome = s.outcome
  attempts : s'.attempts = s.attempts
  yieldedAny : s'.yieldedAny = s.yieldedAny
  place : s'.place = s.place
  log : s'.log = s.log
  lines : s'.lines = s.lines

theorem SameGenerator.inv (h : SameGenerator s s') (hs : Inv num maxPrestreamRetries isChat s) :
    Inv num maxPrestreamRetries isChat s' where
  tokens := by rw [h.log, h.lines]; exact hs.tokens
  single := by rw [h.log, h.outcome]; exact hs.single
  finality := by rw [h.log]; exact hs.finality
  posts := by rw [h.log, h.outcome]; exact hs.posts
  attempts := by rw [h.outcome, h.attempts]; exact hs.attempts
  budget := by rw [h.attempts]; exact hs.budget
  clean := by rw [h.place, h.yieldedAny, h.log]; exact hs.clean
  created := by rw [h.place, h.outcome, h.yieldedAny]; exact hs.created
  posting := by rw [h.place, h.yieldedAny, h.lines, h.outcome]; exact hs.posting
  rest := by rw [h.place]; exact hs.rest

theorem buildResult_same {finish : FinishReason} (h : s.buildResult finish = .ok s') :
    SameGenerator s s' := by
  unfold buildResult at h
  split at h
  · cases h
    exact ⟨rfl, rfl, rfl, rfl, rfl, rfl⟩
  · split at h
    · cases h
    · cases h
      exact ⟨rfl, rfl, rfl, rfl, rfl, rfl⟩

theorem conclude_same (s : RemoteStream F) (finish : FinishReason) (answer : Answer F) :
    SameGenerator s (s.conclude finish answer) := by
  unfold conclude
  split
  · rename_i s' h
    obtain ⟨houtcome, hattempts, hyielded, hplace, hlog, hlines⟩ := buildResult_same h
    exact ⟨houtcome, hattempts, hyielded, hplace, hlog, hlines⟩
  · exact ⟨rfl, rfl, rfl, rfl, rfl, rfl⟩

theorem settle_same (s : RemoteStream F) : SameGenerator s s.settle := by
  unfold settle
  split
  · exact ⟨rfl, rfl, rfl, rfl, rfl, rfl⟩
  · exact ⟨rfl, rfl, rfl, rfl, rfl, rfl⟩
  · exact ⟨rfl, rfl, rfl, rfl, rfl, rfl⟩
  · exact ⟨rfl, rfl, rfl, rfl, rfl, rfl⟩
  · exact conclude_same ..
  · exact conclude_same ..

theorem Inv.post (hs : Inv num maxPrestreamRetries isChat s) (hnone : s.yieldedAny = false)
    (hclean : ∀ e ∈ s.log, e.final = false) (hattempts : s.outcome.upstreamAttempts ≤ s.attempts) :
    Inv num maxPrestreamRetries isChat s.post := by
  have htoken : ∀ a v, RemoteEvent.yielded a v ∉ s.log := by
    intro a v hmem
    have hfinal := hclean _ hmem
    cases hfinal
  constructor
  case tokens =>
    have htokens : s.log.filterMap (·.token?) = [] := by
      rw [List.filterMap_eq_nil_iff]
      intro e he
      cases e with
      | yielded a v => exact absurd he (htoken a v)
      | posted => rfl
      | failed retriable => rfl
    simp only [RemoteStream.post, List.filterMap_append, htokens]
    rfl
  case single =>
    intro a v hmem
    rcases List.mem_append.mp hmem with hmem | hmem
    · exact absurd hmem (htoken a v)
    · cases List.mem_singleton.mp hmem
  case finality =>
    rw [RemoteStream.post, List.pairwise_append]
    refine ⟨hs.finality, List.pairwise_singleton .., fun e he _ _ hfinal => ?_⟩
    rw [hclean e he] at hfinal
    cases hfinal
  case posts =>
    simp only [RemoteStream.post, List.countP_append, hs.posts]
    rfl
  case attempts => exact Nat.succ_le_succ hattempts
  case budget => exact hs.budget
  case clean =>
    intro _ _ e he
    rcases List.mem_append.mp he with he | he
    · exact hclean e he
    · rw [List.mem_singleton.mp he]
      rfl
  case created => exact fun h => by cases h
  case posting => exact fun _ => ⟨hnone, rfl, Nat.succ_pos _⟩
  case rest => exact fun v rest h => by cases h

/-- A failure that is logged and ends the generator, or is followed by another attempt. -/
theorem Inv.logged (hs : Inv num maxPrestreamRetries isChat s) (retriable : Bool) (place : Place F)
    (hplace : place.going = false) :
    Inv num maxPrestreamRetries isChat
      { s with place := place, log := s.log ++ [.failed retriable] } := by
  constructor
  case tokens =>
    rw [List.filterMap_append, hs.tokens]
    exact List.append_nil _
  case single =>
    intro a v hmem
    rcases List.mem_append.mp hmem with hmem | hmem
    · exact hs.single a v hmem
    · cases List.mem_singleton.mp hmem
  case finality =>
    rw [List.pairwise_append]
    refine ⟨hs.finality, List.pairwise_singleton .., fun e _ e' he' _ => ?_⟩
    rw [List.mem_singleton.mp he']
    rfl
  case posts =>
    rw [List.countP_append, hs.posts]
    rfl
  case attempts => exact hs.attempts
  case budget => exact hs.budget
  case clean =>
    intro hgoing
    rw [show place.going = true from hgoing] at hplace
    cases hplace
  case created =>
    rintro rfl
    cases hplace
  case posting =>
    rintro rfl
    cases hplace
  case rest =>
    rintro v rest rfl
    cases hplace

theorem Inv.raise (hs : Inv num maxPrestreamRetries isChat s) (message : String) :
    Inv num maxPrestreamRetries isChat (s.raise message) := hs.logged false _ rfl

theorem Inv.caught (hs : Inv num maxPrestreamRetries isChat s) (hgoing : s.place.going = true)
    (retriable : Bool) (message : String) :
    Inv num maxPrestreamRetries isChat (s.caught maxPrestreamRetries retriable message) := by
  unfold RemoteStream.caught
  split
  · exact hs.logged retriable _ rfl
  · rename_i hretry
    simp only [Bool.or_eq_true, Bool.not_eq_true', decide_eq_true_eq, not_or, Bool.not_eq_true,
      Bool.not_eq_false, not_le] at hretry
    obtain ⟨⟨hnone, hretriable⟩, hbudget⟩ := hretry
    have hclean : ∀ e ∈ s.log ++ [RemoteEvent.failed retriable], e.final = false := by
      intro e he
      rcases List.mem_append.mp he with he | he
      · exact hs.clean hgoing hnone e he
      · rw [List.mem_singleton.mp he, RemoteEvent.final, hretriable]
        rfl
    -- the failure is logged first: where the generator stands plays no part in the next attempt
    have hlogged := hs.logged retriable (.returned : Place F) rfl
    have hpost : Inv num maxPrestreamRetries isChat
        { s with attempts := s.attempts + 1, place := .returned, log := s.log ++ [.failed retriable] } :=
      { hlogged with
        attempts := Nat.le_succ_of_le hs.attempts
        budget := hbudget
        clean := fun h => by cases h
        created := fun h => by cases h
        posting := fun h => by cases h
        rest := fun v rest h => by cases h }
    exact hpost.post hnone hclean hs.attempts

theorem Inv.fault (hs : Inv num maxPrestreamRetries isChat s) (hgoing : s.place.going = true)
    (fault : UpstreamFault) :
    Inv num maxPrestreamRetries isChat (s.fault maxPrestreamRetries fault) := by
  cases fault with
  | transport message => exact hs.caught hgoing true message
  | other message => exact hs.raise message

theorem Inv.moved (hs : Inv num maxPrestreamRetries isChat s) (place : Place F)
    (hcreated : place ≠ .created ∧ place ≠ .posting) (hyielded : ∀ v rest, place ≠ .yielded v rest)
    (hgoing : place.going = true → s.place.going = true) :
    Inv num maxPrestreamRetries isChat { s with place := place } :=
  { hs with
    clean := fun h => hs.clean (hgoing h)
    created := fun h => absurd h hcreated.1
    posting := fun h => absurd h hcreated.2
    rest := fun v rest h => absurd h (hyielded v rest) }

/-- A line is parsed: at most one token is yielded, and it is that of the line. -/
theorem Inv.receive (hs : Inv num maxPrestreamRetries isChat s) (hreading : s.place = .reading)
    (line : List Char) : Inv num maxPrestreamRetries isChat (s.receive num isChat line) := by
  have hgoing : s.place.going = true := by rw [hreading]; rfl
  have hparse := parseSseLine_eq num isChat line s.outcome
  have hcount : ((lineWrites num line).apply s.outcome).upstreamAttempts =
      s.outcome.upstreamAttempts := rfl
  have hlines : ∀ texts, lineTexts num isChat line = texts →
      (s.lines ++ [line]).flatMap (lineTexts num isChat) =
        s.log.filterMap (·.token?) ++ texts := by
    intro texts htexts
    rw [List.flatMap_append, hs.tokens, List.flatMap_singleton, htexts]
  -- the outcome and the lines of a line without a token
  have hquiet : lineTexts num isChat line = [] → Inv num maxPrestreamRetries isChat
      { s with outcome := (lineWrites num line).apply s.outcome, lines := s.lines ++ [line] } := by
    intro htexts
    refine { hs with tokens := ?_, posting := fun h => ?_ }
    · rw [hlines [] htexts, List.append_nil]
    · rw [show s.place = .posting from h] at hreading
      cases hreading
  unfold RemoteStream.receive
  rw [hparse]
  dsimp only
  rcases parseSseLine_cases num isChat line {} with ⟨e, hresult⟩ | hresult | hresult | ⟨v, hresult⟩
  · rw [hresult]
    exact (hquiet (by simp [lineTexts, hresult])).raise e
  · rw [hresult]
    exact (hquiet (by simp [lineTexts, hresult])).moved .returned (by simp) (by simp)
      (by simp [Place.going])
  · rw [hresult]
    exact (hquiet (by simp [lineTexts, hresult])).moved .reading (by simp) (by simp) fun _ => hgoing
  · rw [hresult]
    constructor
    case tokens =>
      show (s.log ++ [RemoteEvent.yielded _ v]).filterMap (·.token?) = _
      rw [List.filterMap_append]
      exact (hlines [v] (by simp [lineTexts, hresult])).symm
    case single =>
      intro a v' hmem
      rcases List.mem_append.mp hmem with hmem | hmem
      · exact hs.single a v' hmem
      · cases List.mem_singleton.mp hmem
        rfl
    case finality =>
      show (s.log ++ [RemoteEvent.yielded _ v]).Pairwise _
      rw [List.pairwise_append]
      refine ⟨hs.finality, List.pairwise_singleton .., fun e _ e' he' _ => ?_⟩
      rw [List.mem_singleton.mp he']
      rfl
    case posts =>
      show (s.log ++ [RemoteEvent.yielded _ v]).countP _ = _
      rw [List.countP_append, hs.posts]
      rfl
    case attempts => exact hs.attempts
    case budget => exact hs.budget
    case clean => exact fun _ h => by cases h
    case created => exact fun h => by cases h
    case posting => exact fun h => by cases h
    case rest =>
      intro v' rest h
      cases h
      rfl

theorem Inv.closeTokens (hs : Inv num maxPrestreamRetries isChat s) :
    Inv num maxPrestreamRetries isChat s.closeTokens := by
  unfold RemoteStream.closeTokens
  split
  · exact hs.moved (.raised "") (by simp) (by simp) (by simp [Place.going])
  · exact hs.moved (.raised "") (by simp) (by simp) (by simp [Place.going])
  · exact hs

theorem step_inv (hs : Inv num maxPrestreamRetries isChat s)
    (hst : step num maxPrestreamRetries isChat s l = some s') :
    Inv num maxPrestreamRetries isChat s' := by
  cases moves_of_step hst with
  | drained hidle hexhausted => exact SameGenerator.inv (s := s) ⟨rfl, rfl, rfl, rfl, rfl, rfl⟩ hs
  | start hplace hexhausted =>
    obtain ⟨hzero, hnone⟩ := hs.created hplace
    have hclean := hs.clean (by rw [hplace]; rfl) hnone
    exact (settle_same _).inv (hs.post hnone hclean (by omega))
  | @resume v rest hplace hexhausted =>
    have hrest := hs.rest v rest hplace
    subst hrest
    refine (settle_same _).inv (hs.moved .reading (by simp) (by simp) fun _ => ?_)
    rw [hplace]
    rfl
  | again hended hexhausted => exact (conclude_same ..).inv hs
  | closed hidle hclosed => exact hs
  | @close hidle hclosed t hresult =>
    have hsame : SameGenerator s { s with closed := true } := ⟨rfl, rfl, rfl, rfl, rfl, rfl⟩
    have ht := (buildResult_same hresult).inv (hsame.inv hs).closeTokens
    exact SameGenerator.inv (s := t) ⟨rfl, rfl, rfl, rfl, rfl, rfl⟩ ht
  | closeRaises hidle hclosed hresult =>
    have hsame : SameGenerator s { s with closed := true } := ⟨rfl, rfl, rfl, rfl, rfl, rfl⟩
    exact SameGenerator.inv (s := { s with closed := true }.closeTokens)
      ⟨rfl, rfl, rfl, rfl, rfl, rfl⟩ (hsame.inv hs).closeTokens
  | refused fault hplace | unreadable fault hplace | broke fault hplace =>
    exact (settle_same _).inv (hs.fault (by rw [hplace]; rfl) fault)
  | opened read hplace =>
    refine (settle_same _).inv (hs.moved .reading (by simp) (by simp) fun _ => ?_)
    rw [hplace]
    rfl
  | rejected hplace => exact (settle_same _).inv (hs.caught (by rw [hplace]; rfl) _ _)
  | line line hplace => exact (settle_same _).inv (hs.receive hplace line)
  | ended hplace =>
    exact (settle_same _).inv (hs.moved .returned (by simp) (by simp) (by simp [Place.going]))

theorem init_inv : Inv num maxPrestreamRetries isChat ({} : RemoteStream F) where
  tokens := rfl
  single := by simp
  finality := List.Pairwise.nil
  posts := rfl
  attempts := Nat.zero_le _
  budget := Nat.zero_le _
  clean := by simp
  created := fun _ => ⟨rfl, rfl⟩
  posting := fun h => by cases h
  rest := fun _ _ h => by cases h

/-- Whatever the upstream does in each attempt, and however many tokens the consumer asks for: all
tokens are those of the lines of one attempt, the last; there is no other attempt after a token or
after a failure that is not retriable; and there are at most `1 + max_prestream_retries` of them,
which `upstream_attempts` counts. -/
theorem from_one_attempt (num : Numbers F) (maxPrestreamRetries : Nat) (isChat : Bool)
    (ls : List RemoteLabel) :
    Always (step num maxPrestreamRetries isChat)
      (FromOneAttempt num maxPrestreamRetries isChat) {} ls :=
  Guarded.always (I := Inv num maxPrestreamRetries isChat) (fun _ _ _ hs _ hst => step_inv hs hst)
    (fun _ hs => hs.fromOneAttempt) init_inv (Guarded.of_forall (fun _ _ => trivial) _ _)

end RemoteStream
end InferenceEngine
